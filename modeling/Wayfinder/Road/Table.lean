import Wayfinder.Road.Store
import Wayfinder.Decimal.Read

/-!
# Road tables

Road data is exchanged as a comma-separated table whose first row names the columns `region`,
`feature`, `class`, `oneway`, `min_scale`, `maxspeed_kmh` and `points`, in any order; other columns
are ignored. A row ends at a carriage return or a line feed, empty lines are skipped, and a field
may be quoted with `"` (a quote inside written twice). Every row must have as many fields as the
one before it.

A byte order mark at the very start is skipped (its bytes still count in offsets). Rows are read in
order and the first fault stops the reading; a column named twice in the header is refused when a
row reaches its second occurrence. A fault in the table itself or in a
field is reported with the row's number (the header is row 0), the line and the byte offset just
after the character that ended the row before it (so a carriage return ending that row is counted
but the line feed after it is not, and empty lines in between are not), and the failing column's
index. The points field is a `;`-separated list of
`lat lon` pairs, blank pieces skipped.
-/

namespace Wayfinder

/-- A row of a table with the line and the byte offset at which the reading of it began. -/
structure TableRow where
  fields : List String
  line : Nat
  byte : Nat

/-- The state of splitting a table into rows. -/
structure Splitter where
  rows : Array TableRow
  fields : Array String
  field : List Char
  /-- Inside a row, a quoted field, or just after a quote inside one. -/
  inRow : Bool
  quoted : Bool
  afterQuote : Bool
  /-- Bytes and line feeds read so far, and where the reading of the current row began. -/
  byte : Nat
  lines : Nat
  rowLine : Nat
  rowByte : Nat

namespace Splitter

/-- The current field, closed. -/
def closeField (s : Splitter) : Splitter :=
  { s with fields := s.fields.push (String.ofList s.field.reverse), field := [],
           quoted := false, afterQuote := false }

/-- The current row, closed after the current field; the next row starts after `c`. -/
def closeRow (s : Splitter) : Splitter :=
  let s := s.closeField
  { s with rows := s.rows.push ⟨s.fields.toList, s.rowLine, s.rowByte⟩, fields := #[],
           inRow := false }

/-- Reads one character. -/
def step (s : Splitter) (c : Char) : Splitter :=
  let size := c.utf8Size
  let s := if c = '\n' then { s with lines := s.lines + 1 } else s
  let atEnd := c = '\n' || c = '\r'
  let s' :=
    if !s.inRow then
      if atEnd then s
      else if c = '"' then { s with inRow := true, quoted := true }
      else if c = ',' then ({ s with inRow := true }).closeField
      else { s with inRow := true, field := [c] }
    else if s.quoted && !s.afterQuote then
      if c = '"' then { s with afterQuote := true } else { s with field := c :: s.field }
    else if s.quoted && s.afterQuote && c = '"' then
      { s with afterQuote := false, field := '"' :: s.field }
    else if c = ',' then s.closeField
    else if atEnd then s.closeRow
    else if s.field.isEmpty && c = '"' && !s.quoted then
      { s with quoted := true }
    else { s with field := c :: s.field, quoted := false, afterQuote := false }
  let byte := s.byte + size
  -- The next row is placed where the character that ended this one stops, before any empty
  -- lines are skipped.
  if s.inRow && !s'.inRow then { s' with byte := byte, rowByte := byte, rowLine := s'.lines + 1 }
  else { s' with byte := byte }

/-- The rows read so far, the last one closed if it is open. -/
def finish (s : Splitter) : List TableRow :=
  (if s.inRow then s.closeRow else s).rows.toList

end Splitter

/-- The rows of a table. -/
def tableRows (text : String) : List TableRow :=
  match text.toList with
  | '\uFEFF' :: rest => (rest.foldl Splitter.step ⟨#[], #[], [], false, false, false, 3, 0, 1, 3⟩).finish
  | cs => (cs.foldl Splitter.step ⟨#[], #[], [], false, false, false, 0, 0, 1, 0⟩).finish

/-- Where a row stands, as faults report it. -/
def TableRow.place (r : TableRow) (index : Nat) : String :=
  "record " ++ toString index ++ " (line: " ++ toString r.line ++ ", byte: " ++ toString r.byte ++
    ")"

/-- A parsed row before its class and points are checked. -/
structure RawRow where
  region : Option Nat := none
  feature : Option Nat := none
  roadClass : Option String := none
  oneway : Option Bool := none
  minScale : Option Nat := none
  /-- `some none` when the column is present but empty. -/
  maxSpeed : Option (Option Float) := none
  points : Option String := none

/-- Whether the row already holds a value for the column; other columns never do. -/
def RawRow.has (raw : RawRow) : String → Bool
  | "region" => raw.region.isSome
  | "feature" => raw.feature.isSome
  | "class" => raw.roadClass.isSome
  | "oneway" => raw.oneway.isSome
  | "min_scale" => raw.minScale.isSome
  | "maxspeed_kmh" => raw.maxSpeed.isSome
  | "points" => raw.points.isSome
  | _ => false

/-- Reads one field into a row, or says what is wrong with it. -/
def RawRow.read (raw : RawRow) (column value : String) : Except String RawRow :=
  let unsigned (limit : Nat) : Except String Nat :=
    (Decimal.readField limit value).mapError Decimal.IntSyntaxError.message
  match column with
  | "region" => return { raw with region := some (← unsigned (Nat.pow 2 32)) }
  | "feature" => return { raw with feature := some (← unsigned (Nat.pow 2 32)) }
  | "class" => return { raw with roadClass := some value }
  | "oneway" =>
    if value = "true" then return { raw with oneway := some true }
    else if value = "false" then return { raw with oneway := some false }
    else throw "provided string was not `true` or `false`"
  | "min_scale" => return { raw with minScale := some (← unsigned 256) }
  | "maxspeed_kmh" =>
    if value.isEmpty then return { raw with maxSpeed := some none }
    else return { raw with
      maxSpeed := some (some (← (Decimal.readFloat value).mapError
        Decimal.FloatSyntaxError.message)) }
  | "points" => return { raw with points := some value }
  | _ => return raw

/-- The runs of non-blank characters of `cs`, in order. -/
def blankSeparated (cs : List Char) : List String :=
  ((cs.splitOnP Text.isBlank).filter (!·.isEmpty)).map String.ofList

/-- Reads one `lat lon` pair. -/
def readPair (piece : String) : Except String Point :=
  match blankSeparated piece.toList with
  | [lat, lon] => do
    let a ← (Decimal.readFloat lat).mapError fun e =>
      "invalid latitude " ++ Text.quoted lat ++ ": " ++ e.message
    let b ← (Decimal.readFloat lon).mapError fun e =>
      "invalid longitude " ++ Text.quoted lon ++ ": " ++ e.message
    return ⟨a, b⟩
  | _ => throw ("invalid point " ++ Text.quoted piece ++ ": expected \"lat lon\"")

/-- Reads a points field: `;`-separated pairs, blank pieces skipped. -/
def readPoints (s : String) : Except String (List Point) :=
  ((s.toList.splitOn ';').map (Text.trimBlank ∘ String.ofList) |>.filter (!·.isEmpty)).mapM
    readPair

/-- Reads the data rows of a table with the given header, from row `index` on, into `store`. -/
def readRows (header : List String) (store : StoreBuilder) (index : Nat) :
    List TableRow → Except RoadError StoreBuilder
  | [] => .ok store
  | row :: rest => do
    let place := row.place index
    if row.fields.length ≠ header.length then
      throw (.parse ("CSV error: " ++ place ++ ": found record with " ++
        toString row.fields.length ++ " fields, but the previous record has " ++
        toString header.length ++ " fields"))
    let columns := (List.range header.length).zip (header.zip row.fields)
    let fault (m : String) : RoadError := .parse ("CSV deserialize error: " ++ place ++ ": " ++ m)
    let readColumn (raw : RawRow) (col : Nat × String × String) : Except RoadError RawRow :=
      if raw.has col.2.1 then throw (fault ("duplicate field `" ++ col.2.1 ++ "`"))
      else (raw.read col.2.1 col.2.2).mapError fun m =>
        fault ("field " ++ toString col.1 ++ ": " ++ m)
    let raw ← List.foldlM readColumn {} columns
    let missing (name : String) : RoadError := fault ("missing field `" ++ name ++ "`")
    let some region := raw.region | throw (missing "region")
    let some fid := raw.feature | throw (missing "feature")
    let some cls := raw.roadClass | throw (missing "class")
    let some oneway := raw.oneway | throw (missing "oneway")
    let some minScale := raw.minScale | throw (missing "min_scale")
    let some pts := raw.points | throw (missing "points")
    let roadClass ← (RoadClass.parse cls).mapError RoadError.unknownClass
    let points ← (readPoints pts).mapError fun e =>
      .parse ("record " ++ toString index ++ ": " ++ e)
    let f : Feature := ⟨fid, roadClass, oneway, minScale, raw.maxSpeed.join, points.toArray⟩
    readRows header (store.addFeature region f) (index + 1) rest

/-- The store described by a road table. -/
def Store.ofTable (text : String) : Except RoadError Store :=
  match tableRows text with
  | [] => .ok Store.empty
  | header :: rows => StoreBuilder.build <$> readRows header.fields StoreBuilder.empty 1 rows

end Wayfinder

namespace Wayfinder

/-- The store described by the contents of a road table file, `none` when the file does not
exist. -/
def Store.ofFile (contents : Option String) : Except RoadError Store :=
  match contents with
  | some text => Store.ofTable text
  | none => .error (.io "No such file or directory (os error 2)")

end Wayfinder
