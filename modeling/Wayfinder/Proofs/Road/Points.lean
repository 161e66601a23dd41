import Mathlib.Data.List.Forall2
import Mathlib.Data.List.TakeWhile
import Wayfinder.Road.Table

/-!
# Reading points fields

A points field is cut at every `;`. A piece made of blanks only is skipped; every other piece must
be a latitude and a longitude: two texts without blanks, blanks between them (any Unicode blank),
each a decimal number. `readPoints_eq_ok_iff` says the reader accepts exactly such fields and
returns their points in order; `readPoints_pointsField` that it reads back points written as their
shortest decimals (`pointsField`), whenever each coordinate alone reads back. The shortest text of a
double is a single token with no `;` in it (`shortestText_plain_token`), so cutting the written
field at `;` gives back the written points.

The tokens of a piece are its runs of non-blank characters (`words`): a blank cuts them
(`words_append_blank_cons`), blanks alone have none (`words_eq_nil_iff`), and a piece has exactly
the tokens `a` and `b` when it is `a` and `b` with blanks between and any blanks around
(`words_eq_pair_iff`). Trimming a piece keeps its tokens (`words_trimBlank`).
-/

namespace Wayfinder

open Text

/-! ## Tokens -/

/-- Every character of `cs` is blank. -/
def Blanks (cs : List Char) : Prop := ∀ c ∈ cs, isBlank c = true

/-- A token: a non-empty run of characters none of which is blank. -/
def Token (cs : List Char) : Prop := cs ≠ [] ∧ ∀ c ∈ cs, isBlank c = false

/-- `cs` holds exactly the tokens `a` and `b`: blanks, `a`, at least one blank, `b`, blanks. -/
def TwoTokens (cs a b : List Char) : Prop :=
  ∃ w₀ gap w₁, cs = w₀ ++ a ++ gap ++ b ++ w₁ ∧ Blanks w₀ ∧ Blanks gap ∧ gap ≠ [] ∧
    Blanks w₁ ∧ Token a ∧ Token b

/-- The runs of non-blank characters of `cs`, in order. -/
def words (cs : List Char) : List (List Char) := (cs.splitOnP isBlank).filter (!·.isEmpty)

@[simp] theorem blanks_cons {c : Char} {w : List Char} :
    Blanks (c :: w) ↔ isBlank c = true ∧ Blanks w := by
  simp [Blanks]

theorem blankSeparated_eq (cs : List Char) : blankSeparated cs = (words cs).map String.ofList :=
  rfl

@[simp] theorem words_nil : words [] = [] := by
  simp [words]

/-- A blank cuts the tokens: those before it and those after it. -/
theorem words_append_blank_cons (xs : List Char) {c : Char} (hc : isBlank c = true)
    (rest : List Char) : words (xs ++ c :: rest) = words xs ++ words rest := by
  simp [words, List.splitOnP_append_cons xs rest hc]

theorem words_blank_cons {c : Char} (hc : isBlank c = true) (rest : List Char) :
    words (c :: rest) = words rest := by
  simpa using words_append_blank_cons [] hc rest

theorem words_blanks_append {w : List Char} (hw : Blanks w) (rest : List Char) :
    words (w ++ rest) = words rest := by
  induction w with
  | nil => rfl
  | cons c w ih =>
    rw [List.cons_append, words_blank_cons (blanks_cons.1 hw).1, ih (blanks_cons.1 hw).2]

theorem words_of_blanks {w : List Char} (hw : Blanks w) : words w = [] := by
  simpa using words_blanks_append hw []

theorem words_append_blanks (xs : List Char) {w : List Char} (hw : Blanks w) :
    words (xs ++ w) = words xs := by
  cases w with
  | nil => simp
  | cons c w =>
    rw [words_append_blank_cons xs (blanks_cons.1 hw).1, words_of_blanks (blanks_cons.1 hw).2,
      List.append_nil]

/-- A token followed by nothing or by a blank is the first token. -/
theorem words_token_append {t : List Char} (ht : Token t) {rest : List Char}
    (hr : ∀ c ∈ rest.head?, isBlank c = true) : words (t ++ rest) = t :: words rest := by
  have hsingle : words t = [t] := by
    simp [words, List.splitOnP_eq_singleton ht.2, ht.1]
  cases rest with
  | nil => simpa using hsingle
  | cons c r =>
    rw [words_append_blank_cons t (hr c rfl), hsingle, words_blank_cons (hr c rfl)]
    rfl

/-- Unless `cs` is all blanks, it is blanks, a token, and nothing or a blank after it. -/
theorem exists_token {cs : List Char} (h : ¬ Blanks cs) :
    ∃ w t rest, cs = w ++ t ++ rest ∧ Blanks w ∧ Token t ∧ ∀ c ∈ rest.head?, isBlank c = true := by
  -- The blanks in front, then the longest run of non-blanks.
  let d := cs.dropWhile isBlank
  have hd : d ≠ [] := by
    intro hnil
    apply h
    intro c hc
    rw [← List.takeWhile_append_dropWhile (p := isBlank) (l := cs)] at hc
    rcases List.mem_append.1 hc with hc | hc
    · exact List.mem_takeWhile_imp hc
    · have hcd : c ∈ d := hc
      rw [hnil] at hcd
      cases hcd
  have hhead : isBlank (d.head hd) = false := List.head_dropWhile_not isBlank hd
  refine ⟨cs.takeWhile isBlank, d.takeWhile (!isBlank ·), d.dropWhile (!isBlank ·), ?_,
    fun c hc => List.mem_takeWhile_imp hc, ⟨?_, ?_⟩, ?_⟩
  · rw [List.append_assoc, List.takeWhile_append_dropWhile, List.takeWhile_append_dropWhile]
  · obtain ⟨c, r, hcr⟩ := List.exists_cons_of_ne_nil hd
    simp only [hcr, List.head_cons] at hhead
    simp [hcr, hhead]
  · intro c hc
    simpa using List.mem_takeWhile_imp hc
  · intro c hc
    have := List.head?_dropWhile_not (fun c => !isBlank c) d
    rw [Option.mem_def] at hc
    simp only [hc] at this
    simpa using this

theorem words_eq_nil_iff {cs : List Char} : words cs = [] ↔ Blanks cs := by
  constructor
  · intro h
    by_contra hb
    obtain ⟨w, t, rest, rfl, hw, ht, hr⟩ := exists_token hb
    rw [List.append_assoc, words_blanks_append hw, words_token_append ht hr] at h
    cases h
  · exact words_of_blanks

/-- The first token of `cs` stands after blanks and before nothing or a blank. -/
theorem words_eq_cons {cs t : List Char} {ts : List (List Char)} (h : words cs = t :: ts) :
    ∃ w rest, cs = w ++ t ++ rest ∧ Blanks w ∧ Token t ∧ (∀ c ∈ rest.head?, isBlank c = true) ∧
      words rest = ts := by
  have hcs : ¬ Blanks cs := fun hb => by simp [words_of_blanks hb] at h
  obtain ⟨w, t', rest, rfl, hw, ht', hr⟩ := exists_token hcs
  rw [List.append_assoc, words_blanks_append hw, words_token_append ht' hr, List.cons.injEq] at h
  obtain ⟨rfl, hrest⟩ := h
  exact ⟨w, rest, rfl, hw, ht', hr, hrest⟩

/-- A piece has exactly the tokens `a` and `b` when it is `a` and `b` with blanks between and any
blanks around. -/
theorem words_eq_pair_iff {cs a b : List Char} : words cs = [a, b] ↔ TwoTokens cs a b := by
  constructor
  · intro h
    obtain ⟨w₀, rest, rfl, hw₀, ha, hr, hrest⟩ := words_eq_cons h
    -- After the first token comes a blank, then the second token and blanks only.
    obtain ⟨c, r, rfl⟩ : ∃ c r, rest = c :: r := by
      cases rest with
      | nil => simp at hrest
      | cons c r => exact ⟨c, r, rfl⟩
    have hc : isBlank c = true := hr c rfl
    rw [words_blank_cons hc] at hrest
    obtain ⟨w, rest', rfl, hw, hb, -, hlast⟩ := words_eq_cons hrest
    exact ⟨w₀, c :: w, rest', by simp, hw₀, blanks_cons.2 ⟨hc, hw⟩, List.cons_ne_nil c w,
      words_eq_nil_iff.1 hlast, ha, hb⟩
  · rintro ⟨w₀, gap, w₁, rfl, hw₀, hgap, hne, hw₁, ha, hb⟩
    obtain ⟨c, g, rfl⟩ := List.exists_cons_of_ne_nil hne
    have hafter : ∀ d ∈ (w₁).head?, isBlank d = true := fun d hd =>
      hw₁ d (List.mem_of_mem_head? hd)
    simp only [List.append_assoc]
    rw [words_blanks_append hw₀, words_token_append ha (fun d hd => by
        simp only [List.cons_append, List.head?_cons, Option.mem_def, Option.some.injEq] at hd
        exact hd ▸ (blanks_cons.1 hgap).1),
      words_blanks_append hgap, words_token_append hb hafter, words_of_blanks hw₁]

/-! ## Pieces and pairs -/

/-- Trimming removes blanks only, from the two ends. -/
theorem exists_trimBlank (cs : List Char) :
    ∃ w₀ w₁, Blanks w₀ ∧ Blanks w₁ ∧ cs = w₀ ++ (trimBlank (String.ofList cs)).toList ++ w₁ := by
  refine ⟨cs.takeWhile isBlank, ((cs.dropWhile isBlank).reverse.takeWhile isBlank).reverse,
    fun c hc => List.mem_takeWhile_imp hc,
    fun c hc => List.mem_takeWhile_imp (List.mem_reverse.1 hc), ?_⟩
  simp only [trimBlank, String.toList_ofList]
  -- The front blanks, then what is left once the back blanks are cut off, then those.
  rw [List.append_assoc, ← List.reverse_append, List.takeWhile_append_dropWhile,
    List.reverse_reverse, List.takeWhile_append_dropWhile]

theorem words_trimBlank (cs : List Char) :
    words (trimBlank (String.ofList cs)).toList = words cs := by
  obtain ⟨w₀, w₁, h₀, h₁, hcs⟩ := exists_trimBlank cs
  conv_rhs => rw [hcs]
  rw [List.append_assoc, words_blanks_append h₀, words_append_blanks _ h₁]

/-- A piece is empty once trimmed exactly when it is all blanks. -/
theorem isEmpty_trimBlank (cs : List Char) :
    (trimBlank (String.ofList cs)).isEmpty = cs.all isBlank := by
  rw [Bool.eq_iff_iff, String.isEmpty_iff, List.all_eq_true]
  constructor
  · intro h c hc
    obtain ⟨w₀, w₁, h₀, h₁, hcs⟩ := exists_trimBlank cs
    rw [h, String.toList_empty, List.append_nil] at hcs
    rw [hcs, List.mem_append] at hc
    rcases hc with hc | hc
    · exact h₀ c hc
    · exact h₁ c hc
  · intro h
    simp [trimBlank, List.dropWhile_eq_nil_iff.2 h]

/-- A piece of a points field read as the point `p`: exactly two tokens, the texts of the latitude
and of the longitude, each read as that coordinate. -/
def PointText (piece : List Char) (p : Point) : Prop :=
  ∃ lat lon, TwoTokens piece lat lon ∧ Decimal.readFloat (String.ofList lat) = .ok p.lat ∧
    Decimal.readFloat (String.ofList lon) = .ok p.lon

theorem pointText_trimBlank (cs : List Char) (p : Point) :
    PointText (trimBlank (String.ofList cs)).toList p ↔ PointText cs p := by
  simp only [PointText, ← words_eq_pair_iff, words_trimBlank]

theorem readPair_eq_ok_iff (piece : String) (p : Point) :
    readPair piece = .ok p ↔ PointText piece.toList p := by
  unfold readPair
  split
  next lat lon h =>
    -- The piece has the two tokens `lat` and `lon`, so only their readings decide.
    have hw : words piece.toList = [lat.toList, lon.toList] := by
      simpa [blankSeparated_eq, List.map_map, Function.comp_def] using
        congrArg (List.map String.toList) h
    have htwo (a b : List Char) :
        TwoTokens piece.toList a b ↔ a = lat.toList ∧ b = lon.toList := by
      rw [← words_eq_pair_iff, hw]
      simp [eq_comm]
    simp only [PointText, htwo]
    cases p
    cases ha : Decimal.readFloat lat <;> cases hb : Decimal.readFloat lon <;>
      simp [ha, hb, Except.mapError, bind, Except.bind, pure, Except.pure]
  next hnot =>
    refine ⟨fun h => (by cases h), fun ⟨a, b, htwo, _⟩ => ?_⟩
    refine (hnot (String.ofList a) (String.ofList b) ?_).elim
    rw [blankSeparated_eq, words_eq_pair_iff.2 htwo]
    rfl

/-- A list is read without error exactly when each entry is, the values in order. -/
theorem mapM_eq_ok_iff {α β ε : Type} (f : α → Except ε β) (xs : List α) (ys : List β) :
    xs.mapM f = .ok ys ↔ List.Forall₂ (fun x y => f x = .ok y) xs ys := by
  induction xs generalizing ys with
  | nil => cases ys <;> simp [pure, Except.pure]
  | cons x xs ih =>
    rw [List.mapM_cons, List.forall₂_cons_left_iff]
    cases hx : f x with
    | error e => simp [bind, Except.bind]
    | ok y =>
      cases hr : xs.mapM f with
      | error e =>
        simp only [bind, Except.bind, reduceCtorEq, false_iff, not_exists, not_and]
        intro y' zs _ hzs _
        simp [(ih zs).2 hzs] at hr
      | ok zs =>
        simp only [bind, Except.bind, pure, Except.pure, Except.ok.injEq]
        constructor
        · rintro rfl
          exact ⟨y, zs, rfl, (ih zs).1 hr, rfl⟩
        · rintro ⟨y', zs', hy, hzs, rfl⟩
          cases hy
          have := (ih zs').2 hzs
          rw [hr] at this
          cases this
          rfl

/-- The points field reader accepts exactly the fields whose `;`-separated pieces, blank ones
skipped, each hold a latitude and a longitude as two blank-separated decimal numbers, and reads the
points in order. -/
theorem readPoints_eq_ok_iff (s : String) (ps : List Point) :
    readPoints s = .ok ps ↔
      List.Forall₂ PointText
        ((s.toList.splitOn ';').filter fun piece => !piece.all isBlank) ps := by
  unfold readPoints
  have hkeep : ((fun t : String => !t.isEmpty) ∘ (trimBlank ∘ String.ofList)) =
      fun piece => !piece.all isBlank :=
    funext fun cs => by simp [isEmpty_trimBlank]
  rw [mapM_eq_ok_iff, List.filter_map, hkeep, List.forall₂_map_left_iff]
  simp only [Function.comp_apply, readPair_eq_ok_iff, pointText_trimBlank]

/-! ## Writing points -/

/-- A character that may stand in a written number: a digit, the point, the minus sign, or a letter
of `NaN` and `inf`. -/
def NumberChar (c : Char) : Prop := c.isDigit = true ∨ c ∈ ['.', '-', 'N', 'a', 'i', 'n', 'f']

instance : DecidablePred NumberChar := fun _ => inferInstanceAs (Decidable (_ ∨ _))

/-- No character of a number is blank or the piece separator. -/
theorem NumberChar.not_blank {c : Char} (h : NumberChar c) : isBlank c = false ∧ c ≠ ';' := by
  rcases h with h | h
  · rw [Char.isDigit_iff_toNat] at h
    have h0 : '0'.toNat = 48 := rfl
    have h9 : '9'.toNat = 57 := rfl
    refine ⟨?_, ?_⟩
    · simp [isBlank, blankRanges]
      omega
    · rintro rfl
      simp at h
  · simp only [List.mem_cons, List.not_mem_nil, or_false] at h
    rcases h with rfl | rfl | rfl | rfl | rfl | rfl | rfl <;> decide

/-- The positional layout writes digits, padding zeros and the point only. -/
theorem mem_render_plain {d : Decimal.DecimalForm} {c : Char}
    (h : c ∈ (Decimal.Layout.plain.render d).toList) : NumberChar c := by
  have hdigit : ∀ c ∈ Nat.toDigits 10 d.digits, NumberChar c := fun c hc =>
    .inl (Nat.isDigit_of_mem_toDigits (by decide) (by decide) hc)
  have hzero : NumberChar '0' := .inl rfl
  have hdot : NumberChar '.' := .inr (by decide)
  simp only [Decimal.Layout.render, Decimal.Layout.plain] at h
  split_ifs at h <;> simp [Decimal.zeros] at h <;>
    grind [List.mem_of_mem_take, List.mem_of_mem_drop]

theorem render_plain_ne_nil (d : Decimal.DecimalForm) :
    (Decimal.Layout.plain.render d).toList ≠ [] := by
  simp only [Decimal.Layout.render, Decimal.Layout.plain]
  split_ifs <;> simp [Nat.toDigits_ne_nil]

theorem nonFiniteText_chars (u : Binary.Unpacked) :
    (Decimal.nonFiniteText u).toList ≠ [] ∧
      ∀ c ∈ (Decimal.nonFiniteText u).toList, NumberChar c := by
  -- Checked as a `Bool` over the list: once Batteries' instance deciding `∀ c : Char` over every
  -- character is in scope, `decide` on a bounded `∀` picks it and runs out of depth.
  have hall : ((Decimal.nonFiniteText u).toList.all fun c => decide (NumberChar c)) = true := by
    unfold Decimal.nonFiniteText
    split <;> decide
  refine ⟨?_, fun c hc => of_decide_eq_true (List.all_eq_true.1 hall c hc)⟩
  unfold Decimal.nonFiniteText
  split <;> decide

/-- The shortest text of a double is one token and holds no `;`. -/
theorem shortestText_plain_token (x : Float) :
    Token (x.shortestText .plain).toList ∧ ';' ∉ (x.shortestText .plain).toList := by
  have hchars : (x.shortestText .plain).toList ≠ [] ∧
      ∀ c ∈ (x.shortestText .plain).toList, NumberChar c := by
    unfold Float.shortestText
    split
    next neg m q b _ =>
      have hminus : NumberChar '-' := .inr (by decide)
      refine ⟨?_, ?_⟩
      · cases neg
        · simpa using render_plain_ne_nil _
        · simp
      · cases neg <;> simpa [hminus] using fun c => mem_render_plain
    next => exact nonFiniteText_chars _
  obtain ⟨hne, hnum⟩ := hchars
  exact ⟨⟨hne, fun c hc => (hnum c hc).not_blank.1⟩, fun h => (hnum _ h).not_blank.2 rfl⟩

/-- A point written as its latitude and longitude, shortest decimals, a space between. -/
def pointText (p : Point) : String :=
  p.lat.shortestText .plain ++ " " ++ p.lon.shortestText .plain

/-- Points written one after the other, `;` between. -/
def pointsField (ps : List Point) : String := ";".intercalate (ps.map pointText)

theorem pointText_toList (p : Point) :
    (pointText p).toList =
      (p.lat.shortestText .plain).toList ++ [' '] ++ (p.lon.shortestText .plain).toList := by
  simp [pointText]

theorem twoTokens_pointText (p : Point) :
    TwoTokens (pointText p).toList (p.lat.shortestText .plain).toList
      (p.lon.shortestText .plain).toList := by
  have hblank : Blanks [' '] := blanks_cons.2 ⟨by decide, nofun⟩
  exact ⟨[], [' '], [], by simp [pointText_toList], nofun, hblank, by simp, nofun,
    (shortestText_plain_token _).1, (shortestText_plain_token _).1⟩

/-- A written point reads back as itself when each coordinate does. -/
theorem pointText_reads (p : Point)
    (h : Decimal.readFloat (p.lat.shortestText .plain) = .ok p.lat ∧
      Decimal.readFloat (p.lon.shortestText .plain) = .ok p.lon) :
    PointText (pointText p).toList p :=
  ⟨_, _, twoTokens_pointText p, by simpa using h.1, by simpa using h.2⟩

theorem semicolon_not_mem_pointText (p : Point) : ';' ∉ (pointText p).toList := by
  simp only [pointText_toList, List.mem_append, List.mem_singleton, not_or]
  exact ⟨⟨(shortestText_plain_token _).2, by decide⟩, (shortestText_plain_token _).2⟩

theorem readPoints_pointsField (ps : List Point)
    (hround : ∀ p ∈ ps, Decimal.readFloat (p.lat.shortestText .plain) = .ok p.lat ∧
      Decimal.readFloat (p.lon.shortestText .plain) = .ok p.lon) :
    readPoints (pointsField ps) = .ok ps := by
  rw [readPoints_eq_ok_iff]
  cases ps with
  | nil => simp [pointsField]
  | cons q qs =>
    have hsplit : (pointsField (q :: qs)).toList.splitOn ';' =
        (q :: qs).map fun p => (pointText p).toList := by
      rw [pointsField, String.toList_intercalate, List.map_map]
      exact List.splitOn_intercalate ';' (by simp [semicolon_not_mem_pointText]) (by simp)
    -- No written point is blank, so every piece is kept and read as its point.
    have hkeep : ∀ piece ∈ (q :: qs).map (fun p => (pointText p).toList),
        (!piece.all isBlank) = true := by
      simp only [List.mem_map]
      rintro _ ⟨p, _, rfl⟩
      have hne : ¬ Blanks (pointText p).toList := fun hb => by
        have hnil := words_eq_nil_iff.2 hb
        rw [words_eq_pair_iff.2 (twoTokens_pointText p)] at hnil
        cases hnil
      simpa [Blanks] using hne
    rw [hsplit, List.filter_eq_self.2 hkeep, List.forall₂_map_left_iff, List.forall₂_same]
    exact fun p hp => pointText_reads p (hround p hp)

/-- The points field reader accepts exactly its grammar, and reads back the points it is given as
shortest decimals whenever each coordinate alone reads back. -/
theorem readPoints_exact_and_inverts_pointsField (s : String) (ps : List Point) :
    (readPoints s = .ok ps ↔
      List.Forall₂ PointText ((s.toList.splitOn ';').filter fun piece => !piece.all isBlank) ps) ∧
    ((∀ p ∈ ps, Decimal.readFloat (p.lat.shortestText .plain) = .ok p.lat ∧
        Decimal.readFloat (p.lon.shortestText .plain) = .ok p.lon) →
      readPoints (pointsField ps) = .ok ps) :=
  ⟨readPoints_eq_ok_iff s ps, readPoints_pointsField ps⟩

/-- Both signed zeros read back, so fields of such points do. -/
theorem readPoints_reads_back_signed_zeros :
    let ps : List Point := [⟨0.0, -0.0⟩, ⟨-0.0, 0.0⟩]
    (∀ p ∈ ps, Decimal.readFloat (p.lat.shortestText .plain) = .ok p.lat ∧
        Decimal.readFloat (p.lon.shortestText .plain) = .ok p.lon) ∧
      readPoints (pointsField ps) = .ok ps := by
  intro ps
  have hzero : Decimal.readFloat ((0.0 : Float).shortestText .plain) = .ok 0.0 := rfl
  have hneg : Decimal.readFloat ((-0.0 : Float).shortestText .plain) = .ok (-0.0) := rfl
  have hround : ∀ p ∈ ps, Decimal.readFloat (p.lat.shortestText .plain) = .ok p.lat ∧
      Decimal.readFloat (p.lon.shortestText .plain) = .ok p.lon := by
    simp only [ps, List.mem_cons, List.not_mem_nil, or_false]
    rintro p (rfl | rfl)
    · exact ⟨hzero, hneg⟩
    · exact ⟨hneg, hzero⟩
  exact ⟨hround, (readPoints_exact_and_inverts_pointsField "" ps).2 hround⟩

end Wayfinder
