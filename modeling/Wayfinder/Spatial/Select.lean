/-!
# Selecting the first `k` entries

`selectNth less xs k` reorders `xs` so that the entry at index `k` is the one a sort by `less`
would put there, the entries before it are not greater and those after it are not smaller. The
result is one particular such order, fixed by the moves made, because the trees built on top of
it keep the entries in that order:

* `k` the last index: the first greatest entry is swapped into the last place;
* `k = 0`: the first least entry is swapped into the first place;
* otherwise a range of at most 16 entries is sorted by insertion (stably), and a longer one is
  split around a pivot, the median of three samples (of three medians of three samples each from
  64 entries on, recursively), by a single pass that keeps the smaller entries in front. When the
  pivot is not greater than the last pivot below the range, the split puts the entries equal to
  it in front instead. The range shrinks to the side holding `k`; a range that shrinks to the
  right of a pivot has that pivot below it.

After sixteen splits a remaining range is sorted by insertion.
-/

namespace Wayfinder

namespace Select

variable {α : Type} [Inhabited α] (less : α → α → Bool)

/-- Exchanges the entries at `i` and `j`. -/
def swapAt (xs : Array α) (i j : Nat) : Array α :=
  let a := xs[i]!
  let b := xs[j]!
  (xs.set! i b).set! j a

/-- Index of the first greatest entry. -/
def maxIndex (xs : Array α) : Nat :=
  (List.range xs.size).foldl (fun acc t => if less xs[acc]! xs[t]! then t else acc) 0

/-- Index of the first least entry. -/
def minIndex (xs : Array α) : Nat :=
  (List.range xs.size).foldl (fun acc t => if less xs[t]! xs[acc]! then t else acc) 0

/-- Moves `e` left from the free slot `j` past the entries of the range from `lo` that are greater
than it. -/
def insertLeft (lo : Nat) (e : α) (xs : Array α) (j : Nat) : Array α :=
  if lo < j then
    let p := xs[j - 1]!
    if less e p then insertLeft lo e (xs.set! j p) (j - 1) else xs.set! j e
  else xs.set! j e
termination_by j
decreasing_by omega

/-- Sorts the range from `lo` to `hi` by insertion; equal entries keep their order. -/
def insertionSort (xs : Array α) (lo hi : Nat) : Array α :=
  (List.range' (lo + 1) (hi - (lo + 1))).foldl (fun xs i => insertLeft less lo xs[i]! xs i) xs

/-- Index of the median of the entries at `a`, `b` and `c`. -/
def median3 (xs : Array α) (a b c : Nat) : Nat :=
  let x := less xs[a]! xs[b]!
  let y := less xs[a]! xs[c]!
  if x == y then (if less xs[b]! xs[c]! != x then c else b) else a

/-- The median of three medians of samples `n / 8` apart inside each of `a`, `b` and `c`, while
`n` is at least 8. -/
def median3Rec (xs : Array α) (a b c n : Nat) : Nat :=
  if 8 ≤ n then
    let n8 := n / 8
    median3 less xs (median3Rec xs a (a + n8 * 4) (a + n8 * 7) n8)
      (median3Rec xs b (b + n8 * 4) (b + n8 * 7) n8) (median3Rec xs c (c + n8 * 4) (c + n8 * 7) n8)
  else median3 less xs a b c
termination_by n
decreasing_by all_goals omega

/-- The pivot of the range from `lo` to `hi`, of at least 8 entries. -/
def choosePivot (xs : Array α) (lo hi : Nat) : Nat :=
  let len := hi - lo
  let n8 := len / 8
  if len < 64 then median3 less xs lo (lo + n8 * 4) (lo + n8 * 7)
  else median3Rec less xs lo (lo + n8 * 4) (lo + n8 * 7) n8

/-- One step of the split pass: the entry `e` taken from position `r` goes to the front part
`front + count`, whose old entry fills the free slot `gap`; `r` becomes the free slot. -/
def splitStep (pivot : α) (front : Nat) (st : Array α × Nat × Nat) (e : α) (r : Nat) :
    Array α × Nat × Nat :=
  let (xs, gap, count) := st
  let left := front + count
  let xs := (xs.set! gap xs[left]!).set! left e
  (xs, r, count + (if less e pivot then 1 else 0))

/-- Splits the range from `lo` to `hi` around the entry at `p`: the pivot goes to `lo`, the
entries after it are passed over in order, the one that was first last, each moved to the
front when it is less than the pivot, and the pivot then goes between the two parts. Answers the
array and the number of entries less than the pivot. -/
def split (xs : Array α) (lo hi p : Nat) : Array α × Nat :=
  let xs := swapAt xs lo p
  let pivot := xs[lo]!
  if hi ≤ lo + 1 then (xs, 0)
  else
    let front := lo + 1
    let first := xs[front]!
    let st := (List.range' (lo + 2) (hi - (lo + 2))).foldl
      (fun st r => splitStep less pivot front st st.1[r]! r) (xs, front, 0)
    let (xs, _, count) := splitStep less pivot front st first 0
    (swapAt xs lo (lo + count), count)

/-- Narrows the range from `lo` to `hi` around index `k` by splits, at most `limit` of them; `bound`
is the last pivot below the range, when it has one. -/
def narrow (xs : Array α) (lo hi k : Nat) (bound : Option α) : Nat → Array α
  | 0 => insertionSort less xs lo hi
  | limit + 1 =>
    if hi - lo ≤ 16 then insertionSort less xs lo hi
    else
      let p := choosePivot less xs lo hi
      let atBound := match bound with
        | some b => !less b xs[p]!
        | none => false
      if atBound then
        let (xs, count) := split (fun a b => !less b a) xs lo hi p
        if lo + count + 1 > k then xs
        else narrow xs (lo + count + 1) hi k none limit
      else
        let (xs, count) := split less xs lo hi p
        let mid := lo + count
        if mid < k then narrow xs (mid + 1) hi k (some xs[mid]!) limit
        else if mid > k then narrow xs lo mid k bound limit
        else xs

end Select

/-- Reorders `xs` so that the entry at `k` is where a sort by `less` puts it, with no greater
entry before it and no smaller one after it. -/
def selectNth {α : Type} [Inhabited α] (less : α → α → Bool) (xs : Array α) (k : Nat) :
    Array α :=
  if xs.size ≤ k then xs
  else if k + 1 = xs.size then Select.swapAt xs (Select.maxIndex less xs) k
  else if k = 0 then Select.swapAt xs (Select.minIndex less xs) 0
  else Select.narrow less xs 0 xs.size k none 16

end Wayfinder
