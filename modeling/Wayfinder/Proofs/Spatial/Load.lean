import Mathlib.Data.List.Perm.Basic
import Wayfinder.Spatial.Query
import Wayfinder.Proofs.Index.Arcs

/-!
# Loading a box tree only arranges its items

Every move of `selectNth` exchanges entries or shifts them along a free slot: a swap, the insertion
that carries an entry left past greater ones, and the split pass, which holds one entry out and
keeps a free slot behind the entry it takes (`Splitting`: with the held entry written back into
the slot, the array has the entries it started with). The pivot is always an index inside the range
(`choosePivot_lt`), so every move stays inside the array and selection permutes its entries
(`selectNth_perm`). Slabs and clusters cut an array into pieces whose entries together are the
array's, so a loaded tree holds exactly the items given (`load_perm`), and a box search returns some
of them, each as often as the tree holds it (`within_sublist`).
-/

namespace Wayfinder

namespace Select

variable {α : Type} [Inhabited α] (less : α → α → Bool)

section Moves

variable {xs : Array α}

theorem getElem!_set! {i j : Nat} (hj : j < xs.size) (a : α) :
    (xs.set! i a)[j]! = if i = j then a else xs[j]! := by
  simp [getElem!_pos, hj, Array.getElem_setIfInBounds]

omit [Inhabited α] in
theorem set!_set! (i : Nat) (a b : α) : (xs.set! i a).set! i b = xs.set! i b := by
  simp [Array.set!_eq_setIfInBounds, Array.setIfInBounds_setIfInBounds]

theorem set!_getElem! (i : Nat) : xs.set! i xs[i]! = xs := by
  apply Array.ext
  · simp
  · intro k _ hk
    simp only [Array.set!_eq_setIfInBounds, Array.getElem_setIfInBounds hk]
    split
    · subst_vars
      exact getElem!_pos xs _ hk
    · rfl

@[simp] theorem size_swapAt (i j : Nat) : (swapAt xs i j).size = xs.size := by
  simp [swapAt]

theorem swapAt_eq_swap {i j : Nat} (hi : i < xs.size) (hj : j < xs.size) :
    swapAt xs i j = xs.swap i j hi hj := by
  apply Array.ext
  · simp
  · intro k hk _
    simp only [swapAt, Array.set!_eq_setIfInBounds, Array.getElem_swap,
      getElem!_pos xs i hi, getElem!_pos xs j hj]
    grind

theorem swapAt_perm {i j : Nat} (hi : i < xs.size) (hj : j < xs.size) : (swapAt xs i j).Perm xs := by
  rw [swapAt_eq_swap hi hj]
  exact Array.swap_perm hi hj

/-- Filling the slot `u` from `v` and writing `e` into `v` gives the entries of the array with
`e` written into `u`. -/
theorem shift_perm {u v : Nat} (hu : u < xs.size) (hv : v < xs.size) (e : α) :
    ((xs.set! u xs[v]!).set! v e).Perm (xs.set! u e) := by
  by_cases huv : u = v
  · subst huv
    rw [set!_set!]
  · have hswap : (xs.set! u xs[v]!).set! v e = swapAt (xs.set! u e) u v := by
      rw [swapAt, getElem!_set! hv, if_neg huv, getElem!_set! hu, if_pos rfl, set!_set!]
    rw [hswap]
    exact swapAt_perm (by simpa using hu) (by simpa using hv)

end Moves

section Indices

variable (xs : Array α)

theorem maxIndex_lt {xs : Array α} (h : 0 < xs.size) : maxIndex less xs < xs.size :=
  foldl_invariant (· < xs.size) h fun acc t ht hacc => by
    rw [List.mem_range] at ht
    split <;> assumption

theorem minIndex_lt {xs : Array α} (h : 0 < xs.size) : minIndex less xs < xs.size :=
  foldl_invariant (· < xs.size) h fun acc t ht hacc => by
    rw [List.mem_range] at ht
    split <;> assumption

theorem median3_mem (a b c : Nat) :
    median3 less xs a b c = a ∨ median3 less xs a b c = b ∨ median3 less xs a b c = c := by
  simp only [median3]
  split_ifs <;> simp

/-- The median of medians lies in the window of `n` entries (of one entry, for `n = 0`) from one of
its three starts. -/
theorem median3Rec_window (a b c n : Nat) :
    ∃ base, (base = a ∨ base = b ∨ base = c) ∧ base ≤ median3Rec less xs a b c n ∧
      median3Rec less xs a b c n < base + max n 1 := by
  fun_induction median3Rec less xs a b c n with
  | case1 a b c n h n8 ih₁ ih₂ ih₃ =>
    -- each sub-median stays inside the window of its own start, of `n8 * 8 ≤ n` entries
    have hn8 : max n8 1 = n8 ∧ max n 1 = n ∧ n8 * 8 ≤ n := by omega
    have hwin : ∀ s r, (∃ base, (base = s ∨ base = s + n8 * 4 ∨ base = s + n8 * 7) ∧ base ≤ r ∧
        r < base + max n8 1) → s ≤ r ∧ r < s + max n 1 := by
      rintro s r ⟨base, hbase, hle, hlt⟩
      rw [hn8.1] at hlt
      rw [hn8.2.1]
      omega
    obtain ⟨hle₁, hlt₁⟩ := hwin a _ ih₁
    obtain ⟨hle₂, hlt₂⟩ := hwin b _ ih₂
    obtain ⟨hle₃, hlt₃⟩ := hwin c _ ih₃
    rcases median3_mem less xs _ _ _ with h | h | h <;> rw [h]
    · exact ⟨a, .inl rfl, hle₁, hlt₁⟩
    · exact ⟨b, .inr (.inl rfl), hle₂, hlt₂⟩
    · exact ⟨c, .inr (.inr rfl), hle₃, hlt₃⟩
  | case2 a b c n h =>
    exact ⟨_, median3_mem less xs a b c, Nat.le_refl _, by omega⟩

theorem choosePivot_lt (lo hi : Nat) (h : lo + 8 ≤ hi) : choosePivot less xs lo hi < hi := by
  unfold choosePivot
  dsimp only
  split
  · rcases median3_mem less xs lo (lo + (hi - lo) / 8 * 4) (lo + (hi - lo) / 8 * 7)
      with h | h | h <;> rw [h] <;> omega
  · obtain ⟨base, hbase, -, hlt⟩ := median3Rec_window less xs lo (lo + (hi - lo) / 8 * 4)
      (lo + (hi - lo) / 8 * 7) ((hi - lo) / 8)
    omega

end Indices

section Insertion

theorem insertLeft_perm (lo : Nat) (e : α) {xs : Array α} {j : Nat} (hj : j < xs.size) :
    (insertLeft less lo e xs j).Perm (xs.set! j e) := by
  fun_induction insertLeft less lo e xs j with
  | case1 xs j hlt p hless ih =>
    exact (ih (by simp; omega)).trans (shift_perm hj (by omega) e)
  | case2 xs j hlt p hless => exact Array.Perm.refl _
  | case3 xs j hlt => exact Array.Perm.refl _

theorem insertionSort_perm {xs : Array α} {lo hi : Nat} (hhi : hi ≤ xs.size) :
    (insertionSort less xs lo hi).Perm xs :=
  foldl_invariant (fun ys : Array α => ys.Perm xs) (Array.Perm.refl xs) fun ys i hi' hys => by
    rw [List.mem_range'_1] at hi'
    have hstep := insertLeft_perm less lo ys[i]! (j := i) (by rw [hys.size_eq]; omega)
    rw [set!_getElem!] at hstep
    exact hstep.trans hys

end Insertion

section Splitting

/-- The state of the split pass before it takes the entry at `next`: with the held-out entry `first`
written back into the free slot, the array has the entries of `xs`; the front part ends at or
before the free slot, which lies before `next`. -/
structure Splitting (xs : Array α) (front : Nat) (first : α) (next : Nat)
    (st : Array α × Nat × Nat) : Prop where
  perm : (st.1.set! st.2.1 first).Perm xs
  front_le : front + st.2.2 ≤ st.2.1
  gap_lt : st.2.1 < next

variable {xs : Array α} {front : Nat} {first : α}

omit [Inhabited α] in
theorem Splitting.size_eq {next : Nat} {st : Array α × Nat × Nat}
    (h : Splitting xs front first next st) : st.1.size = xs.size := by
  rw [← h.perm.size_eq, Array.size_set!]

omit [Inhabited α] in
theorem Splitting.bounds {next gap count : Nat} {ys : Array α}
    (h : Splitting xs front first next (ys, gap, count)) :
    ys.size = xs.size ∧ front + count ≤ gap ∧ gap < next :=
  ⟨h.size_eq, h.front_le, h.gap_lt⟩

theorem Splitting.step (pivot : α) {next : Nat} {st : Array α × Nat × Nat}
    (h : Splitting xs front first next st) (hnext : next < xs.size) :
    Splitting xs front first (next + 1) (splitStep less pivot front st st.1[next]! next) := by
  obtain ⟨ys, gap, count⟩ := st
  obtain ⟨hsize, hfront, hgap⟩ := h.bounds
  -- the entry taken moves to the front part, whose old entry fills the free slot
  have hr : ys[next]! = (ys.set! gap ys[front + count]!)[next]! := by
    rw [getElem!_set! (by omega), if_neg (by omega)]
  refine ⟨?_, ?_, ?_⟩
  · simp only [Wayfinder.Select.splitStep]
    rw [hr]
    refine (shift_perm (by simp; omega) (by simp; omega) first).trans ?_
    exact (shift_perm (by omega) (by omega) first).trans h.perm
  · simp only [Wayfinder.Select.splitStep]
    split <;> omega
  · simp only [Wayfinder.Select.splitStep]
    omega

theorem Splitting.foldl (pivot : α) :
    ∀ (n next : Nat) (st : Array α × Nat × Nat), next + n ≤ xs.size →
      Splitting xs front first next st →
      Splitting xs front first (next + n) ((List.range' next n).foldl
        (fun st r => Wayfinder.Select.splitStep less pivot front st st.1[r]! r) st)
  | 0, _, _, _, h => h
  | n + 1, next, st, hn, h => by
    rw [List.range'_succ, List.foldl_cons, show next + (n + 1) = next + 1 + n by omega]
    exact Splitting.foldl pivot n (next + 1) _ (by omega) (h.step less pivot (by omega))

/-- The last step puts the held-out entry back into the front part. -/
theorem Splitting.last (pivot : α) {next : Nat} {st : Array α × Nat × Nat}
    (h : Splitting xs front first next st) (hnext : next ≤ xs.size) :
    (splitStep less pivot front st first 0).1.Perm xs ∧
      (splitStep less pivot front st first 0).2.2 ≤ st.2.2 + 1 := by
  obtain ⟨ys, gap, count⟩ := st
  obtain ⟨hsize, hfront, hgap⟩ := h.bounds
  simp only [Wayfinder.Select.splitStep]
  refine ⟨(shift_perm (by omega) (by omega) first).trans h.perm, ?_⟩
  split <;> omega

theorem split_perm {xs : Array α} {lo hi p : Nat} (hlo : lo < hi) (hhi : hi ≤ xs.size)
    (hp : p < xs.size) :
    (split less xs lo hi p).1.Perm xs ∧ (split less xs lo hi p).2 < hi - lo := by
  have hswap := swapAt_perm (i := lo) (j := p) (by omega) hp
  unfold split
  dsimp only
  split
  · exact ⟨hswap, by omega⟩
  · -- the pass starts with the entry after the pivot held out of its own slot
    have hstart : Splitting (swapAt xs lo p) (lo + 1) (swapAt xs lo p)[lo + 1]! (lo + 2)
        (swapAt xs lo p, lo + 1, 0) := ⟨by rw [set!_getElem!], by simp, by simp⟩
    have hfold := hstart.foldl less (swapAt xs lo p)[lo]! (hi - (lo + 2)) (lo + 2) _
      (by simp; omega)
    rw [show lo + 2 + (hi - (lo + 2)) = hi by omega] at hfold
    obtain ⟨hperm, hcount⟩ := hfold.last less (swapAt xs lo p)[lo]! (by simp; omega)
    have hfront := hfold.front_le
    have hgap := hfold.gap_lt
    generalize splitStep less _ (lo + 1) _ _ 0 = last at hperm hcount
    obtain ⟨ys, _, count⟩ := last
    have hys : ys.size = xs.size := by rw [hperm.size_eq, size_swapAt]
    dsimp only at hcount ⊢
    exact ⟨(swapAt_perm (by omega) (by omega)).trans (hperm.trans hswap), by omega⟩

end Splitting

theorem narrow_perm (k : Nat) :
    ∀ (limit : Nat) (xs : Array α) (lo hi : Nat) (bound : Option α), hi ≤ xs.size →
      (narrow less xs lo hi k bound limit).Perm xs
  | 0, _, _, _, _, hhi => insertionSort_perm less hhi
  | limit + 1, xs, lo, hi, bound, hhi => by
    rw [narrow]
    split
    · exact insertionSort_perm less hhi
    · have hp := choosePivot_lt less xs lo hi (by omega)
      -- both splits keep the entries; each range narrowed to stays inside the array
      obtain ⟨hflip, -⟩ := split_perm (fun a b => !less b a) (show lo < hi by omega) hhi
        (Nat.lt_of_lt_of_le hp hhi)
      obtain ⟨hsplit, hcount⟩ := split_perm less (show lo < hi by omega) hhi
        (Nat.lt_of_lt_of_le hp hhi)
      have hflip_size := hflip.size_eq
      have hsplit_size := hsplit.size_eq
      dsimp only
      split_ifs
      · exact hflip
      · exact (narrow_perm k limit _ _ hi none (by omega)).trans hflip
      · exact (narrow_perm k limit _ _ hi _ (by omega)).trans hsplit
      · exact (narrow_perm k limit _ lo _ _ (by omega)).trans hsplit
      · exact hsplit

end Select

/-- Selection only reorders the entries. -/
theorem selectNth_perm {α : Type} [Inhabited α] (less : α → α → Bool) (xs : Array α) (k : Nat) :
    (selectNth less xs k).Perm xs := by
  unfold selectNth
  split
  · exact Array.Perm.refl xs
  · split
    · exact Select.swapAt_perm (Select.maxIndex_lt less (by omega)) (by omega)
    · split
      · exact Select.swapAt_perm (Select.minIndex_lt less (by omega)) (by omega)
      · exact Select.narrow_perm less k 16 xs 0 xs.size none (Nat.le_refl _)

namespace SpatialTree

section Items

variable {α : Type}

mutual

/-- The items under a member. -/
def itemsOf : SpatialNode α → List α
  | .leaf x => [x]
  | .group _ cs => itemsIn cs

/-- The items under a list of members, the members taken last first as `within` takes them. -/
def itemsIn : List (SpatialNode α) → List α
  | [] => []
  | c :: cs => itemsIn cs ++ itemsOf c

end

theorem itemsIn_eq (cs : List (SpatialNode α)) : itemsIn cs = cs.reverse.flatMap itemsOf := by
  induction cs with
  | nil => rfl
  | cons c cs ih => simp [itemsIn, ih]

theorem itemsIn_perm (cs : List (SpatialNode α)) : (itemsIn cs).Perm (cs.flatMap itemsOf) := by
  rw [itemsIn_eq]
  exact (List.reverse_perm cs).flatMap_right itemsOf

theorem itemsIn_map_leaf (xs : List α) : (itemsIn (xs.map .leaf)).Perm xs := by
  have h := itemsIn_perm (xs.map SpatialNode.leaf)
  rwa [List.flatMap_map, show (fun x => itemsOf (SpatialNode.leaf x)) = fun x => [x] from rfl,
    List.flatMap_singleton'] at h

variable [Bounded α]

mutual

theorem hitsOf_sublist (q : Box) : ∀ n : SpatialNode α, (hitsOf q n).Sublist (itemsOf n)
  | .leaf x => by
    rw [hitsOf, itemsOf]
    split
    · exact List.Sublist.refl _
    · exact List.nil_sublist _
  | .group b cs => by
    rw [hitsOf, itemsOf]
    split
    · exact hitsIn_sublist q cs
    · exact List.nil_sublist _

theorem hitsIn_sublist (q : Box) : ∀ cs : List (SpatialNode α), (hitsIn q cs).Sublist (itemsIn cs)
  | [] => List.Sublist.slnil
  | c :: cs => by
    rw [hitsIn, itemsIn]
    exact (hitsIn_sublist q cs).append (hitsOf_sublist q c)

end

/-- The items found in a box are items of the tree, each found once for each time it is held. -/
theorem within_sublist (t : SpatialTree α) (q : Box) : (t.within q).Sublist (itemsIn t.children) := by
  unfold within
  split
  · exact hitsIn_sublist q t.children
  · exact List.nil_sublist _

end Items

section Loading

variable {α : Type} [Inhabited α] [Bounded α]

theorem slabs_perm (axis size : Nat) :
    ∀ (fuel : Nat) (xs : Array α), ((slabs axis size fuel xs).flatMap Array.toList).Perm xs.toList
  | 0, xs => by simp [slabs]
  | fuel + 1, xs => by
    rw [slabs]
    split
    · next hempty => simp [Array.isEmpty_iff.1 hempty]
    · split
      · simp
      · -- a slab is cut from the front of the selection, the rest cut further
        have hys := selectNth_perm (fun a b => key axis a < key axis b) xs size
        generalize selectNth _ xs size = ys at hys
        rw [List.flatMap_cons]
        calc ((ys.extract 0 size).toList ++
              (slabs axis size fuel (ys.extract size ys.size)).flatMap Array.toList).Perm
              ((ys.extract 0 size).toList ++ (ys.extract size ys.size).toList) :=
              List.Perm.append_left _ (slabs_perm axis size fuel _)
          _ = ys.toList := by
              rw [← Array.toList_append, Array.extract_append_extract,
                show max size ys.size = ys.size by have := hys.size_eq; omega]
              simp
          List.Perm _ xs.toList := hys.toList

theorem clusters_perm (per : Nat) :
    ∀ (axis : Nat) (xs : Array α), ((clusters per axis xs).flatMap Array.toList).Perm xs.toList
  | 0, xs => by simp [clusters]
  | axis + 1, xs => by
    rw [clusters, List.flatMap_assoc]
    refine ((List.Perm.flatMap_left _ fun s _ => clusters_perm per axis s).trans ?_).trans
      (slabs_perm axis ((xs.size + per - 1) / per) xs.size xs)
    exact (List.reverse_perm _).flatMap_right _

theorem members_perm : ∀ (fuel : Nat) (xs : Array α), (itemsIn (members fuel xs)).Perm xs.toList
  | 0, xs => itemsIn_map_leaf xs.toList
  | fuel + 1, xs => by
    rw [members]
    split
    · exact itemsIn_map_leaf xs.toList
    · -- each cluster becomes a group holding the members of its items
      refine (itemsIn_perm _).trans ?_
      rw [List.flatMap_map]
      exact (List.Perm.flatMap_left _ fun c _ => members_perm fuel c).trans
        (clusters_perm _ 2 xs)

/-- Loading a tree only arranges the items given. -/
theorem load_perm (items : List α) : (itemsIn (load items).children).Perm items := by
  have h := members_perm items.length items.toArray
  rw [List.toList_toArray] at h
  exact h

end Loading

end SpatialTree

end Wayfinder
