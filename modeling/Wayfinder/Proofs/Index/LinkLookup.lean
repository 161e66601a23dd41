import Mathlib
import Wayfinder.Proofs.Index.Layout

/-!
# Looking links up in the compressed form

`Csr.ofLists` records where the links of each node begin. The starts begin at zero, never go back
and end at the number of links (`start_zero_ofLists`, `sortedLE_start_ofLists`,
`start_last_ofLists`). Every link index before the end lies in the range of exactly one node, and
`owner` names that node, also where empty lists make several ranges begin at the same index
(`owner_ofLists_eq_iff`). The links of a node are its list, in order
(`map_linkAt_linksOf_ofLists`). For every compressed form, `find` answers the cheapest link of a
node towards the node asked for, the first of equally cheap ones (`find_eq_some_iff`).

Both halves of an index are compressed forms, so what is said here of `owner` holds of the source
of an upward link and of the owner of a downward one alike.
-/

namespace Wayfinder

/-- In a list that strictly increases, positions compare as their entries do. -/
theorem idxOf_le_idxOf_of_sortedLT {l : List Nat} (hl : l.SortedLT) {a b : Nat} (ha : a ∈ l)
    (hb : b ∈ l) : l.idxOf a ≤ l.idxOf b ↔ a ≤ b := by
  have ha' : l.idxOf a < l.length := List.idxOf_lt_length_of_mem ha
  have hb' : l.idxOf b < l.length := List.idxOf_lt_length_of_mem hb
  conv_rhs => rw [← List.getElem_idxOf ha', ← List.getElem_idxOf hb']
  exact hl.getElem_le_getElem_iff.symm

/-- Where `f` starts at or below `i` and passes it by `m`, some step `n < m` of `f` crosses `i`. -/
theorem exists_step_across {f : Nat → Nat} {i : Nat} (h0 : f 0 ≤ i) :
    ∀ {m}, i < f m → ∃ n < m, f n ≤ i ∧ i < f (n + 1)
  | 0, hm => absurd h0 (Nat.not_le.2 hm)
  | m + 1, hm => by
    by_cases hlt : i < f m
    · obtain ⟨n, hn, hstep⟩ := exists_step_across h0 hlt
      exact ⟨n, Nat.lt_succ_of_lt hn, hstep⟩
    · exact ⟨m, Nat.lt_succ_self m, Nat.not_lt.1 hlt, hm⟩

namespace Csr

/-- Link `i` of node `n` leads to `h`, no link of `n` towards `h` costs less, and each one before
it costs more. -/
def Cheapest (c : Csr) (n h i : Nat) : Prop :=
  i ∈ c.linksOf n ∧ (c.linkAt i).other = h ∧
    (∀ j ∈ c.linksOf n, (c.linkAt j).other = h → (c.linkAt i).cost ≤ (c.linkAt j).cost) ∧
    ∀ j ∈ c.linksOf n, (c.linkAt j).other = h → j < i →
      (c.linkAt i).cost < (c.linkAt j).cost

instance (c : Csr) (n h i : Nat) : Decidable (c.Cheapest n h i) :=
  inferInstanceAs (Decidable (_ ∧ _ ∧ _ ∧ _))

/-- `find` keeps the first of the cheapest links of `n` towards `h`. -/
theorem find_eq_argmin (c : Csr) (n h : Nat) :
    c.find n h = ((c.linksOf n).filter fun i => (c.linkAt i).other = h).argmin
      fun i => (c.linkAt i).cost := by
  unfold find List.argmin
  rw [List.foldl_filter]
  congr 1
  funext best i
  simp only [linkAt]
  by_cases hi : c.head.getD i 0 = h
  · -- A link towards `h` replaces the kept one only when strictly cheaper, as in `argmin`.
    simp only [hi, ne_eq, not_true_eq_false, if_false, decide_true, if_true]
    cases best <;> rfl
  · simp only [hi, ne_eq, not_false_eq_true, if_true, decide_false, Bool.false_eq_true, if_false]

theorem sortedLT_linksOf (c : Csr) (n : Nat) : (c.linksOf n).SortedLT :=
  List.sortedLT_range' _ _ Nat.one_ne_zero

/-- `find` answers exactly the cheapest link of `n` towards `h`, the first of equally cheap ones. -/
theorem find_eq_some_iff {c : Csr} {n h i : Nat} : c.find n h = some i ↔ c.Cheapest n h i := by
  have hsorted : ((c.linksOf n).filter fun j => (c.linkAt j).other = h).SortedLT :=
    ((sortedLT_linksOf c n).pairwise.filter _).sortedLT
  rw [find_eq_argmin, List.argmin_eq_some_iff]
  simp only [List.mem_filter, decide_eq_true_eq, and_imp]
  constructor
  · rintro ⟨⟨hi, hh⟩, hmin, hfirst⟩
    refine ⟨hi, hh, hmin, fun j hj hjh hlt => Nat.lt_of_not_le fun hle => ?_⟩
    -- An earlier link as cheap would come first.
    have hidx := hfirst j hj hjh hle
    rw [idxOf_le_idxOf_of_sortedLT hsorted (by simp [hi, hh]) (by simp [hj, hjh])] at hidx
    omega
  · rintro ⟨hi, hh, hmin, hfirst⟩
    refine ⟨⟨hi, hh⟩, hmin, fun j hj hjh hle => ?_⟩
    rw [idxOf_le_idxOf_of_sortedLT hsorted (by simp [hi, hh]) (by simp [hj, hjh])]
    exact Nat.le_of_not_lt fun hlt => absurd (hfirst j hj hjh hlt) (Nat.not_lt.2 hle)

-- Links 1 and 2 both lead to node 5 at the lowest cost; the first of them is the answer.
example :
    (ofLists #[#[⟨5, 3, none, 0⟩, ⟨5, 2, none, 1⟩, ⟨5, 2, none, 2⟩]]).find 0 5 = some 1 ∧
      (ofLists #[#[⟨5, 3, none, 0⟩, ⟨5, 2, none, 1⟩, ⟨5, 2, none, 2⟩]]).Cheapest 0 5 1 ∧
      ¬(ofLists #[#[⟨5, 3, none, 0⟩, ⟨5, 2, none, 1⟩, ⟨5, 2, none, 2⟩]]).Cheapest 0 5 2 := by
  decide

section OfLists

variable {lists : Array (Array Link)}

theorem size_ofLists : (ofLists lists).size = (lists.toList.map Array.size).sum := by
  simp [size, ofLists, List.length_flatMap]

theorem offset_size : offset lists lists.size = (ofLists lists).size := by
  rw [size_ofLists, offset, List.sum_eq_foldl_nat, List.take_of_length_le (by simp)]

theorem start_getElem?_ofLists {n : Nat} (hn : n ≤ lists.size) :
    (ofLists lists).start[n]? = some (offset lists n) := by
  rw [← Array.getElem?_toList, start_eq_map_offset, List.getElem?_map,
    List.getElem?_range (by omega), Option.map_some]

theorem start_zero_ofLists : (ofLists lists).start[0]? = some 0 := by
  rw [start_getElem?_ofLists (Nat.zero_le _)]
  rfl

theorem start_last_ofLists : (ofLists lists).start[lists.size]? = some (ofLists lists).size := by
  rw [start_getElem?_ofLists le_rfl, offset_size]

theorem sortedLE_start_ofLists : (ofLists lists).start.toList.SortedLE := by
  rw [start_eq_map_offset]
  refine (List.pairwise_map.2 (List.pairwise_lt_range.imp fun {a b} hab => ?_)).sortedLE
  exact (offset_mono (Nat.le_of_lt hab) : offset lists a ≤ offset lists b)

/-- A link index belongs to the range of node `n` exactly when `n` has a list and the range of `n`
starts at or before the index and ends after it. -/
theorem mem_linksOf_ofLists_iff {n i : Nat} :
    i ∈ (ofLists lists).linksOf n ↔
      n < lists.size ∧ (ofLists lists).start.getD n 0 ≤ i ∧
        i < (ofLists lists).start.getD (n + 1) 0 := by
  rw [linksOf_ofLists, List.mem_range'_1]
  by_cases hn : n < lists.size
  · rw [start_getD_ofLists hn.le, start_getD_ofLists hn, offset_succ hn, getD_of_lt_size hn]
    simp [hn]
  · simp [hn]

/-- Every link index before the end lies in the range of some node. -/
theorem exists_mem_linksOf_ofLists {i : Nat} (hi : i < (ofLists lists).size) :
    ∃ n, i ∈ (ofLists lists).linksOf n := by
  rw [← offset_size] at hi
  obtain ⟨n, hn, hlo, hhi⟩ := exists_step_across (f := offset lists) (Nat.zero_le i) hi
  refine ⟨n, mem_linksOf_ofLists_iff.2 ⟨hn, ?_, ?_⟩⟩
  · rwa [start_getD_ofLists hn.le]
  · rwa [start_getD_ofLists hn]

/-- The owner of a link index before the end is the one node whose range holds it. -/
theorem owner_ofLists_eq_iff {i : Nat} (hi : i < (ofLists lists).size) (n : Nat) :
    (ofLists lists).owner i = n ↔ i ∈ (ofLists lists).linksOf n := by
  constructor
  · rintro rfl
    obtain ⟨m, hm⟩ := exists_mem_linksOf_ofLists hi
    rwa [owner_ofLists hm]
  · exact owner_ofLists

-- Nodes 0 and 2 have no links, so the ranges of nodes 0 and 1 both begin at index 0, and those
-- of nodes 2 and 3 at index 2: index 1 belongs to node 1 and index 2 to node 3.
example :
    (ofLists #[#[], #[⟨4, 1, none, 0⟩, ⟨5, 1, none, 0⟩], #[], #[⟨6, 1, none, 0⟩]]).owner 1 = 1 ∧
    (ofLists #[#[], #[⟨4, 1, none, 0⟩, ⟨5, 1, none, 0⟩], #[], #[⟨6, 1, none, 0⟩]]).owner 2 = 3 := by
  decide

/-- The links of node `n`, read through its range, are its list in order. -/
theorem map_linkAt_linksOf_ofLists (n : Nat) :
    ((ofLists lists).linksOf n).map (ofLists lists).linkAt = (lists.getD n #[]).toList := by
  rw [linksOf_ofLists]
  apply List.ext_getElem
  · simp
  · intro k h₁ h₂
    have hk : k < (lists.getD n #[]).size := by simpa using h₂
    rw [List.getElem_map, List.getElem_range', Nat.one_mul, linkAt_ofLists hk, Array.getElem_toList]

end OfLists

/-- The compressed form of link lists is exact. Its ranges start at zero, never go back and end at
the number of links. Each link index before the end is owned by the one node whose range holds it,
also where empty lists make ranges begin together. The links of a node are its list, in order,
and `find` answers the cheapest link of a node towards a given node, the first of equally cheap
ones. -/
theorem ofLists_lookups_exact (lists : Array (Array Link)) :
    ((ofLists lists).start.size = lists.size + 1 ∧ (ofLists lists).start[0]? = some 0 ∧
      (ofLists lists).start.toList.SortedLE ∧
      (ofLists lists).start[lists.size]? = some (ofLists lists).size ∧
      (ofLists lists).size = (lists.toList.map Array.size).sum) ∧
    (∀ i < (ofLists lists).size, ∀ n, (ofLists lists).owner i = n ↔
      n < lists.size ∧ (ofLists lists).start.getD n 0 ≤ i ∧
        i < (ofLists lists).start.getD (n + 1) 0) ∧
    (∀ n, ((ofLists lists).linksOf n).map (ofLists lists).linkAt = (lists.getD n #[]).toList) ∧
    ∀ n h i, (ofLists lists).find n h = some i ↔ (ofLists lists).Cheapest n h i :=
  ⟨⟨start_size_ofLists, start_zero_ofLists, sortedLE_start_ofLists, start_last_ofLists,
      size_ofLists⟩,
    fun _ hi n => (owner_ofLists_eq_iff hi n).trans mem_linksOf_ofLists_iff,
    map_linkAt_linksOf_ofLists, fun _ _ _ => find_eq_some_iff⟩

end Csr

end Wayfinder
