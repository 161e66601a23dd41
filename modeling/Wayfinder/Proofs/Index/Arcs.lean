import Mathlib.Data.List.Nodup
import Wayfinder.Index.Basic

/-!
# The links of a junction graph under contraction

The contractor keeps the links leaving each node in `out` and the links entering it in `inc`,
the latter pointing back to their sources. `Wf` is what every stage of building an index keeps:
one list of each kind per node, links between nodes only, at most one link from a node to each
other node, and `inc` the mirror of `out`, with the same cost, bypassed node and feature on both
sides.

Under `Wf`, adding a link acts on one pair of nodes only. When the new link is cheaper than the
one present, or there is none (`Writes`), it takes that pair's place on both sides
(`mem_outOf_addLink`, `mem_incOf_addLink`); otherwise nothing changes. Every shortcut that removing
a node asks for bypasses two links that are present, and costs what they cost together
(`mem_shortcuts`).
-/

namespace Wayfinder

theorem getD_modify {α : Type} (a : Array α) (i j : Nat) (f : α → α) (d : α) :
    (a.modify i f).getD j d = if i = j ∧ i < a.size then f (a.getD j d) else a.getD j d := by
  simp only [Array.getD_eq_getD_getElem?, Array.getElem?_modify]
  by_cases hij : i = j
  · subst hij
    by_cases hi : i < a.size <;> simp [hi]
  · simp [hij]

/-- A fold keeps what each of its steps keeps. -/
theorem foldl_invariant {α β : Type} (P : β → Prop) {f : β → α → β} {l : List α} {init : β}
    (h0 : P init) (hstep : ∀ b, ∀ a ∈ l, P b → P (f b a)) : P (l.foldl f init) := by
  induction l generalizing init with
  | nil => exact h0
  | cons a l ih =>
    exact ih (hstep init a List.mem_cons_self h0) fun b a' ha' => hstep b a' (List.mem_cons_of_mem _ ha')

/-- In a list with distinct keys, writing over the entry at `k` removes that entry and keeps the
others. -/
theorem mem_set_of_keys_nodup {α κ : Type} (key : α → κ) {l : List α} (hnd : (l.map key).Nodup)
    {k : Nat} (hk : k < l.length) {x y : α} :
    x ∈ l.set k y ↔ x = y ∨ (x ∈ l ∧ key x ≠ key l[k]) := by
  constructor
  · intro hx
    obtain ⟨j, hj, rfl⟩ := List.mem_iff_getElem.1 hx
    have hj' : j < l.length := by simpa using hj
    rw [List.getElem_set]
    by_cases hkj : k = j
    · rw [if_pos hkj]
      exact .inl rfl
    · rw [if_neg hkj]
      refine .inr ⟨List.getElem_mem hj', fun hkey => hkj ?_⟩
      -- Equal keys sit at one position.
      have hjm : j < (l.map key).length := by simpa using hj'
      have hkm : k < (l.map key).length := by simpa using hk
      have hmap : (l.map key)[j] = (l.map key)[k] := by
        simpa using hkey
      exact ((List.getElem_inj hnd).1 hmap).symm
  · rintro (rfl | ⟨hx, hkey⟩)
    · exact List.mem_set hk _
    · obtain ⟨j, hj, rfl⟩ := List.mem_iff_getElem.1 hx
      have hkj : k ≠ j := fun h => hkey (by subst h; rfl)
      have hj' : j < (l.set k y).length := by simpa using hj
      have hget : (l.set k y)[j] = l[j] := by rw [List.getElem_set, if_neg hkj]
      exact hget ▸ List.getElem_mem hj'

theorem keys_set_of_key_eq {α κ : Type} (key : α → κ) {l : List α} {k : Nat} (hk : k < l.length)
    {y : α} (hy : key y = key l[k]) : (l.set k y).map key = l.map key := by
  have hkm : k < (l.map key).length := by simpa using hk
  have hget : key l[k] = (l.map key)[k] := (List.getElem_map _).symm
  rw [List.map_set, hy, hget, List.set_getElem_self]

namespace Contractor

/-- Well-formed links: a list of each kind per node, links between nodes only, one link from a
node to each other node, and `inc` the mirror of `out`. -/
structure Wf (g : Contractor) : Prop where
  out_size : g.out.size = g.pos.size
  inc_size : g.inc.size = g.pos.size
  contracted_size : g.contracted.size = g.pos.size
  out_nodup : ∀ u, ((g.outOf u).toList.map Link.other).Nodup
  inc_nodup : ∀ v, ((g.incOf v).toList.map Link.other).Nodup
  mirror : ∀ u v c m f,
    (⟨v, c, m, f⟩ : Link) ∈ (g.outOf u).toList ↔ (⟨u, c, m, f⟩ : Link) ∈ (g.incOf v).toList
  bounded : ∀ u, ∀ l ∈ (g.outOf u).toList, l.other < g.pos.size

/-- A node with a link is a node of the graph. -/
theorem Wf.lt_of_mem_outOf {g : Contractor} (hw : g.Wf) {u : Nat} {l : Link}
    (hl : l ∈ (g.outOf u).toList) : u < g.pos.size := by
  rcases Nat.lt_or_ge u g.pos.size with hu | hu
  · exact hu
  · have hempty : g.outOf u = #[] := by
      rw [outOf, Array.getD_eq_getD_getElem?, Array.getElem?_eq_none (by rw [hw.out_size]; exact hu)]
      rfl
    rw [hempty] at hl
    exact absurd hl List.not_mem_nil

/-- Well-formedness reads only the positions, the links and the number of marks. -/
theorem Wf.congr {g h : Contractor} (hw : h.Wf) (hpos : g.pos = h.pos) (hout : g.out = h.out)
    (hinc : g.inc = h.inc) (hc : g.contracted.size = h.contracted.size) : g.Wf := by
  have ho : ∀ u, g.outOf u = h.outOf u := fun u => by rw [outOf, outOf, hout]
  have hi : ∀ v, g.incOf v = h.incOf v := fun v => by rw [incOf, incOf, hinc]
  refine ⟨?_, ?_, ?_, fun u => ?_, fun v => ?_, fun u v c m f => ?_, fun u l hl => ?_⟩
  · rw [hout, hpos]
    exact hw.out_size
  · rw [hinc, hpos]
    exact hw.inc_size
  · rw [hc, hpos]
    exact hw.contracted_size
  · rw [ho]
    exact hw.out_nodup u
  · rw [hi]
    exact hw.inc_nodup v
  · rw [ho, hi]
    exact hw.mirror u v c m f
  · rw [ho] at hl
    rw [hpos]
    exact hw.bounded u l hl

/-- `addLink src dst cost` writes its link: every link already present from `src` to `dst` is
dearer. -/
def Writes (g : Contractor) (src dst cost : Nat) : Prop :=
  ∀ l ∈ (g.outOf src).toList, l.other = dst → cost < l.cost

section AddLink

variable {g : Contractor} {src dst c : Nat} {m : Option Nat} {f : Nat}

@[simp] theorem addLink_pos : (g.addLink src dst c m f).pos = g.pos := by
  unfold addLink
  simp only
  split
  · split <;> rfl
  · rfl

@[simp] theorem addLink_contracted : (g.addLink src dst c m f).contracted = g.contracted := by
  unfold addLink
  simp only
  split
  · split <;> rfl
  · rfl

@[simp] theorem addLink_keys : (g.addLink src dst c m f).keys = g.keys := by
  unfold addLink
  simp only
  split
  · split <;> rfl
  · rfl

@[simp] theorem addLink_out_size : (g.addLink src dst c m f).out.size = g.out.size := by
  unfold addLink
  simp only
  split
  · split
    · exact Array.size_modify
    · rfl
  · exact Array.size_modify

@[simp] theorem addLink_inc_size : (g.addLink src dst c m f).inc.size = g.inc.size := by
  unfold addLink
  simp only
  split
  · split
    · simp only
      split
      · exact Array.size_modify
      · rfl
    · rfl
  · exact Array.size_modify

theorem outOf_addLink_of_ne {u : Nat} (h : u ≠ src) :
    (g.addLink src dst c m f).outOf u = g.outOf u := by
  unfold addLink
  simp only
  split
  · split
    · simp only [outOf, getD_modify, Ne.symm h, false_and, if_false]
    · rfl
  · simp only [outOf, getD_modify, Ne.symm h, false_and, if_false]

theorem incOf_addLink_of_ne {v : Nat} (h : v ≠ dst) :
    (g.addLink src dst c m f).incOf v = g.incOf v := by
  unfold addLink
  simp only
  split
  · split
    · split
      · simp only [incOf, getD_modify, Ne.symm h, false_and, if_false]
      · rfl
    · rfl
  · simp only [incOf, getD_modify, Ne.symm h, false_and, if_false]

/-- A written link replaces the one to `dst` among the links of `src`, or joins them. -/
theorem outOf_addLink_self (hsrc : src < g.out.size) (h : g.Writes src dst c) :
    (∃ k, ∃ hk : k < (g.outOf src).toList.length, (g.outOf src).toList[k].other = dst ∧
        ((g.addLink src dst c m f).outOf src).toList = (g.outOf src).toList.set k ⟨dst, c, m, f⟩) ∨
      ((∀ l ∈ (g.outOf src).toList, l.other ≠ dst) ∧
        ((g.addLink src dst c m f).outOf src).toList = (g.outOf src).toList ++ [⟨dst, c, m, f⟩]) := by
  unfold addLink
  simp only
  split
  next k hk =>
    obtain ⟨hklt, hkdst, -⟩ := Array.findIdx?_eq_some_iff_getElem.1 hk
    have hget : (g.outOf src).getD k default = (g.outOf src)[k] := by
      rw [Array.getD_eq_getD_getElem?, Array.getElem?_eq_getElem hklt]
      rfl
    have hcost : c < ((g.outOf src).getD k default).cost :=
      hget ▸ h _ (Array.getElem_mem_toList hklt) (by simpa using hkdst)
    rw [if_pos hcost]
    refine .inl ⟨k, by simpa using hklt, by simpa using hkdst, ?_⟩
    simp only [outOf, getD_modify, hsrc, and_self, if_true, Array.toList_modify, List.modify_eq_set]
  next hk =>
    refine .inr ⟨fun l hl hl' => ?_, ?_⟩
    · have := Array.findIdx?_eq_none_iff.1 hk l (Array.mem_toList_iff.1 hl)
      simp [hl'] at this
    simp only [outOf, getD_modify, hsrc, and_self, if_true, Array.toList_push]

/-- The mirror of a written link replaces the one from `src` among the links into `dst`, or joins
them. -/
theorem incOf_addLink_self (hw : g.Wf) (hdst : dst < g.inc.size) (h : g.Writes src dst c) :
    (∃ r, ∃ hr : r < (g.incOf dst).toList.length, (g.incOf dst).toList[r].other = src ∧
        ((g.addLink src dst c m f).incOf dst).toList = (g.incOf dst).toList.set r ⟨src, c, m, f⟩) ∨
      ((∀ l ∈ (g.incOf dst).toList, l.other ≠ src) ∧
        ((g.addLink src dst c m f).incOf dst).toList = (g.incOf dst).toList ++ [⟨src, c, m, f⟩]) := by
  unfold addLink
  simp only
  split
  next k hk =>
    obtain ⟨hklt, hkdst, -⟩ := Array.findIdx?_eq_some_iff_getElem.1 hk
    have hget : (g.outOf src).getD k default = (g.outOf src)[k] := by
      rw [Array.getD_eq_getD_getElem?, Array.getElem?_eq_getElem hklt]
      rfl
    have hcost : c < ((g.outOf src).getD k default).cost :=
      hget ▸ h _ (Array.getElem_mem_toList hklt) (by simpa using hkdst)
    rw [if_pos hcost]
    split
    next r hr =>
      obtain ⟨hrlt, hrsrc, -⟩ := Array.findIdx?_eq_some_iff_getElem.1 hr
      refine .inl ⟨r, by simpa using hrlt, by simpa using hrsrc, ?_⟩
      simp only [incOf, getD_modify, hdst, and_self, if_true, Array.toList_modify, List.modify_eq_set]
    next hr =>
      -- The link at `k` has its mirror among the links into `dst`.
      exfalso
      have hk' : (g.outOf src)[k].other = dst := by simpa using hkdst
      have hmem : (⟨dst, (g.outOf src)[k].cost, (g.outOf src)[k].mid, (g.outOf src)[k].feature⟩ : Link) ∈
          (g.outOf src).toList := by
        rw [← hk']
        exact Array.getElem_mem_toList hklt
      have := Array.findIdx?_eq_none_iff.1 hr _ (Array.mem_toList_iff.1 ((hw.mirror _ _ _ _ _).1 hmem))
      simp at this
  next hk =>
    refine .inr ⟨fun l hl hl' => ?_, ?_⟩
    · have hout : (⟨dst, l.cost, l.mid, l.feature⟩ : Link) ∈ (g.outOf src).toList :=
        (hw.mirror src dst _ _ _).2 (by rw [← hl']; exact hl)
      have := Array.findIdx?_eq_none_iff.1 hk _ (Array.mem_toList_iff.1 hout)
      simp at this
    simp only [incOf, getD_modify, hdst, and_self, if_true, Array.toList_push]

/-- A link that is not cheaper than the one present changes nothing. -/
theorem addLink_of_not_writes (hw : g.Wf) (h : ¬g.Writes src dst c) : g.addLink src dst c m f = g := by
  obtain ⟨l, hl, hdst, hcost⟩ : ∃ l ∈ (g.outOf src).toList, l.other = dst ∧ l.cost ≤ c := by
    simpa [Writes] using h
  unfold addLink
  simp only
  split
  next k hk =>
    obtain ⟨hklt, hkdst, -⟩ := Array.findIdx?_eq_some_iff_getElem.1 hk
    -- The link found is `l`, the only one to `dst`.
    have hsame : (g.outOf src)[k] = l :=
      List.inj_on_of_nodup_map (hw.out_nodup src) (Array.getElem_mem_toList hklt) hl
        (by simpa [hdst] using hkdst)
    have hget : (g.outOf src).getD k default = l := by
      rw [Array.getD_eq_getD_getElem?, Array.getElem?_eq_getElem hklt]
      exact hsame
    rw [if_neg (by rw [hget]; omega)]
  next hk =>
    have := Array.findIdx?_eq_none_iff.1 hk l (Array.mem_toList_iff.1 hl)
    simp [hdst] at this

theorem mem_outOf_addLink (hw : g.Wf) (hsrc : src < g.pos.size) (h : g.Writes src dst c) {x : Link} :
    x ∈ ((g.addLink src dst c m f).outOf src).toList ↔
      x = ⟨dst, c, m, f⟩ ∨ (x ∈ (g.outOf src).toList ∧ x.other ≠ dst) := by
  rcases outOf_addLink_self (hw.out_size ▸ hsrc) h with ⟨k, hk, hkdst, heq⟩ | ⟨hnone, heq⟩
  · rw [heq, mem_set_of_keys_nodup Link.other (hw.out_nodup src) hk, hkdst]
  · rw [heq, List.mem_append, List.mem_singleton]
    constructor
    · rintro (hx | hx)
      · exact .inr ⟨hx, hnone x hx⟩
      · exact .inl hx
    · rintro (hx | ⟨hx, -⟩)
      · exact .inr hx
      · exact .inl hx

theorem mem_incOf_addLink (hw : g.Wf) (hdst : dst < g.pos.size) (h : g.Writes src dst c) {x : Link} :
    x ∈ ((g.addLink src dst c m f).incOf dst).toList ↔
      x = ⟨src, c, m, f⟩ ∨ (x ∈ (g.incOf dst).toList ∧ x.other ≠ src) := by
  rcases incOf_addLink_self hw (hw.inc_size ▸ hdst) h with ⟨r, hr, hrsrc, heq⟩ | ⟨hnone, heq⟩
  · rw [heq, mem_set_of_keys_nodup Link.other (hw.inc_nodup dst) hr, hrsrc]
  · rw [heq, List.mem_append, List.mem_singleton]
    constructor
    · rintro (hx | hx)
      · exact .inr ⟨hx, hnone x hx⟩
      · exact .inl hx
    · rintro (hx | ⟨hx, -⟩)
      · exact .inr hx
      · exact .inl hx

/-- Adding a link between two nodes keeps the links well formed. -/
theorem Wf.addLink (hw : g.Wf) (hsrc : src < g.pos.size) (hdst : dst < g.pos.size) :
    (g.addLink src dst c m f).Wf := by
  by_cases hwr : g.Writes src dst c
  swap
  · rw [addLink_of_not_writes hw hwr]
    exact hw
  refine ⟨?_, ?_, ?_, fun u => ?_, fun v => ?_, fun u v c' m' f' => ?_, fun u l hl => ?_⟩
  · simp [hw.out_size]
  · simp [hw.inc_size]
  · simp [hw.contracted_size]
  · by_cases hu : u = src
    · subst hu
      rcases outOf_addLink_self (hw.out_size ▸ hsrc) hwr with ⟨k, hk, hkdst, heq⟩ | ⟨hnone, heq⟩
      · rw [heq, keys_set_of_key_eq Link.other hk hkdst.symm]
        exact hw.out_nodup u
      · rw [heq, List.map_append, List.nodup_append]
        refine ⟨hw.out_nodup u, by simp, ?_⟩
        intro a ha b hb
        simp only [List.map_cons, List.map_nil, List.mem_singleton] at hb
        obtain ⟨l, hl, rfl⟩ := List.mem_map.1 ha
        rw [hb]
        exact hnone l hl
    · rw [outOf_addLink_of_ne hu]
      exact hw.out_nodup u
  · by_cases hv : v = dst
    · subst hv
      rcases incOf_addLink_self hw (hw.inc_size ▸ hdst) hwr with ⟨r, hr, hrsrc, heq⟩ | ⟨hnone, heq⟩
      · rw [heq, keys_set_of_key_eq Link.other hr hrsrc.symm]
        exact hw.inc_nodup v
      · rw [heq, List.map_append, List.nodup_append]
        refine ⟨hw.inc_nodup v, by simp, ?_⟩
        intro a ha b hb
        simp only [List.map_cons, List.map_nil, List.mem_singleton] at hb
        obtain ⟨l, hl, rfl⟩ := List.mem_map.1 ha
        rw [hb]
        exact hnone l hl
    · rw [incOf_addLink_of_ne hv]
      exact hw.inc_nodup v
  · -- Only the pair `src → dst` changes, on both sides at once.
    by_cases hu : u = src <;> by_cases hv : v = dst
    · subst hu hv
      rw [mem_outOf_addLink hw hsrc hwr, mem_incOf_addLink hw hdst hwr]
      simp
    · subst hu
      rw [mem_outOf_addLink hw hsrc hwr, incOf_addLink_of_ne hv, ← hw.mirror]
      simp [hv]
    · subst hv
      rw [outOf_addLink_of_ne hu, mem_incOf_addLink hw hdst hwr, hw.mirror]
      simp [hu]
    · rw [outOf_addLink_of_ne hu, incOf_addLink_of_ne hv]
      exact hw.mirror u v c' m' f'
  · rw [addLink_pos]
    by_cases hu : u = src
    · subst hu
      rcases (mem_outOf_addLink hw hsrc hwr).1 hl with rfl | ⟨hl, -⟩
      · exact hdst
      · exact hw.bounded u l hl
    · rw [outOf_addLink_of_ne hu] at hl
      exact hw.bounded u l hl

end AddLink

/-- Every shortcut that removing `v` asks for bypasses a link `u → v` and a link `v → w` that are
present between live nodes, and costs what the two cost together. -/
theorem mem_shortcuts {g : Contractor} (hw : g.Wf) {v u w c : Nat} (h : (u, w, c) ∈ g.shortcuts v) :
    ∃ l₁ ∈ (g.outOf u).toList, l₁.other = v ∧ ∃ l₂ ∈ (g.outOf v).toList, l₂.other = w ∧
      c = addCost l₁.cost l₂.cost ∧ u ≠ v ∧ w ≠ v ∧ w ≠ u ∧
        g.isContracted u = false ∧ g.isContracted w = false := by
  unfold shortcuts at h
  obtain ⟨lIn, hIn, h⟩ := List.mem_flatMap.1 h
  simp only at h
  split at h
  · exact absurd h List.not_mem_nil
  next hlive =>
    split at h
    · exact absurd h List.not_mem_nil
    next mx hmx =>
      obtain ⟨⟨w', via⟩, htarget, hsome⟩ := List.mem_filterMap.1 h
      -- Whatever the witness search finds, a shortcut kept is `(lIn.other, w', via)`.
      have hkept : (lIn.other, w', via) = (u, w, c) := by
        simp only at hsome
        split at hsome
        · split at hsome
          · exact Option.some.inj hsome
          · exact absurd hsome (by simp)
        · exact Option.some.inj hsome
      obtain ⟨rfl, rfl, rfl⟩ : lIn.other = u ∧ w' = w ∧ via = c := by simpa using hkept
      obtain ⟨l₂, hl₂, hpair⟩ := List.mem_map.1 htarget
      obtain ⟨hl₂, hkeep⟩ := List.mem_filter.1 hl₂
      simp only [Prod.mk.injEq] at hpair
      obtain ⟨rfl, rfl⟩ := hpair
      simp only [Bool.and_eq_true, Bool.not_eq_true', decide_eq_true_eq] at hkeep
      simp only [Bool.or_eq_true, decide_eq_true_eq, not_or, Bool.not_eq_true] at hlive
      refine ⟨⟨v, lIn.cost, lIn.mid, lIn.feature⟩, (hw.mirror _ _ _ _ _).2 hIn, rfl, l₂, hl₂, rfl,
        rfl, hlive.2, hkeep.2, hkeep.1.2, hlive.1, hkeep.1.1⟩

/-! ## The junction graph before contraction -/

/-- Pushing an empty list onto the lists of the nodes leaves every node's list as it was. -/
theorem getD_push_empty {α : Type} (a : Array (Array α)) (j : Nat) :
    (a.push #[]).getD j #[] = a.getD j #[] := by
  simp only [Array.getD_eq_getD_getElem?, Array.getElem?_push]
  split
  · next h =>
    subst h
    simp
  · rfl

theorem getD_push_false (a : Array Bool) (j : Nat) : (a.push false).getD j false = a.getD j false := by
  simp only [Array.getD_eq_getD_getElem?, Array.getElem?_push]
  split
  · next h =>
    subst h
    simp
  · rfl

/-- Interning a point adds no link. -/
theorem outOf_intern (g : Contractor) (p : Point) (u : Nat) : (g.intern p).2.outOf u = g.outOf u := by
  unfold Contractor.intern
  simp only
  split
  · rfl
  · exact getD_push_empty g.out u

theorem incOf_intern (g : Contractor) (p : Point) (v : Nat) : (g.intern p).2.incOf v = g.incOf v := by
  unfold Contractor.intern
  simp only
  split
  · rfl
  · exact getD_push_empty g.inc v

theorem isContracted_intern (g : Contractor) (p : Point) (v : Nat) :
    (g.intern p).2.isContracted v = g.isContracted v := by
  unfold Contractor.intern
  simp only
  split
  · rfl
  · exact getD_push_false g.contracted v

/-- Interning a point keeps the links well formed. -/
theorem Wf.intern {g : Contractor} (hw : g.Wf) (p : Point) : (g.intern p).2.Wf := by
  have hsizes : (g.intern p).2.out.size = (g.intern p).2.pos.size ∧
      (g.intern p).2.inc.size = (g.intern p).2.pos.size ∧
      (g.intern p).2.contracted.size = (g.intern p).2.pos.size ∧
      g.pos.size ≤ (g.intern p).2.pos.size := by
    unfold Contractor.intern
    simp only
    split
    · exact ⟨hw.out_size, hw.inc_size, hw.contracted_size, Nat.le_refl _⟩
    · simp [hw.out_size, hw.inc_size, hw.contracted_size]
  refine ⟨hsizes.1, hsizes.2.1, hsizes.2.2.1, fun u => ?_, fun v => ?_, fun u v c m f => ?_,
    fun u l hl => ?_⟩
  · rw [outOf_intern]
    exact hw.out_nodup u
  · rw [incOf_intern]
    exact hw.inc_nodup v
  · rw [outOf_intern, incOf_intern]
    exact hw.mirror u v c m f
  · rw [outOf_intern] at hl
    exact Nat.lt_of_lt_of_le (hw.bounded u l hl) hsizes.2.2.2

/-- Before contraction: well-formed links, no node contracted, every grid key naming a node, and
every link a road link along a feature that `real` accepts, at a cost that fits in 32 bits. -/
structure Original (real : Nat → Prop) (g : Contractor) : Prop where
  wf : g.Wf
  live : ∀ v, g.isContracted v = false
  keys : ∀ e ∈ g.keys, e.2 < g.pos.size
  road : ∀ u, ∀ l ∈ (g.outOf u).toList, l.mid = none ∧ real l.feature ∧ l.cost ≤ costCap

section Original

variable {real : Nat → Prop} {g : Contractor}

theorem original_empty (real : Nat → Prop) : Original real empty := by
  refine ⟨⟨rfl, rfl, rfl, fun u => ?_, fun v => ?_, fun u v c m f => ?_, fun u l hl => ?_⟩,
    fun v => rfl, fun e he => absurd he List.not_mem_nil, fun u l hl => ?_⟩ <;>
    simp_all [empty, outOf, incOf]

/-- Interning a point names a node of the graph and adds no link. -/
theorem Original.intern (h : Original real g) (p : Point) :
    (g.intern p).1 < (g.intern p).2.pos.size ∧ g.pos.size ≤ (g.intern p).2.pos.size ∧
      (∀ u, (g.intern p).2.outOf u = g.outOf u) ∧ Original real (g.intern p).2 := by
  have hkeys : (g.intern p).1 < (g.intern p).2.pos.size ∧ g.pos.size ≤ (g.intern p).2.pos.size ∧
      ∀ e ∈ (g.intern p).2.keys, e.2 < (g.intern p).2.pos.size := by
    unfold Contractor.intern
    simp only
    split
    next n hfind => exact ⟨h.keys _ (List.mem_of_find?_eq_some hfind), Nat.le_refl _, h.keys⟩
    next =>
      refine ⟨by simp, by simp, fun e he => ?_⟩
      simp only [List.mem_cons] at he
      simp only [Array.size_push]
      rcases he with rfl | he
      · simp
      · have := h.keys e he
        omega
  refine ⟨hkeys.1, hkeys.2.1, outOf_intern g p, h.wf.intern p, fun v => ?_, hkeys.2.2,
    fun u l hl => ?_⟩
  · rw [isContracted_intern]
    exact h.live v
  · rw [outOf_intern] at hl
    exact h.road u l hl

/-- A road link between two nodes along a real feature keeps the graph as it was before
contraction. -/
theorem Original.addLink (h : Original real g) {src dst c fid : Nat} (hsrc : src < g.pos.size)
    (hdst : dst < g.pos.size) (hr : real fid) (hc : c ≤ costCap) :
    Original real (g.addLink src dst c none fid) := by
  by_cases hwr : g.Writes src dst c
  swap
  · rw [addLink_of_not_writes h.wf hwr]
    exact h
  refine ⟨h.wf.addLink hsrc hdst, fun v => ?_, fun e he => ?_, fun u l hl => ?_⟩
  · simp only [isContracted, addLink_contracted]
    exact h.live v
  · rw [addLink_keys] at he
    rw [addLink_pos]
    exact h.keys e he
  · by_cases hu : u = src
    · subst hu
      rcases (mem_outOf_addLink h.wf hsrc hwr).1 hl with rfl | ⟨hl, -⟩
      · exact ⟨rfl, hr, hc⟩
      · exact h.road u l hl
    · rw [outOf_addLink_of_ne hu] at hl
      exact h.road u l hl

/-- Interning the points of a feature one after another gives one node per point. -/
theorem Original.internAll (pts : List Point) (x : Array Nat × Contractor) (h : Original real x.2)
    (hids : ∀ j < x.1.size, x.1.getD j 0 < x.2.pos.size) :
    Original real (pts.foldl (fun x p => (x.1.push (x.2.intern p).1, (x.2.intern p).2)) x).2 ∧
      (pts.foldl (fun x p => (x.1.push (x.2.intern p).1, (x.2.intern p).2)) x).1.size =
        x.1.size + pts.length ∧
      ∀ j < (pts.foldl (fun x p => (x.1.push (x.2.intern p).1, (x.2.intern p).2)) x).1.size,
        (pts.foldl (fun x p => (x.1.push (x.2.intern p).1, (x.2.intern p).2)) x).1.getD j 0 <
          (pts.foldl (fun x p => (x.1.push (x.2.intern p).1, (x.2.intern p).2)) x).2.pos.size := by
  induction pts generalizing x with
  | nil => exact ⟨h, rfl, hids⟩
  | cons p pts ih =>
    obtain ⟨hlt, hle, -, h'⟩ := h.intern p
    have hids' : ∀ j < (x.1.push (x.2.intern p).1).size,
        (x.1.push (x.2.intern p).1).getD j 0 < (x.2.intern p).2.pos.size := by
      intro j hj
      rw [Array.size_push] at hj
      rw [Array.getD_eq_getD_getElem?, Array.getElem?_push]
      by_cases hjs : j = x.1.size
      · rw [if_pos hjs]
        exact hlt
      · rw [if_neg hjs]
        have := hids j (by omega)
        rw [Array.getD_eq_getD_getElem?] at this
        omega
    obtain ⟨h₁, h₂, h₃⟩ := ih (x.1.push (x.2.intern p).1, (x.2.intern p).2) h' hids'
    refine ⟨h₁, ?_, h₃⟩
    rw [List.foldl_cons, h₂, Array.size_push, List.length_cons]
    omega

end Original

end Contractor

/-- A road link costs at most the largest 32-bit word. -/
theorem linkCost_le_costCap (meters mps : Float) : linkCost meters mps ≤ costCap := by
  have hlt := UInt32.toNat_lt (Binary.maxNum (Float.round (meters / mps * 1000.0)) 1.0).toUInt32
  unfold linkCost costCap
  rw [Nat.pow_eq]
  omega

/-- Adding the road links of a feature that `real` accepts keeps the graph as it was before
contraction. -/
theorem Contractor.Original.addFeatureLinks {real : Nat → Prop} {acc : Contractor × Array IndexSegment}
    (h : Contractor.Original real acc.1) (feat : Feature) (hr : real feat.id) :
    Contractor.Original real (addFeatureLinks acc feat).1 := by
  unfold Wayfinder.addFeatureLinks
  split
  · exact h
  · split
    · exact h
    · simp only
      rw [← Array.foldl_toList]
      obtain ⟨hg, hcount, hids⟩ := h.internAll feat.points.toList (#[], acc.1) (by simp)
      generalize List.foldl (fun x p => (x.1.push (x.2.intern p).1, (x.2.intern p).2)) (#[], acc.1)
        feat.points.toList = r at hg hcount hids ⊢
      -- Every segment joins two nodes of the graph: its links keep it as it was.
      refine (foldl_invariant (fun (y : Contractor × Array IndexSegment) => Contractor.Original real y.1 ∧ y.1.pos.size = r.2.pos.size)
        ⟨hg, rfl⟩ ?_).1
      rintro y i hi ⟨hy, hys⟩
      have hi' : i + 1 < r.1.size := by
        rw [hcount]
        simp only [List.mem_range] at hi
        simp
        omega
      have h₀ : r.1.getD i 0 < y.1.pos.size := hys ▸ hids i (by omega)
      have h₁ : r.1.getD (i + 1) 0 < y.1.pos.size := hys ▸ hids (i + 1) hi'
      by_cases hsame : r.1.getD i 0 = r.1.getD (i + 1) 0
      · rw [if_pos hsame]
        exact ⟨hy, hys⟩
      · rw [if_neg hsame]
        by_cases hone : SpeedModel.car.oneway feat = true
        · rw [if_pos hone]
          exact ⟨hy.addLink h₀ h₁ hr (linkCost_le_costCap _ _), by rw [Contractor.addLink_pos, hys]⟩
        · rw [if_neg hone]
          refine ⟨(hy.addLink h₀ h₁ hr (linkCost_le_costCap _ _)).addLink ?_ ?_ hr
            (linkCost_le_costCap _ _), ?_⟩
          · rw [Contractor.addLink_pos]
            exact h₁
          · rw [Contractor.addLink_pos]
            exact h₀
          · rw [Contractor.addLink_pos, Contractor.addLink_pos, hys]

/-- The junction graph of a list of features, before contraction: every link runs along one of
them. -/
theorem Contractor.original_of_features {real : Nat → Prop} (features : List Feature)
    (hreal : ∀ f ∈ features, real f.id) :
    Contractor.Original real (features.foldl addFeatureLinks (Contractor.empty, #[])).1 :=
  foldl_invariant (fun (acc : Contractor × Array IndexSegment) => Contractor.Original real acc.1)
    (Contractor.original_empty real) fun _ f hf h => h.addFeatureLinks f (hreal f hf)

end Wayfinder
