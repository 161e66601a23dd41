import Wayfinder.Proofs.Index.Ranking

/-!
# The links into a node mirror the links out of it

Every node keeps the links leaving it in `out` and the links entering it in `inc`. The links into
`v` as the out-lists hold them, each with its source as its other end, are `linksInto g v`. A graph
is `Mirrored` when no out-list holds two links to one node and, for every node, `linksInto` and the
in-list hold the same links, each as often. Well-formed graphs are mirrored (`Wf.mirrored`); so
every graph made by interning points and adding links is, and so is every round of its contraction.

`costTo g u w` is the cost of the link from `u` to `w`, if there is one. Adding a link sets it to
the smaller of the new cost and the cost already there (`costTo_addLink`). The main statement is
`inc_mirrors_out`.
-/

namespace Wayfinder

namespace Contractor

/-- The links into `v` as the out-lists hold them, each with its source as its other end. -/
def linksInto (g : Contractor) (v : Nat) : List Link :=
  (List.range g.pos.size).flatMap fun u =>
    ((g.outOf u).toList.filter (·.other = v)).map fun l => ⟨u, l.cost, l.mid, l.feature⟩

/-- The in-lists mirror the out-lists: no out-list holds two links to one node, and the links into
each node are its in-list, each as often. -/
def Mirrored (g : Contractor) : Prop :=
  ∀ v, ((g.outOf v).toList.map Link.other).Nodup ∧ (g.linksInto v).Perm (g.incOf v).toList

/-- The cost of the link from `u` to `w`, if there is one. -/
def costTo (g : Contractor) (u w : Nat) : Option Nat :=
  ((g.outOf u).toList.find? (·.other = w)).map Link.cost

theorem mem_linksInto {g : Contractor} {v : Nat} {x : Link} :
    x ∈ g.linksInto v ↔
      x.other < g.pos.size ∧ (⟨v, x.cost, x.mid, x.feature⟩ : Link) ∈ (g.outOf x.other).toList := by
  simp only [linksInto, List.mem_flatMap, List.mem_range, List.mem_map, List.mem_filter,
    decide_eq_true_eq]
  constructor
  · rintro ⟨u, hu, ⟨o, c, m, f⟩, ⟨hl, ho⟩, rfl⟩
    dsimp only at ho
    subst ho
    exact ⟨hu, hl⟩
  · rintro ⟨hu, hx⟩
    exact ⟨x.other, hu, _, ⟨hx, rfl⟩, rfl⟩

section Wf

variable {g : Contractor}

/-- A source has at most one link to `v`, and links from two sources differ in their other end. -/
theorem Wf.nodup_linksInto (hw : g.Wf) (v : Nat) : (g.linksInto v).Nodup := by
  refine List.nodup_flatMap.2 ⟨fun u _ => ?_, List.nodup_range.imp fun {a b} hab => ?_⟩
  · have hnd : ((g.outOf u).toList.filter (·.other = v)).Nodup :=
      ((hw.out_nodup u).of_map _).filter _
    refine hnd.map_on fun x hx y hy hxy => ?_
    have hox : x.other = v := by simpa using (List.mem_filter.1 hx).2
    have hoy : y.other = v := by simpa using (List.mem_filter.1 hy).2
    obtain ⟨xo, xc, xm, xf⟩ := x
    obtain ⟨yo, yc, ym, yf⟩ := y
    simp only [Link.mk.injEq, true_and] at hxy hox hoy
    obtain ⟨rfl, rfl, rfl⟩ := hxy
    rw [hox, hoy]
  · simp only [Function.onFun]
    intro x hxa hxb
    obtain ⟨la, -, hla⟩ := List.mem_map.1 hxa
    obtain ⟨lb, -, hlb⟩ := List.mem_map.1 hxb
    exact hab (congrArg Link.other (hla.trans hlb.symm))

/-- The links into a node, read off the out-lists, are its in-list. -/
theorem Wf.linksInto_perm (hw : g.Wf) (v : Nat) : (g.linksInto v).Perm (g.incOf v).toList := by
  refine (List.perm_ext_iff_of_nodup (hw.nodup_linksInto v) ((hw.inc_nodup v).of_map _)).2
    fun x => ?_
  obtain ⟨u, c, m, f⟩ := x
  rw [mem_linksInto, ← hw.mirror u v c m f]
  exact ⟨fun h => h.2, fun h => ⟨hw.lt_of_mem_outOf h, h⟩⟩

theorem Wf.mirrored (hw : g.Wf) : g.Mirrored :=
  fun v => ⟨hw.out_nodup v, hw.linksInto_perm v⟩

/-- With one link per pair, the cost of a pair is the cost of its link. -/
theorem Wf.costTo_eq_some_iff (hw : g.Wf) {u w c : Nat} :
    g.costTo u w = some c ↔ ∃ l ∈ (g.outOf u).toList, l.other = w ∧ l.cost = c := by
  rw [costTo, Option.map_eq_some_iff]
  constructor
  · rintro ⟨l, hl, rfl⟩
    exact ⟨l, List.mem_of_find?_eq_some hl, by simpa using List.find?_some hl, rfl⟩
  · rintro ⟨l, hl, hlw, rfl⟩
    obtain ⟨l', hl'⟩ : ∃ l', (g.outOf u).toList.find? (·.other = w) = some l' := by
      cases h : (g.outOf u).toList.find? (·.other = w) with
      | some l' => exact ⟨l', rfl⟩
      | none =>
        have := List.find?_eq_none.1 h l hl
        simp [hlw] at this
    have hl'w : l'.other = w := by simpa using List.find?_some hl'
    -- The link found is `l`, the only one to `w`.
    have hsame : l' = l :=
      List.inj_on_of_nodup_map (hw.out_nodup u) (List.mem_of_find?_eq_some hl') hl (hl'w.trans hlw.symm)
    exact ⟨l', hl', by rw [hsame]⟩

/-- Adding a link sets the cost of its pair to the smaller of the new cost and the one there. -/
theorem Wf.costTo_addLink (hw : g.Wf) {src dst c : Nat} {m : Option Nat} {f : Nat}
    (hsrc : src < g.pos.size) (hdst : dst < g.pos.size) :
    (g.addLink src dst c m f).costTo src dst = some (((g.costTo src dst).map (min c)).getD c) := by
  rw [(hw.addLink hsrc hdst).costTo_eq_some_iff]
  by_cases hwr : g.Writes src dst c
  · -- The new link takes the pair's place: no link there was as cheap.
    refine ⟨⟨dst, c, m, f⟩, (mem_outOf_addLink hw hsrc hwr).2 (.inl rfl), rfl, ?_⟩
    cases hcost : g.costTo src dst with
    | none => rfl
    | some d =>
      obtain ⟨l, hl, hlw, rfl⟩ := hw.costTo_eq_some_iff.1 hcost
      exact (Nat.min_eq_left (Nat.le_of_lt (hwr l hl hlw))).symm
  · -- The link there is at least as cheap, and stays.
    rw [addLink_of_not_writes hw hwr]
    obtain ⟨l, hl, hlw, hle⟩ : ∃ l ∈ (g.outOf src).toList, l.other = dst ∧ l.cost ≤ c := by
      simpa [Writes] using hwr
    refine ⟨l, hl, hlw, ?_⟩
    rw [show g.costTo src dst = some l.cost from hw.costTo_eq_some_iff.2 ⟨l, hl, hlw, rfl⟩]
    exact (Nat.min_eq_right hle).symm

end Wf

/-- In every graph made by interning points and adding links, and in every round of its
contraction, the in-lists mirror the out-lists; and adding a link between two of its nodes leaves
the smaller of the new cost and the old one on the pair. -/
theorem inc_mirrors_out {g : Contractor} (hg : g.Assembled) :
    g.Mirrored ∧ (∀ r ∈ (Round.start g).trace, r.graph.Mirrored) ∧
      ∀ src dst c m f, src < g.pos.size → dst < g.pos.size →
        (g.addLink src dst c m f).costTo src dst = some (((g.costTo src dst).map (min c)).getD c) :=
  ⟨hg.wf.mirrored,
    fun r hr => (Round.forall_mem_trace (fun _ _ h hs => Round.Sound.step h hs)
      (Round.sound_start hg) r hr).wf.mirrored,
    fun _ _ _ _ _ hsrc hdst => hg.wf.costTo_addLink hsrc hdst⟩

/-- A single node with a link to itself. -/
theorem inc_mirrors_out_of_loop :
    let g₀ := (Contractor.empty.intern ⟨0.0, 0.0⟩).2.addLink 0 0 7 none 3
    g₀.Assembled ∧ g₀.Mirrored ∧ (∀ r ∈ (Round.start g₀).trace, r.graph.Mirrored) ∧
      ∀ src dst c m f, src < g₀.pos.size → dst < g₀.pos.size →
        (g₀.addLink src dst c m f).costTo src dst = some (((g₀.costTo src dst).map (min c)).getD c) := by
  intro g₀
  have hg : g₀.Assembled := .addLink 7 none 3 (.intern _ .empty) (by decide) (by decide)
  exact ⟨hg, inc_mirrors_out hg⟩

end Contractor

end Wayfinder
