import Mathlib.Data.List.Induction
import Wayfinder.Proofs.Index.Unpack

/-!
# Road points are merged by their grid point

Building an index interns the points of every feature it routes on, one after another: a point
whose grid point (`Contractor.gridKey`: each coordinate divided by `nodeQuantum`, rounded and cast
to a 64-bit integer) already names a node gets that node; any other point starts a new node at its
own position. `Interned` is what interning leaves: the grid points of the table are distinct, each
names a node standing at a point of that grid point, every point interned is named by its grid
point, and each node stands at the first point interned to it. Interning one more point keeps it
(`Interned.intern`).

So two points get one node exactly when they share a grid point (`Interned.node_eq_iff`). The grid
is a rounding of the coordinates, not a tolerance around them: the cast sends NaN to 0 and
saturates large coordinates, so points far apart may share a grid point. Links added between the
interning steps change neither the positions nor the table (`nodes`), so the index built from a
region has the nodes of interning the points of its routable features in order
(`build_nodePos`).
-/

namespace Wayfinder

namespace Contractor

/-- Interns `p` after the points interned so far, each kept with its node. -/
def internStep (acc : List (Point × Nat) × Contractor) (p : Point) :
    List (Point × Nat) × Contractor :=
  (acc.1 ++ [(p, (acc.2.intern p).1)], (acc.2.intern p).2)

/-- The points of `ps` interned one after another from `g`, each with its node, and the graph
after. -/
def internRun (g : Contractor) (ps : List Point) : List (Point × Nat) × Contractor :=
  ps.foldl internStep ([], g)

/-- What interning decides by: the node positions and the table of grid points. -/
def nodes (g : Contractor) : Array Point × List ((Int × Int) × Nat) := (g.pos, g.keys)

/-- What interning the points `done`, kept with their nodes, leaves in `g`: distinct grid points
in the table, each naming a node at a point of that grid point, every point interned named by its
grid point with its node, and each node at the first point interned to it. -/
structure Interned (done : List (Point × Nat)) (g : Contractor) : Prop where
  nodup : (g.keys.map Prod.fst).Nodup
  named : ∀ e ∈ g.keys, g.pos[e.2]?.map gridKey = some e.1
  node : ∀ a ∈ done, (gridKey a.1, a.2) ∈ g.keys
  first : ∀ n, g.pos[n]? = (done.find? (·.2 = n)).map Prod.fst

section Intern

variable {g : Contractor} {p : Point}

theorem intern_of_find {e : (Int × Int) × Nat} (h : g.keys.find? (·.1 = gridKey p) = some e) :
    g.intern p = (e.2, g) := by
  unfold intern
  simp only [h]

theorem intern_of_find_none (h : g.keys.find? (·.1 = gridKey p) = none) :
    (g.intern p).1 = g.pos.size ∧ (g.intern p).2.pos = g.pos.push p ∧
      (g.intern p).2.keys = (gridKey p, g.pos.size) :: g.keys := by
  unfold intern
  simp only [h, and_self]

/-- Interning reads only the positions and the table, and writes them alike. -/
theorem intern_congr {h : Contractor} (hn : g.nodes = h.nodes) (p : Point) :
    (g.intern p).1 = (h.intern p).1 ∧ (g.intern p).2.nodes = (h.intern p).2.nodes := by
  obtain ⟨hpos, hkeys⟩ := Prod.mk.inj hn
  unfold intern
  rw [hkeys]
  cases hf : h.keys.find? (·.1 = gridKey p) with
  | some e =>
    simp only [hf, true_and]
    exact hn
  | none => simp only [hf, nodes, hpos, and_self]

theorem foldl_intern_congr {h : Contractor} (hn : g.nodes = h.nodes) (ps : List Point) :
    (ps.foldl (fun g p => (g.intern p).2) g).nodes = (ps.foldl (fun g p => (g.intern p).2) h).nodes := by
  induction ps generalizing g h with
  | nil => exact hn
  | cons p ps ih => exact ih (intern_congr hn p).2

end Intern

/-- Interning one more point keeps `Interned`: a point whose grid point is in the table gets its
node and changes nothing; any other point becomes a new node, the first interned to it. -/
theorem Interned.intern {done : List (Point × Nat)} {g : Contractor} (h : Interned done g)
    (p : Point) : Interned (done ++ [(p, (g.intern p).1)]) (g.intern p).2 := by
  cases hf : g.keys.find? (·.1 = gridKey p) with
  | some e =>
    have he : e ∈ g.keys := List.mem_of_find?_eq_some hf
    have hkey : e.1 = gridKey p := by simpa using List.find?_some hf
    rw [intern_of_find hf]
    refine ⟨h.nodup, h.named, fun a ha => ?_, fun n => ?_⟩
    · rcases List.mem_append.1 ha with ha | ha
      · exact h.node a ha
      · rw [List.mem_singleton.1 ha, ← hkey]
        exact he
    · rw [h.first n, List.find?_append]
      cases hd : done.find? (·.2 = n) with
      | some a => rfl
      | none =>
        by_cases hn : e.2 = n
        · -- `e` names a node, which some point interned before must have reached first
          have hnamed := h.named e he
          rw [hn, h.first n, hd] at hnamed
          cases hnamed
        · simp [hn]
  | none =>
    obtain ⟨hn, hpos, hkeys⟩ := intern_of_find_none hf
    have hfresh : ∀ e ∈ g.keys, e.1 ≠ gridKey p := by
      intro e he hk
      exact absurd (List.find?_eq_none.1 hf e he) (by simpa using hk)
    have hlt : ∀ e ∈ g.keys, e.2 < g.pos.size := by
      intro e he
      have hnamed := h.named e he
      by_contra hge
      rw [Array.getElem?_eq_none (by omega)] at hnamed
      cases hnamed
    rw [hn]
    refine ⟨?_, fun e he => ?_, fun a ha => ?_, fun n => ?_⟩
    · rw [hkeys, List.map_cons, List.nodup_cons]
      refine ⟨fun hmem => ?_, h.nodup⟩
      obtain ⟨e, he, hk⟩ := List.mem_map.1 hmem
      exact hfresh e he hk
    · rw [hkeys] at he
      rw [hpos, Array.getElem?_push]
      rcases List.mem_cons.1 he with rfl | he
      · simp
      · rw [if_neg (by have := hlt e he; omega)]
        exact h.named e he
    · rw [hkeys]
      rcases List.mem_append.1 ha with ha | ha
      · exact List.mem_cons_of_mem _ (h.node a ha)
      · rw [List.mem_singleton.1 ha]
        exact List.mem_cons_self
    · rw [hpos, Array.getElem?_push, List.find?_append]
      by_cases hns : n = g.pos.size
      · -- no point interned so far reached the new node
        subst hns
        have hnone : done.find? (·.2 = g.pos.size) = none := by
          have := h.first g.pos.size
          rw [Array.getElem?_eq_none (by omega)] at this
          exact Option.map_eq_none_iff.1 this.symm
        simp [hnone]
      · rw [if_neg hns, h.first n]
        cases done.find? (·.2 = n) with
        | some a => rfl
        | none => simp [Ne.symm hns]

theorem interned_nil : Interned [] empty :=
  ⟨List.nodup_nil, fun _ he => absurd he List.not_mem_nil, fun _ ha => absurd ha List.not_mem_nil,
    fun _ => rfl⟩

/-- By induction along the points: interning a list of points from the empty graph leaves
`Interned`, with every point kept in order with its node. -/
theorem interned_internRun (ps : List Point) :
    (empty.internRun ps).1.map Prod.fst = ps ∧ Interned (empty.internRun ps).1 (empty.internRun ps).2 := by
  induction ps using List.reverseRecOn with
  | nil => exact ⟨rfl, interned_nil⟩
  | append_singleton ps p ih =>
    rw [internRun, List.foldl_concat, ← internRun]
    exact ⟨by simp [internStep, ih.1], ih.2.intern p⟩

/-- Two points interned get one node exactly when they share a grid point. -/
theorem Interned.node_eq_iff {done : List (Point × Nat)} {g : Contractor} (h : Interned done g)
    {a b : Point × Nat} (ha : a ∈ done) (hb : b ∈ done) : a.2 = b.2 ↔ gridKey a.1 = gridKey b.1 := by
  constructor
  · intro hab
    have hna := h.named _ (h.node a ha)
    have hnb := h.named _ (h.node b hb)
    simp only at hna hnb
    rw [hab, hnb] at hna
    exact (Option.some.inj hna).symm
  · intro hk
    have hsame := List.inj_on_of_nodup_map h.nodup (h.node a ha) (h.node b hb) hk
    exact (Prod.mk.inj hsame).2

/-- The graph after a run is the graph after interning its points, one after another. -/
theorem internRun_snd (g : Contractor) (ps : List Point) :
    (g.internRun ps).2 = ps.foldl (fun g p => (g.intern p).2) g := by
  unfold internRun
  generalize ([] : List (Point × Nat)) = done
  induction ps generalizing g done with
  | nil => rfl
  | cons p ps ih => exact ih (g.intern p).2 _

end Contractor

namespace RoutingIndex

open Contractor

/-- The points of `f` that building an index interns: all of them for a feature of at least two
points that cars may use, none otherwise. -/
def internedOf (f : Feature) : List Point :=
  if f.points.size < 2 then []
  else
    match SpeedModel.car.speed f with
    | none => []
    | some _ => f.points.toList

/-- The points a build of the index of `region` interns, in order. -/
def internedPoints (store : Store) (region readScale : Nat) : List Point :=
  ((store.regionFeatures region readScale).filterMap fun id =>
    (store.feature region id).toOption).flatMap internedOf

/-- Adding the links of a feature interns its points and adds links, which keep the nodes. -/
theorem nodes_addFeatureLinks (acc : Contractor × Array IndexSegment) (f : Feature) :
    (addFeatureLinks acc f).1.nodes = ((internedOf f).foldl (fun g p => (g.intern p).2) acc.1).nodes := by
  unfold addFeatureLinks internedOf
  by_cases hs : f.points.size < 2
  · simp only [hs, if_true]
    rfl
  · simp only [hs, if_false]
    cases SpeedModel.car.speed f with
    | none => rfl
    | some kmh =>
      simp only
      rw [← Array.foldl_toList]
      -- the graph after interning does not depend on the nodes kept beside it
      have hsnd : (f.points.toList.foldl (fun x p => (x.1.push (x.2.intern p).1, (x.2.intern p).2))
          (#[], acc.1)).2 = f.points.toList.foldl (fun g p => (g.intern p).2) acc.1 := by
        generalize (#[] : Array Nat) = ids
        induction f.points.toList generalizing ids acc with
        | nil => rfl
        | cons p ps ih => exact ih (((acc.1.intern p).2, acc.2)) _
      generalize f.points.toList.foldl (fun x p => (x.1.push (x.2.intern p).1, (x.2.intern p).2))
        (#[], acc.1) = r at hsnd ⊢
      rw [← hsnd]
      refine foldl_invariant (fun (y : Contractor × Array IndexSegment) => y.1.nodes = r.2.nodes)
        rfl ?_
      rintro y i - hy
      split
      · exact hy
      · split <;> simp only [nodes, addLink_pos, addLink_keys] at hy ⊢ <;> exact hy

theorem nodes_foldl_addFeatureLinks (features : List Feature) (acc : Contractor × Array IndexSegment) :
    (features.foldl addFeatureLinks acc).1.nodes =
      ((features.flatMap internedOf).foldl (fun g p => (g.intern p).2) acc.1).nodes := by
  induction features generalizing acc with
  | nil => rfl
  | cons f fs ih =>
    rw [List.foldl_cons, ih, List.flatMap_cons, List.foldl_append]
    exact foldl_intern_congr (nodes_addFeatureLinks acc f) _

/-- The nodes of a built index stand where interning the points of the region's routable
features, in order, puts them. -/
theorem build_nodePos {store : Store} {region readScale : Nat} {crossRegion : Bool}
    {x : RoutingIndex} (h : build store region crossRegion readScale = .ok x) :
    x.nodePos = (empty.internRun (internedPoints store region readScale)).2.pos := by
  rw [(build_eq h).1, ((original_regionGraph store region readScale).contract).2.1, internRun_snd]
  exact congrArg Prod.fst (nodes_foldl_addFeatureLinks _ _)

/-- Building an index merges road points by their grid point: the points interned are those of the
region's routable features in order; two of them get one node exactly when they share a grid point,
so points at identical coordinates always do; and every node stands at the first point interned to
it. -/
theorem build_merges_by_grid_point {store : Store} {region readScale : Nat} {crossRegion : Bool}
    {x : RoutingIndex} (h : build store region crossRegion readScale = .ok x) :
    let interned := (empty.internRun (internedPoints store region readScale)).1
    interned.map Prod.fst = internedPoints store region readScale ∧
      (∀ a ∈ interned, ∀ b ∈ interned, a.2 = b.2 ↔ gridKey a.1 = gridKey b.1) ∧
      (∀ a ∈ interned, ∀ b ∈ interned, a.1 = b.1 → a.2 = b.2) ∧
      ∀ n, x.nodePos[n]? = (interned.find? (·.2 = n)).map Prod.fst := by
  intro interned
  obtain ⟨hpoints, hrun⟩ := interned_internRun (internedPoints store region readScale)
  refine ⟨hpoints, fun a ha b hb => hrun.node_eq_iff ha hb, fun a ha b hb hab => ?_, fun n => ?_⟩
  · exact (hrun.node_eq_iff ha hb).2 (congrArg gridKey hab)
  · rw [build_nodePos h]
    exact hrun.first n

/-- A region registered without roads interns no point and builds an index without nodes. -/
theorem build_merges_by_grid_point_without_roads :
    let x : RoutingIndex := ⟨0, false, #[], #[], Csr.ofLists #[], Csr.ofLists #[], 0,
      SpatialTree.load [], SpatialTree.load []⟩
    let interned := (empty.internRun (internedPoints (StoreBuilder.empty.addRegion 0).build 0 2)).1
    build (StoreBuilder.empty.addRegion 0).build 0 false 2 = .ok x ∧
      interned.map Prod.fst = internedPoints (StoreBuilder.empty.addRegion 0).build 0 2 ∧
      (∀ a ∈ interned, ∀ b ∈ interned, a.2 = b.2 ↔ gridKey a.1 = gridKey b.1) ∧
      (∀ a ∈ interned, ∀ b ∈ interned, a.1 = b.1 → a.2 = b.2) ∧
      ∀ n, x.nodePos[n]? = (interned.find? (·.2 = n)).map Prod.fst := by
  intro x interned
  have hbuild : build (StoreBuilder.empty.addRegion 0).build 0 false 2 = .ok x := rfl
  exact ⟨hbuild, build_merges_by_grid_point hbuild⟩

end RoutingIndex

end Wayfinder
