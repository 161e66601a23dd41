import Mathlib.Data.List.Nodup
import Mathlib.Data.List.Perm.Subperm
import Wayfinder.Index.Border
import Wayfinder.Proofs.Spatial.Load
import Wayfinder.Proofs.Geo.Near
import Wayfinder.Proofs.Index.Interning

/-!
# Nodes shared by two indexes

`borderNodes x y` pairs nodes of `x` with the nodes of `y` at their positions. Measured against
`sharedNodes x y`, which pairs every node of `x` with the node `y.nodeAt` finds at its position, the
answer is sorted and holds no pair that `sharedNodes` does not: the node tree of a built index holds
each node once, at its position (`TreeHoldsNodes`, from the tree's loading only arranging its
items), the box search returns items of the tree, and looking a node up keeps the pairs apart by
their first node. So the pairs are distinct, and each pairs positions within the coordinate
tolerance.

The converse fails: the overlap of the two trees' boxes is taken with `maxNum` and `minNum`, and
a node with a coordinate that is not a number makes a box that meets nothing, so shared nodes can
be missed.
-/

namespace Wayfinder

namespace RoutingIndex

/-- The nodes of `x` as entries of its node tree: each number with its position. -/
def nodeEntries (x : RoutingIndex) : List NodeEntry :=
  (List.range x.nodeCount).map fun i => ⟨i, x.pos i⟩

/-- The node tree of `x` holds every node once, at its position. -/
def TreeHoldsNodes (x : RoutingIndex) : Prop :=
  (SpatialTree.itemsIn x.nodeTree.children).Perm x.nodeEntries

/-- Every node of `x` paired with the node that `y` finds at its position, if any. -/
def sharedNodes (x y : RoutingIndex) : List (Nat × Nat) :=
  (List.range x.nodeCount).filterMap fun i => (y.nodeAt (x.pos i)).map fun o => (i, o)

theorem build_treeHoldsNodes {store : Store} {region readScale : Nat} {crossRegion : Bool}
    {x : RoutingIndex} (h : build store region crossRegion readScale = .ok x) : x.TreeHoldsNodes := by
  unfold build at h
  simp only at h
  split at h
  · cases h
  · cases h
    exact SpatialTree.load_perm _

theorem pairLe_trans (a b c : Nat × Nat) (hab : pairLe a b = true) (hbc : pairLe b c = true) :
    pairLe a c = true := by
  simp only [pairLe, Bool.or_eq_true, decide_eq_true_eq, Bool.and_eq_true] at *
  omega

theorem pairLe_total (a b : Nat × Nat) : (pairLe a b || pairLe b a) = true := by
  simp only [pairLe, Bool.or_eq_true, decide_eq_true_eq, Bool.and_eq_true]
  omega

theorem nodeAt_near {y : RoutingIndex} {p : Point} {o : Nat} (h : y.nodeAt p = some o) :
    (y.pos o).near p = true := by
  unfold nodeAt at h
  split at h
  · split at h
    · cases h
      assumption
    · cases h
  · cases h

theorem mem_sharedNodes {x y : RoutingIndex} {a b : Nat} :
    (a, b) ∈ sharedNodes x y ↔ a < x.nodeCount ∧ y.nodeAt (x.pos a) = some b := by
  simp [sharedNodes]

theorem sharedNodes_nodup (x y : RoutingIndex) : (sharedNodes x y).Nodup := by
  -- each pair carries the node it was looked up for
  refine List.nodup_range.filterMap fun i j p hi hj => ?_
  obtain ⟨o, -, rfl⟩ := Option.mem_map.1 hi
  obtain ⟨o', -, hp⟩ := Option.mem_map.1 hj
  exact (congrArg Prod.fst hp).symm

/-- The pairs found are among the pairs of each node held in the node tree. -/
theorem borderNodes_subperm_items (x y : RoutingIndex) :
    (borderNodes x y).Subperm ((SpatialTree.itemsIn x.nodeTree.children).filterMap fun n =>
      (y.nodeAt n.pos).map fun o => (n.id, o)) := by
  unfold borderNodes
  split
  · dsimp only
    split
    · exact List.nil_subperm
    · exact (List.mergeSort_perm _ _).subperm.trans
        ((SpatialTree.within_sublist _ _).filterMap _).subperm
  · exact List.nil_subperm

theorem TreeHoldsNodes.borderNodes_subperm {x : RoutingIndex} (h : x.TreeHoldsNodes)
    (y : RoutingIndex) : (borderNodes x y).Subperm (sharedNodes x y) := by
  have hperm := h.filterMap fun n => (y.nodeAt n.pos).map fun o => (n.id, o)
  rw [nodeEntries, List.filterMap_map] at hperm
  exact (borderNodes_subperm_items x y).trans hperm.subperm

theorem borderNodes_sorted (x y : RoutingIndex) :
    (borderNodes x y).Pairwise fun a b => pairLe a b = true := by
  unfold borderNodes
  split
  · dsimp only
    split
    · exact List.Pairwise.nil
    · exact List.pairwise_mergeSort pairLe_trans pairLe_total _
  · exact List.Pairwise.nil

/-- The nodes a built index shares with any index come sorted and each pair once; every pair joins
a node of the index to the node found at its position, and the two stand within the coordinate
tolerance of each other. -/
theorem borderNodes_sorted_distinct_sound {store : Store} {region readScale : Nat}
    {crossRegion : Bool} {x : RoutingIndex} (h : build store region crossRegion readScale = .ok x)
    (y : RoutingIndex) :
    (borderNodes x y).Pairwise (fun a b => pairLe a b = true) ∧ (borderNodes x y).Nodup ∧
      ∀ a b, (a, b) ∈ borderNodes x y →
        a < x.nodeCount ∧ y.nodeAt (x.pos a) = some b ∧ (x.pos a).near (y.pos b) = true := by
  have hsub := (build_treeHoldsNodes h).borderNodes_subperm y
  refine ⟨borderNodes_sorted x y, ?_, fun a b hab => ?_⟩
  · obtain ⟨l, hperm, hsl⟩ := hsub
    exact hperm.nodup_iff.1 (hsl.nodup (sharedNodes_nodup x y))
  · obtain ⟨ha, hb⟩ := mem_sharedNodes.1 (hsub.subset hab)
    exact ⟨ha, hb, by rw [Point.near_comm]; exact nodeAt_near hb⟩

/-- A region registered without roads builds an index without nodes, which shares none. -/
theorem borderNodes_sorted_distinct_sound_without_roads :
    let x : RoutingIndex := ⟨0, false, #[], #[], Csr.ofLists #[], Csr.ofLists #[], 0,
      SpatialTree.load [], SpatialTree.load []⟩
    build (StoreBuilder.empty.addRegion 0).build 0 false 2 = .ok x ∧
      (borderNodes x x).Pairwise (fun a b => pairLe a b = true) ∧ (borderNodes x x).Nodup ∧
      ∀ a b, (a, b) ∈ borderNodes x x →
        a < x.nodeCount ∧ x.nodeAt (x.pos a) = some b ∧ (x.pos a).near (x.pos b) = true := by
  intro x
  have hbuild : build (StoreBuilder.empty.addRegion 0).build 0 false 2 = .ok x := rfl
  exact ⟨hbuild, borderNodes_sorted_distinct_sound hbuild x⟩

end RoutingIndex

end Wayfinder
