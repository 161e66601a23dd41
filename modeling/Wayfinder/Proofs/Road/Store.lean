import Mathlib.Data.List.Induction
import Wayfinder.Proofs.Hash.Slots
import Wayfinder.Proofs.Spatial.Load

/-!
# Feature stores answer like a filter over the calls that built them

A store is built from calls on a builder: features added to regions, and regions registered. Its
answers are those of a brute-force reading of the calls (`lastAdded`): a region is known when some
call names it; the feature under a number is the last one added under it; the features drawn at a
scale are those last-added features whose smallest scale is at most it, by ascending number; and,
when the region's box tree answers a rectangle query with exactly the entries whose box meets it
(`SpatialTree.Exact`), the features in a rectangle are those among them with points whose box meets
the rectangle (`store_answers_like_filter`).

Replacement happens in the sorted list of a region's features (`find?_foldl_insertFeature`). The box
tree is loaded from the feature numbers in the slot order of a hash table, which lists every number
added once (`Hash.SlotTable.mem_keys_ofList`), so the tree holds one entry for each kept feature
that has points (`mem_items_tree_buildRegion`).
-/

namespace Wayfinder

/-! ## Calls -/

/-- A call on a store builder: a feature added to a region, or a region registered. -/
inductive StoreCall where
  | addFeature (region : Nat) (f : Feature)
  | addRegion (region : Nat)

namespace StoreCall

/-- The region a call names. -/
def region : StoreCall → Nat
  | .addFeature r _ => r
  | .addRegion r => r

@[simp] theorem region_addFeature (r : Nat) (f : Feature) : (addFeature r f).region = r := rfl

@[simp] theorem region_addRegion (r : Nat) : (addRegion r).region = r := rfl

/-- The feature a call adds to region `r`. -/
def featureIn (r : Nat) : StoreCall → Option Feature
  | .addFeature r' f => if r' = r then some f else none
  | .addRegion _ => none

/-- A call adds nothing to the regions it does not name. -/
theorem featureIn_of_ne {c : StoreCall} {r : Nat} (h : c.region ≠ r) : c.featureIn r = none := by
  cases c with
  | addFeature r' f => simp [featureIn, show r' ≠ r from h]
  | addRegion r' => rfl

end StoreCall

namespace StoreBuilder

/-- Makes one call on the builder. -/
def perform (b : StoreBuilder) : StoreCall → StoreBuilder
  | .addFeature r f => b.addFeature r f
  | .addRegion r => b.addRegion r

/-- The builder after the calls, made in order on the empty builder. -/
def ofCalls (cs : List StoreCall) : StoreBuilder := cs.foldl perform empty

end StoreBuilder

/-- The features added to region `r`, in the order of the calls. -/
def addedTo (cs : List StoreCall) (r : Nat) : List Feature := cs.filterMap (StoreCall.featureIn r)

/-- The last feature added to region `r` under the number `id`. -/
def lastAdded (cs : List StoreCall) (r id : Nat) : Option Feature :=
  (addedTo cs r).reverse.find? (·.id = id)

/-- Only calls naming a region add features to it. -/
theorem addedTo_eq_nil {cs : List StoreCall} {r : Nat} (h : ¬ ∃ c ∈ cs, c.region = r) :
    addedTo cs r = [] := by
  rw [addedTo, List.filterMap_eq_nil_iff]
  exact fun c hc => StoreCall.featureIn_of_ne fun hr => h ⟨c, hc, hr⟩

theorem lastAdded_eq_none {cs : List StoreCall} {r : Nat} (h : ¬ ∃ c ∈ cs, c.region = r)
    (id : Nat) : lastAdded cs r id = none := by
  simp [lastAdded, addedTo_eq_nil h]

/-! ## Features by number -/

/-- Features by strictly ascending number. -/
def Ascending (fs : List Feature) : Prop := fs.Pairwise fun f g => f.id < g.id

theorem mem_insertFeature {f x : Feature} {fs : List Feature} (h : x ∈ insertFeature f fs) :
    x = f ∨ x ∈ fs := by
  induction fs with
  | nil => simpa [insertFeature] using h
  | cons g rest ih =>
    unfold insertFeature at h
    split_ifs at h
    · simpa using h
    · rcases List.mem_cons.1 h with h | h
      · exact .inl h
      · exact .inr (List.mem_cons_of_mem g h)
    · rcases List.mem_cons.1 h with h | h
      · exact .inr (h ▸ List.mem_cons_self)
      · exact (ih h).imp_right (List.mem_cons_of_mem g)

/-- Inserting keeps the numbers ascending: a feature goes before the first greater number, in
place of an equal one. -/
theorem Ascending.insertFeature {fs : List Feature} (h : Ascending fs) (f : Feature) :
    Ascending (Wayfinder.insertFeature f fs) := by
  induction fs with
  | nil => exact List.pairwise_singleton _ f
  | cons g rest ih =>
    rw [Ascending, List.pairwise_cons] at h
    obtain ⟨hg, hrest⟩ := h
    unfold Wayfinder.insertFeature
    split_ifs with hlt heq
    · refine List.pairwise_cons.2 ⟨fun x hx => ?_, List.pairwise_cons.2 ⟨hg, hrest⟩⟩
      rcases List.mem_cons.1 hx with rfl | hx
      · exact hlt
      · exact Nat.lt_trans hlt (hg x hx)
    · exact List.pairwise_cons.2 ⟨fun x hx => heq ▸ hg x hx, hrest⟩
    · refine List.pairwise_cons.2 ⟨fun x hx => ?_, ih hrest⟩
      rcases mem_insertFeature hx with rfl | hx
      · omega
      · exact hg x hx

/-- After an insertion, the feature under a number is the one inserted if it has that number,
and the one before otherwise. -/
theorem find?_insertFeature (f : Feature) (fs : List Feature) (id : Nat) :
    (insertFeature f fs).find? (·.id = id) =
      if f.id = id then some f else fs.find? (·.id = id) := by
  induction fs with
  | nil => by_cases hf : f.id = id <;> simp [insertFeature, hf]
  | cons g rest ih =>
    unfold insertFeature
    by_cases hf : f.id = id <;> by_cases hg : g.id = id <;> split_ifs <;> simp_all

/-- By induction on the features added: under each number, the last feature added with it. -/
theorem find?_foldl_insertFeature (added acc : List Feature) (id : Nat) :
    (added.foldl (fun acc f => insertFeature f acc) acc).find? (·.id = id) =
      (added.reverse.find? (·.id = id)).or (acc.find? (·.id = id)) := by
  induction added generalizing acc with
  | nil => simp
  | cons f rest ih =>
    rw [List.foldl_cons, ih, find?_insertFeature, List.reverse_cons, List.find?_append,
      Option.or_assoc]
    by_cases hf : f.id = id <;> simp [hf]

theorem Ascending.foldl_insertFeature (added : List Feature) {acc : List Feature}
    (h : Ascending acc) :
    Ascending (added.foldl (fun acc f => Wayfinder.insertFeature f acc) acc) := by
  induction added generalizing acc with
  | nil => exact h
  | cons f rest ih => exact ih (h.insertFeature f)

/-- In a list by ascending number, a feature is there exactly when it is found under its number. -/
theorem Ascending.mem_iff {fs : List Feature} (h : Ascending fs) {f : Feature} :
    f ∈ fs ↔ fs.find? (·.id = f.id) = some f := by
  refine ⟨fun hf => ?_, List.mem_of_find?_eq_some⟩
  induction fs with
  | nil => cases hf
  | cons g rest ih =>
    rw [Ascending, List.pairwise_cons] at h
    rcases List.mem_cons.1 hf with rfl | hf
    · simp
    · have hne : g.id ≠ f.id := Nat.ne_of_lt (h.1 f hf)
      simp [hne, ih h.2 hf]

/-! ## Regions of a builder -/

namespace StoreBuilder

/-- Changing region `r` gives it the change of its features, `#[]` for a new region, and leaves
every other region as it was. -/
theorem find?_modifyRegion (b : StoreBuilder) (r r' : Nat) (h : Array Feature → Array Feature) :
    (b.modifyRegion r h).regions.find? (·.1 = r') =
      if r = r' then some (r, h (((b.regions.find? (·.1 = r)).map Prod.snd).getD #[]))
      else b.regions.find? (·.1 = r') := by
  unfold modifyRegion
  split
  next hany =>
    -- The region is there: every entry keeps its number, the entries of `r` change.
    have hkey : ((fun g : Nat × Array Feature => decide (g.1 = r')) ∘
        fun g => if g.1 = r then (r, h g.2) else g) = fun g => decide (g.1 = r') := by
      funext g
      by_cases hg : g.1 = r <;> simp [hg]
    rw [List.find?_map, hkey]
    split_ifs with hr
    · subst hr
      obtain ⟨x, hx⟩ : ∃ x, (r, x) ∈ b.regions := by simpa using hany
      have hsome : (b.regions.find? (·.1 = r)).isSome := List.find?_isSome.2 ⟨(r, x), hx, by simp⟩
      obtain ⟨g, hg⟩ := Option.isSome_iff_exists.1 hsome
      have hgr : g.1 = r := by simpa using List.find?_some hg
      rw [hg]
      simp [hgr]
    · cases hf : b.regions.find? (·.1 = r') with
      | none => rfl
      | some g =>
        have hgr : g.1 = r' := by simpa using List.find?_some hf
        simp [hgr, Ne.symm hr]
  next hany =>
    -- A new region goes last.
    have hnone : b.regions.find? (·.1 = r) = none := by
      rw [List.find?_eq_none]
      rintro ⟨r'', x⟩ hx hr''
      simp only [decide_eq_true_eq] at hr''
      subst hr''
      exact (by simpa using hany : ∀ x, (r'', x) ∉ b.regions) x hx
    rw [List.find?_append]
    split_ifs with hr
    · subst hr
      simp [hnone]
    · simp [hr]

theorem addedTo_concat (cs : List StoreCall) (c : StoreCall) (r : Nat) :
    addedTo (cs ++ [c]) r = addedTo cs r ++ (c.featureIn r).toList := by
  simp only [addedTo, List.filterMap_append, List.filterMap_cons, List.filterMap_nil]
  cases c.featureIn r <;> rfl

/-- A call gives the region it names the features it adds there, a new region starting
without features, and leaves every other region as it was. -/
theorem find?_perform (b : StoreBuilder) (c : StoreCall) (r : Nat) :
    (b.perform c).regions.find? (·.1 = r) =
      if c.region = r then
        some (r, (((b.regions.find? (·.1 = r)).map Prod.snd).getD #[]) ++ (c.featureIn r).toArray)
      else b.regions.find? (·.1 = r) := by
  cases c with
  | addFeature r' f =>
    rw [perform, addFeature, find?_modifyRegion]
    by_cases hr : r' = r
    · subst hr
      simp [StoreCall.featureIn]
    · simp [hr]
  | addRegion r' =>
    rw [perform, addRegion, find?_modifyRegion]
    by_cases hr : r' = r
    · subst hr
      simp [StoreCall.featureIn]
    · simp [hr]

/-- After the calls, the builder has region `r` exactly when a call names it, with the features
added to it in order. -/
theorem find?_ofCalls (cs : List StoreCall) (r : Nat) :
    (ofCalls cs).regions.find? (·.1 = r) =
      if ∃ c ∈ cs, c.region = r then some (r, (addedTo cs r).toArray) else none := by
  induction cs using List.reverseRecOn with
  | nil => rfl
  | append_singleton cs c ih =>
    rw [ofCalls, List.foldl_concat, ← ofCalls, find?_perform, addedTo_concat, ih]
    by_cases hr : c.region = r
    · by_cases hnamed : ∃ c ∈ cs, c.region = r
      · simp [hr, hnamed]
      · simp [hr, hnamed, addedTo_eq_nil hnamed]
    · simp [hr, StoreCall.featureIn_of_ne hr]

end StoreBuilder

/-! ## The built store -/

/-- The features region `r` keeps after the calls: under each number the last one added, by
ascending number. -/
def kept (cs : List StoreCall) (r : Nat) : List Feature :=
  (addedTo cs r).foldl (fun acc f => insertFeature f acc) []

theorem ascending_kept (cs : List StoreCall) (r : Nat) : Ascending (kept cs r) :=
  Ascending.foldl_insertFeature _ List.Pairwise.nil

theorem find?_kept (cs : List StoreCall) (r id : Nat) :
    (kept cs r).find? (·.id = id) = lastAdded cs r id := by
  rw [kept, find?_foldl_insertFeature]
  simp [lastAdded]

theorem mem_kept {cs : List StoreCall} {r : Nat} {f : Feature} :
    f ∈ kept cs r ↔ lastAdded cs r f.id = some f := by
  rw [(ascending_kept cs r).mem_iff, find?_kept]

/-- The numbers of the kept features that pass a test are the numbers whose last feature passes
it. -/
theorem mem_ids_kept {cs : List StoreCall} {r n : Nat} {p : Feature → Bool} :
    n ∈ ((kept cs r).filter p).map Feature.id ↔ ∃ f, lastAdded cs r n = some f ∧ p f = true := by
  simp only [List.mem_map, List.mem_filter]
  constructor
  · rintro ⟨f, ⟨hf, hp⟩, rfl⟩
    exact ⟨f, mem_kept.1 hf, hp⟩
  · rintro ⟨f, hf, hp⟩
    have hid : f.id = n := by simpa using List.find?_some hf
    exact ⟨f, ⟨mem_kept.2 (hid ▸ hf), hp⟩, hid⟩

theorem ids_kept_ascending (cs : List StoreCall) (r : Nat) (p : Feature → Bool) :
    (((kept cs r).filter p).map Feature.id).Pairwise (· < ·) :=
  List.pairwise_map.2 ((ascending_kept cs r).filter p)

theorem StoreBuilder.region?_build (b : StoreBuilder) (r : Nat) :
    b.build.region? r =
      (b.regions.find? (·.1 = r)).map fun g => StoreBuilder.buildRegion g.1 g.2 := by
  unfold StoreBuilder.build Store.region?
  rw [List.find?_map]
  rfl

/-- The built store has region `r` exactly when a call names it, built from the features added
to it. -/
theorem region?_ofCalls (cs : List StoreCall) (r : Nat) :
    (StoreBuilder.ofCalls cs).build.region? r =
      if ∃ c ∈ cs, c.region = r then some (StoreBuilder.buildRegion r (addedTo cs r).toArray)
      else none := by
  rw [StoreBuilder.region?_build, StoreBuilder.find?_ofCalls]
  split_ifs <;> rfl

theorem features_buildRegion (r : Nat) (cs : List StoreCall) :
    (StoreBuilder.buildRegion r (addedTo cs r).toArray).features = kept cs r := by
  simp [StoreBuilder.buildRegion, kept]

theorem features?_ofCalls (cs : List StoreCall) (r : Nat) :
    (StoreBuilder.ofCalls cs).build.features? r =
      if ∃ c ∈ cs, c.region = r then some (kept cs r) else none := by
  rw [Store.features?, region?_ofCalls]
  split_ifs
  · simp [features_buildRegion]
  · rfl

section Answers

variable (cs : List StoreCall) (r : Nat)

theorem hasRegion_ofCalls :
    (StoreBuilder.ofCalls cs).build.hasRegion r = true ↔ ∃ c ∈ cs, c.region = r := by
  rw [Store.hasRegion, features?_ofCalls]
  split_ifs with h <;> simp [h]

/-- The feature under a number is the last one added under it, and otherwise the error names the
region and the number. -/
theorem feature_ofCalls (id : Nat) :
    (StoreBuilder.ofCalls cs).build.feature r id =
      (lastAdded cs r id).elim (.error (.featureNotFound r id)) .ok := by
  have hfind : ((StoreBuilder.ofCalls cs).build.features? r).bind
      (fun fs => fs.find? fun f => f.id = id) = lastAdded cs r id := by
    rw [features?_ofCalls]
    split_ifs with h
    · exact find?_kept cs r id
    · exact (lastAdded_eq_none h id).symm
  unfold Store.feature
  rw [hfind]
  cases lastAdded cs r id <;> rfl

theorem regionFeatures_ofCalls (scale : Nat) :
    (StoreBuilder.ofCalls cs).build.regionFeatures r scale =
      ((kept cs r).filter fun f => f.minScale ≤ scale).map Feature.id := by
  rw [Store.regionFeatures, features?_ofCalls]
  split_ifs with h
  · rfl
  · simp [kept, addedTo_eq_nil h]

end Answers

/-! ## Rectangle queries -/

/-- A box tree that answers every rectangle query with exactly the items whose box meets the
rectangle. The search finds nothing else (`within_sublist`); that it misses nothing is what an
R-tree promises, and what NaN coordinates can break in this tree. -/
def SpatialTree.Exact {α : Type} [Bounded α] (t : SpatialTree α) : Prop :=
  ∀ q x, x ∈ t.within q ↔ x ∈ itemsIn t.children ∧ (Bounded.bounds x).meets q = true

/-- Whether a feature is drawn at `scale` and has points whose box meets `q`. -/
def Feature.inRect (q : Box) (scale : Nat) (f : Feature) : Bool :=
  decide (f.minScale ≤ scale) && f.envelope.any (·.meets q)

theorem Box.meets_comm (x y : Box) : x.meets y = y.meets x := by
  simp only [Box.meets, ge_iff_le, Bool.and_assoc, Bool.and_comm, Bool.and_left_comm]

/-- A box with no infinite coordinate covers itself. -/
theorem Box.cover_singleton {b : Box} (h₁ : ¬ Box.maxFinite < b.lo.lat)
    (h₂ : ¬ Box.maxFinite < b.lo.lon) (h₃ : ¬ b.hi.lat < -Box.maxFinite)
    (h₄ : ¬ b.hi.lon < -Box.maxFinite) : Box.cover [b] = b := by
  simp [Box.cover, Box.merge, Box.empty, Box.lower, Box.upper, h₁, h₂, h₃, h₄, GT.gt]

/-- A tree of one item whose box covers itself answers exactly. -/
theorem SpatialTree.exact_load_singleton {α : Type} [Inhabited α] [Bounded α] (x : α)
    (hcover : Box.cover [Bounded.bounds x] = Bounded.bounds x) : (SpatialTree.load [x]).Exact := by
  have hload : SpatialTree.load [x] = ⟨Box.cover [Bounded.bounds x], [.leaf x]⟩ := rfl
  rw [hload, hcover]
  intro q y
  simp only [SpatialTree.within, SpatialTree.hitsIn, SpatialTree.hitsOf, SpatialTree.itemsIn,
    SpatialTree.itemsOf, Box.meets_comm q]
  by_cases hx : (Bounded.bounds x).meets q = true
  · simp only [hx]
    constructor
    · intro hy
      simp only [List.isEmpty_cons, Bool.not_false, Bool.and_self, ↓reduceIte, List.nil_append,
        List.mem_singleton] at hy
      subst hy
      exact ⟨by simp, hx⟩
    · rintro ⟨hy, -⟩
      simpa using hy
  · simp only [hx, List.isEmpty_cons, Bool.not_false, Bool.and_false, Bool.false_eq_true,
      ↓reduceIte, List.not_mem_nil, List.nil_append, List.mem_singleton, false_iff, not_and]
    rintro rfl
    exact hx

theorem Ascending.eq_of_id_eq {fs : List Feature} (h : Ascending fs) {f g : Feature}
    (hf : f ∈ fs) (hg : g ∈ fs) (hid : f.id = g.id) : f = g := by
  have hff := h.mem_iff.1 hf
  rw [hid, h.mem_iff.1 hg] at hff
  exact (Option.some.inj hff).symm

/-- The tree of a region holds one entry for each kept feature that has points: its box, number
and smallest scale. Every number added is in the slot order it is loaded in. -/
theorem mem_items_tree_buildRegion (cs : List StoreCall) (r : Nat) (e : FeatureEntry) :
    e ∈ SpatialTree.itemsIn (StoreBuilder.buildRegion r (addedTo cs r).toArray).tree.children ↔
      ∃ f ∈ kept cs r, ∃ b, f.envelope = some b ∧ e = ⟨b, f.id, f.minScale⟩ := by
  have hkept : (addedTo cs r).toArray.foldl (fun acc f => insertFeature f acc) [] = kept cs r := by
    simp [kept]
  simp only [StoreBuilder.buildRegion]
  rw [(SpatialTree.load_perm _).mem_iff, List.mem_filterMap, hkept]
  simp only [Hash.SlotTable.mem_keys_ofList, List.mem_map]
  constructor
  · rintro ⟨n, ⟨f₀, -, rfl⟩, hsome⟩
    obtain ⟨f, hf, hentry⟩ := Option.bind_eq_some_iff.1 hsome
    obtain ⟨b, hb, rfl⟩ := Option.map_eq_some_iff.1 hentry
    have hid : f.id = f₀.id := by simpa using List.find?_some hf
    exact ⟨f, List.mem_of_find?_eq_some hf, b, hb, by rw [hid]⟩
  · -- A kept feature was added, so its number went into the table.
    rintro ⟨f, hf, b, hb, rfl⟩
    refine ⟨f.id, ⟨f, List.mem_reverse.1 (List.mem_of_find?_eq_some (mem_kept.1 hf)), rfl⟩, ?_⟩
    rw [(ascending_kept cs r).mem_iff.1 hf]
    simp [hb]

/-- When the region's tree answers exactly, the features in a rectangle are the kept features
drawn at the scale whose points have a box meeting the rectangle, by ascending number. -/
theorem featuresInRect_ofCalls (cs : List StoreCall) (r : Nat) (a b : Point) (scale : Nat)
    (hexact : ∀ g, (StoreBuilder.ofCalls cs).build.region? r = some g → g.tree.Exact) :
    (StoreBuilder.ofCalls cs).build.featuresInRect r a b scale =
      ((kept cs r).filter (Feature.inRect (Box.ofCorners a b) scale)).map Feature.id := by
  unfold Store.featuresInRect
  rw [region?_ofCalls] at hexact ⊢
  split_ifs with h
  · have htree := hexact _ (if_pos h)
    dsimp only
    rw [features_buildRegion]
    congr 1
    refine List.filter_congr fun f hf => ?_
    -- A hit carries the number of `f` exactly when it is the entry of `f` itself.
    rw [Bool.eq_iff_iff, List.contains_iff_mem]
    simp only [List.mem_map, List.mem_filter, htree _ _, mem_items_tree_buildRegion]
    constructor
    · rintro ⟨_, ⟨⟨⟨f', hf', e, he, rfl⟩, hmeets⟩, hscale⟩, hid⟩
      obtain rfl : f' = f := (ascending_kept cs r).eq_of_id_eq hf' hf hid
      simp only [Feature.inRect, hscale, he, Option.any_some, Bool.true_and]
      exact hmeets
    · intro hin
      simp only [Feature.inRect, Bool.and_eq_true, Option.any_eq_true] at hin
      obtain ⟨hscale, e, he, hmeets⟩ := hin
      exact ⟨⟨e, f.id, f.minScale⟩, ⟨⟨⟨f, hf, e, he, rfl⟩, hmeets⟩, hscale⟩, rfl⟩
  · simp [kept, addedTo_eq_nil h]

/-- Feature 5 added again with one point and drawn from scale 3 replaces its first version, which
had scale 10, so a query at scale 4 finds it; feature 9 has no points. -/
example : (StoreBuilder.ofCalls
    [.addFeature 0 ⟨5, .residential, false, 10, none, #[⟨1.0, 2.0⟩, ⟨1.5, 2.5⟩]⟩, .addRegion 2,
     .addFeature 0 ⟨9, .service, false, 1, none, #[]⟩,
     .addFeature 0 ⟨5, .primary, true, 3, none, #[⟨0.5, 0.25⟩]⟩]).build.featuresInRect 0
      ⟨0.0, 0.0⟩ ⟨1.0, 1.0⟩ 4 = [5] := by
  decide +kernel

/-! ## The store against the calls -/

/-- A store built from any calls answers like a filter over them: it has the regions the calls
name; under a number it holds the last feature added, and otherwise reports the region and number
missing; the features drawn at a scale are the last-added ones whose smallest scale is at most it,
by ascending number; and when the region's box tree answers rectangle queries exactly, the features
in a rectangle are those among them with points whose box meets it, by ascending number. -/
theorem store_answers_like_filter (cs : List StoreCall) (r id scale : Nat) (a b : Point) :
    ((StoreBuilder.ofCalls cs).build.hasRegion r = true ↔ ∃ c ∈ cs, c.region = r) ∧
    (StoreBuilder.ofCalls cs).build.feature r id =
      (lastAdded cs r id).elim (.error (.featureNotFound r id)) .ok ∧
    ((StoreBuilder.ofCalls cs).build.regionFeatures r scale).Pairwise (· < ·) ∧
    (∀ n, n ∈ (StoreBuilder.ofCalls cs).build.regionFeatures r scale ↔
      ∃ f, lastAdded cs r n = some f ∧ f.minScale ≤ scale) ∧
    ((∀ g, (StoreBuilder.ofCalls cs).build.region? r = some g → g.tree.Exact) →
      ((StoreBuilder.ofCalls cs).build.featuresInRect r a b scale).Pairwise (· < ·) ∧
      ∀ n, n ∈ (StoreBuilder.ofCalls cs).build.featuresInRect r a b scale ↔
        ∃ f e, lastAdded cs r n = some f ∧ f.minScale ≤ scale ∧ f.envelope = some e ∧
          e.meets (Box.ofCorners a b) = true) := by
  refine ⟨hasRegion_ofCalls cs r, feature_ofCalls cs r id, ?_, fun n => ?_, fun hexact => ?_⟩
  · rw [regionFeatures_ofCalls]
    exact ids_kept_ascending cs r _
  · rw [regionFeatures_ofCalls, mem_ids_kept]
    simp
  · rw [featuresInRect_ofCalls cs r a b scale hexact]
    refine ⟨ids_kept_ascending cs r _, fun n => ?_⟩
    rw [mem_ids_kept]
    simp [Feature.inRect, Option.any_eq_true]

/-- Feature 5 of region 0 added twice, the second time drawn from scale 3 with one point, beside
feature 9 without points, and region 2 registered empty: the tree holds feature 5 alone. -/
theorem store_answers_like_filter_on_replaced_feature :
    let f₁ : Feature := ⟨5, .residential, false, 10, none, #[⟨1.0, 2.0⟩, ⟨1.5, 2.5⟩]⟩
    let f₂ : Feature := ⟨5, .primary, true, 3, none, #[⟨0.5, 0.25⟩]⟩
    let f₃ : Feature := ⟨9, .service, false, 1, none, #[]⟩
    let cs : List StoreCall :=
      [.addFeature 0 f₁, .addRegion 2, .addFeature 0 f₃, .addFeature 0 f₂]
    (∀ g, (StoreBuilder.ofCalls cs).build.region? 0 = some g → g.tree.Exact) ∧
      ((StoreBuilder.ofCalls cs).build.featuresInRect 0 ⟨0.0, 0.0⟩ ⟨1.0, 1.0⟩ 4).Pairwise
        (· < ·) ∧
      ∀ n, n ∈ (StoreBuilder.ofCalls cs).build.featuresInRect 0 ⟨0.0, 0.0⟩ ⟨1.0, 1.0⟩ 4 ↔
        ∃ f e, lastAdded cs 0 n = some f ∧ f.minScale ≤ 4 ∧ f.envelope = some e ∧
          e.meets (Box.ofCorners ⟨0.0, 0.0⟩ ⟨1.0, 1.0⟩) = true := by
  intro f₁ f₂ f₃ cs
  have hexact : ∀ g, (StoreBuilder.ofCalls cs).build.region? 0 = some g → g.tree.Exact := by
    intro g hg
    rw [region?_ofCalls, if_pos ⟨_, List.mem_cons_self, rfl⟩, Option.some.injEq] at hg
    subst hg
    -- The table lists 9 before 5, and only feature 5 has points.
    have hkeys : (Hash.SlotTable.ofList ((addedTo cs 0).map Feature.id)).keys = [9, 5] := by
      decide +kernel
    have htree : (StoreBuilder.buildRegion 0 (addedTo cs 0).toArray).tree =
        SpatialTree.load [⟨Box.ofCorners ⟨0.5, 0.25⟩ ⟨0.5, 0.25⟩, 5, 3⟩] := by
      simp only [StoreBuilder.buildRegion, hkeys]
      rfl
    rw [htree]
    exact SpatialTree.exact_load_singleton _ (Box.cover_singleton (by decide +kernel)
      (by decide +kernel) (by decide +kernel) (by decide +kernel))
  exact ⟨hexact, (store_answers_like_filter cs 0 5 4 ⟨0.0, 0.0⟩ ⟨1.0, 1.0⟩).2.2.2.2 hexact⟩

end Wayfinder
