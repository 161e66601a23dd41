import Wayfinder.Proofs.Road.Lookup
import Wayfinder.Road.Graph.Turns
import Wayfinder.Road.Graph.Snap
import Wayfinder.Road.Graph.Path

/-!
# The feature cache is transparent

Every operation of a road graph answers what the same operation answers on a graph that decodes
each feature afresh from the store. The uncached graph is written out here as plain functions of
the graph (`freshSecs`, `freshAdjacent`, `freshSnap`, `freshLegs`, …). Next to each stands the list
of features the operation looks up, in order: the position's own feature before the features
around a junction, every feature near a snapped point, and the positions of a path up to the first
one that cannot be placed.

Each operation is shown to `Serve` its uncached answer with its lookups. A sequence of calls
(`Call`, answered by `serve`) then answers as the uncached graph does, call by call. Its ledger is
the lookups of the calls in order, and a reset empties the cache and keeps the counters. The
accesses count the lookups, the cache stays within its capacity, and it holds only features as the
store decodes them.
-/

namespace Wayfinder

namespace RoadGraph

/-! ## The uncached graph -/

section Fresh

variable (g : RoadGraph)

/-- Travel time along a position, its feature decoded afresh. -/
def freshSecs (p : Position) : Option Float :=
  (g.fresh p.feature).bind fun f =>
    if !f.routable || p.seg ≥ f.segmentCount then none else some (f.segmentSecs p.seg)

/-- The start and end points of a position, its feature decoded afresh. -/
def freshPoints (p : Position) : Option (Point × Point) :=
  (g.fresh p.feature).bind fun f =>
    match f.points[p.startIndex]?, f.points[p.endIndex]? with
    | some a, some b => some (a, b)
    | _, _ => none

/-- The turns that feature `id`, decoded as `f?`, adds at `junction`. -/
def turnsOf (pos : Position) (outgoing : Bool) (junction : Point) (id : Nat) :
    Option Decoded → List (Position × Float)
  | none => []
  | some f => if f.routable then turnsAlong g.region pos outgoing junction id f else []

/-- The point of a position where its turns meet. -/
def junctionOf (pos : Position) (outgoing : Bool) (own : Decoded) : Option Point :=
  own.points[if outgoing then pos.endIndex else pos.startIndex]?

/-- The turns out of the end of `pos` (`outgoing`) or into its start, every feature decoded
afresh; the position's own feature is decoded once. -/
def freshAdjacent (pos : Position) (outgoing : Bool) : List (Position × Float) :=
  match g.fresh pos.feature with
  | none => []
  | some own =>
    match junctionOf pos outgoing own with
    | none => []
    | some junction =>
      (g.featuresNear junction junctionRadius).flatMap fun id =>
        g.turnsOf pos outgoing junction id (if id = pos.feature then some own else g.fresh id)

/-- The features the turns of a position look up: its own, then those near the junction other
than its own. -/
def adjacentLookups (pos : Position) (outgoing : Bool) : List Nat :=
  [pos.feature] ++
    match g.fresh pos.feature with
    | none => []
    | some own =>
      match junctionOf pos outgoing own with
      | none => []
      | some junction => (g.featuresNear junction junctionRadius).filter (· ≠ pos.feature)

/-- The snaps that feature `id`, decoded as `f?`, adds. -/
def snapsOf (p : Point) (radius : Float) (id : Nat) : Option Decoded → List Snap
  | none => []
  | some f => if f.routable then g.snapsAlong p radius id f else []

/-- Snaps of `p` within `radius`, nearest first, every feature decoded afresh. -/
def freshSnap (p : Point) (radius : Float) : List Snap :=
  ((g.featuresNear p radius).flatMap fun id => g.snapsOf p radius id (g.fresh id)).mergeSort
    Snap.before

/-- The legs of a path, every feature decoded afresh. -/
def freshLegs : List Position → Except RoadError (List Leg)
  | [] => .ok []
  | p :: rest =>
    match g.freshPoints p with
    | none => .error (.disconnected p.feature)
    | some (a, b) => (freshLegs rest).map (⟨p.feature, a, b⟩ :: ·)

/-- The features the legs of a path look up: one per position, up to the first that cannot be
placed. -/
def legsLookups : List Position → List Nat
  | [] => []
  | p :: rest =>
    [p.feature] ++
      match g.freshPoints p with
      | none => []
      | some _ => legsLookups rest

end Fresh

/-! ## Each operation serves its uncached answer -/

section Operations

variable (g₀ : RoadGraph)

theorem serves_positionSecs (p : Position) :
    Serves g₀ (positionSecs p) (g₀.freshSecs p) [p.feature] := by
  rw [positionSecs]
  apply (serves_feature g₀ p.feature).bind_pure
  rw [freshSecs]
  cases g₀.fresh p.feature with
  | none => rfl
  | some f =>
    simp only [Option.bind_some]
    split <;> rfl

theorem serves_positionPoints (p : Position) :
    Serves g₀ (positionPoints p) (g₀.freshPoints p) [p.feature] := by
  rw [positionPoints]
  apply (serves_feature g₀ p.feature).bind_pure
  rw [freshPoints]
  cases g₀.fresh p.feature with
  | none => rfl
  | some f =>
    simp only [Option.bind_some]
    cases f.points[p.startIndex]? <;> cases f.points[p.endIndex]? <;> rfl

/-- The turns a candidate adds, once it is decoded: the region is read from the graph, and every
graph over `g₀` has its region. -/
theorem serves_turnsOf (pos : Position) (outgoing : Bool) (junction : Point) (id : Nat) (f : Decoded)
    (out : List (Position × Float)) :
    Serves g₀
      (if f.routable then
        (get >>= fun g => pure (ForInStep.yield (out ++ turnsAlong g.region pos outgoing junction id f)))
       else pure (.yield out))
      (.yield (out ++ g₀.turnsOf pos outgoing junction id (some f))) [] := by
  by_cases hr : f.routable
  · rw [if_pos hr, turnsOf, if_pos hr]
    apply Serves.get_bind
    · intro g hg
      rw [hg.region]
    · exact serves_pure g₀ _
  · rw [if_neg hr, turnsOf, if_neg hr, List.append_nil]
    exact serves_pure g₀ _

/-- Skipping one id and keeping the others singly keeps the others. -/
theorem flatMap_skip (l : List Nat) (a : Nat) :
    l.flatMap (fun id => if id = a then [] else [id]) = l.filter (· ≠ a) := by
  induction l with
  | nil => rfl
  | cons b l ih => by_cases h : b = a <;> simp [h, ih]

theorem serves_adjacent (pos : Position) (outgoing : Bool) :
    Serves g₀ (adjacent pos outgoing) (g₀.freshAdjacent pos outgoing)
      (g₀.adjacentLookups pos outgoing) := by
  rw [adjacent, freshAdjacent, adjacentLookups]
  apply (serves_feature g₀ pos.feature).bind
  cases g₀.fresh pos.feature with
  | none => exact serves_pure g₀ []
  | some own =>
    simp only [junctionOf]
    cases own.points[if outgoing then pos.endIndex else pos.startIndex]? with
    | none => exact serves_pure g₀ []
    | some junction =>
      simp only
      apply Serves.get_bind
      · intro g hg
        rw [hg.featuresNear_eq]
      · rw [List.flatMap_eq_foldl]
        -- The loop over the candidates: the own feature is reused, every other one looked up.
        refine Serves.map (serves_forIn _ [] (fun id out => ?_) (flatMap_skip _ _))
        by_cases hid : id = pos.feature
        · simp only [if_pos hid, pure_bind]
          exact serves_turnsOf g₀ pos outgoing junction id own out
        · simp only [if_neg hid]
          apply (serves_feature g₀ id).bind
          cases g₀.fresh id with
          | none =>
            rw [turnsOf, List.append_nil]
            exact serves_pure g₀ _
          | some f => exact serves_turnsOf g₀ pos outgoing junction id f out

theorem snapsAlong_eq_of_region {g g' : RoadGraph} (h : g.region = g'.region) :
    g.snapsAlong = g'.snapsAlong := by
  funext p radius id f
  rw [snapsAlong, snapsAlong, h]

theorem serves_snap (p : Point) (radius : Float) :
    Serves g₀ (snap p radius) (g₀.freshSnap p radius) (g₀.featuresNear p radius) := by
  rw [snap, freshSnap, List.flatMap_eq_foldl]
  apply Serves.get_bind
  · intro g hg
    rw [hg.featuresNear_eq]
  · simp only
    -- The loop over the candidates looks each one up once.
    refine Serves.map (serves_forIn _ [] (fun id out => ?_) (List.flatMap_singleton' _))
    apply (serves_feature g₀ id).bind
    cases g₀.fresh id with
    | none =>
      rw [snapsOf, List.append_nil]
      exact serves_pure g₀ _
    | some f =>
      by_cases hr : f.routable
      · simp only [snapsOf, if_pos hr]
        apply Serves.get_bind
        · intro g hg
          rw [snapsAlong_eq_of_region hg.region]
        · exact serves_pure g₀ _
      · simp only [snapsOf, if_neg hr, List.append_nil]
        exact serves_pure g₀ _

/-- By induction on the path: each position is placed before the rest, and the first that
cannot be placed ends the lookups. -/
theorem serves_legs (path : List Position) :
    Serves g₀ (legs path) (g₀.freshLegs path) (g₀.legsLookups path) := by
  induction path with
  | nil => exact serves_pure g₀ _
  | cons p rest ih =>
    rw [legs, freshLegs, legsLookups]
    apply (serves_positionPoints g₀ p).bind
    cases g₀.freshPoints p with
    | none => exact serves_pure g₀ _
    | some ends =>
      obtain ⟨a, b⟩ := ends
      apply ih.bind_pure
      cases g₀.freshLegs rest <;> rfl

end Operations

/-! ## Sequences of calls -/

/-- The calls a road graph answers. -/
inductive Call where
  | feature (id : Nat)
  | positionSecs (p : Position)
  | positionPoints (p : Position)
  | possibleTurns (p : Position)
  | incomingTurns (p : Position)
  | snap (p : Point) (radius : Float)
  | path (path : List Position) (mode : Mode)
  | pathBetween (path : List Position) (start finish : Point) (mode : Mode)
  | softReset

/-- What a call answers. -/
inductive Reply where
  | feature (f : Option Decoded)
  | secs (s : Option Float)
  | points (ends : Option (Point × Point))
  | turns (ts : List (Position × Float))
  | snaps (ss : List Snap)
  | route (r : Except RoadError Route)
  | done

/-- Answers a call. -/
def serve : Call → StateM RoadGraph Reply
  | .feature id => do return .feature (← feature id)
  | .positionSecs p => do return .secs (← positionSecs p)
  | .positionPoints p => do return .points (← positionPoints p)
  | .possibleTurns p => do return .turns (← possibleTurns p)
  | .incomingTurns p => do return .turns (← incomingTurns p)
  | .snap p radius => do return .snaps (← snap p radius)
  | .path ps mode => do return .route (← pathRoute ps mode)
  | .pathBetween ps start finish mode => do return .route (← pathRouteBetween ps start finish mode)
  | .softReset => do modify softReset; return .done

/-- What the uncached graph answers. -/
def answer (g : RoadGraph) : Call → Reply
  | .feature id => .feature (g.fresh id)
  | .positionSecs p => .secs (g.freshSecs p)
  | .positionPoints p => .points (g.freshPoints p)
  | .possibleTurns p => .turns (g.freshAdjacent p true)
  | .incomingTurns p => .turns (g.freshAdjacent p false)
  | .snap p radius => .snaps (g.freshSnap p radius)
  | .path ps mode => .route ((g.freshLegs ps).map (Route.assemble mode))
  | .pathBetween ps start finish mode =>
    .route ((g.freshLegs ps).map fun ls => Route.assemble mode (pinEnds start finish ls))
  | .softReset => .done

/-- The features a call looks up, in order. -/
def lookupsOf (g : RoadGraph) : Call → List Nat
  | .feature id => [id]
  | .positionSecs p | .positionPoints p => [p.feature]
  | .possibleTurns p => g.adjacentLookups p true
  | .incomingTurns p => g.adjacentLookups p false
  | .snap p radius => g.featuresNear p radius
  | .path ps _ | .pathBetween ps _ _ _ => g.legsLookups ps
  | .softReset => []

/-- The ledger after a call: its lookups in order; a reset empties the cache and keeps the
counters. -/
def Ledger.after (g₀ : RoadGraph) (l : Ledger) : Call → Ledger
  | .softReset => { l with cached := l.cached.clear }
  | c => l.lookups g₀.decode (g₀.lookupsOf c)

theorem Ledger.after_of_ne {g₀ : RoadGraph} (l : Ledger) {c : Call} (hc : c ≠ .softReset) :
    l.after g₀ c = l.lookups g₀.decode (g₀.lookupsOf c) := by
  cases c <;> first | rfl | exact absurd rfl hc

@[simp] theorem Ledger.after_accesses (g₀ : RoadGraph) (l : Ledger) (c : Call) :
    (l.after g₀ c).accesses = l.accesses + (g₀.lookupsOf c).length := by
  by_cases hc : c = .softReset
  · subst hc
    rfl
  · rw [l.after_of_ne hc, Ledger.lookups_accesses]

/-- Every call but a reset serves its uncached answer with its lookups. -/
theorem serves_call (g₀ : RoadGraph) (c : Call) (hc : c ≠ .softReset) :
    Serves g₀ (serve c) (g₀.answer c) (g₀.lookupsOf c) := by
  cases c with
  | feature id => exact (serves_feature g₀ id).map
  | positionSecs p => exact (serves_positionSecs g₀ p).map
  | positionPoints p => exact (serves_positionPoints g₀ p).map
  | possibleTurns p => exact (serves_adjacent g₀ p true).map
  | incomingTurns p => exact (serves_adjacent g₀ p false).map
  | snap p radius => exact (serves_snap g₀ p radius).map
  | path ps mode => exact ((serves_legs g₀ ps).map).map
  | pathBetween ps start finish mode => exact ((serves_legs g₀ ps).map).map
  | softReset => exact absurd rfl hc

/-- One call from a graph over `g₀`: the uncached answer, a graph still over `g₀`, and the ledger
the call leaves. -/
theorem serve_run (g₀ : RoadGraph) (c : Call) {g : RoadGraph} (hg : Over g₀ g) :
    ((serve c).run g).1 = g₀.answer c ∧ Over g₀ ((serve c).run g).2 ∧
      ((serve c).run g).2.ledger = g.ledger.after g₀ c := by
  by_cases hc : c = .softReset
  · subst hc
    refine ⟨rfl, hg.softReset, ?_⟩
    show g.softReset.ledger = _
    simp only [ledger, softReset, Lru.clear_recency, Ledger.after]
  · obtain ⟨hv, hover, hledger⟩ := serves_call g₀ c hc g hg
    exact ⟨hv, hover, hledger.trans (g.ledger.after_of_ne hc).symm⟩

/-- A sequence of calls, by induction on it: the uncached answers, and the ledger of the calls in
order. -/
theorem serve_runs (g₀ : RoadGraph) (calls : List Call) {g : RoadGraph} (hg : Over g₀ g) :
    ((calls.mapM serve).run g).1 = calls.map g₀.answer ∧ Over g₀ ((calls.mapM serve).run g).2 ∧
      ((calls.mapM serve).run g).2.ledger = calls.foldl (Ledger.after g₀) g.ledger := by
  induction calls generalizing g with
  | nil => exact ⟨rfl, hg, rfl⟩
  | cons c calls ih =>
    obtain ⟨hv, hover, hledger⟩ := serve_run g₀ c hg
    obtain ⟨hv', hover', hledger'⟩ := ih hover
    -- The first call runs from `g`, the rest from where it leaves the graph.
    have hrun : ((c :: calls).mapM serve).run g =
        (((serve c).run g).1 :: ((calls.mapM serve).run ((serve c).run g).2).1,
          ((calls.mapM serve).run ((serve c).run g).2).2) := by
      rw [List.mapM_cons]
      rfl
    rw [hrun]
    refine ⟨?_, hover', ?_⟩
    · rw [hv, hv', List.map_cons]
    · rw [hledger', hledger, List.foldl_cons]

theorem Ledger.afterAll_accesses (g₀ : RoadGraph) (calls : List Call) (l : Ledger) :
    (calls.foldl (Ledger.after g₀) l).accesses = l.accesses + (calls.flatMap g₀.lookupsOf).length := by
  induction calls generalizing l with
  | nil => rfl
  | cons c calls ih =>
    rw [List.foldl_cons, ih, Ledger.after_accesses, List.flatMap_cons, List.length_append]
    omega

/-- A fresh graph answers every sequence of calls as the uncached graph does. Its ledger is that of
the calls' lookups in order, where a reset empties the cache and keeps the counters; so the
accesses count the lookups and the misses those of features not cached at the time. The cache
holds at most `capacity` features, each as the store decodes it. -/
theorem feature_cache_is_transparent (store : Store) (region : Nat) (model : SpeedModel)
    (capacity : Nat) (hcap : 0 < capacity) (readScale : Nat) (calls : List Call) :
    let g₀ := create store region model capacity hcap readScale
    let r := (calls.mapM serve).run g₀
    r.1 = calls.map g₀.answer ∧
      r.2.ledger = calls.foldl (Ledger.after g₀) g₀.ledger ∧
      r.2.accesses = (calls.flatMap g₀.lookupsOf).length ∧
      r.2.cachedCount ≤ capacity ∧
      ∀ e ∈ r.2.cache.recency.entries, g₀.decode e.1 = .ok e.2 := by
  intro g₀ r
  obtain ⟨hv, hover, hledger⟩ := serve_runs g₀ calls (over_create store region model capacity hcap readScale)
  obtain ⟨order, ht⟩ := hover.tracks
  have haccesses : r.2.accesses = (calls.flatMap g₀.lookupsOf).length := by
    have h := congrArg Ledger.accesses hledger
    have hstart : g₀.ledger.accesses = 0 := rfl
    rw [Ledger.afterAll_accesses, hstart, Nat.zero_add] at h
    exact h
  have hcount : r.2.cachedCount ≤ capacity :=
    calc r.2.cachedCount = r.2.cache.size := rfl
      _ ≤ r.2.cache.capacity := ht.sound.size_le
      _ = capacity := hover.capacity
  exact ⟨hv, hledger, haccesses, hcount, hover.decoded⟩

/-- Lookups of a feature missing from an empty store, with a reset between them. -/
theorem feature_cache_is_transparent_on_empty_store :
    0 < 2 ∧
      let g₀ := create Store.empty 0 .car 2 (by decide) defaultReadScale
      let r := ([Call.feature 3, .softReset, .feature 3].mapM serve).run g₀
      r.1 = [Call.feature 3, .softReset, .feature 3].map g₀.answer ∧
        r.2.ledger = [Call.feature 3, .softReset, .feature 3].foldl (Ledger.after g₀) g₀.ledger ∧
        r.2.accesses = ([Call.feature 3, .softReset, .feature 3].flatMap g₀.lookupsOf).length ∧
        r.2.cachedCount ≤ 2 ∧
        ∀ e ∈ r.2.cache.recency.entries, g₀.decode e.1 = .ok e.2 :=
  ⟨by decide, feature_cache_is_transparent Store.empty 0 .car 2 (by decide) defaultReadScale
    [.feature 3, .softReset, .feature 3]⟩

end RoadGraph

end Wayfinder
