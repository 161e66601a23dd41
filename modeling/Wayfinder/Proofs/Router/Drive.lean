import Wayfinder.Proofs.Index.Answer
import Wayfinder.Proofs.Route.Assembly
import Wayfinder.Router.Vehicle

/-!
# Drives take the cheapest candidate

Under a monitor that never stops it, a drive within one map file weighs two candidates: driving
straight along the segment both snaps lie on, when its direction allows (`directCost`), and the
cheapest index path from the nodes the start snap leaves by to the nodes the finish snap is
entered from (`pathBetween`). The direct leg wins ties, and the drive finds no route exactly when
there is neither (`drive_within_file`). The direct leg runs forwards or along a segment that may be
driven backwards, and a path leaves the start segment by its end node, or by its start node only
when the segment may be driven backwards, and enters the finish segment likewise
(`directCost_some`, `pathBetween_leaves_and_enters`).

Across two map files the drive tries the nodes on their border in order (`crossStep`). It takes
the first of the cheapest ways across (`crossings`), and none exactly when no border node joins a
path from the start to a path on to the finish (`crossBorder_first_cheapest`): skipping the path on
when the path to a border node alone costs no less than the best so far never skips a cheaper way,
as a path on costs nothing below zero. Every route a drive assembles starts at the start snap's
point (`drive_starts_at_snap`).
-/

namespace Wayfinder

@[simp] theorem Monitor.interrupt_report (m : Monitor) (p : Float32) :
    (m.report p).interrupt = m.interrupt := by
  unfold Monitor.report
  split
  · rfl
  · simp only
    split <;> rfl

/-! ## Queries under a quiet monitor -/

namespace RoutingIndex

/-- By induction on the fuel: a search only ticks its monitor. -/
theorem interrupt_searchLoop (x : RoutingIndex) (fuel : Nat) :
    ∀ st m, (x.searchLoop fuel st m).2.interrupt = m.interrupt := by
  induction fuel with
  | zero => intros; rfl
  | succ fuel ih =>
    intro st m
    rw [searchLoop]
    simp only
    split
    · rfl
    split
    · split
      · rfl
      · split
        · rfl
        · exact ih _ _
    · split
      · rfl
      · split
        · rfl
        · exact ih _ _

theorem interrupt_queryBetween (x : RoutingIndex) (sources targets : List (Nat × Nat))
    (m : Monitor) : (x.queryBetween sources targets m).2.interrupt = m.interrupt := by
  have h := x.interrupt_searchLoop (2 * (sources.length + targets.length + x.up.size +
    x.down.size + x.nodeCount) + 2) ⟨Side.seeded x.nodeCount sources,
    Side.seeded x.nodeCount targets, unreached, none⟩ m
  unfold queryBetween
  simp only
  split
  next o m' hrun =>
    rw [hrun] at h
    exact h
  next st m' hrun =>
    rw [hrun] at h
    split
    · exact h
    · split <;> exact h

/-- The index was laid out by `build`, from some store and region. -/
def Built (x : RoutingIndex) : Prop :=
  ∃ store region crossRegion readScale, build store region crossRegion readScale = .ok x

section Built

variable {x : RoutingIndex}

/-- A query on a built index under a monitor that never stops it answers `pathBetween`, and leaves
the monitor still quiet. -/
theorem Built.query (hx : x.Built) (sources targets : List (Nat × Nat)) {m : Monitor}
    (hm : m.interrupt = none) :
    x.queryBetween sources targets m =
      (.ok (x.pathBetween sources targets), (x.queryBetween sources targets m).2) ∧
      (x.queryBetween sources targets m).2.interrupt = none := by
  obtain ⟨store, region, crossRegion, readScale, h⟩ := hx
  refine ⟨Prod.ext ?_ rfl, by rw [interrupt_queryBetween, hm]⟩
  exact queryBetween_quiet (ranked_of_build h) (resolvable_of_build h) sources targets hm

theorem Built.walk (hx : x.Built) {sources targets : List (Nat × Nat)} {p : IndexPath}
    (hp : x.pathBetween sources targets = some p) :
    ∃ a ∈ sources.map Prod.fst, ∃ b ∈ targets.map Prod.fst, ∃ legs c, x.RoadWalk a b legs c ∧
      p.nodes = a :: legs.map (·.2.1) ∧ p.features = legs.map (·.2.2) := by
  obtain ⟨store, region, crossRegion, readScale, h⟩ := hx
  exact pathBetween_walk (ranked_of_build h) (resolvable_of_build h) hp

end Built

/-- The nodes of a walk end where the walk ends. -/
theorem RoadWalk.getLast? {x : RoutingIndex} {a b c : Nat} {legs : List (Nat × Nat × Nat)}
    (h : x.RoadWalk a b legs c) : (a :: legs.map (·.2.1)).getLast? = some b := by
  induction h with
  | nil a => rfl
  | cons _ _ ih =>
    rw [List.map_cons, List.getLast?_cons_cons]
    exact ih

end RoutingIndex

/-! ## Snaps -/

namespace EdgeSnap

theorem mem_exits (s : EdgeSnap) {v : Nat} :
    v ∈ s.exits.map Prod.fst ↔ v = s.dst ∨ (v = s.src ∧ s.backwardMs.isSome) := by
  rcases hb : s.backwardMs with _ | c <;> simp [exits, hb]

theorem mem_entries (s : EdgeSnap) {v : Nat} :
    v ∈ s.entries.map Prod.fst ↔ v = s.src ∨ (v = s.dst ∧ s.backwardMs.isSome) := by
  rcases hb : s.backwardMs with _ | c <;> simp [entries, hb]

/-- Driving straight from one snap to another is possible only on one segment, forwards or along a
segment that may be driven backwards. -/
theorem directCost_some {s t : EdgeSnap} {d : Nat} (h : s.directCost t = some d) :
    s.feature = t.feature ∧ s.src = t.src ∧ s.dst = t.dst ∧ (t.t ≥ s.t ∨ s.backwardMs.isSome) := by
  unfold directCost at h
  split at h
  · cases h
  next hsame =>
    simp only [ne_eq, Bool.or_eq_true, decide_eq_true_eq, not_or, not_not] at hsame
    refine ⟨hsame.1.1, hsame.1.2, hsame.2, ?_⟩
    split at h
    next hle => exact .inl hle
    next =>
      obtain ⟨c, hc, -⟩ := Option.map_eq_some_iff.1 h
      exact .inr (by rw [hc]; rfl)

end EdgeSnap

/-! ## The first cheapest way -/

/-- `w` is the first cheapest entry of `xs`: entries before it cost more, entries after it no
less. -/
def FirstMin {α : Type} (xs : List (Nat × α)) (w : Nat × α) : Prop :=
  ∃ before after, xs = before ++ w :: after ∧ (∀ v ∈ before, w.1 < v.1) ∧ ∀ v ∈ after, w.1 ≤ v.1

/-- The best of `xs` so far: none for no entries, else the first cheapest. -/
def Cheapest {α : Type} (xs : List (Nat × α)) : Option (Nat × α) → Prop
  | none => xs = []
  | some w => FirstMin xs w

namespace FirstMin

variable {α : Type} {xs : List (Nat × α)} {w : Nat × α}

theorem mem (h : FirstMin xs w) : w ∈ xs := by
  obtain ⟨before, after, rfl, -, -⟩ := h
  simp

theorem le (h : FirstMin xs w) {v : Nat × α} (hv : v ∈ xs) : w.1 ≤ v.1 := by
  obtain ⟨before, after, rfl, hb, ha⟩ := h
  rcases List.mem_append.1 hv with hv | hv
  · exact Nat.le_of_lt (hb v hv)
  · rcases List.mem_cons.1 hv with rfl | hv
    · exact Nat.le_refl _
    · exact ha v hv

/-- An entry no cheaper appended after the first cheapest leaves it first. -/
theorem append_le (h : FirstMin xs w) {v : Nat × α} (hv : w.1 ≤ v.1) : FirstMin (xs ++ [v]) w := by
  obtain ⟨before, after, rfl, hb, ha⟩ := h
  refine ⟨before, after ++ [v], by simp, hb, fun u hu => ?_⟩
  rcases List.mem_append.1 hu with hu | hu
  · exact ha u hu
  · rw [List.mem_singleton.1 hu]
    exact hv

end FirstMin

namespace Cheapest

variable {α : Type} {xs : List (Nat × α)}

/-- Keeping the best when the entry appended costs no less. -/
theorem keep {w v : Nat × α} (h : Cheapest xs (some w)) (hv : w.1 ≤ v.1) :
    Cheapest (xs ++ [v]) (some w) :=
  FirstMin.append_le h hv

/-- Taking an entry cheaper than the best so far. -/
theorem take {best : Option (Nat × α)} (h : Cheapest xs best) {v : Nat × α}
    (hv : best.all (fun c => v.1 < c.1)) : Cheapest (xs ++ [v]) (some v) := by
  refine ⟨xs, [], rfl, fun u hu => ?_, by simp⟩
  cases best with
  | none =>
    rw [show xs = [] from h] at hu
    cases hu
  | some w =>
    have hlt : v.1 < w.1 := by simpa using hv
    exact Nat.lt_of_lt_of_le hlt (FirstMin.le h hu)

end Cheapest

/-! ## Crossing a border -/

/-- The way across the border node `(here, there)` from snap `s` to snap `t`: the path to it, the
path on from it and their summed cost, when both exist. -/
def crossingAt (src dst : RoutingIndex) (s t : EdgeSnap) (pair : Nat × Nat) :
    Option (Nat × IndexPath × IndexPath) :=
  (src.pathBetween s.exits [(pair.1, 0)]).bind fun a =>
    (dst.pathBetween [(pair.2, 0)] t.entries).map fun b => (a.cost + b.cost, a, b)

/-- The ways across the border of `src` and `dst`, in the order of the border nodes. -/
def crossings (src dst : RoutingIndex) (s t : EdgeSnap) : List (Nat × IndexPath × IndexPath) :=
  (src.borderNodes dst).filterMap (crossingAt src dst s t)

theorem cost_of_mem_crossings {src dst : RoutingIndex} {s t : EdgeSnap}
    {w : Nat × IndexPath × IndexPath} (hw : w ∈ crossings src dst s t) :
    w.1 = w.2.1.cost + w.2.2.cost := by
  obtain ⟨pair, -, hpair⟩ := List.mem_filterMap.1 hw
  obtain ⟨a, -, hab⟩ := Option.bind_eq_some_iff.1 hpair
  obtain ⟨b, -, rfl⟩ := Option.map_eq_some_iff.1 hab
  rfl

section Cross

variable {src dst : RoutingIndex} {s t : EdgeSnap} {total : Nat}

/-- What crossing keeps after the border nodes whose ways across are `xs`: the monitor still never
stops a search, and the best so far is the cheapest of `xs`. -/
def CrossBest (xs : List (Nat × IndexPath × IndexPath))
    (acc : Except Outcome (Option (Nat × IndexPath × IndexPath)) × Monitor) : Prop :=
  acc.2.interrupt = none ∧ ∃ best, acc.1 = .ok best ∧ Cheapest xs best

/-- One border node tried keeps the best the cheapest, with that node's way across appended. A path
on is skipped only when the path to the node alone costs no less than the best, and then the way
across costs no less either. -/
theorem crossStep_best (hsrc : src.Built) (hdst : dst.Built)
    {xs : List (Nat × IndexPath × IndexPath)}
    {acc : Except Outcome (Option (Nat × IndexPath × IndexPath)) × Monitor} (h : CrossBest xs acc)
    (item : Nat × Nat × Nat) :
    CrossBest (xs ++ (crossingAt src dst s t item.2).toList)
      (crossStep src dst s t total acc item) := by
  obtain ⟨r, m⟩ := acc
  obtain ⟨hm, best, hr, hbest⟩ := h
  cases hr
  obtain ⟨i, here, there⟩ := item
  obtain ⟨hq₁, hm₁⟩ := hsrc.query s.exits [(here, 0)] hm
  unfold crossStep
  simp only
  rw [hq₁]
  cases ha : src.pathBetween s.exits [(here, 0)] with
  | none =>
    refine ⟨hm₁, best, rfl, ?_⟩
    simpa [crossingAt, ha] using hbest
  | some a =>
    simp only
    split
    next hprune =>
      -- The path to this node alone costs no less than the best, and so does any way across it.
      obtain ⟨w, hw, hle⟩ := (Option.any_eq_true _ _).1 hprune
      subst hw
      refine ⟨hm₁, some w, rfl, ?_⟩
      cases hb : dst.pathBetween [(there, 0)] t.entries with
      | none => simpa [crossingAt, ha, hb] using hbest
      | some b =>
        simp only [crossingAt, ha, hb, Option.bind_some, Option.map_some, Option.toList_some]
        have hle' : w.1 ≤ a.cost := by simpa using hle
        exact hbest.keep (show w.1 ≤ a.cost + b.cost by omega)
    next hkeep =>
      obtain ⟨hq₂, hm₂⟩ := hdst.query [(there, 0)] t.entries hm₁
      rw [hq₂]
      cases hb : dst.pathBetween [(there, 0)] t.entries with
      | none =>
        refine ⟨hm₂, best, rfl, ?_⟩
        simpa [crossingAt, ha, hb] using hbest
      | some b =>
        simp only [crossingAt, ha, hb, Option.bind_some, Option.map_some, Option.toList_some]
        refine ⟨by rw [Monitor.interrupt_report]; exact hm₂, _, rfl, ?_⟩
        split
        next htake => exact hbest.take htake
        next hnot =>
          -- Not cheaper than the best: the best stays, and it exists, as `none` takes every sum.
          cases best with
          | none => exact absurd rfl hnot
          | some w =>
            have hle : w.1 ≤ a.cost + b.cost := by simpa using hnot
            exact hbest.keep hle

/-- By induction on the border nodes tried: the best is the cheapest of their ways across. -/
theorem foldl_crossStep (hsrc : src.Built) (hdst : dst.Built) (items : List (Nat × Nat × Nat)) :
    ∀ xs acc, CrossBest xs acc →
      CrossBest (xs ++ items.filterMap fun item => crossingAt src dst s t item.2)
        (items.foldl (crossStep src dst s t total) acc) := by
  induction items with
  | nil => intro xs acc h; simpa using h
  | cons item items ih =>
    intro xs acc h
    have hstep : CrossBest (xs ++ (crossingAt src dst s t item.2).toList)
        (crossStep src dst s t total acc item) := crossStep_best hsrc hdst h item
    rw [List.foldl_cons, List.filterMap_cons]
    have hrest := ih _ _ hstep
    cases hc : crossingAt src dst s t item.2 with
    | none => simpa [hc] using hrest
    | some c => simpa [hc] using hrest

/-- Across the border of two built indexes, under a monitor that never stops it, crossing finds
the first of the cheapest ways across, and none exactly when there is no way across. -/
theorem crossBorder_first_cheapest (hsrc : src.Built) (hdst : dst.Built) (s t : EdgeSnap)
    {m : Monitor} (hm : m.interrupt = none) :
    ∃ r, (crossBorder src dst s t m).1 = .ok r ∧ (r = none ↔ crossings src dst s t = []) ∧
      ∀ a b, r = some (a, b) → FirstMin (crossings src dst s t) (a.cost + b.cost, a, b) := by
  let border := src.borderNodes dst
  let items := (List.range border.length).zip border
  have hitems :
      (items.filterMap fun item => crossingAt src dst s t item.2) = crossings src dst s t := by
    rw [show (fun item : Nat × Nat × Nat => crossingAt src dst s t item.2) =
      crossingAt src dst s t ∘ Prod.snd from rfl, ← List.filterMap_map, List.map_snd_zip (by simp)]
    rfl
  have hfold : CrossBest (crossings src dst s t)
      (items.foldl (crossStep src dst s t border.length) (.ok none, m)) := by
    rw [← hitems, ← List.nil_append (List.filterMap _ _)]
    exact foldl_crossStep hsrc hdst items [] _ ⟨hm, none, rfl, rfl⟩
  unfold crossBorder
  simp only
  rcases hres : items.foldl (crossStep src dst s t border.length) (.ok none, m) with ⟨r, m'⟩
  rw [hres] at hfold
  obtain ⟨-, best, hr, hbest⟩ := hfold
  cases hr
  cases best with
  | none => exact ⟨none, rfl, iff_of_true rfl hbest, fun a b h => by cases h⟩
  | some w =>
    refine ⟨_, rfl, iff_of_false (by simp) (List.ne_nil_of_mem hbest.mem), fun a b hab => ?_⟩
    obtain ⟨k, a', b'⟩ := w
    simp only [Option.map_some, Option.some.injEq, Prod.mk.injEq] at hab
    obtain ⟨rfl, rfl⟩ := hab
    rw [← cost_of_mem_crossings hbest.mem]
    exact hbest

end Cross

/-! ## Drives -/

/-- A path between two snaps leaves the start segment by its end node, or by its start node when
the segment may be driven backwards, and enters the finish segment by its start node, or by its
end node when that segment may be driven backwards. -/
theorem pathBetween_leaves_and_enters {x : RoutingIndex} (hx : x.Built) {s t : EdgeSnap}
    {p : IndexPath} (hp : x.pathBetween s.exits t.entries = some p) :
    (p.nodes.head? = some s.dst ∨ (p.nodes.head? = some s.src ∧ s.backwardMs.isSome)) ∧
      (p.nodes.getLast? = some t.src ∨ (p.nodes.getLast? = some t.dst ∧ t.backwardMs.isSome)) := by
  obtain ⟨a, ha, b, hb, legs, c, hw, hnodes, -⟩ := hx.walk hp
  have hlast := hw.getLast?
  rw [← hnodes] at hlast
  rw [hnodes, List.head?_cons]
  rw [← hnodes]
  constructor
  · rcases s.mem_exits.1 ha with rfl | ⟨rfl, hs⟩
    · exact .inl rfl
    · exact .inr ⟨rfl, hs⟩
  · rcases t.mem_entries.1 hb with rfl | ⟨rfl, ht⟩
    · exact .inl hlast
    · exact .inr ⟨hlast, ht⟩

/-- Under a monitor that never stops it, a drive within one map file takes the direct leg when it
exists and costs no more than the cheapest path, the path when it exists and the direct leg does
not or costs more, and finds no route exactly when neither exists. -/
theorem drive_within_file {e : RoutingExt} (he : e.index.Built) (s t : EdgeSnap) {m : Monitor}
    (hm : m.interrupt = none) :
    ((∃ d, s.directCost t = some d ∧
        ∀ p, e.index.pathBetween s.exits t.entries = some p → d ≤ p.cost) →
      (VehicleRouter.drive [e] s t m).1 =
        .ok (Route.assemble .vehicle [⟨s.feature, s.point, t.point⟩])) ∧
    (∀ p, e.index.pathBetween s.exits t.entries = some p →
      (∀ d, s.directCost t = some d → p.cost < d) →
      (VehicleRouter.drive [e] s t m).1 = .ok (pathRoute s t [(e.index, p)])) ∧
    ((VehicleRouter.drive [e] s t m).1 = .error .routeNotFound ↔
      s.directCost t = none ∧ e.index.pathBetween s.exits t.entries = none) := by
  obtain ⟨hq, -⟩ := he.query s.exits t.entries hm
  unfold VehicleRouter.drive
  simp only
  rw [hq]
  simp only
  rcases hD : s.directCost t with _ | d <;>
    rcases hQ : e.index.pathBetween s.exits t.entries with _ | p
  · -- Neither candidate.
    exact ⟨fun ⟨_, hd, _⟩ => (by cases hd), fun _ hp => (by cases hp), by simp⟩
  · -- Only a path.
    exact ⟨fun ⟨_, hd, _⟩ => (by cases hd), fun _ hp _ => (by cases hp; rfl), by simp⟩
  · -- Only the direct leg.
    exact ⟨fun _ => rfl, fun _ hp => (by cases hp), by simp⟩
  · -- Both: the direct leg wins ties.
    refine ⟨fun ⟨d', hd, hle⟩ => ?_, fun p' hp hlt => ?_, ?_⟩
    · cases hd
      simp [hle p rfl]
    · cases hp
      simp [Nat.not_le.2 (hlt d rfl)]
    · by_cases hdp : d ≤ p.cost <;> simp [hdp]

/-- Every route a drive assembles starts at the start snap's point. -/
theorem drive_starts_at_snap (exts : List RoutingExt) (s t : EdgeSnap) (m : Monitor) {r : Route}
    (h : (VehicleRouter.drive exts s t m).1 = .ok r) : r.points[0]? = some s.point := by
  have hpath : ∀ paths, (pathRoute s t paths).points[0]? = some s.point :=
    fun _ => Route.assemble_first _ _ _
  unfold VehicleRouter.drive at h
  split at h
  · -- One file: the direct leg or a path.
    split at h
    · cases h
    · split at h
      · cases h
        exact Route.assemble_first _ _ _
      · split at h
        · cases h
          exact Route.assemble_first _ _ _
        · cases h
          exact hpath _
      · cases h
        exact hpath _
      · cases h
  · -- Two files: a path on each side of the border.
    split at h
    · cases h
    · split at h
      · cases h
      · cases h
      · cases h
        exact hpath _
  · cases h

/-- The vehicle router takes the cheapest candidate, under a monitor that never stops it. Within
one map file: the direct leg when it exists and costs no more than the cheapest path, the path
when it exists and the direct leg does not or costs more, and no route exactly when neither
exists. The direct leg runs along the snaps' common segment, forwards or on a segment that may be
driven backwards; a path leaves the start segment by a node the start snap exits to and enters the
finish segment from a node the finish snap is entered from, by the segment's far node only when it
may be driven backwards; and every route a drive assembles starts at the start snap's point.
Across two map files, crossing finds the first of the cheapest ways across the border, and none
exactly when no border node joins a path to it with a path on. -/
theorem drive_picks_cheapest {e f : RoutingExt} (he : e.index.Built) (hf : f.index.Built)
    (s t : EdgeSnap) {m : Monitor} (hm : m.interrupt = none) :
    ((∃ d, s.directCost t = some d ∧ ∀ p, e.index.pathBetween s.exits t.entries = some p → d ≤ p.cost) →
      (VehicleRouter.drive [e] s t m).1 = .ok (Route.assemble .vehicle [⟨s.feature, s.point, t.point⟩])) ∧
    (∀ p, e.index.pathBetween s.exits t.entries = some p → (∀ d, s.directCost t = some d → p.cost < d) →
      (VehicleRouter.drive [e] s t m).1 = .ok (pathRoute s t [(e.index, p)])) ∧
    ((VehicleRouter.drive [e] s t m).1 = .error .routeNotFound ↔
      s.directCost t = none ∧ e.index.pathBetween s.exits t.entries = none) ∧
    (∀ d, s.directCost t = some d →
      s.feature = t.feature ∧ s.src = t.src ∧ s.dst = t.dst ∧ (t.t ≥ s.t ∨ s.backwardMs.isSome)) ∧
    (∀ p, e.index.pathBetween s.exits t.entries = some p →
      (p.nodes.head? = some s.dst ∨ (p.nodes.head? = some s.src ∧ s.backwardMs.isSome)) ∧
        (p.nodes.getLast? = some t.src ∨ (p.nodes.getLast? = some t.dst ∧ t.backwardMs.isSome))) ∧
    (∀ exts r, (VehicleRouter.drive exts s t m).1 = .ok r → r.points[0]? = some s.point) ∧
    ∃ r, (crossBorder e.index f.index s t m).1 = .ok r ∧
      (r = none ↔ crossings e.index f.index s t = []) ∧
      ∀ a b, r = some (a, b) → FirstMin (crossings e.index f.index s t) (a.cost + b.cost, a, b) := by
  obtain ⟨hdirect, hpath, hnone⟩ := drive_within_file he s t hm
  exact ⟨hdirect, hpath, hnone, fun _ hd => EdgeSnap.directCost_some hd,
    fun _ hp => pathBetween_leaves_and_enters he hp,
    fun exts _ hr => drive_starts_at_snap exts s t m hr, crossBorder_first_cheapest he hf s t hm⟩

/-- A map file whose region has no roads: its index is built, and the drive's choices hold there. -/
theorem drive_picks_cheapest_without_roads :
    let e : RoutingExt := ⟨0, 0, ⟨0, false, #[], #[], Csr.ofLists #[], Csr.ofLists #[], 0,
      SpatialTree.load [], SpatialTree.load []⟩⟩
    let s : EdgeSnap := default
    let t : EdgeSnap := default
    let f := e
    let m : Monitor := {}
    e.index.Built ∧ m.interrupt = none ∧
    ((∃ d, s.directCost t = some d ∧ ∀ p, e.index.pathBetween s.exits t.entries = some p → d ≤ p.cost) →
      (VehicleRouter.drive [e] s t m).1 = .ok (Route.assemble .vehicle [⟨s.feature, s.point, t.point⟩])) ∧
    (∀ p, e.index.pathBetween s.exits t.entries = some p → (∀ d, s.directCost t = some d → p.cost < d) →
      (VehicleRouter.drive [e] s t m).1 = .ok (pathRoute s t [(e.index, p)])) ∧
    ((VehicleRouter.drive [e] s t m).1 = .error .routeNotFound ↔
      s.directCost t = none ∧ e.index.pathBetween s.exits t.entries = none) ∧
    (∀ d, s.directCost t = some d →
      s.feature = t.feature ∧ s.src = t.src ∧ s.dst = t.dst ∧ (t.t ≥ s.t ∨ s.backwardMs.isSome)) ∧
    (∀ p, e.index.pathBetween s.exits t.entries = some p →
      (p.nodes.head? = some s.dst ∨ (p.nodes.head? = some s.src ∧ s.backwardMs.isSome)) ∧
        (p.nodes.getLast? = some t.src ∨ (p.nodes.getLast? = some t.dst ∧ t.backwardMs.isSome))) ∧
    (∀ exts r, (VehicleRouter.drive exts s t m).1 = .ok r → r.points[0]? = some s.point) ∧
    ∃ r, (crossBorder e.index f.index s t m).1 = .ok r ∧
      (r = none ↔ crossings e.index f.index s t = []) ∧
      ∀ a b, r = some (a, b) → FirstMin (crossings e.index f.index s t) (a.cost + b.cost, a, b) := by
  intro e s t f m
  have he : e.index.Built := ⟨(StoreBuilder.empty.addRegion 0).build, 0, false, 2, rfl⟩
  exact ⟨he, rfl, drive_picks_cheapest he he s t rfl⟩

end Wayfinder
