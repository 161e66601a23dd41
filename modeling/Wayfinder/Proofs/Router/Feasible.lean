import Wayfinder.Router.Vehicle

/-!
# The feasibility probe agrees with the drive planner

Before a trip is handed to a router, `Atlas.canDrive` answers cheaply whether a drive is possible
with the local map files: both ends lie in regions whose files can route, and the two ends share a
file or both indexes support crossing regions. The planner checks the same files its own way
(`VehicleRouter.plan`): the start's file and then the finish's, the first file too old or
inconsistent ending the request, missing files all collected before it fails, and crossing
checked only once there are two files and both snaps succeeded.

The two never disagree (`plan_agrees_with_canDrive`). A drive that delivers a route was possible
by the probe; and when the probe says a drive is possible, the planner fails on no file check, and
fails to find the start or the finish only when snapping to that file's index fails. Past its
file checks a drive fails only as a search fails (`Outcome.OfSearch`): stopped by its monitor, with
no route, or with a path that could not be read back.
-/

namespace Wayfinder

/-- How a search can fail: stopped by its monitor (cancelled, or out of time), no route, or a path
that could not be read back. -/
def Outcome.OfSearch (o : Outcome) : Prop :=
  o = .cancelled ∨ o = .routeNotFound ∨ o = .internalError

/-! ## Searches fail only as searches -/

theorem Monitor.interrupt_ofSearch {m : Monitor} {o : Outcome} (h : m.interrupt = some o) :
    o.OfSearch := by
  unfold Monitor.interrupt at h
  split at h
  · cases h
    exact .inl rfl
  · split at h
    · cases h
      exact .inr (.inl rfl)
    · cases h

theorem Monitor.stopNow?_ofSearch {m : Monitor} {o : Outcome} (h : m.stopNow? = some o) :
    o.OfSearch := by
  unfold Monitor.stopNow? at h
  split at h
  · exact Monitor.interrupt_ofSearch h
  · cases h

namespace RoutingIndex

/-- By induction on the fuel: the search loop stops with an outcome only when its monitor does. -/
theorem searchLoop_ofSearch (x : RoutingIndex) (fuel : Nat) :
    ∀ st m o, (x.searchLoop fuel st m).1 = .error o → o.OfSearch := by
  induction fuel with
  | zero => intro st m o h; cases h
  | succ fuel ih =>
    intro st m o h
    rw [searchLoop] at h
    simp only at h
    split at h
    · cases h
    split at h
    · split at h
      · cases h
      · split at h
        next hstop =>
          cases h
          exact Monitor.stopNow?_ofSearch hstop
        · exact ih _ _ _ h
    · split at h
      · cases h
      · split at h
        next hstop =>
          cases h
          exact Monitor.stopNow?_ofSearch hstop
        · exact ih _ _ _ h

theorem queryBetween_ofSearch (x : RoutingIndex) (sources targets : List (Nat × Nat))
    (m : Monitor) {o : Outcome} (h : (x.queryBetween sources targets m).1 = .error o) :
    o.OfSearch := by
  unfold queryBetween at h
  simp only at h
  split at h
  next o' m' hrun =>
    cases h
    exact x.searchLoop_ofSearch _ _ _ _ (by rw [hrun])
  next =>
    split at h
    · cases h
    · split at h
      · cases h
        exact .inr (.inr rfl)
      · cases h

end RoutingIndex

section Cross

variable {src dst : RoutingIndex} {s t : EdgeSnap} {total : Nat}

/-- One border node tried fails only as one of its two searches fails. -/
theorem crossStep_ofSearch
    {acc : Except Outcome (Option (Nat × IndexPath × IndexPath)) × Monitor}
    (hacc : ∀ o, acc.1 = .error o → o.OfSearch) (item : Nat × Nat × Nat) :
    ∀ o, (crossStep src dst s t total acc item).1 = .error o → o.OfSearch := by
  intro o h
  obtain ⟨r, m⟩ := acc
  unfold crossStep at h
  cases r with
  | error o' => exact hacc o h
  | ok best =>
    simp only at h
    split at h
    next hq =>
      cases h
      exact src.queryBetween_ofSearch _ _ _ (by rw [hq])
    · cases h
    · split at h
      · cases h
      · split at h
        next hq =>
          cases h
          exact dst.queryBetween_ofSearch _ _ _ (by rw [hq])
        · cases h
        · cases h

/-- By induction on the border nodes: trying them fails only as a search fails. -/
theorem foldl_crossStep_ofSearch (items : List (Nat × Nat × Nat)) :
    ∀ acc : Except Outcome (Option (Nat × IndexPath × IndexPath)) × Monitor,
      (∀ o, acc.1 = .error o → o.OfSearch) →
      ∀ o, (items.foldl (crossStep src dst s t total) acc).1 = .error o → o.OfSearch := by
  induction items with
  | nil => intro acc hacc; exact hacc
  | cons item items ih =>
    intro acc hacc
    exact ih _ (crossStep_ofSearch hacc item)

theorem crossBorder_ofSearch {m : Monitor} {o : Outcome}
    (h : (crossBorder src dst s t m).1 = .error o) : o.OfSearch := by
  unfold crossBorder at h
  simp only at h
  split at h
  next o' m' hfold =>
    cases h
    have hseed : ∀ o, (Except.ok none, m).1 = (.error o :
        Except Outcome (Option (Nat × IndexPath × IndexPath))) → o.OfSearch :=
      fun _ h => by cases h
    exact foldl_crossStep_ofSearch _ _ hseed _ (by rw [hfold])
  next => cases h

end Cross

/-! ## Drives past their file checks -/

namespace VehicleRouter

variable {e f : RoutingExt} {s t : EdgeSnap} {m : Monitor} {o : Outcome}

/-- A drive within one file fails only as its search fails. -/
theorem drive_one_ofSearch (h : (drive [e] s t m).1 = .error o) : o.OfSearch := by
  unfold drive at h
  simp only at h
  split at h
  next hq =>
    cases h
    exact e.index.queryBetween_ofSearch _ _ _ (by rw [hq])
  next =>
    split at h
    · cases h
    · split at h <;> cases h
    · cases h
    · cases h
      exact .inr (.inl rfl)

/-- A drive across two files whose indexes both support crossing fails only as a search fails. -/
theorem drive_two_ofSearch (hcross : e.index.crossRegion ∧ f.index.crossRegion)
    (h : (drive [e, f] s t m).1 = .error o) : o.OfSearch := by
  unfold drive at h
  simp only [hcross.1, hcross.2, Bool.and_self, Bool.not_true, Bool.false_eq_true, ↓reduceIte] at h
  split at h
  next hc =>
    cases h
    exact crossBorder_ofSearch (by rw [hc])
  · cases h
    exact .inr (.inl rfl)
  · cases h

/-- Two files of which one index does not support crossing give no drive. -/
theorem drive_two_without_crossing (hcross : ¬ (e.index.crossRegion ∧ f.index.crossRegion)) :
    (drive [e, f] s t m).1 = .error .pointsInDifferentRegion := by
  have hand : (e.index.crossRegion && f.index.crossRegion) = false := by
    simpa using hcross
  unfold drive
  simp [hand]

end VehicleRouter

/-! ## Plans -/

variable {r : VehicleRouter} {a : Atlas} {start finish : Point} {m : Monitor}

/-- A trip whose files are both usable has them once each, start first. -/
theorem tripFiles_of_usable {sf ff : String} {e f : RoutingExt} (he : a.catalog.usable sf = .ok e)
    (hf : a.catalog.usable ff = .ok f) :
    tripFiles a sf ff = if sf = ff then [(sf, .ok e)] else [(sf, .ok e), (ff, .ok f)] := by
  unfold tripFiles
  split <;> simp [he, hf]

theorem Route.requireValid_error {route : Route} {o : Outcome}
    (h : route.requireValid = .error o) : o = .routeNotFound := by
  unfold Route.requireValid at h
  split at h <;> cases h
  rfl

/-- Both ends' files are among the trip's files. -/
theorem mem_tripFiles (a : Atlas) (sf ff : String) :
    (sf, a.catalog.usable sf) ∈ tripFiles a sf ff ∧ (ff, a.catalog.usable ff) ∈ tripFiles a sf ff := by
  unfold tripFiles
  split
  next hsame =>
    subst hsame
    exact ⟨List.mem_singleton_self _, List.mem_singleton_self _⟩
  next => simp

/-- Past usable files, a drive fails to find the start or the finish only where snapping fails,
and otherwise only as the drive between the snaps fails or with a route too short; a route
delivered is `noError` or `needMoreMaps`. -/
theorem plan_of_usable {sf ff : String} {e f : RoutingExt} {o : Outcome}
    (hs : a.regions.fileAt start = some sf) (hf : a.regions.fileAt finish = some ff)
    (he : a.catalog.usable sf = .ok e) (hf' : a.catalog.usable ff = .ok f)
    (ho : (r.plan a start finish m).1.outcome = o) :
    (o = .startPointNotFound ∧ e.index.snap start r.snapRadius = none) ∨
    (o = .endPointNotFound ∧ f.index.snap finish r.snapRadius = none) ∨
    ∃ s t m', (VehicleRouter.drive (if sf = ff then [e] else [e, f]) s t m').1 = .error o ∨
      ((∃ route, (VehicleRouter.drive (if sf = ff then [e] else [e, f]) s t m').1 = .ok route) ∧
        (o = .routeNotFound ∨ o = .noError ∨ o = .needMoreMaps)) := by
  unfold VehicleRouter.plan at ho
  simp only [hs, hf, tripFiles_of_usable he hf'] at ho
  -- With usable files no check fails and the extensions are those of the files, each once.
  by_cases hsame : sf = ff
  case' pos =>
    subst hsame
    obtain rfl : f = e := by
      rw [he] at hf'
      cases hf'
      rfl
    simp only [↓reduceIte, List.find?_cons, List.find?_nil, List.filter_cons,
      List.filter_nil, List.map_nil, List.isEmpty_nil, List.filterMap_cons,
      List.filterMap_nil, Except.toOption, List.head?_cons, List.getLast?_singleton,
      Bool.not_true, Bool.false_eq_true] at ho ⊢
  case' neg =>
    simp only [hsame, ↓reduceIte, List.find?_cons, List.find?_nil, List.filter_cons,
      List.filter_nil, List.map_nil, List.isEmpty_nil, List.filterMap_cons,
      List.filterMap_nil, Except.toOption, List.head?_cons, List.getLast?_singleton,
      List.getLast?_cons_cons, Bool.not_true, Bool.false_eq_true] at ho ⊢
  -- One file or two, the rest of the request is the same: snap both ends, drive, keep the route.
  all_goals
    split at ho
    next hsnap =>
      subst ho
      exact .inl ⟨rfl, hsnap⟩
    next hsnap =>
      subst ho
      exact .inr (.inl ⟨rfl, hsnap⟩)
    next st tt _ _ =>
      split at ho
      next o' m' hdrive =>
        subst ho
        exact .inr (.inr ⟨st, tt, _, .inl (by rw [hdrive]; rfl)⟩)
      next route m' hdrive =>
        have hok : ∃ route, (VehicleRouter.drive _ st tt (m.report 0.0)).1 = .ok route :=
          ⟨route, by rw [hdrive]⟩
        refine .inr (.inr ⟨st, tt, _, .inr ⟨hok, ?_⟩⟩)
        split at ho
        next o' hvalid =>
          subst ho
          exact .inl (Route.requireValid_error hvalid)
        next =>
          split at ho <;> subst ho
          · exact .inr (.inl rfl)
          · exact .inr (.inr rfl)

/-- A start in no region, or a finish in none, is not found. -/
theorem plan_of_no_file {o : Outcome} (hno : a.regions.fileAt start = none ∨ a.regions.fileAt finish = none)
    (ho : (r.plan a start finish m).1.outcome = o) :
    o = .startPointNotFound ∨ o = .endPointNotFound := by
  unfold VehicleRouter.plan at ho
  split at ho
  · subst ho
    exact .inl rfl
  · subst ho
    exact .inr rfl
  next sf ff hs hf =>
    rcases hno with hno | hno
    · rw [hno] at hs
      cases hs
    · rw [hno] at hf
      cases hf

/-- A file that is missing, too old or inconsistent ends a request by its file checks. -/
theorem plan_of_unusable {sf ff : String} {o : Outcome}
    (hs : a.regions.fileAt start = some sf) (hf : a.regions.fileAt finish = some ff)
    (hbad : (∃ p, a.catalog.usable sf = .error p) ∨ (∃ p, a.catalog.usable ff = .error p))
    (ho : (r.plan a start finish m).1.outcome = o) :
    o = .routeFileNotExist ∨ o = .fileTooOld ∨ o = .inconsistentRegionAndRoute := by
  unfold VehicleRouter.plan at ho
  simp only [hs, hf] at ho
  split at ho
  · subst ho
    exact .inr (.inl rfl)
  · subst ho
    exact .inr (.inr rfl)
  · split at ho
    · subst ho
      exact .inl rfl
    next hmissing =>
      -- The unusable file is among the trip's files and counts as missing.
      exfalso
      apply hmissing
      obtain ⟨n, p, hmem⟩ : ∃ n p, (n, Except.error p) ∈ tripFiles a sf ff := by
        rcases hbad with ⟨p, hp⟩ | ⟨p, hp⟩
        · exact ⟨sf, p, hp ▸ (mem_tripFiles a sf ff).1⟩
        · exact ⟨ff, p, hp ▸ (mem_tripFiles a sf ff).2⟩
      rw [Bool.not_eq_true', List.isEmpty_eq_false_iff]
      exact List.ne_nil_of_mem (List.mem_map.2 ⟨_, List.mem_filter.2 ⟨hmem, rfl⟩, rfl⟩)

/-! ## The probe -/

/-- Driving is possible by the probe exactly when both ends lie in regions with usable files that
are one file or both support crossing. -/
theorem Atlas.canDrive_iff {a : Atlas} {start finish : Point} :
    a.canDrive start finish = true ↔
      ∃ sf ff e f, a.regions.fileAt start = some sf ∧ a.regions.fileAt finish = some ff ∧
        a.catalog.usable sf = .ok e ∧ a.catalog.usable ff = .ok f ∧
        (sf = ff ∨ (e.index.crossRegion ∧ f.index.crossRegion)) := by
  unfold Atlas.canDrive
  constructor
  · intro h
    split at h
    next sf ff hs hf =>
      split at h
      next e f he hf' =>
        refine ⟨sf, ff, e, f, hs, hf, he, hf', ?_⟩
        simpa using h
      · cases h
    · cases h
  · rintro ⟨sf, ff, e, f, hs, hf, he, hf', hok⟩
    rw [hs, hf]
    simp only [he, hf']
    simpa using hok

/-- Outcomes of a search, or of a route delivered, are none of the outcomes of a file check or of a
point not found. -/
theorem Outcome.not_file_check {o : Outcome} (h : o.OfSearch ∨ o = .noError ∨ o = .needMoreMaps) :
    o ≠ .routeFileNotExist ∧ o ≠ .fileTooOld ∧ o ≠ .inconsistentRegionAndRoute ∧
      o ≠ .pointsInDifferentRegion ∧ o ≠ .startPointNotFound ∧ o ≠ .endPointNotFound := by
  rcases h with (rfl | rfl | rfl) | rfl | rfl <;> decide

/-- A drive that delivers a route was possible by the probe: both files were usable, and two
different files both support crossing, or the drive between them would have failed. -/
theorem canDrive_of_plan_delivers {o : Outcome} (ho : (r.plan a start finish m).1.outcome = o)
    (hroute : o = .noError ∨ o = .needMoreMaps) : a.canDrive start finish = true := by
  obtain ⟨hmissing, hold, hinconsistent, hdifferent, hstart, hend⟩ :=
    Outcome.not_file_check (.inr hroute)
  cases hs : a.regions.fileAt start with
  | none => exact absurd ((plan_of_no_file (.inl hs) ho).resolve_right hend) hstart
  | some sf =>
  cases hf : a.regions.fileAt finish with
  | none => exact absurd ((plan_of_no_file (.inr hf) ho).resolve_left hstart) hend
  | some ff =>
  cases he : a.catalog.usable sf with
  | error p =>
    rcases plan_of_unusable hs hf (.inl ⟨p, he⟩) ho with h | h | h <;> contradiction
  | ok e =>
  cases hf' : a.catalog.usable ff with
  | error p =>
    rcases plan_of_unusable hs hf (.inr ⟨p, hf'⟩) ho with h | h | h <;> contradiction
  | ok f =>
  refine Atlas.canDrive_iff.2 ⟨sf, ff, e, f, hs, hf, he, hf', ?_⟩
  by_cases hsame : sf = ff
  · exact .inl hsame
  refine .inr (Classical.byContradiction fun hcross => ?_)
  -- Two files without crossing: the drive between any snaps fails as points in different regions.
  have hdrive : ∀ s t m', (VehicleRouter.drive [e, f] s t m').1 = .error .pointsInDifferentRegion :=
    fun _ _ _ => VehicleRouter.drive_two_without_crossing hcross
  rcases plan_of_usable hs hf he hf' ho with ⟨h, -⟩ | ⟨h, -⟩ | ⟨s, t, m', h | ⟨⟨route, h⟩, -⟩⟩
  · exact hstart h
  · exact hend h
  · rw [if_neg hsame, hdrive] at h
    cases h
    exact hdifferent rfl
  · rw [if_neg hsame, hdrive] at h
    cases h

/-- When the probe says a drive is possible, the drive fails on no file check, and fails to find
the start or the finish only where snapping to its file's index fails. -/
theorem plan_of_canDrive {o : Outcome} (ho : (r.plan a start finish m).1.outcome = o)
    (hcan : a.canDrive start finish = true) :
    (o = .startPointNotFound ∧ ∃ sf e, a.regions.fileAt start = some sf ∧
      a.catalog.usable sf = .ok e ∧ e.index.snap start r.snapRadius = none) ∨
    (o = .endPointNotFound ∧ ∃ ff f, a.regions.fileAt finish = some ff ∧
      a.catalog.usable ff = .ok f ∧ f.index.snap finish r.snapRadius = none) ∨
    o.OfSearch ∨ o = .noError ∨ o = .needMoreMaps := by
  obtain ⟨sf, ff, e, f, hs, hf, he, hf', hok⟩ := Atlas.canDrive_iff.1 hcan
  rcases plan_of_usable hs hf he hf' ho with ⟨h, hsnap⟩ | ⟨h, hsnap⟩ | ⟨s, t, m', h | ⟨-, h⟩⟩
  · exact .inl ⟨h, sf, e, hs, he, hsnap⟩
  · exact .inr (.inl ⟨h, ff, f, hf, hf', hsnap⟩)
  · -- One file, or two that both support crossing: the drive fails only as a search.
    refine .inr (.inr (.inl ?_))
    by_cases hsame : sf = ff
    · rw [if_pos hsame] at h
      exact VehicleRouter.drive_one_ofSearch h
    · rw [if_neg hsame] at h
      exact VehicleRouter.drive_two_ofSearch (hok.resolve_left hsame) h
  · rcases h with h | h | h
    · exact .inr (.inr (.inl (.inr (.inl h))))
    · exact .inr (.inr (.inr (.inl h)))
    · exact .inr (.inr (.inr (.inr h)))

/-- The feasibility probe agrees with the drive planner's file checks. A drive that delivers a
route, with or without maps still to download, was possible by the probe; and when the probe says a
drive is possible, the planner fails on none of its file checks (no file missing, too old or
inconsistent, no two regions without crossing), and reports the start or the finish not found only
where snapping to that file's index fails. -/
theorem plan_agrees_with_canDrive (r : VehicleRouter) (a : Atlas) (start finish : Point)
    (m : Monitor) :
    let o := (r.plan a start finish m).1.outcome
    ((o = .noError ∨ o = .needMoreMaps) → a.canDrive start finish = true) ∧
    (a.canDrive start finish = true →
      o ≠ .routeFileNotExist ∧ o ≠ .fileTooOld ∧ o ≠ .inconsistentRegionAndRoute ∧
      o ≠ .pointsInDifferentRegion ∧
      (o = .startPointNotFound → ∃ sf e, a.regions.fileAt start = some sf ∧
        a.catalog.usable sf = .ok e ∧ e.index.snap start r.snapRadius = none) ∧
      (o = .endPointNotFound → ∃ ff f, a.regions.fileAt finish = some ff ∧
        a.catalog.usable ff = .ok f ∧ f.index.snap finish r.snapRadius = none)) := by
  intro o
  refine ⟨canDrive_of_plan_delivers rfl, fun hcan => ?_⟩
  rcases plan_of_canDrive (o := o) rfl hcan with ⟨h, hsnap⟩ | ⟨h, hsnap⟩ | hpast
  · rw [h]
    exact ⟨by decide, by decide, by decide, by decide, fun _ => hsnap, fun h => (by cases h)⟩
  · rw [h]
    exact ⟨by decide, by decide, by decide, by decide, fun h => (by cases h), fun _ => hsnap⟩
  · obtain ⟨h₁, h₂, h₃, h₄, h₅, h₆⟩ := Outcome.not_file_check hpast
    exact ⟨h₁, h₂, h₃, h₄, fun h => absurd h h₅, fun h => absurd h h₆⟩

end Wayfinder
