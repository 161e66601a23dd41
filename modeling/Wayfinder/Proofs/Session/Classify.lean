import Mathlib.Data.List.Induction
import Wayfinder.Proofs.Router.Absent
import Wayfinder.Proofs.Session.Stale

/-!
# Which missing files are maps and which routing data

When a build ends, the files it reports missing are sorted for the listener into regions whose
maps must be downloaded and regions whose maps are present but lack routing data. A file of no
known region is dropped; a file counts for routing data when its map is on the device and the build
did not end with `fileTooOld`, and for maps otherwise. Each list names a region once, in the order
its files first come (`classifyAbsent_eq`), and the result of every build the session accepts and
that was not cancelled carries exactly this split of the build's missing files
(`onBuilt_tells_classified`).
-/

namespace Wayfinder

namespace Session

/-- Whether the missing file `name` lacks only its routing data: its map is on the device and the
build did not end with `fileTooOld`. -/
def LacksRoutingOnly (s : Session) (o : Outcome) (name : String) : Prop :=
  (s.atlas.catalog.find? name).isSome ∧ o ≠ .fileTooOld

instance (s : Session) (o : Outcome) (name : String) : Decidable (s.LacksRoutingOnly o name) :=
  inferInstanceAs (Decidable (_ ∧ _))

/-- The regions of the files among `files` whose maps are missing, each once, in the order their
files first come. -/
def mapsMissing (s : Session) (o : Outcome) (files : List String) : List Nat :=
  (files.filterMap fun n =>
    if s.LacksRoutingOnly o n then none else s.atlas.regions.regionOf n).eraseDups

/-- The regions of the files among `files` that lack only routing data, each once, in the order
their files first come. -/
def routingMissing (s : Session) (o : Outcome) (files : List String) : List Nat :=
  (files.filterMap fun n =>
    if s.LacksRoutingOnly o n then s.atlas.regions.regionOf n else none).eraseDups

@[simp] theorem hear_atlas (s : Session) (n : Notice) : (s.hear n).atlas = s.atlas := by
  unfold hear
  split <;> rfl

/-- The split reads nothing of the session but its maps. -/
theorem classifyAbsent_congr {s t : Session} (h : s.atlas = t.atlas) :
    s.classifyAbsent = t.classifyAbsent := by
  unfold classifyAbsent
  rw [h]

/-- By induction on the files from the last: a file of a known region is offered to the list its
routing data picks, and the first occurrences grow by its region exactly there. -/
theorem classifyAbsent_eq (s : Session) (o : Outcome) (files : List String) :
    s.classifyAbsent o files = (s.mapsMissing o files, s.routingMissing o files) := by
  induction files using List.reverseRecOn with
  | nil => rfl
  | append_singleton files n ih =>
    unfold classifyAbsent at ih ⊢
    rw [List.foldl_concat, ih]
    cases hr : s.atlas.regions.regionOf n with
    | none => simp [mapsMissing, routingMissing, hr]
    | some r =>
      by_cases hl : s.LacksRoutingOnly o n <;> simp only [LacksRoutingOnly] at hl <;>
        simp [mapsMissing, routingMissing, LacksRoutingOnly, hr, hl, pushUnique_eraseDups]

/-- The result of an accepted build that was not cancelled is the last thing the listener hears,
and it carries the split of the build's missing files. -/
theorem onBuilt_tells_classified {s : Session} {pb : PendingBuild} (hp : s.pending = some pb)
    (mode : Mode) {p : Plan} (hc : p.outcome ≠ .cancelled) (hl : s.listening = true) :
    ∃ r, (s.onBuilt pb.id mode p).heard.back? = some (.built r) ∧
      (r.absentMaps, r.absentRouting) = s.classifyAbsent p.outcome p.absent := by
  unfold onBuilt
  simp only [hp, ne_eq, not_true_eq_false, ↓reduceIte, hc]
  split <;> simp [hear, hl, classifyAbsent_congr (t := s)]

/-- Missing files are split into the regions whose maps are missing and the regions that lack
only routing data, both lists without repeats and in the order the files first come; every
accepted build that was not cancelled reports its missing files split so. -/
theorem absent_files_classified (s : Session) (o : Outcome) (files : List String) (mode : Mode)
    (p : Plan) :
    s.classifyAbsent o files = (s.mapsMissing o files, s.routingMissing o files) ∧
      (s.mapsMissing o files).Nodup ∧ (s.routingMissing o files).Nodup ∧
      ∀ pb : PendingBuild, s.pending = some pb → p.outcome ≠ .cancelled → s.listening = true →
        ∃ r, (s.onBuilt pb.id mode p).heard.back? = some (.built r) ∧
          r.absentMaps = s.mapsMissing p.outcome p.absent ∧
          r.absentRouting = s.routingMissing p.outcome p.absent := by
  refine ⟨classifyAbsent_eq s o files, nodup_eraseDups _, nodup_eraseDups _, ?_⟩
  intro pb hp hc hl
  obtain ⟨r, hlast, hr⟩ := onBuilt_tells_classified hp mode hc hl
  rw [classifyAbsent_eq, Prod.mk.injEq] at hr
  exact ⟨r, hlast, hr⟩

/-- The first build of a session, missing the routing data of `alpha` and the maps of `beta`. -/
theorem absent_files_classified_on_first_build :
    let s : Session :=
      { config := {}, prefs := default, listening := true, mode := .vehicle,
        settings := Settings.forMode .vehicle, pending := some ⟨1, .fresh⟩,
        atlas := ⟨Store.empty,
          ⟨[⟨"alpha", 1, ⟨0.0, 0.0⟩, ⟨1.0, 1.0⟩⟩, ⟨"beta", 2, ⟨1.0, 0.0⟩, ⟨2.0, 1.0⟩⟩]⟩,
          ⟨[⟨"alpha", 1, 1, none⟩]⟩⟩ }
    let p : Plan := { outcome := .routeFileNotExist, absent := ["alpha", "beta", "gamma", "beta"] }
    s.pending = some ⟨1, .fresh⟩ ∧ p.outcome ≠ .cancelled ∧ s.listening = true ∧
      ∃ r, (s.onBuilt 1 .vehicle p).heard.back? = some (.built r) ∧
        r.absentMaps = s.mapsMissing p.outcome p.absent ∧
        r.absentRouting = s.routingMissing p.outcome p.absent :=
  ⟨rfl, by decide, rfl,
    (absent_files_classified _ .noError [] .vehicle _).2.2.2 ⟨1, .fresh⟩ rfl (by decide) rfl⟩

end Session

end Wayfinder
