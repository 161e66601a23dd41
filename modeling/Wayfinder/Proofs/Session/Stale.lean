import Wayfinder.Proofs.Session.Invariant

/-!
# Superseded and closed builds are never observed

The worker may post anything at any time: progress and results of builds that were superseded,
cancelled or closed, results with any outcome, duplicates. Along every run, a message about build
`id` has an effect (on the phase, the route, the build in flight, or the listener) only if `id` is
the build started last and the build has stayed in flight since it started, so that no call that
ends a build came in between. Each build is answered at most once: at most one result and at most
one set of counters; no result is `cancelled`; and a result carries a route exactly when its
outcome has one, the route having at least two points.

Every message is taken by `waitEvent` or by the calls that repeat it, so the states in which a
message is taken are the states after a run: the first statement speaks of `handle` in the state
after any run.

What one move tells the listener is described by `Answers`, for the build the move answers for.
Reads of the inbox compose (`Reads.trans`), since once a read has told a result no build is in
flight and later reads tell nothing; every other call has one of the three shapes of `Shape`. The
builds answered along a run then stay distinct because each one answered is no longer in flight and
below the counter (`Fresh`), while a move answers only for the build in flight or for the one it
starts.
-/

namespace Wayfinder

/-- The build a message is about. -/
def Message.build : Message → Nat
  | .progress id _ => id
  | .built id _ _ => id

namespace Notice

/-- Whether the notice is a build's result. -/
def isBuilt : Notice → Bool
  | .built _ => true
  | _ => false

/-- Whether the notice is a build's counters. -/
def isStats : Notice → Bool
  | .stats _ => true
  | _ => false

@[simp] theorem isBuilt_built (r : BuildResult) : (Notice.built r).isBuilt = true := rfl
@[simp] theorem isBuilt_stats (st : BuildStats) : (Notice.stats st).isBuilt = false := rfl
@[simp] theorem isBuilt_progress (x : Float32) : (Notice.progress x).isBuilt = false := rfl
@[simp] theorem isStats_built (r : BuildResult) : (Notice.built r).isStats = false := rfl
@[simp] theorem isStats_stats (st : BuildStats) : (Notice.stats st).isStats = true := rfl
@[simp] theorem isStats_progress (x : Float32) : (Notice.progress x).isStats = false := rfl

end Notice

/-- What a build's result promises: never `cancelled`, and a route exactly with an outcome that has
one, the route having at least two points. -/
def BuildResult.WellFormed (r : BuildResult) : Prop :=
  r.outcome ≠ .cancelled ∧ (r.route.isSome ↔ r.outcome.hasRoute) ∧ ∀ x ∈ r.route, 2 ≤ x.points.size

namespace Session

/-- Taking message `m` in `s` changes the phase, the route or the build in flight, or calls the
listener. -/
def Observes (s : Session) (m : Message) : Prop :=
  (s.handle m).phase ≠ s.phase ∨ (s.handle m).route ≠ s.route ∨ (s.handle m).pending ≠ s.pending ∨
    (({ s with listening := true } : Session).handle m).heard ≠ s.heard

/-- The calls that end the build in flight: closing, resetting, shutting down, removing a route held,
and starting another build. -/
def Cancels (s : Session) : Move → Prop
  | .call .close | .call .reset | .call .shutdown => True
  | .call .removeRoute => s.phase.hasRoute = true
  | m => s.launched m ≠ none

/-- The build a move answers for: for a read of the inbox, the build in flight; for another call,
the build it starts. -/
def owner (s : Session) : Move → Option Nat
  | .call c => if c.reads then s.pending.map PendingBuild.id else s.launched (.call c)
  | .work _ => none

/-- What a move tells the listener. -/
def told (s : Session) (m : Move) : List Notice := (s.move m).heard.toList.drop s.heard.size

/-- Along a run, each notice told to the listener, with the build it answers for. -/
def tellers (s : Session) : List Move → List (Option Nat × Notice)
  | [] => []
  | m :: ms => (s.told m).map (s.owner m, ·) ++ (s.move m).tellers ms

/-! ## Stale messages -/

/-- A message about a build that is not in flight changes nothing. -/
theorem handle_stale {s : Session} {m : Message} (h : s.pending.map PendingBuild.id ≠ some m.build) :
    s.handle m = s := by
  cases m with
  | progress id pc =>
      simp only [handle]
      rw [if_neg (by simpa [Message.build] using h)]
  | built id mode p =>
      simp only [handle, onBuilt]
      cases hp : s.pending with
      | none => rfl
      | some pb =>
          have hne : pb.id ≠ id := by simpa [hp, Message.build] using h
          simp [hne]

theorem not_observes_of_stale {s : Session} {m : Message}
    (h : s.pending.map PendingBuild.id ≠ some m.build) : ¬ s.Observes m := by
  have h' : ({ s with listening := true } : Session).pending.map PendingBuild.id ≠ some m.build := h
  intro hobs
  rcases hobs with hobs | hobs | hobs | hobs
  · exact hobs (by rw [handle_stale h])
  · exact hobs (by rw [handle_stale h])
  · exact hobs (by rw [handle_stale h])
  · exact hobs (by rw [handle_stale h'])

/-- Only a message about the build in flight has an effect. -/
theorem Observes.pending {s : Session} {m : Message} (h : s.Observes m) :
    ∃ k, s.pending = some ⟨m.build, k⟩ := by
  cases hp : s.pending with
  | none => exact absurd h (not_observes_of_stale (by simp [hp]))
  | some pb =>
      by_cases hid : pb.id = m.build
      · exact ⟨pb.kind, by rw [← hid]⟩
      · exact absurd h (not_observes_of_stale (by simp [hp, hid]))

/-! ## What one move tells the listener -/

/-- What a move tells the listener, answering for build `o` (`none`: for no build), leaving the
session `t`: at most one result and one set of counters; once a build's result or counters are
told, no build is in flight; every result is well formed; and a notice that answers for no build
is the answer that there is no position to start from. -/
structure Answers (o : Option Nat) (t : Session) (told : List Notice) : Prop where
  unowned : o = none → ∀ n ∈ told, n = .built { outcome := .noCurrentPosition }
  oneBuilt : (told.filter Notice.isBuilt).length ≤ 1
  oneStats : (told.filter Notice.isStats).length ≤ 1
  ends : o.isSome → ∀ n ∈ told, (n.isBuilt || n.isStats) → t.pending = none
  results : ∀ r, .built r ∈ told → r.WellFormed

/-- A move from `s` to `t` only adds to what the listener heard, and what it adds answers for `o`. -/
def Tells (s t : Session) (o : Option Nat) : Prop :=
  ∃ told, t.heard.toList = s.heard.toList ++ told ∧ Answers o t told

theorem Answers.nil (o : Option Nat) (t : Session) : Answers o t [] :=
  ⟨by simp, by simp, by simp, by simp, by simp⟩

theorem Answers.mono {o : Option Nat} {t u : Session} {told : List Notice} (h : Answers o t told)
    (hp : t.pending = none → u.pending = none) : Answers o u told :=
  ⟨h.unowned, h.oneBuilt, h.oneStats, fun ho n hn hb => hp (h.ends ho n hn hb), h.results⟩

theorem Tells.of_heard {s t : Session} (h : t.heard = s.heard) (o : Option Nat) : Tells s t o :=
  ⟨[], by simp [h], .nil o t⟩

theorem Tells.mono {s t u : Session} {o : Option Nat} (h : Tells s t o) (hheard : u.heard = t.heard)
    (hp : t.pending = none → u.pending = none) : Tells s u o := by
  obtain ⟨told, ht, ha⟩ := h
  exact ⟨told, by rw [hheard, ht], ha.mono hp⟩

theorem Tells.left {s s' t : Session} {o : Option Nat} (h : Tells s' t o) (hs : s'.heard = s.heard) :
    Tells s t o := by
  obtain ⟨told, ht, ha⟩ := h
  exact ⟨told, by rw [ht, hs], ha⟩

theorem hear_heard (s : Session) (n : Notice) :
    (s.hear n).heard.toList = s.heard.toList ++ if s.listening then [n] else [] := by
  unfold hear
  cases s.listening <;> simp

/-- Telling one notice. -/
theorem tells_hear {s X : Session} {o : Option Nat} {n : Notice} (hX : X.heard = s.heard)
    (h : Answers o (X.hear n) [n]) : Tells s (X.hear n) o := by
  refine ⟨if X.listening then [n] else [], by rw [hear_heard, hX], ?_⟩
  split
  · exact h
  · exact .nil _ _

/-- Telling two notices, with writes between them that leave the listener alone. -/
theorem tells_hear_two {s X Y : Session} {o : Option Nat} {n₁ n₂ : Notice}
    (hY : Y.heard = s.heard) (hX : X.heard = (Y.hear n₁).heard) (hl : X.listening = Y.listening)
    (h : Answers o (X.hear n₂) [n₁, n₂]) : Tells s (X.hear n₂) o := by
  refine ⟨if Y.listening then [n₁, n₂] else [], ?_, ?_⟩
  · rw [hear_heard, hX, hear_heard, hY, hl]
    split <;> simp
  · split
    · exact h
    · exact .nil _ _

theorem answers_progress {o : Option Nat} (ho : o.isSome) (t : Session) (x : Float32) :
    Answers o t [.progress x] :=
  ⟨fun h => by simp [h] at ho, by simp, by simp, by simp, by simp⟩

theorem answers_built {o : Option Nat} {t : Session} {r : BuildResult} (hr : r.WellFormed)
    (hu : o = none → r = { outcome := .noCurrentPosition }) (he : o.isSome → t.pending = none) :
    Answers o t [.built r] := by
  refine ⟨fun h n hn => ?_, by simp [List.filter_cons], by simp, fun ho _ _ _ => he ho,
    fun r' hr' => ?_⟩
  · rw [List.mem_singleton.1 hn, hu h]
  · simp only [List.mem_singleton, Notice.built.injEq] at hr'
    rw [hr']
    exact hr

theorem answers_stats_built {i : Nat} {t : Session} {st : BuildStats} {r : BuildResult}
    (hr : r.WellFormed) (hp : t.pending = none) : Answers (some i) t [.stats st, .built r] := by
  refine ⟨by simp, by simp [List.filter_cons], by simp [List.filter_cons], fun _ _ _ _ => hp,
    fun r' hr' => ?_⟩
  simp only [List.mem_cons, reduceCtorEq, Notice.built.injEq, List.mem_nil_iff, or_false,
    false_or] at hr'
  rw [hr']
  exact hr

/-- Several answers in a row, the first of them telling no result and no counters. -/
theorem Answers.append {o : Option Nat} {t u : Session} {told₁ told₂ : List Notice}
    (h₁ : Answers o t told₁) (hq : ∀ n ∈ told₁, (n.isBuilt || n.isStats) = false)
    (h₂ : Answers o u told₂) (ho : o.isSome) : Answers o u (told₁ ++ told₂) := by
  have hb : told₁.filter Notice.isBuilt = [] :=
    List.filter_eq_nil_iff.2 fun n hn => by simpa using (Bool.or_eq_false_iff.1 (hq n hn)).1
  have hs : told₁.filter Notice.isStats = [] :=
    List.filter_eq_nil_iff.2 fun n hn => by simpa using (Bool.or_eq_false_iff.1 (hq n hn)).2
  refine ⟨fun h => by simp [h] at ho, ?_, ?_, fun _ n hn hbs => ?_, fun r hr => ?_⟩
  · simpa [List.filter_append, hb] using h₂.oneBuilt
  · simpa [List.filter_append, hs] using h₂.oneStats
  · rcases List.mem_append.1 hn with hn | hn
    · rw [hq n hn] at hbs
      cases hbs
    · exact h₂.ends ho n hn hbs
  · rcases List.mem_append.1 hr with hr | hr
    · exact h₁.results r hr
    · exact h₂.results r hr

/-! ## Results are well formed -/

theorem wellFormed_failure {o : Outcome} (hc : o ≠ .cancelled) (hr : o.hasRoute = false) :
    BuildResult.WellFormed { outcome := o } :=
  ⟨hc, by simp [hr], by simp⟩

/-- The result delivered for a plan: a route only with an outcome that has one and only if it has
two points; an outcome with a route but none delivered becomes `routeNotFound`. -/
theorem delivered_wellFormed (p : Plan) (hc : p.outcome ≠ .cancelled) (maps routing : List Nat) :
    BuildResult.WellFormed
      ⟨if p.outcome.hasRoute && (p.route.filter fun r => p.outcome.hasRoute && r.valid).isNone
        then .routeNotFound else p.outcome,
       p.route.filter fun r => p.outcome.hasRoute && r.valid, maps, routing⟩ := by
  cases hr : p.route.filter fun r => p.outcome.hasRoute && r.valid with
  | none =>
      refine ⟨?_, ?_, by simp⟩
      · cases h : p.outcome.hasRoute <;> simp [hc]
      · cases h : p.outcome.hasRoute
        · simp [h]
        · simp [Outcome.hasRoute]
  | some r =>
      have hroute : p.outcome.hasRoute = true := by
        have hsome := (Option.filter_eq_some_iff.1 hr).2
        simp only [Bool.and_eq_true] at hsome
        exact hsome.1
      refine ⟨by simp [hc], by simp [hroute], fun x hx => ?_⟩
      obtain rfl : r = x := Option.some.inj hx
      exact valid_of_filter hr

/-! ## Reading the inbox -/

theorem Keeps.none_of_none {s t : Session} (h : Keeps s t) (hs : s.pending = none) :
    t.pending = none := by
  rcases h.2 with ht | ht
  · rw [ht, hs]
  · exact ht

/-- A read of the inbox from `s` to `t`: no build starts, what the listener is told answers for the
build in flight, and with no build in flight nothing is told. -/
structure Reads (s t : Session) : Prop where
  keeps : Keeps s t
  tells : Tells s t (s.pending.map PendingBuild.id)
  quiet : s.pending = none → t.heard = s.heard

theorem Reads.refl (s : Session) : Reads s s := ⟨.refl s, .of_heard rfl _, fun _ => rfl⟩

theorem Reads.withLink {s t : Session} (h : Reads s t) (l : Channel) :
    Reads s { t with link := l } :=
  ⟨h.keeps, h.tells.mono rfl id, h.quiet⟩

/-- Two reads in a row are a read: the second tells something only while the build of the first
is still in flight, so the first told no result and no counters. -/
theorem Reads.trans {s t u : Session} (h : Reads s t) (h' : Reads t u) : Reads s u := by
  refine ⟨h.keeps.trans h'.keeps, ?_, fun hs => ?_⟩
  · cases htp : t.pending with
    | none =>
        have hu : u.pending = none := h'.keeps.none_of_none htp
        exact h.tells.mono (h'.quiet htp) (fun _ => hu)
    | some p =>
        have hst : t.pending = s.pending := by
          rcases h.keeps.2 with hst | hst
          · exact hst
          · rw [hst] at htp
            cases htp
        have ho : (s.pending.map PendingBuild.id).isSome := by
          rw [← hst, htp]
          rfl
        obtain ⟨told₁, ht, ha₁⟩ := h.tells
        obtain ⟨told₂, hu, ha₂⟩ := h'.tells
        rw [hst] at ha₂
        refine ⟨told₁ ++ told₂, by rw [hu, ht, List.append_assoc], ha₁.append ?_ ha₂ ho⟩
        intro n hn
        cases hb : (n.isBuilt || n.isStats)
        · rfl
        · have hnone := ha₁.ends ho n hn hb
          rw [hnone] at htp
          cases htp
  · have ht : t.pending = none := h.keeps.none_of_none hs
    rw [h'.quiet ht, h.quiet hs]

theorem tells_onBuilt (s : Session) (id : Nat) (mode : Mode) (p : Plan) :
    Tells s (s.onBuilt id mode p) (s.pending.map PendingBuild.id) := by
  unfold onBuilt
  cases hp : s.pending with
  | none => exact .of_heard rfl _
  | some pb =>
      dsimp only
      split
      · exact .of_heard rfl _
      · split
        · exact .of_heard rfl _
        · next hc =>
            -- the counters, then the result, around the writes of phase and route
            refine @tells_hear_two s _ { s with pending := none } _
              (.stats ⟨mode, p.outcome, p.visited, p.cache, p.route.map Route.length⟩) _ rfl ?_ ?_ ?_
            · split <;> rfl
            · split <;> simp
            · refine answers_stats_built (delivered_wellFormed p hc _ _) ?_
              split <;> simp

theorem reads_handle (s : Session) (m : Message) : Reads s (s.handle m) := by
  refine ⟨keeps_handle s m, ?_, fun hs => by rw [handle_stale (by simp [hs])]⟩
  cases m with
  | progress id x =>
      simp only [handle]
      split
      · next hp => exact tells_hear rfl (answers_progress (by rw [hp]; rfl) _ x)
      · exact .of_heard rfl _
  | built id mode p => exact tells_onBuilt s id mode p

theorem reads_workerLost (s : Session) : Reads s s.workerLost := by
  refine ⟨keeps_failPending _ _, ?_, fun hs => by simp [workerLost, failPending, hs]⟩
  unfold workerLost failPending
  cases hp : s.pending with
  | none => exact .of_heard rfl _
  | some pb =>
      exact tells_hear rfl (answers_built (wellFormed_failure (by decide) rfl) (by simp)
        (fun _ => by simp))

theorem reads_waitEvent (s : Session) : Reads s s.waitEvent.2 := by
  unfold waitEvent
  split
  · exact .refl s
  · split
    · rw [handle_withLink]
      exact (reads_handle s _).withLink _
    · exact .refl s
    · exact reads_workerLost s

theorem reads_run_waitEvent (s : Session) (n : Nat) :
    Reads s (s.run (List.replicate n (.call .waitEvent))) := by
  induction n generalizing s with
  | zero => exact .refl s
  | succ n ih =>
      rw [List.replicate_succ, run, List.foldl_cons, ← run]
      exact (reads_waitEvent s).trans (ih _)

/-- Every call that reads the inbox is a read. -/
theorem reads_call (s : Session) : ∀ c : Call, c.reads = true → Reads s (s.call c)
  | .processEvents, _ => by
      simp only [call]
      rw [processEvents_eq_run]
      exact reads_run_waitEvent _ _
  | .waitEvent, _ => reads_waitEvent s
  | .waitIdle patient, _ => by
      simp only [call]
      obtain ⟨n, hn⟩ := waitIdle_eq_run s patient
      rw [hn]
      exact reads_run_waitEvent _ _

/-! ## The other calls -/

theorem tells_launch (s : Session) (k : BuildKind) (a b : Point) {o : Option Nat} (ho : o.isSome) :
    Tells s (s.launch k a b).2 o := by
  cases halive : s.link.alive
  · rw [launch_of_gone halive]
    exact tells_hear rfl (answers_built (wellFormed_failure (by decide) rfl)
      (fun h => by simp [h] at ho) (fun _ => by simp))
  · rw [launch_of_alive halive]
    exact .of_heard rfl o

/-- A call that does not read the inbox answers for the build it starts, if any. -/
theorem Shape.tells {s t : Session} (h : Shape s t) :
    Tells s t (if t.nextId = s.nextId + 1 then some s.nextId else none) := by
  cases h with
  | quiet hheard _ => exact .of_heard hheard _
  | @launch s' k a b hheard hnext ht =>
      have hn : (s'.launch k a b).2.nextId = s.nextId + 1 := by
        rw [(starts_launch s' k a b).1, hnext]
      rw [ht, if_pos hn]
      exact (tells_launch s' k a b rfl).left hheard
  | noPosition ht =>
      have hn : ¬ (s.hear (.built { outcome := .noCurrentPosition })).nextId = s.nextId + 1 := by
        simp
      rw [ht, if_neg hn]
      exact tells_hear rfl (answers_built (wellFormed_failure (by decide) rfl) (fun _ => rfl)
        (fun h => by simp at h))

/-- Every move only adds to what the listener heard, and what it adds answers for its owner. -/
theorem tells_move (s : Session) : ∀ m : Move, Tells s (s.move m) (s.owner m)
  | .work _ => .of_heard rfl _
  | .call c => by
      simp only [owner]
      cases hc : c.reads
      · rw [if_neg (by simp)]
        exact (shape_call s c hc).tells
      · rw [if_pos rfl]
        exact (reads_call s c hc).tells

theorem move_heard (s : Session) (m : Move) :
    (s.move m).heard.toList = s.heard.toList ++ s.told m := by
  obtain ⟨told, ht, _⟩ := tells_move s m
  rw [ht, Session.told, ht, ← Array.length_toList, List.drop_left]

theorem answers_move (s : Session) (m : Move) : Answers (s.owner m) (s.move m) (s.told m) := by
  obtain ⟨told, ht, ha⟩ := tells_move s m
  have htold : s.told m = told := by
    rw [Session.told, ht, ← Array.length_toList, List.drop_left]
  rw [htold]
  exact ha

/-- The listener hears, in order, the notices of `tellers`. -/
theorem heard_run (s : Session) (ms : List Move) :
    (s.run ms).heard.toList = s.heard.toList ++ (s.tellers ms).map Prod.snd := by
  induction ms generalizing s with
  | nil => simp [tellers]
  | cons m ms ih =>
      rw [run, List.foldl_cons, ← run, ih, move_heard]
      simp [tellers, Function.comp_def]

/-- Along a run every notice told answers for a build, except `noCurrentPosition`, and every result
told is well formed. -/
theorem tellers_answer (s : Session) (ms : List Move) :
    ∀ x ∈ s.tellers ms, (x.1 = none → x.2 = .built { outcome := .noCurrentPosition }) ∧
      ∀ r, x.2 = .built r → r.WellFormed := by
  induction ms generalizing s with
  | nil => simp [tellers]
  | cons m ms ih =>
      intro x hx
      rcases List.mem_append.1 hx with hx | hx
      · obtain ⟨n, hn, rfl⟩ := List.mem_map.1 hx
        have ha := answers_move s m
        refine ⟨fun ho => ha.unowned ho n hn, fun r hr => ha.results r ?_⟩
        rw [← hr]
        exact hn
      · exact ih (s.move m) x hx

/-! ## Each build is answered at most once -/

/-- The builds answered along a run, once for each notice that `f` picks. -/
def answered (f : Notice → Bool) (s : Session) (ms : List Move) : List Nat :=
  (s.tellers ms).filterMap fun x => if f x.2 then x.1 else none

theorem answered_cons (f : Notice → Bool) (s : Session) (m : Move) (ms : List Move) :
    answered f s (m :: ms) =
      (s.told m).filterMap (fun n => if f n then s.owner m else none) ++ answered f (s.move m) ms := by
  simp only [answered, tellers, List.filterMap_append, List.filterMap_map, Function.comp_def]

/-- What one move adds to the builds answered: nothing, or its owner once, after which no build is
in flight. -/
theorem Answers.answered_once {o : Option Nat} {t : Session} {told : List Notice}
    (h : Answers o t told) {f : Notice → Bool} (hone : (told.filter f).length ≤ 1)
    (hf : ∀ n, f n = true → (n.isBuilt || n.isStats) = true) :
    (told.filterMap fun n => if f n then o else none) = [] ∨
      ∃ i, o = some i ∧ (told.filterMap fun n => if f n then o else none) = [i] ∧
        t.pending = none := by
  cases o with
  | none => exact .inl (by simp)
  | some i =>
      have hmap : (told.filterMap fun n => if f n then some i else none) =
          (told.filter f).map fun _ => i := by
        rw [← List.filterMap_eq_map', @List.filterMap_filter _ _ f (fun _ => some i) told]
      rw [hmap]
      cases hl : told.filter f with
      | nil => exact .inl rfl
      | cons n rest =>
          have hrest : rest = [] := by
            rw [hl, List.length_cons] at hone
            exact List.length_eq_zero_iff.1 (by omega)
          have hn : n ∈ told ∧ f n = true := List.mem_filter.1 (by rw [hl]; exact List.mem_cons_self)
          rw [hrest]
          exact .inr ⟨i, rfl, rfl, h.ends rfl n hn.1 (hf n hn.2)⟩

/-- The builds answered so far were started, and none of them is in flight. -/
def Fresh (s : Session) (done : List Nat) : Prop :=
  ∀ i ∈ done, i < s.nextId ∧ s.pending.map PendingBuild.id ≠ some i

theorem Fresh.move {s : Session} {done : List Nat} (h : Fresh s done) (m : Move) :
    Fresh (s.move m) done := by
  intro i hi
  obtain ⟨hlt, hne⟩ := h i hi
  rcases keeps_or_starts s m with hk | hs
  · refine ⟨by rw [hk.1]; exact hlt, ?_⟩
    rcases hk.2 with hp | hp
    · rw [hp]
      exact hne
    · simp [hp]
  · refine ⟨by rw [hs.1]; omega, ?_⟩
    rcases hs.2 with hp | ⟨k, hp⟩
    · simp [hp]
    · simp only [hp, Option.map_some, ne_eq, Option.some.injEq]
      omega

/-- The owner of a move is the build it starts, or the build in flight. -/
theorem Coherent.owner_lt {s : Session} (h : s.Coherent) {m : Move} {i : Nat}
    (ho : s.owner m = some i) :
    i < (s.move m).nextId ∧ (i = s.nextId ∨ s.pending.map PendingBuild.id = some i) := by
  have hle : s.nextId ≤ (s.move m).nextId := by
    rcases keeps_or_starts s m with hk | hs
    · have hn := hk.1
      omega
    · have hn := hs.1
      omega
  cases m with
  | work w => simp [owner] at ho
  | call c =>
      simp only [owner] at ho
      split at ho
      · -- a read answers for the build in flight
        obtain ⟨pb, hp, hid⟩ := Option.map_eq_some_iff.1 ho
        have hlt := h.id_lt pb hp
        exact ⟨by omega, .inr ho⟩
      · -- another call answers for the build it starts
        simp only [launched] at ho
        split at ho
        · next hn =>
            cases ho
            exact ⟨by omega, .inl rfl⟩
        · cases ho

/-- Along a run of coherent sessions, the builds answered by notices that `f` picks stay distinct
from those answered before: each build is answered once. -/
theorem answered_nodup {f : Notice → Bool} (hf : ∀ n, f n = true → (n.isBuilt || n.isStats) = true)
    (hone : ∀ (o : Option Nat) (t : Session) (told : List Notice), Answers o t told →
      (told.filter f).length ≤ 1) (ms : List Move) :
    ∀ (s : Session) (done : List Nat), s.Coherent → Fresh s done → done.Nodup →
      (done ++ answered f s ms).Nodup := by
  induction ms with
  | nil =>
      intro s done _ _ hd
      simpa [answered, tellers] using hd
  | cons m ms ih =>
      intro s done hc hfresh hd
      rw [answered_cons, ← List.append_assoc]
      have ha := answers_move s m
      rcases ha.answered_once (hone _ _ _ ha) hf with hnil | ⟨i, ho, heq, hnone⟩
      · rw [hnil, List.append_nil]
        exact ih (s.move m) done (hc.move m) (hfresh.move m) hd
      · -- the move answers for build `i`, which no earlier move answered
        rw [heq]
        obtain ⟨hlt, hwho⟩ := hc.owner_lt ho
        have hnew : i ∉ done := by
          intro hi
          obtain ⟨hlt', hne⟩ := hfresh i hi
          rcases hwho with rfl | hp
          · omega
          · exact hne hp
        refine ih (s.move m) _ (hc.move m) (fun j hj => ?_) ?_
        · rcases List.mem_append.1 hj with hj | hj
          · exact hfresh.move m j hj
          · rw [List.mem_singleton.1 hj, hnone]
            exact ⟨hlt, by simp⟩
        · refine List.nodup_append.2 ⟨hd, List.nodup_cons.2 ⟨by simp, List.nodup_nil⟩, ?_⟩
          intro a ha b hb hab
          rw [List.mem_singleton.1 hb] at hab
          exact hnew (hab ▸ ha)

/-! ## A build observed was started last and stayed in flight -/

/-- A call that ends builds ends the one in flight. -/
theorem Coherent.cancels_ends {s : Session} (h : s.Coherent) {pb : PendingBuild}
    (hp : s.pending = some pb) {m : Move} (hc : s.Cancels m) : (s.move m).pending ≠ some pb := by
  have hopen : s.phase ≠ .closed := by
    rw [h.phase_of_pending hp]
    cases pb.kind <;> simp [BuildKind.running]
  have hchk : s.checkOpen = .ok () := by simp [checkOpen, hopen]
  -- a later build supersedes it: its number is the counter, above the build in flight
  have hlaunch : s.launched m ≠ none → (s.move m).pending ≠ some pb := by
    intro hl
    rcases keeps_or_starts s m with hk | hs
    · exact absurd (launched_of_keeps hk) hl
    · have hlt := h.id_lt pb hp
      rcases hs.2 with hnone | ⟨k, hk⟩
      · simp [hnone]
      · rw [hk]
        intro heq
        have hid := congrArg (Option.map PendingBuild.id) heq
        simp only [Option.map_some, Option.some.injEq] at hid
        omega
  cases m with
  | work w => exact hlaunch hc
  | call c =>
      cases c with
      | close => simp [Session.move, Session.call, Session.close, hchk]
      | reset => simp [Session.move, Session.call, Session.reset, Session.close, hchk, send_snd]
      | shutdown => simp [Session.move, Session.call, Session.shutdown, hchk, send_snd]
      | removeRoute =>
          have hroute : s.phase.hasRoute = true := hc
          simp [Session.move, Session.call, Session.removeRoute, hchk, hroute]
      | _ => exact hlaunch hc

/-- A move after which a build is in flight that was not in flight before started it. -/
theorem launched_of_pending {t : Session} {x : Move} {pb : PendingBuild} (hprev : t.pending ≠ some pb)
    (h : (t.move x).pending = some pb) : t.launched x = some pb.id := by
  rcases keeps_or_starts t x with hk | hs
  · rcases hk.2 with heq | hnone
    · exact absurd (heq ▸ h) hprev
    · rw [hnone] at h
      cases h
  · rcases hs.2 with hnone | ⟨k, hk⟩
    · rw [hnone] at h
      cases h
    · rw [hk] at h
      cases h
      exact launched_of_starts hs

/-- The build in flight after a run from a session with none stayed in flight since the move that
started it. -/
theorem pending_since_launch {s : Session} (h0 : s.pending = none) {id : Nat} {k : BuildKind}
    (ms : List Move) (h : (s.run ms).pending = some ⟨id, k⟩) :
    ∃ pre m₀ post, ms = pre ++ m₀ :: post ∧ (s.run pre).launched m₀ = some id ∧
      ∀ mid, mid <+: post → (s.run (pre ++ m₀ :: mid)).pending = some ⟨id, k⟩ := by
  -- induction from the end of the run, that is on its reverse
  suffices hrev : ∀ l : List Move, (s.run l.reverse).pending = some ⟨id, k⟩ →
      ∃ pre m₀ post, l.reverse = pre ++ m₀ :: post ∧ (s.run pre).launched m₀ = some id ∧
        ∀ mid, mid <+: post → (s.run (pre ++ m₀ :: mid)).pending = some ⟨id, k⟩ by
    have hms := hrev ms.reverse (by rw [List.reverse_reverse]; exact h)
    rwa [List.reverse_reverse] at hms
  intro l
  induction l with
  | nil =>
      intro hl
      rw [List.reverse_nil, run_nil, h0] at hl
      cases hl
  | cons x l ih =>
      intro hl
      rw [List.reverse_cons, run_concat] at hl
      rw [List.reverse_cons]
      by_cases hprev : (s.run l.reverse).pending = some ⟨id, k⟩
      · -- the build was in flight before the last move, and still is after it
        obtain ⟨pre, m₀, post, hsplit, hlaunch, hstay⟩ := ih hprev
        refine ⟨pre, m₀, post ++ [x], by rw [hsplit]; simp, hlaunch, fun mid hmid => ?_⟩
        rcases List.prefix_concat_iff.1 hmid with rfl | hpre
        · have hall : pre ++ m₀ :: (post ++ [x]) = l.reverse ++ [x] := by
            rw [hsplit]
            simp
          rw [hall, run_concat]
          exact hl
        · exact hstay mid hpre
      · -- the last move started it
        refine ⟨l.reverse, x, [], rfl, launched_of_pending hprev hl, fun mid hmid => ?_⟩
        rw [List.prefix_nil.1 hmid, run_concat]
        exact hl

/-! ## Superseded and closed builds are never observed -/

/-- Along every run from a new session, beside any behaviour of the worker: a message takes effect
only if it is about the build started last, which has stayed in flight since the move that started
it, with no call in between that ends it; each build gets at most one result and at most one set of
counters, and a notice that answers for no build is the answer that there is no position to start
from; the listener hears exactly these notices, in order; and every result it hears is well formed,
so never `cancelled`. -/
theorem superseded_builds_unobserved (config : SessionConfig) (atlas : Atlas) (prefs : Preferences)
    (listening : Bool) (mode : Mode) (ms : List Move) :
    let s₀ := initial config atlas prefs listening mode
    (∀ m : Message, (s₀.run ms).Observes m →
      s₀.lastLaunched ms = some m.build ∧
      ∃ pre m₀ post k, ms = pre ++ m₀ :: post ∧ (s₀.run pre).launched m₀ = some m.build ∧
        (∀ mid, mid <+: post → (s₀.run (pre ++ m₀ :: mid)).pending = some ⟨m.build, k⟩) ∧
        ∀ mid m', mid ++ [m'] <+: post → ¬ (s₀.run (pre ++ m₀ :: mid)).Cancels m') ∧
      (s₀.answered Notice.isBuilt ms).Nodup ∧ (s₀.answered Notice.isStats ms).Nodup ∧
      (∀ x ∈ s₀.tellers ms, x.1 = none → x.2 = .built { outcome := .noCurrentPosition }) ∧
      (s₀.run ms).heard.toList = (s₀.tellers ms).map Prod.snd ∧
      ∀ r, .built r ∈ (s₀.run ms).heard.toList → r.WellFormed := by
  intro s₀
  have hc₀ : s₀.Coherent := initial_coherent config atlas prefs listening mode
  have hfresh : Fresh s₀ [] := fun i hi => absurd hi List.not_mem_nil
  have hheard : (s₀.run ms).heard.toList = (s₀.tellers ms).map Prod.snd := by
    rw [heard_run]
    rfl
  have hbuilt := answered_nodup (fun n hn => by simp [hn]) (fun _ _ _ ha => ha.oneBuilt) ms s₀ []
    hc₀ hfresh List.nodup_nil
  have hstats := answered_nodup (fun n hn => by simp [hn]) (fun _ _ _ ha => ha.oneStats) ms s₀ []
    hc₀ hfresh List.nodup_nil
  rw [List.nil_append] at hbuilt hstats
  refine ⟨fun m hm => ?_, hbuilt, hstats, fun x hx => (tellers_answer s₀ ms x hx).1, hheard,
    fun r hr => ?_⟩
  · -- the message is about the build in flight, which is the last started
    obtain ⟨k, hk⟩ := hm.pending
    obtain ⟨pre, m₀, post, hsplit, hlaunch, hstay⟩ := pending_since_launch rfl ms hk
    refine ⟨pending_lastLaunched rfl ms _ hk, pre, m₀, post, k, hsplit, hlaunch, hstay, ?_⟩
    intro mid m' hpre hcancel
    have hbefore := hstay mid ((List.prefix_append mid [m']).trans hpre)
    have hafter := hstay (mid ++ [m']) hpre
    rw [show pre ++ m₀ :: (mid ++ [m']) = (pre ++ m₀ :: mid) ++ [m'] by simp, run_concat] at hafter
    exact (hc₀.run (pre ++ m₀ :: mid)).cancels_ends hbefore hcancel hafter
  · rw [hheard] at hr
    obtain ⟨x, hx, hxr⟩ := List.mem_map.1 hr
    exact (tellers_answer s₀ ms x hx).2 r hxr

end Session

end Wayfinder
