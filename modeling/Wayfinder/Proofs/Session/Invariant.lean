import Wayfinder.Proofs.Session.Run

/-!
# The phase of a session agrees with its build and its route

In every state of every run the phase is the one the build in flight and the route held call for:
a build is in flight exactly while building or rebuilding, a fresh one exactly while building; a
route is held exactly while ready, navigating or rebuilding, and it has at least two points; and
the build in flight is the last one started.

Each public call is a few writes of phase, build and route, made by a handful of helpers
(`launch`, `failPending`, `cancelPending`, `dropRoute`, `installRoute`). Each helper gets its
equation first; the agreement is then checked call by call, and a run keeps it by induction.
-/

namespace Wayfinder

namespace Phase

/-- The kind of build that the phase says is in flight. -/
def expects : Phase → Option BuildKind
  | .building => some .fresh
  | .rebuilding => some .rebuild
  | _ => none

@[simp] theorem expects_running (k : BuildKind) : k.running.expects = some k := by
  cases k <;> rfl

@[simp] theorem expects_fallback (k : BuildKind) : k.fallback.expects = none := by
  cases k <;> rfl

theorem expects_eq_some {ph : Phase} {k : BuildKind} : ph.expects = some k ↔ ph = k.running := by
  cases ph <;> cases k <;> simp [expects, BuildKind.running]

theorem hasRoute_running (k : BuildKind) : k.running.hasRoute = k.fallback.hasRoute := by
  cases k <;> rfl

end Phase

namespace Session

/-- The agreement of a session's phase with its build in flight, its route and its counter. -/
structure Coherent (s : Session) : Prop where
  building : s.pending.map PendingBuild.kind = s.phase.expects
  holding : s.route.isSome = s.phase.hasRoute
  twoPoints : ∀ r ∈ s.route, 2 ≤ r.points.size
  latest : ∀ p ∈ s.pending, p.id + 1 = s.nextId

/-- Only the phase, the build in flight, the route and the counter matter. -/
theorem Coherent.congr {s t : Session} (h : s.Coherent) (hphase : t.phase = s.phase)
    (hpending : t.pending = s.pending) (hroute : t.route = s.route) (hnext : t.nextId = s.nextId) :
    t.Coherent := by
  obtain ⟨h1, h2, h3, h4⟩ := h
  exact ⟨by rwa [hphase, hpending], by rwa [hphase, hroute], by rwa [hroute],
    by rwa [hpending, hnext]⟩

theorem Coherent.hear {s : Session} (h : s.Coherent) (n : Notice) : (s.hear n).Coherent :=
  h.congr (by simp) (by simp) (by simp) (by simp)

theorem Coherent.withLink {s : Session} (h : s.Coherent) (l : Channel) :
    ({ s with link := l } : Session).Coherent :=
  h.congr rfl rfl rfl rfl

/-- A new session, as `start` gives it. -/
def initial (config : SessionConfig) (atlas : Atlas) (prefs : Preferences) (listening : Bool)
    (mode : Mode) : Session :=
  { config, atlas, prefs, listening, mode, settings := Settings.forMode mode }

theorem start_eq_initial {config : SessionConfig} {atlas : Atlas} {prefs : Preferences}
    {listening : Bool} {vehicle pedestrian : Option Engine} {absent : AbsentPolicy}
    {s : Session} {w : Worker}
    (h : start config atlas prefs listening vehicle pedestrian absent = .ok (s, w)) :
    s = initial config atlas prefs listening (prefs.lastMode.getD config.defaultMode) := by
  unfold start at h
  cases hcheck : config.check with
  | error e => simp [hcheck, bind, Except.bind] at h
  | ok u =>
      simp only [hcheck, bind, Except.bind] at h
      split at h
      · simp only [pure, Except.pure, Except.ok.injEq, Prod.mk.injEq] at h
        rw [← h.1]
        rfl
      · simp [throw, throwThe, MonadExceptOf.throw] at h

/-- A settled session, with no build in flight, holding a route exactly when its phase says so. -/
theorem coherent_settled {s : Session} (hpending : s.pending = none) (hphase : s.phase.expects = none)
    (hroute : s.route.isSome = s.phase.hasRoute) (hvalid : ∀ r ∈ s.route, 2 ≤ r.points.size) :
    s.Coherent :=
  ⟨by rw [hpending, hphase]; rfl, hroute, hvalid, by simp [hpending]⟩

/-! ## The helpers -/

section Fields

variable (s : Session) (r : Route)

@[simp] theorem installRoute_route : (s.installRoute r).route = some r := rfl
@[simp] theorem installRoute_pending : (s.installRoute r).pending = s.pending := rfl
@[simp] theorem installRoute_phase : (s.installRoute r).phase = s.phase := rfl
@[simp] theorem installRoute_nextId : (s.installRoute r).nextId = s.nextId := rfl
@[simp] theorem installRoute_heard : (s.installRoute r).heard = s.heard := rfl
@[simp] theorem installRoute_listening : (s.installRoute r).listening = s.listening := rfl
@[simp] theorem dropRoute_route : s.dropRoute.route = none := rfl
@[simp] theorem dropRoute_pending : s.dropRoute.pending = s.pending := rfl
@[simp] theorem dropRoute_phase : s.dropRoute.phase = s.phase := rfl
@[simp] theorem dropRoute_nextId : s.dropRoute.nextId = s.nextId := rfl
@[simp] theorem dropRoute_heard : s.dropRoute.heard = s.heard := rfl
@[simp] theorem dropRoute_listening : s.dropRoute.listening = s.listening := rfl
@[simp] theorem cancelPending_pending : s.cancelPending.pending = none := rfl
@[simp] theorem cancelPending_route : s.cancelPending.route = s.route := rfl
@[simp] theorem cancelPending_phase : s.cancelPending.phase = s.phase := rfl
@[simp] theorem cancelPending_nextId : s.cancelPending.nextId = s.nextId := rfl
@[simp] theorem cancelPending_heard : s.cancelPending.heard = s.heard := rfl

end Fields

theorem send_snd (s : Session) (c : Command) :
    (s.send c).2 = { s with link := (s.link.send c).getD s.link } := by
  unfold send
  split <;> simp_all

theorem launch_fst (s : Session) (k : BuildKind) (a b : Point) :
    (s.launch k a b).1 = s.nextId := by
  unfold launch
  dsimp only
  split <;> rfl

/-- A launch to a running worker: the build is in flight. -/
theorem launch_of_alive {s : Session} (h : s.link.alive) (k : BuildKind) (a b : Point) :
    (s.launch k a b).2 =
      { s with pending := some ⟨s.nextId, k⟩, nextId := s.nextId + 1, phase := k.running,
               link := { s.link with commands := s.link.commands ++ [.build s.nextId a b] } } := by
  simp [launch, send, Channel.send, h, cancelPending]

/-- A launch to a worker that is gone: the build ends at once with `internalError`. -/
theorem launch_of_gone {s : Session} (h : s.link.alive = false) (k : BuildKind) (a b : Point) :
    (s.launch k a b).2 = ({ s with pending := none, nextId := s.nextId + 1, phase := k.fallback } :
      Session).hear (.built { outcome := .internalError }) := by
  simp [launch, send, Channel.send, h, cancelPending, failPending]

theorem Coherent.launch {s : Session} (k : BuildKind) (a b : Point)
    (hroute : s.route.isSome = k.running.hasRoute) (hvalid : ∀ r ∈ s.route, 2 ≤ r.points.size) :
    (s.launch k a b).2.Coherent := by
  cases halive : s.link.alive
  · rw [launch_of_gone halive]
    apply Coherent.hear
    exact coherent_settled rfl (by simp) (by simp [hroute, Phase.hasRoute_running]) hvalid
  · rw [launch_of_alive halive]
    exact ⟨by simp, hroute, hvalid, by simp⟩

theorem Coherent.failPending {s : Session} (h : s.Coherent) (o : Outcome) :
    (s.failPending o).Coherent := by
  unfold Session.failPending
  cases hp : s.pending with
  | none => exact h
  | some p =>
      have hexp : s.phase.expects = some p.kind := by rw [← h.building, hp]; rfl
      have hroute : s.route.isSome = p.kind.fallback.hasRoute := by
        rw [h.holding, Phase.expects_eq_some.1 hexp, Phase.hasRoute_running]
      apply Coherent.hear
      exact coherent_settled rfl (by simp) hroute h.twoPoints

theorem Coherent.workerLost {s : Session} (h : s.Coherent) : s.workerLost.Coherent :=
  h.failPending _

/-- The phase a coherent session is in while build `pb` is in flight. -/
theorem Coherent.phase_of_pending {s : Session} (h : s.Coherent) {pb : PendingBuild}
    (hp : s.pending = some pb) : s.phase = pb.kind.running :=
  Phase.expects_eq_some.1 (by rw [← h.building, hp]; rfl)

theorem valid_of_filter {p : Plan} {r : Route}
    (h : p.route.filter (fun r => p.outcome.hasRoute && r.valid) = some r) : 2 ≤ r.points.size := by
  rw [Option.filter_eq_some_iff] at h
  have hvalid := h.2
  simp only [Bool.and_eq_true, Route.valid, decide_eq_true_eq] at hvalid
  exact hvalid.2

/-! ## Taking messages -/

theorem Coherent.onBuilt {s : Session} (h : s.Coherent) (id : Nat) (mode : Mode) (p : Plan) :
    (s.onBuilt id mode p).Coherent := by
  unfold Session.onBuilt
  cases hp : s.pending with
  | none => exact h
  | some pb =>
      have hphase := h.phase_of_pending hp
      dsimp only
      split
      · exact h
      · split
        · exact coherent_settled rfl (by simp)
            (by rw [h.holding, hphase, Phase.hasRoute_running]) h.twoPoints
        · apply Coherent.hear
          split
          · rename_i r _ hr
            exact coherent_settled (by simp) (by simp [Phase.expects]) (by simp [Phase.hasRoute])
              (by simpa using valid_of_filter hr)
          · exact coherent_settled (by simp) (by simp [Phase.expects]) (by simp [Phase.hasRoute])
              (by simp)
          · rename_i r _ hr
            exact coherent_settled (by simp) (by simp [Phase.expects]) (by simp [Phase.hasRoute])
              (by simpa using valid_of_filter hr)
          · rename_i hk _
            refine coherent_settled (by simp) (by simp [Phase.expects]) ?_ (by simpa using h.twoPoints)
            simp [h.holding, hphase, hk, BuildKind.running, Phase.hasRoute]

theorem Coherent.handle {s : Session} (h : s.Coherent) (m : Message) : (s.handle m).Coherent := by
  cases m with
  | progress id pc =>
      simp only [Session.handle]
      split
      · exact h.hear _
      · exact h
  | built id mode p => exact h.onBuilt id mode p

theorem Coherent.waitEvent {s : Session} (h : s.Coherent) : s.waitEvent.2.Coherent := by
  unfold Session.waitEvent
  split
  · exact h
  · split
    · exact (h.withLink _).handle _
    · exact h
    · exact h.workerLost

/-- Every run of `waitEvent`s keeps the agreement; `processEvents` and `waitIdle` are such runs. -/
theorem Coherent.run_waitEvent {s : Session} (h : s.Coherent) (n : Nat) :
    (s.run (List.replicate n (.call .waitEvent))).Coherent := by
  induction n generalizing s with
  | zero => exact h
  | succ n ih =>
      rw [List.replicate_succ, run, List.foldl_cons, ← run]
      exact ih h.waitEvent

/-! ## The calls that start builds -/

theorem Coherent.buildRoute {s : Session} (h : s.Coherent) (a b : Point) :
    (s.buildRoute a b).2.Coherent := by
  unfold Session.buildRoute
  split
  · exact h
  · apply Coherent.launch
    · split
      · simp [Phase.hasRoute, BuildKind.running]
      · rename_i hnot
        simpa [h.holding, BuildKind.running, Phase.hasRoute] using hnot
    · split
      · simp
      · exact h.twoPoints

theorem Coherent.buildFromCurrent {s : Session} (h : s.Coherent) (b : Point) :
    (s.buildFromCurrent b).2.Coherent := by
  unfold Session.buildFromCurrent
  split
  · exact h
  · split
    · exact h.buildRoute _ _
    · exact h.hear _

theorem matchFix_snd (s : Session) (fix : Fix) :
    ∃ f, (s.matchFix fix).2 = { s with follower := f } := by
  unfold matchFix
  split
  · exact ⟨s.follower, rfl⟩
  · split
    · exact ⟨s.follower, rfl⟩
    · exact ⟨_, rfl⟩

theorem Coherent.matchFix {s : Session} (h : s.Coherent) (fix : Fix) :
    (s.matchFix fix).2.Coherent := by
  obtain ⟨f, hf⟩ := s.matchFix_snd fix
  rw [hf]
  exact h.congr rfl rfl rfl rfl

theorem Coherent.onLocation {s : Session} (h : s.Coherent) (fix : Fix) :
    (s.onLocation fix).2.Coherent := by
  unfold Session.onLocation
  split
  · exact h
  · have hm := (h.congr (t := { s with lastFix := some fix }) rfl rfl rfl rfl).matchFix fix
    dsimp only
    split
    · next t heq =>
        rw [heq] at hm
        exact hm
    · next mt t heq =>
        rw [heq] at hm
        split
        · next hnav =>
            split
            · split
              · apply Coherent.launch
                · simp [hm.holding, hnav, BuildKind.running, Phase.hasRoute]
                · exact hm.twoPoints
              · exact hm.congr rfl rfl rfl rfl
            · exact hm.congr rfl rfl rfl rfl
        · exact hm

/-! ## The other calls -/

theorem Coherent.setMode {s : Session} (h : s.Coherent) (m : Mode) : (s.setMode m).2.Coherent := by
  unfold Session.setMode
  split
  · exact h
  · split
    · exact h
    · split
      · exact h
      · exact h.congr (by simp [send_snd]) (by simp [send_snd]) (by simp [send_snd])
          (by simp [send_snd])

theorem Coherent.follow {s : Session} (h : s.Coherent) : s.follow.2.Coherent := by
  unfold Session.follow
  split
  · exact h
  · split
    · exact h
    · next hready =>
        have hready : s.phase = .ready := by simpa using hready
        have hnone : s.pending = none := by
          have hb := h.building
          rw [hready] at hb
          simpa [Phase.expects] using hb
        exact coherent_settled hnone (by simp [Phase.expects])
          (by simp [h.holding, hready, Phase.hasRoute]) h.twoPoints

theorem Coherent.matchOnly {s : Session} (h : s.Coherent) (fix : Fix) :
    (s.matchOnly fix).2.Coherent := by
  unfold Session.matchOnly
  split
  · exact h
  · exact h.matchFix fix

theorem Coherent.close {s : Session} (h : s.Coherent) : s.close.2.Coherent := by
  unfold Session.close
  split
  · exact h
  · exact coherent_settled rfl (by simp [Phase.expects]) (by simp [Phase.hasRoute]) (by simp)

theorem Coherent.reset {s : Session} (h : s.Coherent) : s.reset.2.Coherent := by
  unfold Session.reset
  have hc := h.close
  split
  · next t heq =>
      rw [heq] at hc
      exact hc
  · next t heq =>
      rw [heq] at hc
      exact hc.congr (by simp [send_snd]) (by simp [send_snd]) (by simp [send_snd])
        (by simp [send_snd])

theorem Coherent.removeRoute {s : Session} (h : s.Coherent) : s.removeRoute.2.Coherent := by
  unfold Session.removeRoute
  split
  · exact h
  · dsimp only
    split
    · exact coherent_settled rfl (by simp [Phase.expects]) (by simp [Phase.hasRoute]) (by simp)
    · next hno =>
        have hno : s.phase.hasRoute = false := by simpa using hno
        refine ⟨by simpa using h.building, by simp [hno], by simp, by simpa using h.latest⟩

theorem Coherent.shutdown {s : Session} (h : s.Coherent) : s.shutdown.2.Coherent := by
  unfold Session.shutdown
  split
  · exact h
  · exact coherent_settled (by simp [send_snd]) (by simp [Phase.expects])
      (by simp [send_snd, Phase.hasRoute]) (by simp [send_snd])

theorem Coherent.processEvents {s : Session} (h : s.Coherent) : s.processEvents.2.Coherent := by
  rw [processEvents_eq_run]
  exact h.run_waitEvent _

theorem Coherent.waitIdle {s : Session} (h : s.Coherent) (patient : Bool) :
    (s.waitIdle patient).2.Coherent := by
  obtain ⟨n, hn⟩ := waitIdle_eq_run s patient
  rw [hn]
  exact h.run_waitEvent n

/-! ## The counter moves only when a build starts -/

/-- A move that starts no build: the counter stays, and the build in flight stays or ends. -/
def Keeps (s t : Session) : Prop :=
  t.nextId = s.nextId ∧ (t.pending = s.pending ∨ t.pending = none)

/-- A move that starts build number `s.nextId`: the counter moves on by one, and the build in flight
is the new one, or none when it ended at once. -/
def Starts (s t : Session) : Prop :=
  t.nextId = s.nextId + 1 ∧ (t.pending = none ∨ ∃ k, t.pending = some ⟨s.nextId, k⟩)

theorem Keeps.refl (s : Session) : Keeps s s := ⟨rfl, .inl rfl⟩

theorem Keeps.trans {s t u : Session} (h : Keeps s t) (h' : Keeps t u) : Keeps s u := by
  obtain ⟨hn, hp⟩ := h
  obtain ⟨hn', hp'⟩ := h'
  refine ⟨hn'.trans hn, ?_⟩
  rcases hp' with hp' | hp'
  · rwa [hp']
  · exact .inr hp'

theorem Keeps.of_eq {s t : Session} (hn : t.nextId = s.nextId) (hp : t.pending = s.pending) :
    Keeps s t :=
  ⟨hn, .inl hp⟩

theorem keeps_hear (s : Session) (n : Notice) : Keeps s (s.hear n) := .of_eq (by simp) (by simp)

theorem keeps_failPending (s : Session) (o : Outcome) : Keeps s (s.failPending o) := by
  unfold failPending
  cases s.pending with
  | none => exact .refl _
  | some p => exact ⟨by simp, .inr (by simp)⟩

theorem starts_launch (s : Session) (k : BuildKind) (a b : Point) : Starts s (s.launch k a b).2 := by
  cases halive : s.link.alive
  · rw [launch_of_gone halive]
    exact ⟨by simp, .inl (by simp)⟩
  · rw [launch_of_alive halive]
    exact ⟨rfl, .inr ⟨k, rfl⟩⟩

theorem keeps_onBuilt (s : Session) (id : Nat) (mode : Mode) (p : Plan) :
    Keeps s (s.onBuilt id mode p) := by
  unfold onBuilt
  split
  · exact .refl _
  · dsimp only
    split
    · exact .refl _
    · split
      · exact ⟨rfl, .inr rfl⟩
      · refine ⟨?_, .inr ?_⟩ <;> split <;> simp [dropRoute]

theorem keeps_handle (s : Session) (m : Message) : Keeps s (s.handle m) := by
  cases m with
  | progress id pc =>
      simp only [handle]
      split
      · exact keeps_hear _ _
      · exact .refl _
  | built id mode p => exact keeps_onBuilt s id mode p

theorem keeps_waitEvent (s : Session) : Keeps s s.waitEvent.2 := by
  unfold waitEvent
  split
  · exact .refl _
  · split
    · exact keeps_handle _ _
    · exact .refl _
    · exact keeps_failPending _ _

theorem keeps_run_waitEvent (s : Session) (n : Nat) :
    Keeps s (s.run (List.replicate n (.call .waitEvent))) := by
  induction n generalizing s with
  | zero => exact .refl _
  | succ n ih =>
      rw [List.replicate_succ, run, List.foldl_cons, ← run]
      exact (keeps_waitEvent s).trans (ih _)

theorem Starts.congr_left {s s' t : Session} (h : Starts s' t) (hn : s'.nextId = s.nextId) :
    Starts s t := by
  obtain ⟨h1, h2⟩ := h
  exact ⟨by rw [h1, hn], by rwa [hn] at h2⟩

theorem keeps_close (s : Session) : Keeps s s.close.2 := by
  unfold Session.close
  split
  · exact .refl _
  · exact ⟨rfl, .inr rfl⟩

/-- What a call that does not read the inbox does to the builds and the listener: it tells nothing
and starts no build; or it starts one with `launch`, from a session that heard the same; or, asked
to build from the current position with no fix, it tells `noCurrentPosition`. -/
inductive Shape (s t : Session) : Prop where
  | quiet (heard : t.heard = s.heard) (keeps : Keeps s t)
  | launch {s' : Session} {k : BuildKind} {a b : Point} (heard : s'.heard = s.heard)
      (next : s'.nextId = s.nextId) (ht : t = (s'.launch k a b).2)
  | noPosition (ht : t = s.hear (.built { outcome := .noCurrentPosition }))

theorem Shape.same (s : Session) : Shape s s := .quiet rfl (.refl s)

theorem Shape.keeps_or_starts {s t : Session} (h : Shape s t) : Keeps s t ∨ Starts s t := by
  cases h with
  | quiet _ hk => exact .inl hk
  | launch _ hnext ht =>
      rw [ht]
      exact .inr ((starts_launch _ _ _ _).congr_left hnext)
  | noPosition ht =>
      rw [ht]
      exact .inl (keeps_hear s _)

theorem shape_buildRoute (s : Session) (a b : Point) : Shape s (s.buildRoute a b).2 := by
  unfold buildRoute
  split
  · exact .same s
  · refine .launch ?_ ?_ rfl <;> dsimp only <;> split <;> rfl

theorem shape_buildFromCurrent (s : Session) (b : Point) : Shape s (s.buildFromCurrent b).2 := by
  unfold buildFromCurrent
  split
  · exact .same s
  · split
    · next f _ =>
        rcases hb : s.buildRoute f.point b with ⟨r, t⟩
        have h := shape_buildRoute s f.point b
        rw [hb] at h
        exact h
    · exact .noPosition rfl

theorem shape_setMode (s : Session) (m : Mode) : Shape s (s.setMode m).2 := by
  unfold Session.setMode
  split
  · exact .same s
  · split
    · exact .same s
    · split
      · exact .same s
      · exact .quiet (by simp [send_snd]) (.of_eq (by simp [send_snd]) (by simp [send_snd]))

theorem shape_follow (s : Session) : Shape s s.follow.2 := by
  unfold Session.follow
  split
  · exact .same s
  · split
    · exact .same s
    · exact .quiet rfl (.refl _)

theorem shape_onLocation (s : Session) (fix : Fix) : Shape s (s.onLocation fix).2 := by
  unfold onLocation
  split
  · exact .same s
  · obtain ⟨f, hf⟩ := Session.matchFix_snd { s with lastFix := some fix } fix
    dsimp only
    split
    · next t heq =>
        rw [heq] at hf
        simp only at hf
        subst hf
        exact .quiet rfl (.refl _)
    · next mt t heq =>
        rw [heq] at hf
        simp only at hf
        subst hf
        split
        · split
          · split
            · refine .launch ?_ ?_ rfl <;> rfl
            · exact .quiet rfl (.refl _)
          · exact .quiet rfl (.refl _)
        · exact .quiet rfl (.refl _)

theorem shape_matchOnly (s : Session) (fix : Fix) : Shape s (s.matchOnly fix).2 := by
  unfold matchOnly
  split
  · exact .same s
  · obtain ⟨f, hf⟩ := s.matchFix_snd fix
    exact .quiet (by simp [hf]) (.of_eq (by simp [hf]) (by simp [hf]))

theorem close_heard (s : Session) : s.close.2.heard = s.heard := by
  unfold Session.close
  split <;> rfl

theorem shape_reset (s : Session) : Shape s s.reset.2 := by
  unfold Session.reset
  have hk := keeps_close s
  have hheard := close_heard s
  rcases hc : s.close with ⟨r, t⟩
  rw [hc] at hk hheard
  rcases r with e | u
  · exact .quiet hheard hk
  · exact .quiet (by simpa [send_snd] using hheard)
      (hk.trans (.of_eq (by simp [send_snd]) (by simp [send_snd])))

theorem shape_removeRoute (s : Session) : Shape s s.removeRoute.2 := by
  unfold Session.removeRoute
  split
  · exact .same s
  · dsimp only
    split
    · exact .quiet rfl ⟨rfl, .inr rfl⟩
    · exact .quiet rfl (.refl _)

theorem shape_shutdown (s : Session) : Shape s s.shutdown.2 := by
  unfold Session.shutdown
  split
  · exact .same s
  · exact .quiet (by simp [send_snd]) ⟨by simp [send_snd], .inr (by simp [send_snd])⟩

/-- Every call that does not read the inbox has one of the three shapes. -/
theorem shape_call (s : Session) : ∀ c : Call, c.reads = false → Shape s (s.call c)
  | .buildRoute a b, _ => shape_buildRoute s a b
  | .buildFromCurrent b, _ => shape_buildFromCurrent s b
  | .setMode m, _ => shape_setMode s m
  | .follow, _ => shape_follow s
  | .onLocation fix, _ => shape_onLocation s fix
  | .matchOnly fix, _ => shape_matchOnly s fix
  | .close, _ => .quiet (close_heard s) (keeps_close s)
  | .reset, _ => shape_reset s
  | .removeRoute, _ => shape_removeRoute s
  | .shutdown, _ => shape_shutdown s

/-- Every move either starts no build or starts build `s.nextId`. -/
theorem keeps_or_starts (s : Session) (m : Move) : Keeps s (s.move m) ∨ Starts s (s.move m) := by
  cases m with
  | work w => exact .inl (.refl _)
  | call c =>
      cases hc : c.reads
      · exact (shape_call s c hc).keeps_or_starts
      · cases c with
        | processEvents =>
            simp only [move, call]
            rw [processEvents_eq_run]
            exact .inl (keeps_run_waitEvent _ _)
        | waitEvent => exact .inl (keeps_waitEvent s)
        | waitIdle patient =>
            simp only [move, call]
            obtain ⟨n, hn⟩ := waitIdle_eq_run s patient
            rw [hn]
            exact .inl (keeps_run_waitEvent _ _)
        | _ => cases hc

/-! ## Runs -/

theorem Coherent.call {s : Session} (h : s.Coherent) : ∀ c : Call, (s.call c).Coherent
  | .buildRoute a b => h.buildRoute a b
  | .buildFromCurrent b => h.buildFromCurrent b
  | .setMode m => h.setMode m
  | .follow => h.follow
  | .onLocation fix => h.onLocation fix
  | .matchOnly fix => h.matchOnly fix
  | .close => h.close
  | .reset => h.reset
  | .removeRoute => h.removeRoute
  | .shutdown => h.shutdown
  | .processEvents => h.processEvents
  | .waitEvent => h.waitEvent
  | .waitIdle patient => h.waitIdle patient

theorem Coherent.move {s : Session} (h : s.Coherent) : ∀ m : Move, (s.move m).Coherent
  | .call c => h.call c
  | .work _ => h.withLink _

theorem Coherent.run {s : Session} (h : s.Coherent) (ms : List Move) : (s.run ms).Coherent := by
  induction ms generalizing s with
  | nil => exact h
  | cons m ms ih => exact ih (h.move m)

theorem initial_coherent (config : SessionConfig) (atlas : Atlas) (prefs : Preferences)
    (listening : Bool) (mode : Mode) : (initial config atlas prefs listening mode).Coherent :=
  coherent_settled rfl rfl rfl (by simp [initial])

theorem Coherent.pending_iff {s : Session} (h : s.Coherent) :
    s.pending.isSome ↔ s.phase = .building ∨ s.phase = .rebuilding := by
  have hb := congrArg Option.isSome h.building
  rw [Option.isSome_map] at hb
  rw [hb]
  cases s.phase <;> simp [Phase.expects]

theorem Coherent.fresh_iff {s : Session} (h : s.Coherent) :
    s.pending.map PendingBuild.kind = some .fresh ↔ s.phase = .building := by
  rw [h.building]
  cases s.phase <;> simp [Phase.expects]

theorem Coherent.route_iff {s : Session} (h : s.Coherent) :
    s.route.isSome ↔ s.phase = .ready ∨ s.phase = .navigating ∨ s.phase = .rebuilding := by
  rw [h.holding]
  cases s.phase <;> simp [Phase.hasRoute]

theorem Coherent.id_lt {s : Session} (h : s.Coherent) : ∀ p ∈ s.pending, p.id < s.nextId := by
  intro p hp
  have := h.latest p hp
  omega

/-! ## The last build started -/

/-- The number of the build that move `m` starts in `s`, if it starts one: `launch` answers the
counter and is the only writer of it. -/
def launched (s : Session) (m : Move) : Option Nat :=
  if (s.move m).nextId = s.nextId + 1 then some s.nextId else none

/-- The number of the last build started along the run `ms` from `s`. -/
def lastLaunched (s : Session) (ms : List Move) : Option Nat :=
  (ms.foldl (fun (acc : Session × Option Nat) m => (acc.1.move m, (acc.1.launched m).or acc.2))
    (s, none)).2

theorem launched_of_keeps {s : Session} {m : Move} (h : Keeps s (s.move m)) : s.launched m = none := by
  simp [launched, h.1]

theorem launched_of_starts {s : Session} {m : Move} (h : Starts s (s.move m)) :
    s.launched m = some s.nextId := by
  simp [launched, h.1]

/-- One move keeps the build in flight the last one started. -/
theorem pending_launched_move {s : Session} {last : Option Nat}
    (h : ∀ p ∈ s.pending, last = some p.id) (m : Move) :
    ∀ p ∈ (s.move m).pending, (s.launched m).or last = some p.id := by
  intro p hp
  rcases keeps_or_starts s m with hk | hs
  · rw [launched_of_keeps hk, Option.none_or]
    rcases hk.2 with heq | hnone
    · exact h p (by rwa [← heq])
    · simp [hnone] at hp
  · rw [launched_of_starts hs]
    rcases hs.2 with hnone | ⟨k, hk⟩
    · simp [hnone] at hp
    · rw [hk] at hp
      simp only [Option.mem_def, Option.some.injEq] at hp
      simp [← hp]

/-- The build in flight is the last one started, along any run. -/
theorem pending_lastLaunched {s : Session} (h : s.pending = none) (ms : List Move) :
    ∀ p ∈ (s.run ms).pending, s.lastLaunched ms = some p.id := by
  suffices hgen : ∀ (t : Session) (last : Option Nat), (∀ p ∈ t.pending, last = some p.id) →
      ∀ p ∈ (t.run ms).pending,
        (ms.foldl (fun (acc : Session × Option Nat) m => (acc.1.move m, (acc.1.launched m).or acc.2))
          (t, last)).2 = some p.id from
    hgen s none (by simp [h])
  induction ms with
  | nil => intro t last ht; exact ht
  | cons m ms ih =>
      intro t last ht
      exact ih (t.move m) _ (pending_launched_move ht m)

/-! ## The agreement in every state of every run -/

/-- In every state of every run from a new session, beside any behaviour of the worker: a build is
in flight exactly while building or rebuilding, a fresh one exactly while building; a route is held
exactly while ready, navigating or rebuilding, and it has at least two points; and the build in
flight is numbered below the counter and is the last one started. -/
theorem run_phase_agrees (config : SessionConfig) (atlas : Atlas) (prefs : Preferences)
    (listening : Bool) (mode : Mode) (ms : List Move) :
    let s₀ := initial config atlas prefs listening mode
    ((s₀.run ms).pending.isSome ↔
        (s₀.run ms).phase = .building ∨ (s₀.run ms).phase = .rebuilding) ∧
      ((s₀.run ms).pending.map PendingBuild.kind = some .fresh ↔ (s₀.run ms).phase = .building) ∧
      ((s₀.run ms).route.isSome ↔ (s₀.run ms).phase = .ready ∨ (s₀.run ms).phase = .navigating ∨
        (s₀.run ms).phase = .rebuilding) ∧
      (∀ r ∈ (s₀.run ms).route, 2 ≤ r.points.size) ∧
      (∀ p ∈ (s₀.run ms).pending, p.id < (s₀.run ms).nextId ∧ s₀.lastLaunched ms = some p.id) := by
  intro s₀
  have h := (initial_coherent config atlas prefs listening mode).run ms
  exact ⟨h.pending_iff, h.fresh_iff, h.route_iff, h.twoPoints,
    fun p hp => ⟨h.id_lt p hp, pending_lastLaunched rfl ms p hp⟩⟩

end Session

end Wayfinder
