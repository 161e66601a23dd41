import Wayfinder.Proofs.Session.Invariant

/-!
# Refused calls change nothing

Every public call but `waitIdle` first checks that the session is not shut down, and refuses with
`closed` before anything else happens. The other refusals come before any write too: changing the
mode while a build is in flight (`buildInFlight`), and following a route outside `ready`
(`invalidState`). So a refused call leaves the whole session as it was, the link included: no
command is sent and the listener hears nothing. Building from the current position without a fix
is not refused, but only tells the listener `noCurrentPosition`.

A shut-down session is left as it is by every call. `waitIdle` does not check: with no build in
flight, which is how `shutdown` leaves a session, it answers `true` where the other calls refuse.
-/

namespace Wayfinder

namespace Session

/-- The refusal in an answer, if it is one. -/
def refusalOf {α : Type} : Except SessionError α → Option SessionError
  | .error e => some e
  | .ok _ => none

@[simp] theorem refusalOf_error {α : Type} (e : SessionError) :
    refusalOf (.error e : Except SessionError α) = some e := rfl

@[simp] theorem refusalOf_ok {α : Type} (a : α) :
    refusalOf (.ok a : Except SessionError α) = none := rfl

/-- The refusal a call answers, if it answers one. -/
def refusal (s : Session) : Call → Option SessionError
  | .buildRoute a b => refusalOf (s.buildRoute a b).1
  | .buildFromCurrent b => refusalOf (s.buildFromCurrent b).1
  | .setMode m => refusalOf (s.setMode m).1
  | .follow => refusalOf s.follow.1
  | .onLocation fix => refusalOf (s.onLocation fix).1
  | .matchOnly fix => refusalOf (s.matchOnly fix).1
  | .close => refusalOf s.close.1
  | .reset => refusalOf s.reset.1
  | .removeRoute => refusalOf s.removeRoute.1
  | .shutdown => refusalOf s.shutdown.1
  | .processEvents => refusalOf s.processEvents.1
  | .waitEvent => refusalOf s.waitEvent.1
  | .waitIdle patient => refusalOf (s.waitIdle patient).1

/-- An answer and a session in which a refusal comes with the session `s` as it was. -/
def Quiet {α : Type} (s : Session) (r : Except SessionError α × Session) : Prop :=
  ∀ e, refusalOf r.1 = some e → r.2 = s

theorem quiet_of_ok {α : Type} {s t : Session} (a : α) : Quiet s (.ok a, t) := by
  intro e h
  cases h

theorem quiet_refused {α : Type} (s : Session) (e : SessionError) :
    Quiet s ((.error e : Except SessionError α), s) :=
  fun _ _ => rfl

theorem checkOpen_closed {s : Session} (h : s.phase = .closed) : s.checkOpen = .error .closed := by
  simp [checkOpen, h]

/-! ## Every refusal comes first -/

section Quiet

variable (s : Session)

theorem quiet_buildRoute (a b : Point) : Quiet s (s.buildRoute a b) := by
  unfold buildRoute
  split
  · exact quiet_refused s _
  · exact quiet_of_ok _

theorem quiet_buildFromCurrent (b : Point) : Quiet s (s.buildFromCurrent b) := by
  unfold buildFromCurrent
  split
  · exact quiet_refused s _
  · split
    · next f _ =>
        -- the answer is the build's, so a refusal is the build's, which left `s` alone
        intro e he
        have hb : refusalOf (s.buildRoute f.point b).1 = some e := by
          cases hr : (s.buildRoute f.point b).1 <;> simp_all [Except.map]
        exact quiet_buildRoute s f.point b e hb
    · exact quiet_of_ok _

theorem quiet_setMode (m : Mode) : Quiet s (s.setMode m) := by
  unfold Session.setMode
  split
  · exact quiet_refused s _
  · split
    · exact quiet_refused s _
    · split
      · exact quiet_of_ok _
      · exact quiet_of_ok _

theorem quiet_follow : Quiet s s.follow := by
  unfold Session.follow
  split
  · exact quiet_refused s _
  · split
    · exact quiet_refused s _
    · exact quiet_of_ok _

theorem quiet_onLocation (fix : Fix) : Quiet s (s.onLocation fix) := by
  unfold onLocation
  split
  · exact quiet_refused s _
  · intro e he
    -- past the check every branch answers `ok`
    dsimp only at he
    split at he
    · cases he
    · split at he
      · split at he
        · split at he <;> cases he
        · cases he
      · cases he

theorem quiet_matchOnly (fix : Fix) : Quiet s (s.matchOnly fix) := by
  unfold matchOnly
  split
  · exact quiet_refused s _
  · exact quiet_of_ok _

theorem quiet_close : Quiet s s.close := by
  unfold Session.close
  split
  · exact quiet_refused s _
  · exact quiet_of_ok _

theorem quiet_reset : Quiet s s.reset := by
  unfold Session.reset
  have hc := quiet_close s
  split
  · next e t heq =>
      rw [heq] at hc
      exact hc
  · exact quiet_of_ok _

theorem quiet_removeRoute : Quiet s s.removeRoute := by
  unfold Session.removeRoute
  split
  · exact quiet_refused s _
  · exact quiet_of_ok _

theorem quiet_shutdown : Quiet s s.shutdown := by
  unfold Session.shutdown
  split
  · exact quiet_refused s _
  · exact quiet_of_ok _

theorem quiet_processEvents : Quiet s s.processEvents := by
  unfold processEvents
  split
  · exact quiet_refused s _
  · exact quiet_of_ok _

theorem quiet_waitEvent : Quiet s s.waitEvent := by
  unfold waitEvent
  split
  · exact quiet_refused s _
  · split
    · exact quiet_of_ok _
    · exact quiet_of_ok _
    · exact quiet_of_ok _

end Quiet

/-- An open session stays open through `waitEvent`: taking a message or losing the worker ends a
build in a phase that is not `closed`. -/
theorem waitEvent_open {s : Session} (hopen : s.phase ≠ .closed) : s.waitEvent.2.phase ≠ .closed := by
  unfold waitEvent
  rw [show s.checkOpen = .ok () by simp [checkOpen, hopen]]
  dsimp only
  split
  · simpa only [handle_withLink] using handle_open hopen _
  · exact hopen
  · unfold workerLost failPending
    split
    · exact hopen
    · next p _ =>
        rw [hear_phase]
        cases p.kind <;> simp [BuildKind.fallback]

/-- An open session is never refused while it waits. -/
theorem waitLoop_accepted {s : Session} (hopen : s.phase ≠ .closed) (fuel : Nat) :
    refusalOf (s.waitLoop fuel).1 = none := by
  induction fuel generalizing s with
  | zero => rfl
  | succ fuel ih =>
      rw [waitLoop]
      split
      · rfl
      · have hw := waitEvent_open hopen
        have hok : s.waitEvent.1 = .ok (s.waitEvent.1.toOption.getD false) := by
          unfold waitEvent
          rw [show s.checkOpen = .ok () by simp [checkOpen, hopen]]
          dsimp only
          split <;> rfl
        rcases hwe : s.waitEvent with ⟨r, t⟩
        rw [hwe] at hw hok
        rcases r with e | b
        · cases hok
        · cases b with
          | true => exact ih hw
          | false => rfl

theorem quiet_waitLoop (s : Session) (fuel : Nat) : Quiet s (s.waitLoop fuel) := by
  by_cases hopen : s.phase = .closed
  · cases fuel with
    | zero => exact quiet_of_ok _
    | succ fuel =>
        rw [waitLoop]
        split
        · exact quiet_of_ok _
        · have hw : s.waitEvent = (.error .closed, s) := by
            simp [waitEvent, checkOpen_closed hopen]
          rw [hw]
          exact quiet_refused s _
  · intro e he
    rw [waitLoop_accepted hopen] at he
    cases he

theorem quiet_waitIdle (s : Session) (patient : Bool) : Quiet s (s.waitIdle patient) := by
  unfold waitIdle
  split
  · exact quiet_of_ok _
  · split
    · exact quiet_of_ok _
    · exact quiet_waitLoop s _

/-- A refused call leaves the session as it was. -/
theorem call_of_refusal (s : Session) {c : Call} {e : SessionError} (h : s.refusal c = some e) :
    s.call c = s := by
  cases c with
  | buildRoute a b => exact quiet_buildRoute s a b e h
  | buildFromCurrent b => exact quiet_buildFromCurrent s b e h
  | setMode m => exact quiet_setMode s m e h
  | follow => exact quiet_follow s e h
  | onLocation fix => exact quiet_onLocation s fix e h
  | matchOnly fix => exact quiet_matchOnly s fix e h
  | close => exact quiet_close s e h
  | reset => exact quiet_reset s e h
  | removeRoute => exact quiet_removeRoute s e h
  | shutdown => exact quiet_shutdown s e h
  | processEvents => exact quiet_processEvents s e h
  | waitEvent => exact quiet_waitEvent s e h
  | waitIdle patient => exact quiet_waitIdle s patient e h

/-! ## A shut-down session -/

section Closed

variable {s : Session} (h : s.phase = .closed)
include h

theorem closed_close : s.close = (.error .closed, s) := by
  simp [Session.close, checkOpen_closed h]

theorem closed_waitEvent : s.waitEvent = (.error .closed, s) := by
  simp [waitEvent, checkOpen_closed h]

/-- Every call but `waitIdle` refuses a shut-down session with `closed`. -/
theorem closed_refusal : ∀ c : Call, (∀ p, c ≠ .waitIdle p) → s.refusal c = some .closed
  | .buildRoute a b, _ => by simp [refusal, buildRoute, checkOpen_closed h]
  | .buildFromCurrent b, _ => by simp [refusal, buildFromCurrent, checkOpen_closed h]
  | .setMode m, _ => by simp [refusal, Session.setMode, checkOpen_closed h]
  | .follow, _ => by simp [refusal, Session.follow, checkOpen_closed h]
  | .onLocation fix, _ => by simp [refusal, onLocation, checkOpen_closed h]
  | .matchOnly fix, _ => by simp [refusal, matchOnly, checkOpen_closed h]
  | .close, _ => by simp [refusal, closed_close h]
  | .reset, _ => by simp [refusal, Session.reset, closed_close h]
  | .removeRoute, _ => by simp [refusal, Session.removeRoute, checkOpen_closed h]
  | .shutdown, _ => by simp [refusal, Session.shutdown, checkOpen_closed h]
  | .processEvents, _ => by simp [refusal, processEvents, checkOpen_closed h]
  | .waitEvent, _ => by simp [refusal, closed_waitEvent h]
  | .waitIdle p, hw => absurd rfl (hw p)

/-- Waiting on a shut-down session changes nothing, whether or not it refuses. -/
theorem closed_waitIdle (patient : Bool) : (s.waitIdle patient).2 = s := by
  unfold waitIdle
  split
  · rfl
  · split
    · rfl
    · cases hfuel : s.link.inbox.length + 1 with
      | zero => omega
      | succ fuel =>
          rw [waitLoop]
          split
          · rfl
          · rw [closed_waitEvent h]

/-- Every call leaves a shut-down session as it is. -/
theorem closed_call (c : Call) : s.call c = s := by
  cases c with
  | waitIdle patient => exact closed_waitIdle h patient
  | _ => exact call_of_refusal s (closed_refusal h _ (fun _ hc => by cases hc))

end Closed

/-- Without a fix, building from the current position only tells the listener
`noCurrentPosition`. -/
theorem buildFromCurrent_without_fix {s : Session} (hopen : s.phase ≠ .closed)
    (hfix : s.lastFix = none) (finish : Point) :
    s.buildFromCurrent finish = (.ok none, s.hear (.built { outcome := .noCurrentPosition })) := by
  simp [buildFromCurrent, checkOpen, hopen, hfix]

/-- Refused calls change nothing, and a shut-down session stays as it is: every call leaves it
unchanged and every call but `waitIdle` refuses it with `closed`; a refused call, whatever the
refusal, leaves every field of the session as it was, sends no command and tells the listener
nothing; and building from the current position without a fix only tells the listener
`noCurrentPosition`. -/
theorem refused_calls_change_nothing (s : Session) :
    (s.phase = .closed → ∀ c : Call, s.call c = s ∧ ((∀ p, c ≠ .waitIdle p) → s.refusal c = some .closed)) ∧
      (∀ c e, s.refusal c = some e → s.call c = s) ∧
      (∀ finish, s.phase ≠ .closed → s.lastFix = none →
        s.buildFromCurrent finish = (.ok none, s.hear (.built { outcome := .noCurrentPosition }))) :=
  ⟨fun h c => ⟨closed_call h c, closed_refusal h c⟩, fun _ _ he => call_of_refusal s he,
    fun finish hopen hfix => buildFromCurrent_without_fix hopen hfix finish⟩

/-- A session just shut down answers `waitIdle` with `true`, where every other call refuses it. -/
theorem waitIdle_after_shutdown :
    let s := (initial default default default true .vehicle).shutdown.2
    s.phase = .closed ∧ (s.waitIdle true).1 = .ok true ∧ s.refusal .waitEvent = some .closed :=
  ⟨rfl, rfl, rfl⟩

end Session

end Wayfinder
