import Wayfinder.Session.Build
import Wayfinder.Session.Follow
import Wayfinder.Session.Inbox

/-!
# Runs of a session beside its worker

A session changes only through its public calls. Beside them its worker acts on the link at any
moment and in any way: it posts any message, with any build number, takes the oldest command, or
stops. A run is any sequence of both kinds of move from a started session.

Reading the inbox is taking one message at a time: `processEvents` and `waitIdle` amount to
repeated `waitEvent`s, so every state in which a message is taken is the state after a run.
The concrete worker's step is a sequence of worker moves.
-/

namespace Wayfinder

/-- A public call of a session, with its arguments. -/
inductive Call where
  | buildRoute (start finish : Point)
  | buildFromCurrent (finish : Point)
  | setMode (m : Mode)
  | follow
  | onLocation (fix : Fix)
  | matchOnly (fix : Fix)
  | close
  | reset
  | removeRoute
  | shutdown
  | processEvents
  | waitEvent
  | waitIdle (patient : Bool)

/-- The calls that read the inbox. -/
def Call.reads : Call → Bool
  | .processEvents | .waitEvent | .waitIdle _ => true
  | _ => false

/-- What a worker can do to its link. -/
inductive Work where
  /-- Posts a message to the inbox. -/
  | post (m : Message)
  /-- Takes the oldest command. -/
  | take
  /-- Stops for good; the commands not taken are dropped. -/
  | stop

/-- One move of a session and its worker. -/
inductive Move where
  | call (c : Call)
  | work (w : Work)

namespace Channel

/-- The link after the worker's move. -/
def work (l : Channel) : Work → Channel
  | .post m => { l with inbox := l.inbox ++ [m] }
  | .take => { l with commands := l.commands.tail }
  | .stop => { l with commands := [], alive := false }

end Channel

namespace Session

/-- The session after a public call; the answer is dropped. -/
def call (s : Session) : Call → Session
  | .buildRoute a b => (s.buildRoute a b).2
  | .buildFromCurrent b => (s.buildFromCurrent b).2
  | .setMode m => (s.setMode m).2
  | .follow => s.follow.2
  | .onLocation fix => (s.onLocation fix).2
  | .matchOnly fix => (s.matchOnly fix).2
  | .close => s.close.2
  | .reset => s.reset.2
  | .removeRoute => s.removeRoute.2
  | .shutdown => s.shutdown.2
  | .processEvents => s.processEvents.2
  | .waitEvent => s.waitEvent.2
  | .waitIdle patient => (s.waitIdle patient).2

/-- The session after a move. -/
def move (s : Session) : Move → Session
  | .call c => s.call c
  | .work w => { s with link := s.link.work w }

/-- The session after a run of moves. -/
def run (s : Session) (ms : List Move) : Session := ms.foldl move s

@[simp] theorem run_nil (s : Session) : s.run [] = s := rfl

theorem run_append (s : Session) (ms ms' : List Move) :
    s.run (ms ++ ms') = (s.run ms).run ms' := by
  simp [run, List.foldl_append]

@[simp] theorem run_concat (s : Session) (ms : List Move) (m : Move) :
    s.run (ms ++ [m]) = (s.run ms).move m := by
  simp [run]

/-! ## Taking messages one at a time -/

@[simp] theorem hear_phase (s : Session) (n : Notice) : (s.hear n).phase = s.phase := by
  unfold hear
  split <;> rfl

@[simp] theorem hear_pending (s : Session) (n : Notice) : (s.hear n).pending = s.pending := by
  unfold hear
  split <;> rfl

@[simp] theorem hear_route (s : Session) (n : Notice) : (s.hear n).route = s.route := by
  unfold hear
  split <;> rfl

@[simp] theorem hear_nextId (s : Session) (n : Notice) : (s.hear n).nextId = s.nextId := by
  unfold hear
  split <;> rfl

@[simp] theorem hear_link (s : Session) (n : Notice) : (s.hear n).link = s.link := by
  unfold hear
  split <;> rfl

@[simp] theorem hear_listening (s : Session) (n : Notice) : (s.hear n).listening = s.listening := by
  unfold hear
  split <;> rfl

theorem hear_withLink (s : Session) (l : Channel) (n : Notice) :
    ({ s with link := l } : Session).hear n = { s.hear n with link := l } := by
  unfold hear
  split <;> rfl

/-- Taking a message never reads or writes the link. -/
theorem handle_withLink (s : Session) (l : Channel) (m : Message) :
    ({ s with link := l } : Session).handle m = { s.handle m with link := l } := by
  cases m with
  | progress id pc =>
      simp only [handle]
      split <;> simp [hear_withLink]
  | built id mode p =>
      simp only [handle, onBuilt]
      split
      · rfl
      · split
        · rfl
        · split
          · rfl
          · simp only [classifyAbsent]
            split <;> simp [hear, installRoute, dropRoute] <;> split <;> rfl

theorem foldl_handle_withLink (ms : List Message) (s : Session) (l : Channel) :
    ms.foldl handle ({ s with link := l } : Session) = { ms.foldl handle s with link := l } := by
  induction ms generalizing s with
  | nil => rfl
  | cons m ms ih =>
      simp only [List.foldl_cons]
      rw [handle_withLink, ih]

theorem failPending_withLink (s : Session) (l : Channel) (o : Outcome) :
    ({ s with link := l } : Session).failPending o = { s.failPending o with link := l } := by
  cases s with
  | mk config atlas prefs listening phase mode settings route follower offRoute lastFix pending =>
      cases pending with
      | none => rfl
      | some p =>
          simp only [failPending, hear]
          split <;> rfl

theorem handle_open {s : Session} (hopen : s.phase ≠ .closed) (m : Message) :
    (s.handle m).phase ≠ .closed := by
  cases m with
  | progress id pc =>
      simp only [handle]
      split <;> simpa using hopen
  | built id mode p =>
      simp only [handle, onBuilt]
      split
      · exact hopen
      · split
        · exact hopen
        · split
          · cases (‹PendingBuild›).kind <;> simp [BuildKind.fallback]
          · simp only [classifyAbsent]
            split <;> simp [hear, installRoute, dropRoute] <;> split <;> simp

theorem foldl_handle_open {s : Session} (hopen : s.phase ≠ .closed) (ms : List Message) :
    (ms.foldl handle s).phase ≠ .closed := by
  induction ms generalizing s with
  | nil => exact hopen
  | cons m ms ih => exact ih (handle_open hopen m)

theorem waitEvent_message {s : Session} {m : Message} {rest : List Message}
    (hopen : s.phase ≠ .closed) (hin : s.link.inbox = m :: rest) :
    s.waitEvent.2 = { s.handle m with link := { s.link with inbox := rest } } := by
  simp [waitEvent, checkOpen, hopen, Channel.receive, hin, handle_withLink]

theorem waitEvent_empty {s : Session} (hopen : s.phase ≠ .closed) (hin : s.link.inbox = []) :
    s.waitEvent.2 = if s.link.alive then s else s.workerLost := by
  simp only [waitEvent, checkOpen, hopen, if_false, Channel.receive, hin]
  cases s.link.alive <;> rfl

/-- Taking the messages `ms` at the front of the inbox one by one. -/
theorem run_waitEvent_replicate (ms rest : List Message) {s : Session}
    (hopen : s.phase ≠ .closed) (hin : s.link.inbox = ms ++ rest) :
    s.run (List.replicate ms.length (.call .waitEvent)) =
      { ms.foldl handle s with link := { s.link with inbox := rest } } := by
  induction ms generalizing s with
  | nil =>
      simp only [List.nil_append] at hin
      simp [← hin]
  | cons m ms ih =>
      have hstep : s.move (.call .waitEvent) =
          { s.handle m with link := { s.link with inbox := ms ++ rest } } :=
        waitEvent_message hopen hin
      have hrest := ih (s := { s.handle m with link := { s.link with inbox := ms ++ rest } })
        (handle_open hopen m) rfl
      rw [List.length_cons, List.replicate_succ, run, List.foldl_cons, ← run, hstep, hrest,
        foldl_handle_withLink]
      simp

/-- Reading the whole inbox is taking its messages one at a time, and one more read that finds
it empty. -/
theorem processEvents_eq_run (s : Session) :
    s.processEvents.2 = s.run (List.replicate (s.link.inbox.length + 1) (.call .waitEvent)) := by
  by_cases hopen : s.phase = .closed
  · have hstay : ∀ n, s.run (List.replicate n (.call .waitEvent)) = s := by
      intro n
      induction n with
      | zero => rfl
      | succ n ih =>
          rw [List.replicate_succ, run, List.foldl_cons, ← run]
          simpa [move, call, waitEvent, checkOpen, hopen] using ih
    rw [hstay]
    simp [processEvents, checkOpen, hopen]
  · rw [List.replicate_succ', run_append,
      run_waitEvent_replicate s.link.inbox [] hopen (by simp)]
    have hlast : ∀ t : Session, t.run [.call .waitEvent] = t.waitEvent.2 := fun t => rfl
    have hempty := waitEvent_empty
      (s := { s.link.inbox.foldl handle s with link := { s.link with inbox := [] } })
      (foldl_handle_open hopen s.link.inbox) rfl
    rw [hlast, hempty]
    simp [processEvents, checkOpen, hopen, foldl_handle_withLink, workerLost,
      failPending_withLink]

/-- Waiting for the end of the build in flight is taking messages one at a time. -/
theorem waitLoop_eq_run (s : Session) (fuel : Nat) :
    ∃ n, (s.waitLoop fuel).2 = s.run (List.replicate n (.call .waitEvent)) := by
  induction fuel generalizing s with
  | zero => exact ⟨0, rfl⟩
  | succ fuel ih =>
      rw [waitLoop]
      split
      · exact ⟨0, rfl⟩
      · rcases hw : s.waitEvent with ⟨r, t⟩
        have ht : s.move (.call .waitEvent) = t := by simp [move, call, hw]
        rcases r with e | b
        · exact ⟨1, ht.symm⟩
        · cases b with
          | false => exact ⟨1, ht.symm⟩
          | true =>
              obtain ⟨n, hn⟩ := ih t
              refine ⟨n + 1, ?_⟩
              rw [List.replicate_succ, run, List.foldl_cons, ← run, ht]
              exact hn

theorem waitIdle_eq_run (s : Session) (patient : Bool) :
    ∃ n, (s.waitIdle patient).2 = s.run (List.replicate n (.call .waitEvent)) := by
  unfold waitIdle
  split
  · exact ⟨0, rfl⟩
  · split
    · exact ⟨0, rfl⟩
    · exact waitLoop_eq_run s _

/-! ## The concrete worker -/

theorem run_work (s : Session) (ws : List Work) :
    s.run (ws.map Move.work) = { s with link := ws.foldl Channel.work s.link } := by
  induction ws generalizing s with
  | nil => rfl
  | cons w ws ih =>
      simp only [List.map_cons, run, List.foldl_cons] at ih ⊢
      rw [ih]
      rfl

theorem foldl_post (l : Channel) (posted : List Message) :
    (posted.map Work.post).foldl Channel.work l = { l with inbox := l.inbox ++ posted } := by
  induction posted generalizing l with
  | nil => simp
  | cons m posted ih =>
      simp only [List.map_cons, List.foldl_cons, ih]
      simp [Channel.work]

/-- One step of the worker is a sequence of worker moves: it takes a command, posts what the
command produced, and stops if the command ended it. -/
theorem step_eq_work (w : Worker) (a : Atlas) (l : Channel) :
    ∃ ws : List Work, (w.step a l).2 = ws.foldl Channel.work l := by
  unfold Worker.step
  split
  · rename_i _ _ c rest halive hcs
    rcases hp : w.perform a c with ⟨w', posted, alive⟩
    refine ⟨.take :: posted.map .post ++ (if alive then [] else [.stop]), ?_⟩
    simp only [List.foldl_cons, List.foldl_append, foldl_post]
    cases alive <;> simp_all [Channel.work]
  · exact ⟨[], rfl⟩

theorem drain_eq_work (w : Worker) (a : Atlas) (fuel : Nat) (l : Channel) :
    ∃ ws : List Work, (w.drain a fuel l).2 = ws.foldl Channel.work l := by
  induction fuel generalizing w l with
  | zero => exact ⟨[], rfl⟩
  | succ fuel ih =>
      unfold Worker.drain
      split
      · obtain ⟨ws, hws⟩ := step_eq_work w a l
        obtain ⟨ws', hws'⟩ := ih (w.step a l).1 (w.step a l).2
        exact ⟨ws ++ ws', by rw [hws', hws, List.foldl_append]⟩
      · exact ⟨[], rfl⟩

/-- Letting the concrete worker run is a run of worker moves. -/
theorem settle_eq_run (s : Session) (w : Worker) :
    ∃ ws : List Work, (s.settle w).1 = s.run (ws.map Move.work) := by
  obtain ⟨ws, hws⟩ := drain_eq_work w s.atlas s.link.commands.length s.link
  refine ⟨ws, ?_⟩
  rw [run_work, ← hws]
  rfl

end Session

end Wayfinder
