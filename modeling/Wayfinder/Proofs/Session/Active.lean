import Wayfinder.Proofs.Session.Stale

/-!
# Accepted builds ran on the session's mode

The worker builds on its active mode and changes it only when it runs a `setMode` command, which
the session sends, in order with its builds, exactly when it changes its own mode. A worker turn
takes the oldest command: a build posts any progress and then a result with any plan, tagged
with the mode the worker built on; a change of mode makes the new one active; or the worker stops.
The concrete worker's step is such a turn.

The invariant `Tied` reads the session's mode off the queue: once the worker has run the commands
waiting, it is on the session's mode. The session changes its mode only with no build in flight,
so the build in flight is queued behind every `setMode` sent before it, and the worker takes it on
the session's mode; every result of it waiting in the inbox carries that mode. Builds are
numbered afresh, so no older command or message shares the number of a new build.
-/

namespace Wayfinder

/-- What the worker does next, as far as the session can tell. -/
inductive Worker.Turn where
  /-- Takes the oldest command; a build posts `progress` and then its result `plan`. -/
  | take (progress : List Float32) (plan : Plan)
  /-- Stops for good, as a router that fails without an answer stops it. -/
  | stop

namespace Command

/-- The mode a worker on mode `m` builds on after running the command. -/
def modeAfter : Command → Mode → Mode
  | .setMode m', _ => m'
  | _, m => m

/-- The number of the build a command asks for. -/
def build? : Command → Option Nat
  | .build id _ _ => some id
  | _ => none

end Command

/-- The mode a worker on `m` builds on once it has run the commands `cs`. -/
def Mode.after (m : Mode) (cs : List Command) : Mode := cs.foldl (fun m c => c.modeAfter m) m

@[simp] theorem Mode.after_nil (m : Mode) : m.after [] = m := rfl

@[simp] theorem Mode.after_cons (m : Mode) (c : Command) (cs : List Command) :
    m.after (c :: cs) = (c.modeAfter m).after cs := rfl

theorem Mode.after_append (m : Mode) (cs cs' : List Command) :
    m.after (cs ++ cs') = (m.after cs).after cs' := by
  simp [Mode.after, List.foldl_append]

namespace Channel

/-- The link and the worker's mode after a turn of a worker on mode `active`. -/
def turn (l : Channel) (active : Mode) : Worker.Turn → Channel × Mode
  | .take progress plan =>
    match l.alive, l.commands with
    | true, .build id _ _ :: rest =>
      ({ l with commands := rest,
                inbox := l.inbox ++ progress.map (.progress id) ++ [.built id active plan] }, active)
    | true, .setMode m :: rest => ({ l with commands := rest }, m)
    | true, .softReset :: rest => ({ l with commands := rest }, active)
    | true, .shutdown :: _ => ({ l with commands := [], alive := false }, active)
    | _, _ => (l, active)
  | .stop => ({ l with commands := [], alive := false }, active)

end Channel

/-! ## The concrete worker takes turns -/

namespace Worker

@[simp] theorem setEngine_active (w : Worker) (m : Mode) (e : Engine) :
    (w.setEngine m e).active = w.active := by
  cases m <;> rfl

/-- A build keeps the worker's mode, and tags its result with it. -/
theorem perform_build (w : Worker) (a : Atlas) (id : Nat) (start finish : Point) :
    (w.perform a (.build id start finish)).1.active = w.active ∧
      ∀ p m e, (w.engine w.active).plan a start finish {} = some (p, m, e) →
        (w.perform a (.build id start finish)).2.1 =
          m.reports.toList.map (Message.progress id) ++ [.built id w.active p] := by
  constructor
  · simp only [perform]
    split
    · exact setEngine_active _ _ _
    · rfl
  · intro p m e hp
    simp [perform, hp]

/-- One step of the worker is a turn: the worker's mode after it is the turn's. -/
theorem step_turn (w : Worker) (a : Atlas) (l : Channel) :
    ∃ t, (w.step a l).2 = (l.turn w.active t).1 ∧ (w.step a l).1.active = (l.turn w.active t).2 := by
  obtain ⟨commands, inbox, alive⟩ := l
  cases alive with
  | false => exact ⟨.take [] (.failure .cancelled), rfl, rfl⟩
  | true =>
      cases commands with
      | nil => exact ⟨.take [] (.failure .cancelled), rfl, rfl⟩
      | cons c rest =>
          cases c with
          | build id start finish =>
              rcases hp : (w.engine w.active).plan a start finish {} with _ | ⟨p, m, e⟩
              · exact ⟨.stop, by simp [step, perform, hp, Channel.turn], by simp [step, perform, hp, Channel.turn]⟩
              · exact ⟨.take m.reports.toList p, by simp [step, perform, hp, Channel.turn],
                  by simp [step, perform, hp, Channel.turn]⟩
          | setMode m =>
              refine ⟨.take [] (.failure .cancelled), ?_, ?_⟩
              · simp only [step, perform]
                split <;> simp [Channel.turn]
              · simp only [step, perform]
                split
                · next hm => simp [Channel.turn, hm]
                · simp [Channel.turn]
          | softReset => exact ⟨.take [] (.failure .cancelled), by simp [step, perform, Channel.turn], rfl⟩
          | shutdown => exact ⟨.take [] (.failure .cancelled), by simp [step, perform, Channel.turn], rfl⟩

end Worker

/-! ## Sessions beside a worker that builds on its mode -/

/-- One move of a session beside its worker: a public call or a turn of the worker. -/
inductive Step where
  | call (c : Call)
  | turn (t : Worker.Turn)

/-- A session and the mode its worker builds on. -/
structure Paired where
  session : Session
  active : Mode

namespace Paired

/-- The session and the worker's mode after a move. -/
def step (p : Paired) : Step → Paired
  | .call c => ⟨p.session.call c, p.active⟩
  | .turn t => ⟨{ p.session with link := (p.session.link.turn p.active t).1 },
      (p.session.link.turn p.active t).2⟩

/-- The session and the worker's mode after a run of moves. -/
def run (p : Paired) (steps : List Step) : Paired := steps.foldl step p

@[simp] theorem run_nil (p : Paired) : p.run [] = p := rfl

@[simp] theorem run_concat (p : Paired) (steps : List Step) (st : Step) :
    p.run (steps ++ [st]) = (p.run steps).step st := by
  simp [run]

/-- The number of the build a move starts, if it starts one; a worker turn starts none. -/
def launched (p : Paired) : Step → Option Nat
  | .call c => p.session.launched (.call c)
  | .turn _ => none

end Paired

namespace Session

/-! ## The session's mode changes only with no build in flight -/

@[simp] theorem hear_mode (s : Session) (n : Notice) : (s.hear n).mode = s.mode := by
  unfold hear
  split <;> rfl

@[simp] theorem send_mode (s : Session) (c : Command) : (s.send c).2.mode = s.mode := by
  rw [send_snd]

@[simp] theorem launch_mode (s : Session) (k : BuildKind) (a b : Point) :
    (s.launch k a b).2.mode = s.mode := by
  cases halive : s.link.alive
  · rw [launch_of_gone halive, hear_mode]
  · rw [launch_of_alive halive]

theorem handle_mode (s : Session) (m : Message) : (s.handle m).mode = s.mode := by
  cases m with
  | progress id pc =>
      simp only [handle]
      split <;> simp
  | built id mode p =>
      simp only [handle, onBuilt]
      split
      · rfl
      · split
        · rfl
        · split
          · rfl
          · simp only [classifyAbsent]
            split <;> simp [installRoute, dropRoute]

theorem failPending_mode (s : Session) (o : Outcome) : (s.failPending o).mode = s.mode := by
  unfold failPending
  split <;> simp

theorem waitEvent_mode (s : Session) : s.waitEvent.2.mode = s.mode := by
  unfold waitEvent
  split
  · rfl
  · split
    · simp only [handle_mode]
    · rfl
    · exact failPending_mode s _

theorem run_waitEvent_mode (s : Session) (n : Nat) :
    (s.run (List.replicate n (.call .waitEvent))).mode = s.mode := by
  induction n generalizing s with
  | zero => rfl
  | succ n ih =>
      rw [List.replicate_succ, run, List.foldl_cons, ← run]
      exact (ih _).trans (waitEvent_mode s)

theorem setMode_pending (s : Session) (m : Mode) : (s.setMode m).2.pending = s.pending := by
  unfold Session.setMode
  split
  · rfl
  · split
    · rfl
    · split
      · rfl
      · simp [send_snd]

section Modes

variable (s : Session)

theorem buildRoute_mode (a b : Point) : (s.buildRoute a b).2.mode = s.mode := by
  unfold buildRoute
  split
  · rfl
  · exact (launch_mode _ _ _ _).trans (by split <;> rfl)

theorem buildFromCurrent_mode (b : Point) : (s.buildFromCurrent b).2.mode = s.mode := by
  unfold buildFromCurrent
  split
  · rfl
  · split
    · exact buildRoute_mode s _ _
    · exact hear_mode s _

theorem setMode_mode (m : Mode) : (s.setMode m).2.mode = s.mode ∨ s.pending = none := by
  unfold Session.setMode
  split
  · exact .inl rfl
  · split
    · exact .inl rfl
    · next hp => exact .inr (by simpa [isPending] using hp)

theorem follow_mode : s.follow.2.mode = s.mode := by
  unfold Session.follow
  split
  · rfl
  · split <;> rfl

theorem onLocation_mode (fix : Fix) : (s.onLocation fix).2.mode = s.mode := by
  unfold onLocation
  split
  · rfl
  · obtain ⟨f, hf⟩ := Session.matchFix_snd { s with lastFix := some fix } fix
    dsimp only
    split
    · next t heq =>
        rw [heq] at hf
        simp only at hf
        subst hf
        rfl
    · next mt t heq =>
        rw [heq] at hf
        simp only at hf
        subst hf
        split
        · split
          · split
            · exact launch_mode _ _ _ _
            · rfl
          · rfl
        · rfl

theorem matchOnly_mode (fix : Fix) : (s.matchOnly fix).2.mode = s.mode := by
  unfold matchOnly
  split
  · rfl
  · obtain ⟨f, hf⟩ := s.matchFix_snd fix
    simp [hf]

theorem close_mode : s.close.2.mode = s.mode := by
  unfold Session.close
  split <;> rfl

theorem reset_mode : s.reset.2.mode = s.mode := by
  unfold Session.reset
  have hc := close_mode s
  split
  · next e t heq =>
      rw [heq] at hc
      exact hc
  · next t heq =>
      rw [heq] at hc
      rw [send_mode]
      exact hc

theorem removeRoute_mode : s.removeRoute.2.mode = s.mode := by
  unfold Session.removeRoute
  split
  · rfl
  · dsimp only
    split <;> rfl

theorem shutdown_mode : s.shutdown.2.mode = s.mode := by
  unfold Session.shutdown
  split
  · rfl
  · exact send_mode _ _

end Modes

/-- Only a change of mode with no build in flight changes the session's mode. -/
theorem call_mode (s : Session) (c : Call) :
    (s.call c).mode = s.mode ∨ ∃ m, c = .setMode m ∧ s.pending = none := by
  cases c with
  | setMode m =>
      rcases setMode_mode s m with h | h
      · exact .inl h
      · exact .inr ⟨m, rfl, h⟩
  | buildRoute a b => exact .inl (buildRoute_mode s a b)
  | buildFromCurrent b => exact .inl (buildFromCurrent_mode s b)
  | follow => exact .inl (follow_mode s)
  | onLocation fix => exact .inl (onLocation_mode s fix)
  | matchOnly fix => exact .inl (matchOnly_mode s fix)
  | close => exact .inl (close_mode s)
  | reset => exact .inl (reset_mode s)
  | removeRoute => exact .inl (removeRoute_mode s)
  | shutdown => exact .inl (shutdown_mode s)
  | processEvents =>
      left
      show s.processEvents.2.mode = s.mode
      rw [processEvents_eq_run, run_waitEvent_mode]
  | waitEvent => exact .inl (waitEvent_mode s)
  | waitIdle patient =>
      left
      show (s.waitIdle patient).2.mode = s.mode
      obtain ⟨n, hn⟩ := waitIdle_eq_run s patient
      rw [hn, run_waitEvent_mode]

end Session

namespace Paired

theorem step_mode (p : Paired) (st : Step) :
    (p.step st).session.mode = p.session.mode ∨ ∃ m, st = .call (.setMode m) ∧ p.session.pending = none := by
  cases st with
  | call c =>
      rcases Session.call_mode p.session c with h | ⟨m, rfl, hp⟩
      · exact .inl h
      · exact .inr ⟨m, rfl, hp⟩
  | turn t => exact .inl rfl

theorem step_pending_turn (p : Paired) (t : Worker.Turn) :
    (p.step (.turn t)).session.pending = p.session.pending := rfl

/-- A move that keeps build `pb` in flight keeps the session's mode. -/
theorem mode_of_kept {p : Paired} {st : Step} {pb : PendingBuild} (hp : p.session.pending = some pb) :
    (p.step st).session.mode = p.session.mode := by
  rcases p.step_mode st with h | ⟨m, -, hnone⟩
  · exact h
  · rw [hp] at hnone
    cases hnone

/-- A move after which a build is in flight that was not before starts it, on the session's mode. -/
theorem launched_of_pending {p : Paired} {st : Step} {pb : PendingBuild}
    (hprev : p.session.pending ≠ some pb) (h : (p.step st).session.pending = some pb) :
    p.launched st = some pb.id ∧ (p.step st).session.mode = p.session.mode := by
  cases st with
  | turn t => exact absurd h hprev
  | call c =>
      refine ⟨Session.launched_of_pending hprev h, ?_⟩
      rcases p.step_mode (.call c) with hm | ⟨m, hc, -⟩
      · exact hm
      · cases hc
        have hkeep : (p.step (.call (.setMode m))).session.pending = p.session.pending :=
          Session.setMode_pending p.session m
        exact absurd (hkeep ▸ h) hprev

/-- The build in flight after a run from a session with none was started by one move of the run,
and the session's mode has stayed the one it had then. -/
theorem mode_since_launch {p₀ : Paired} (h0 : p₀.session.pending = none) {id : Nat} {k : BuildKind}
    (steps : List Step) (h : (p₀.run steps).session.pending = some ⟨id, k⟩) :
    ∃ pre st post, steps = pre ++ st :: post ∧ (p₀.run pre).launched st = some id ∧
      ∀ mid, mid <+: post → (p₀.run (pre ++ st :: mid)).session.mode = (p₀.run pre).session.mode := by
  -- induction from the end of the run, that is on its reverse
  suffices hrev : ∀ l : List Step, (p₀.run l.reverse).session.pending = some ⟨id, k⟩ →
      ∃ pre st post, l.reverse = pre ++ st :: post ∧ (p₀.run pre).launched st = some id ∧
        ∀ mid, mid <+: post → (p₀.run (pre ++ st :: mid)).session.mode = (p₀.run pre).session.mode by
    have hs := hrev steps.reverse (by rw [List.reverse_reverse]; exact h)
    rwa [List.reverse_reverse] at hs
  intro l
  induction l with
  | nil =>
      intro hl
      rw [List.reverse_nil, run_nil, h0] at hl
      cases hl
  | cons x l ih =>
      intro hl
      rw [List.reverse_cons, run_concat] at hl
      rw [List.reverse_cons]
      by_cases hprev : (p₀.run l.reverse).session.pending = some ⟨id, k⟩
      · -- the build was in flight before the last move, which kept the mode
        obtain ⟨pre, st, post, hsplit, hlaunch, hstay⟩ := ih hprev
        refine ⟨pre, st, post ++ [x], by rw [hsplit]; simp, hlaunch, fun mid hmid => ?_⟩
        rcases List.prefix_concat_iff.1 hmid with rfl | hpre
        · have hall : pre ++ st :: (post ++ [x]) = l.reverse ++ [x] := by
            rw [hsplit]
            simp
          rw [hall, run_concat, mode_of_kept hprev]
          have hlast := hstay post (List.prefix_refl post)
          rwa [← hsplit] at hlast
        · exact hstay mid hpre
      · -- the last move started it
        obtain ⟨hlaunch, hmode⟩ := launched_of_pending hprev hl
        refine ⟨l.reverse, x, [], rfl, hlaunch, fun mid hmid => ?_⟩
        rw [List.prefix_nil.1 hmid, run_concat]
        exact hmode

end Paired

/-! ## The worker's mode follows the session's -/

/-- The worker on mode `active` builds on the session's mode: once it has run the commands waiting
it is on the session's mode (while it runs); the build in flight is queued behind commands that
leave it there; every result of the build in flight waiting in the inbox carries the session's
mode; and every command and message waiting is about a build numbered below the counter. -/
structure Tied (s : Session) (active : Mode) : Prop where
  follows : s.link.alive → active.after s.link.commands = s.mode
  queued : ∀ pb ∈ s.pending, ∀ pre a b post,
    s.link.commands = pre ++ .build pb.id a b :: post → active.after pre = s.mode
  posted : ∀ pb ∈ s.pending, ∀ m plan, .built pb.id m plan ∈ s.link.inbox → m = s.mode
  sent : ∀ c ∈ s.link.commands, ∀ id ∈ c.build?, id < s.nextId
  heard : ∀ msg ∈ s.link.inbox, msg.build < s.nextId

/-- An entry of a list with one more at its end is that last entry, or an entry of the list. -/
theorem split_concat {α : Type} {l pre post : List α} {x y : α} (h : pre ++ y :: post = l ++ [x]) :
    (pre = l ∧ y = x) ∨ y ∈ l := by
  rcases List.append_eq_append_iff.1 h with ⟨a', hl, hy⟩ | ⟨c', hpre, hx⟩
  · rcases a' with _ | ⟨z, a'⟩
    · simp only [List.nil_append, List.cons.injEq] at hy
      exact .inl ⟨by simpa using hl.symm, hy.1⟩
    · simp only [List.cons_append, List.cons.injEq] at hy
      exact .inr (by rw [hl, hy.1]; simp)
  · rcases c' with _ | ⟨z, c'⟩
    · simp only [List.nil_append, List.cons.injEq] at hx
      exact .inl ⟨by simpa using hpre, hx.1.symm⟩
    · simp at hx

namespace Tied

variable {s : Session} {active : Mode}

/-- Only the mode, the build in flight, the counter and the link matter, and ending the build in
flight keeps the tie. -/
theorem congr (h : Tied s active) {t : Session} (hm : t.mode = s.mode) (hl : t.link = s.link)
    (hn : t.nextId = s.nextId) (hp : t.pending = s.pending ∨ t.pending = none) : Tied t active := by
  have hpb : ∀ pb ∈ t.pending, pb ∈ s.pending := by
    intro pb hpb
    rcases hp with hp | hp
    · rwa [← hp]
    · rw [hp] at hpb
      cases hpb
  refine ⟨?_, ?_, ?_, ?_, ?_⟩
  · rw [hl, hm]
    exact h.follows
  · intro pb hpb' pre a b post hc
    rw [hm]
    exact h.queued pb (hpb pb hpb') pre a b post (hl ▸ hc)
  · intro pb hpb' m plan hin
    rw [hm]
    exact h.posted pb (hpb pb hpb') m plan (hl ▸ hin)
  · rw [hl, hn]
    exact h.sent
  · rw [hl, hn]
    exact h.heard

/-- Sending a command that asks for no build, with no build in flight: the worker, once it has run
the command, is on the mode the command leaves the session's on. -/
theorem send (h : Tied s active) (hnone : s.pending = none) {c : Command} (hbuild : c.build? = none) :
    Tied { (s.send c).2 with mode := c.modeAfter s.mode } active := by
  rw [Session.send_snd]
  unfold Channel.send
  split
  · next halive =>
      refine ⟨fun _ => ?_, ?_, ?_, ?_, h.heard⟩
      · simp [Mode.after_append, h.follows halive]
      · intro pb hpb
        simp [hnone] at hpb
      · intro pb hpb
        simp [hnone] at hpb
      · intro c' hc' id hid
        rcases List.mem_append.1 hc' with hc' | hc'
        · exact h.sent c' hc' id hid
        · rw [List.mem_singleton.1 hc', hbuild] at hid
          cases hid
  · next halive =>
      refine ⟨fun h' => absurd h' (by simpa using halive), ?_, ?_, h.sent, h.heard⟩
      · intro pb hpb
        simp [hnone] at hpb
      · intro pb hpb
        simp [hnone] at hpb

/-- A command that neither changes the mode nor asks for a build, sent by a session with no build
in flight. -/
theorem send_plain (h : Tied s active) (hnone : s.pending = none) {c : Command}
    (hmode : ∀ m, c.modeAfter m = m) (hbuild : c.build? = none) : Tied (s.send c).2 active :=
  (h.send hnone hbuild).congr (by rw [hmode, Session.send_mode]) rfl rfl (.inl rfl)

/-- A launch queues the new build behind every command sent before it. -/
theorem launch (h : Tied s active) {t : Session} (hm : t.mode = s.mode) (hl : t.link = s.link)
    (hn : t.nextId = s.nextId) (k : BuildKind) (a b : Point) : Tied (t.launch k a b).2 active := by
  cases halive : t.link.alive
  · rw [Session.launch_of_gone halive]
    refine ⟨fun h' => by simp [halive] at h', ?_, ?_, ?_, ?_⟩
    · intro pb hpb
      simp at hpb
    · intro pb hpb
      simp at hpb
    · intro c hc id hid
      have := h.sent c (by simpa [hl] using hc) id hid
      simp only [Session.hear_nextId]
      omega
    · intro msg hmsg
      have := h.heard msg (by simpa [hl] using hmsg)
      simp only [Session.hear_nextId]
      omega
  · rw [Session.launch_of_alive halive]
    have hfollows : active.after t.link.commands = t.mode := by
      rw [hl, hm]
      exact h.follows (hl ▸ halive)
    -- the new number is above every number waiting in the link
    have hsent : ∀ c ∈ t.link.commands, ∀ id ∈ c.build?, id < t.nextId := by
      rw [hl, hn]
      exact h.sent
    have hheard : ∀ msg ∈ t.link.inbox, msg.build < t.nextId := by
      rw [hl, hn]
      exact h.heard
    refine ⟨fun _ => ?_, ?_, ?_, ?_, ?_⟩
    · simpa [Mode.after_append, Command.modeAfter] using hfollows
    · intro pb hpb pre a' b' post hc
      simp only [Option.mem_def, Option.some.injEq] at hpb
      subst hpb
      -- the build can only be the one just sent, the last command
      have hc' : pre ++ .build t.nextId a' b' :: post = t.link.commands ++ [.build t.nextId a b] :=
        hc.symm
      rcases split_concat hc' with ⟨rfl, -⟩ | hmem
      · exact hfollows
      · have := hsent _ hmem t.nextId rfl
        omega
    · intro pb hpb m plan hin
      simp only [Option.mem_def, Option.some.injEq] at hpb
      subst hpb
      have := hheard _ hin
      simp [Message.build] at this
    · intro c hc id hid
      show id < t.nextId + 1
      rcases List.mem_append.1 hc with hc | hc
      · have := hsent c hc id hid
        omega
      · rw [List.mem_singleton.1 hc] at hid
        simp only [Command.build?, Option.mem_def, Option.some.injEq] at hid
        omega
    · intro msg hmsg
      show msg.build < t.nextId + 1
      have := hheard msg hmsg
      omega

theorem hear (h : Tied s active) (n : Notice) : Tied (s.hear n) active :=
  h.congr (by simp) (by simp) (by simp) (.inl (by simp))

theorem failPending (h : Tied s active) (o : Outcome) : Tied (s.failPending o) active := by
  unfold Session.failPending
  split
  · exact h
  · next p _ =>
      have hend : Tied { s with pending := none, phase := p.kind.fallback } active :=
        h.congr rfl rfl rfl (.inr rfl)
      exact hend.hear _

/-- Taking the oldest message keeps the tie. -/
theorem waitEvent (h : Tied s active) : Tied s.waitEvent.2 active := by
  by_cases hopen : s.phase = .closed
  · rw [show s.waitEvent = (.error .closed, s) by simp [Session.waitEvent, Session.checkOpen, hopen]]
    exact h
  · rcases hin : s.link.inbox with _ | ⟨m, rest⟩
    · rw [Session.waitEvent_empty hopen hin]
      split
      · exact h
      · exact h.failPending _
    · rw [Session.waitEvent_message hopen hin]
      -- what is left of the inbox is a part of it, and taking a message writes no link or mode
      have hrest : Tied { s with link := { s.link with inbox := rest } } active := by
        refine ⟨h.follows, h.queued, ?_, h.sent, ?_⟩
        · intro pb hpb m' plan hm
          exact h.posted pb hpb m' plan (by rw [hin]; exact List.mem_cons_of_mem _ hm)
        · intro msg hmsg
          exact h.heard msg (by rw [hin]; exact List.mem_cons_of_mem _ hmsg)
      have hk := Session.keeps_handle s m
      exact hrest.congr (Session.handle_mode s m) rfl hk.1 hk.2

theorem run_waitEvent (h : Tied s active) (n : Nat) :
    Tied (s.run (List.replicate n (.call .waitEvent))) active := by
  induction n generalizing s with
  | zero => exact h
  | succ n ih =>
      rw [List.replicate_succ, Session.run, List.foldl_cons, ← Session.run]
      exact ih h.waitEvent

theorem setMode (h : Tied s active) (m : Mode) : Tied (s.setMode m).2 active := by
  unfold Session.setMode
  split
  · exact h
  · split
    · exact h
    · split
      · exact h
      · next hp _ =>
          have hnone : s.pending = none := by simpa [Session.isPending] using hp
          show Tied { (s.send (.setMode m)).2 with mode := m, settings := Settings.forMode m } active
          exact (h.send hnone (c := .setMode m) rfl).congr rfl rfl rfl (.inl rfl)

theorem buildRoute (h : Tied s active) (a b : Point) : Tied (s.buildRoute a b).2 active := by
  unfold Session.buildRoute
  split
  · exact h
  · exact h.launch (by split <;> rfl) (by split <;> rfl) (by split <;> rfl) _ _ _

theorem buildFromCurrent (h : Tied s active) (b : Point) : Tied (s.buildFromCurrent b).2 active := by
  unfold Session.buildFromCurrent
  split
  · exact h
  · split
    · exact h.buildRoute _ _
    · exact h.hear _

theorem onLocation (h : Tied s active) (fix : Fix) : Tied (s.onLocation fix).2 active := by
  unfold Session.onLocation
  split
  · exact h
  · obtain ⟨f, hf⟩ := Session.matchFix_snd { s with lastFix := some fix } fix
    dsimp only
    split
    · next t heq =>
        rw [heq] at hf
        simp only at hf
        rw [hf]
        exact h.congr rfl rfl rfl (.inl rfl)
    · next mt t heq =>
        rw [heq] at hf
        simp only at hf
        subst hf
        split
        · split
          · split
            · exact h.launch (by rfl) (by rfl) (by rfl) _ _ _
            · exact h.congr rfl rfl rfl (.inl rfl)
          · exact h.congr rfl rfl rfl (.inl rfl)
        · exact h.congr rfl rfl rfl (.inl rfl)

theorem follow (h : Tied s active) : Tied s.follow.2 active := by
  unfold Session.follow
  split
  · exact h
  · split
    · exact h
    · exact h.congr (by rfl) (by rfl) (by rfl) (.inl (by rfl))

theorem matchOnly (h : Tied s active) (fix : Fix) : Tied (s.matchOnly fix).2 active := by
  unfold Session.matchOnly
  split
  · exact h
  · obtain ⟨f, hf⟩ := s.matchFix_snd fix
    show Tied (s.matchFix fix).2 active
    rw [hf]
    exact h.congr (by rfl) (by rfl) (by rfl) (.inl (by rfl))

theorem close (h : Tied s active) : Tied s.close.2 active := by
  unfold Session.close
  split
  · exact h
  · exact h.congr rfl rfl rfl (.inr rfl)

theorem reset (h : Tied s active) : Tied s.reset.2 active := by
  unfold Session.reset
  have hc := h.close
  split
  · next e t heq =>
      rw [heq] at hc
      exact hc
  · next t heq =>
      rw [heq] at hc
      have hnone : t.pending = none := by
        have hclose := heq
        unfold Session.close at hclose
        split at hclose
        · cases hclose
        · simp only [Prod.mk.injEq] at hclose
          rw [← hclose.2]
          rfl
      exact hc.send_plain hnone (fun _ => rfl) rfl

theorem removeRoute (h : Tied s active) : Tied s.removeRoute.2 active := by
  unfold Session.removeRoute
  split
  · exact h
  · dsimp only
    split
    · exact h.congr rfl rfl rfl (.inr rfl)
    · exact h.congr rfl rfl rfl (.inl rfl)

theorem shutdown (h : Tied s active) : Tied s.shutdown.2 active := by
  unfold Session.shutdown
  split
  · exact h
  · have hs := (h.congr (t := s.cancelPending.dropRoute) rfl rfl rfl (.inr rfl)).send_plain rfl
      (c := .shutdown) (fun _ => rfl) rfl
    exact hs.congr rfl rfl rfl (.inl rfl)

theorem call (h : Tied s active) : ∀ c : Call, Tied (s.call c) active
  | .buildRoute a b => h.buildRoute a b
  | .buildFromCurrent b => h.buildFromCurrent b
  | .setMode m => h.setMode m
  | .follow => h.follow
  | .onLocation fix => h.onLocation fix
  | .matchOnly fix => h.matchOnly fix
  | .close => h.close
  | .reset => h.reset
  | .removeRoute => h.removeRoute
  | .shutdown => h.shutdown
  | .processEvents => by
      simp only [Session.call]
      rw [Session.processEvents_eq_run]
      exact h.run_waitEvent _
  | .waitEvent => h.waitEvent
  | .waitIdle patient => by
      simp only [Session.call]
      obtain ⟨n, hn⟩ := Session.waitIdle_eq_run s patient
      rw [hn]
      exact h.run_waitEvent n

/-- A worker turn keeps the tie: the worker takes the commands in order, on the mode they leave
it on, and a build in flight runs on the session's mode. -/
theorem turn (h : Tied s active) (t : Worker.Turn) :
    Tied { s with link := (s.link.turn active t).1 } (s.link.turn active t).2 := by
  have hstop : Tied { s with link := { s.link with commands := [], alive := false } } active :=
    ⟨fun h' => by simp at h', fun _ _ _ _ _ _ hc => by simp at hc, h.posted,
      fun _ hc => by simp at hc, h.heard⟩
  cases t with
  | stop => exact hstop
  | take progress plan =>
      simp only [Channel.turn]
      split
      · next id a b rest halive hcs =>
          refine ⟨fun _ => ?_, ?_, ?_, ?_, ?_⟩
          · simpa [hcs, Command.modeAfter] using h.follows halive
          · intro pb hpb pre a' b' post hc
            have hc' : rest = pre ++ .build pb.id a' b' :: post := hc
            have := h.queued pb hpb (.build id a b :: pre) a' b' post (by rw [hcs, hc']; rfl)
            simpa [Command.modeAfter] using this
          · intro pb hpb m plan' hin
            simp only [List.append_assoc, List.mem_append, List.mem_map, List.mem_singleton] at hin
            rcases hin with hin | ⟨x, -, hx⟩ | hin
            · exact h.posted pb hpb m plan' hin
            · cases hx
            · simp only [Message.built.injEq] at hin
              obtain ⟨hid, rfl, -⟩ := hin
              exact h.queued pb hpb [] a b rest (by rw [hcs, hid]; rfl)
          · intro c hc id' hid'
            exact h.sent c (by rw [hcs]; exact List.mem_cons_of_mem _ hc) id' hid'
          · have hid : id < s.nextId := h.sent _ (by rw [hcs]; exact List.mem_cons_self ..) id rfl
            intro msg hmsg
            simp only [List.append_assoc, List.mem_append, List.mem_map, List.mem_singleton] at hmsg
            rcases hmsg with hmsg | ⟨x, -, rfl⟩ | rfl
            · exact h.heard msg hmsg
            · exact hid
            · exact hid
      · next m rest halive hcs =>
          refine ⟨fun _ => ?_, ?_, h.posted, ?_, h.heard⟩
          · simpa [hcs, Command.modeAfter] using h.follows halive
          · intro pb hpb pre a' b' post hc
            have hc' : rest = pre ++ .build pb.id a' b' :: post := hc
            have := h.queued pb hpb (.setMode m :: pre) a' b' post (by rw [hcs, hc']; rfl)
            simpa [Command.modeAfter] using this
          · intro c hc id' hid'
            exact h.sent c (by rw [hcs]; exact List.mem_cons_of_mem _ hc) id' hid'
      · next rest halive hcs =>
          refine ⟨fun _ => ?_, ?_, h.posted, ?_, h.heard⟩
          · simpa [hcs, Command.modeAfter] using h.follows halive
          · intro pb hpb pre a' b' post hc
            have hc' : rest = pre ++ .build pb.id a' b' :: post := hc
            have := h.queued pb hpb (.softReset :: pre) a' b' post (by rw [hcs, hc']; rfl)
            simpa [Command.modeAfter] using this
          · intro c hc id' hid'
            exact h.sent c (by rw [hcs]; exact List.mem_cons_of_mem _ hc) id' hid'
      · exact hstop
      · exact h

end Tied

namespace Paired

theorem Tied.step {p : Paired} (h : Tied p.session p.active) (st : Step) :
    Tied (p.step st).session (p.step st).active := by
  cases st with
  | call c => exact h.call c
  | turn t => exact h.turn t

theorem Tied.run {p : Paired} (h : Tied p.session p.active) (steps : List Step) :
    Tied (p.run steps).session (p.run steps).active := by
  induction steps generalizing p with
  | nil => exact h
  | cons st steps ih => exact ih (Tied.step h st)

end Paired

/-- A new session beside a worker on the session's mode: nothing waits in the link. -/
theorem initial_tied (config : SessionConfig) (atlas : Atlas) (prefs : Preferences)
    (listening : Bool) (mode : Mode) :
    Tied (Session.initial config atlas prefs listening mode) mode :=
  ⟨fun _ => rfl, fun _ hpb => by simp [Session.initial] at hpb,
    fun _ hpb => by simp [Session.initial] at hpb, fun _ hc => by simp [Session.initial] at hc,
    fun _ hmsg => by simp [Session.initial] at hmsg⟩

/-- A started session's worker builds on the session's mode. -/
theorem start_active {config : SessionConfig} {atlas : Atlas} {prefs : Preferences}
    {listening : Bool} {vehicle pedestrian : Option Engine} {absent : AbsentPolicy}
    {s : Session} {w : Worker}
    (h : Session.start config atlas prefs listening vehicle pedestrian absent = .ok (s, w)) :
    w.active = s.mode := by
  unfold Session.start at h
  cases hcheck : config.check with
  | error e => simp [hcheck, bind, Except.bind] at h
  | ok u =>
      simp only [hcheck, bind, Except.bind] at h
      split at h
      · simp only [pure, Except.pure, Except.ok.injEq, Prod.mk.injEq] at h
        rw [← h.1, ← h.2]
      · simp [throw, throwThe, MonadExceptOf.throw] at h

/-- Along every run of a new session beside a worker that starts on the session's mode: when the
worker takes the build in flight it builds on the session's mode; every result of the build in
flight waiting to be taken carries the session's mode, so the result `onBuilt` accepts was built
on it; the session's mode has not changed since the move that started the build in flight; and a
build keeps the worker's mode and tags its result with it. -/
theorem accepted_builds_ran_on_session_mode (config : SessionConfig) (atlas : Atlas)
    (prefs : Preferences) (listening : Bool) (mode : Mode) (steps : List Step) :
    let p₀ : Paired := ⟨Session.initial config atlas prefs listening mode, mode⟩
    let p := p₀.run steps
    (∀ id a b rest k, p.session.link.alive → p.session.link.commands = .build id a b :: rest →
        p.session.pending = some ⟨id, k⟩ → p.active = p.session.mode) ∧
      (∀ id m plan k, .built id m plan ∈ p.session.link.inbox → p.session.pending = some ⟨id, k⟩ →
        m = p.session.mode) ∧
      (∀ id k, p.session.pending = some ⟨id, k⟩ →
        ∃ pre st post, steps = pre ++ st :: post ∧ (p₀.run pre).launched st = some id ∧
          ∀ mid, mid <+: post → (p₀.run (pre ++ st :: mid)).session.mode = (p₀.run pre).session.mode) ∧
      (∀ (w : Worker) (a : Atlas) id start finish, (w.perform a (.build id start finish)).1.active = w.active) := by
  intro p₀ p
  have h : Tied p.session p.active := Paired.Tied.run (initial_tied config atlas prefs listening mode) steps
  refine ⟨fun id a b rest k _ hc hp => ?_, fun id m plan k hin hp => h.posted ⟨id, k⟩ hp m plan hin,
    fun id k hp => Paired.mode_since_launch rfl steps hp,
    fun w a id start finish => (Worker.perform_build w a id start finish).1⟩
  simpa using h.queued ⟨id, k⟩ hp [] a b rest hc

end Wayfinder
