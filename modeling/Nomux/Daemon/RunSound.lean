import Nomux.Daemon.PumpSound

/-!
# Soundness of whole runs

A pass keeps the daemon sound when `poll` reports only what was asked of it, which is what `wait` hands
to `poll_once`. So every state of every run is sound.
-/

namespace Nomux
open Wire World

variable {origin : Origin} {stage stage' : Stage}

/-! ## Waiting -/

/-- Readiness as `poll` can report it for this daemon's poll set. -/
def Daemon.Polled (d : Daemon) (ready : Source → PollFlags) : Prop :=
  ∀ source, ∃ answer, ready source = Daemon.revents (d.watchFor source) answer

theorem Daemon.Polled.unwatched {d : Daemon} {ready : Source → PollFlags} (polled : d.Polled ready)
    {source : Source} (absent : d.watchFor source = none) : ready source = {} := by
  obtain ⟨answer, eq⟩ := polled source
  rw [eq, absent]
  rfl

theorem Sound.expireAgent {d : Daemon} (h : Sound origin .greeted d) (now : Nat) :
    Sound origin .greeted (d.expireAgent now) := by
  unfold Daemon.expireAgent
  split
  · exact h
  · rename_i agent _
    have aside := agent.closeIfIdle_aside now d.world
    split
    · rename_i agent' w eq
      rw [eq] at aside
      have moved : Sound origin .greeted { d with agent := some agent', world := w } :=
        h.move aside rfl
      exact moved.tellClient (encodable_agentClose _) rfl fun n no => by cases no
    · rename_i eq
      rw [eq] at aside
      exact h.move aside rfl

theorem Sound.expire {d : Daemon} (h : Sound origin .greeted d) :
    Sound origin .greeted d.expire := by
  have clock : Sound origin .greeted { d with
      world := d.world.clock.2
      acceptRetry := d.acceptRetry.filter (d.world.clock.1 < ·)
      agentAcceptRetry := d.agentAcceptRetry.filter (d.world.clock.1 < ·) } :=
    h.move d.world.clock_quiet.aside rfl
  rw [Daemon.expire_eq]
  apply Sound.expireAgent
  split
  · exact clock.dropPending .expired (by simp)
  · exact clock

theorem Daemon.untilDetached_quiet (d : Daemon) : Quiet d.world d.untilDetached.2 := by
  unfold Daemon.untilDetached
  split
  · exact .refl _
  · exact d.world.clock_quiet

theorem Daemon.resizeDeadline_quiet (d : Daemon) (w : World) : Quiet w (d.resizeDeadline w).2 := by
  unfold Daemon.resizeDeadline
  split
  · exact w.clock_quiet
  · exact .refl _

theorem Daemon.pollTimeout_world (d : Daemon) :
    ∃ w, Quiet d.world w ∧ d.pollTimeout.2 = { d with world := w } := by
  have quiet := d.untilDetached_quiet.trans (d.resizeDeadline_quiet d.untilDetached.2)
  unfold Daemon.pollTimeout
  dsimp only
  split
  · exact ⟨_, quiet, rfl⟩
  · exact ⟨_, quiet.trans (World.clock_quiet _), rfl⟩

theorem Sound.wait {d d' : Daemon} {ready : Source → PollFlags} (h : Sound origin .greeted d)
    (waited : d.wait = (.ok ready, d')) : Sound origin .greeted d' ∧ d'.Polled ready := by
  obtain ⟨w, quiet, timed⟩ := d.expire.pollTimeout_world
  unfold Daemon.wait at waited
  generalize d.expire.pollTimeout = result at timed waited
  obtain ⟨timeout, d₁⟩ := result
  dsimp only at timed waited
  subst timed
  have moved : Sound origin .greeted { d.expire with world := w.draw.2 } :=
    h.expire.world (quiet.trans w.draw_quiet).aside
  split at waited
  · rename_i events _
    cases waited
    exact ⟨moved, fun source => ⟨events source, rfl⟩⟩
  · cases waited
    refine ⟨moved, fun source => ⟨{}, ?_⟩⟩
    cases Daemon.watchFor _ source <;> rfl
  · cases waited

theorem Sound.wait_error {d d' : Daemon} {err : Errno} (h : Sound origin .greeted d)
    (waited : d.wait = (.error err, d')) : Sound origin .greeted d' := by
  obtain ⟨w, quiet, timed⟩ := d.expire.pollTimeout_world
  unfold Daemon.wait at waited
  generalize d.expire.pollTimeout = result at timed waited
  obtain ⟨timeout, d₁⟩ := result
  dsimp only at timed waited
  subst timed
  have moved : Sound origin .greeted { d.expire with world := w.draw.2 } :=
    h.expire.world (quiet.trans w.draw_quiet).aside
  split at waited <;> cases waited
  exact moved

/-! ## One pass -/

theorem drainChildPipe_quiet (script : List Answer) (w : World) :
    Quiet w (Daemon.drainChildPipe script w) := by
  induction script generalizing w with
  | nil => exact ⟨rfl, rfl⟩
  | cons answer rest ih =>
      have next := ih { w with script := rest, now := w.now + answer.elapsed }
      have again : Quiet w (Daemon.drainChildPipe rest
          { w with script := rest, now := w.now + answer.elapsed }) :=
        ⟨next.trace, next.nextConn⟩
      rw [Daemon.drainChildPipe]
      split
      · exact again
      · split
        · exact again
        · exact ⟨rfl, rfl⟩
      · exact ⟨rfl, rfl⟩

theorem Sound.takeSignals {d : Daemon} (h : Sound origin stage d) (ready : Source → PollFlags) :
    Sound origin stage (d.takeSignals ready) := by
  have stopped : Sound origin stage (d.doIf (ready .stop).readable fun d =>
      { d with stop := d.stop.or (some "exiting: signalled") }) :=
    h.doIf _ _ fun _ => h.move (.refl _) rfl
  exact stopped.doIf _ _ fun _ => stopped.move (drainChildPipe_quiet _ _).aside rfl

theorem takeSignals_terminalClosedAt (d : Daemon) (ready : Source → PollFlags) :
    (d.takeSignals ready).terminalClosedAt = d.terminalClosedAt := by
  unfold Daemon.takeSignals Daemon.doIf
  split <;> split <;> rfl

theorem takeSignals_pending (d : Daemon) (ready : Source → PollFlags) :
    (d.takeSignals ready).pending = d.pending := by
  unfold Daemon.takeSignals Daemon.doIf
  split <;> split <;> rfl

theorem onTerminalClosed_pending (d : Daemon) : d.onTerminalClosed.pending = d.pending := by
  unfold Daemon.onTerminalClosed
  split <;> rfl

theorem readPty_pending (d : Daemon) : d.readPty.pending = d.pending := by
  unfold Daemon.readPty
  split
  · rfl
  · split
    · rfl
    · exact onTerminalClosed_pending _
    · rfl
    · exact (Daemon.reject_work ..).pending

theorem readSession_pending (d : Daemon) (ready : Source → PollFlags) :
    (d.readSession ready).pending = d.pending := by
  have drained : (d.doIf (ready .pty).readable Daemon.readPty).pending = d.pending := by
    unfold Daemon.doIf
    split
    · exact readPty_pending d
    · rfl
  exact (((Daemon.doIf_work (Daemon.readClient_work _)).trans
    (Daemon.doIf_work (Daemon.dropClient_work _ .hangup))).pending).trans drained

theorem Sound.readSession {d : Daemon} (h : Sound origin .greeted d) {ready : Source → PollFlags}
    (running : (ready .pty).readable → d.terminalClosedAt = none) :
    Sound origin .greeted (d.readSession ready) := by
  have drained := h.doIf (ready .pty).readable Daemon.readPty fun readable =>
    h.readPty (running readable)
  have read := drained.doIf
    ((ready .client).readable || (d.doIf (ready .pty).readable Daemon.readPty).inputBacklog)
    Daemon.readClient fun _ => drained.readClient
  exact read.doIf _ (Daemon.dropClient · .hangup) fun _ => read.dropClient fun no => by cases no

theorem Sound.takeArrivals {d : Daemon} (h : Sound origin .greeted d) {ready : Source → PollFlags}
    (free : (ready .listener).readable → d.pending = none) :
    Sound origin .greeted (d.takeArrivals ready) := by
  have greeted := h.doIf (ready .pending).readable Daemon.readPending fun _ => h.readPending
  refine h.doIf _ _ fun _ => greeted.doIf (ready .listener).readable Daemon.accept fun readable =>
    greeted.accept ?_
  have vacant := free readable
  unfold Daemon.doIf Daemon.readPending
  rw [vacant]
  split <;> exact vacant

theorem Sound.serviceAgent {d : Daemon} (h : Sound origin .greeted d)
    (ready : Source → PollFlags) : Sound origin .greeted (d.serviceAgent ready) := by
  have serviced := h.doIf (!(ready .agentChannel).isEmpty)
    (Daemon.serviceAgentChannel · (ready .agentChannel)) fun _ =>
      h.serviceAgentChannel (ready .agentChannel)
  exact serviced.doIf _ Daemon.acceptAgent fun _ => serviced.acceptAgent

theorem Sound.settlePass {d : Daemon} (h : Sound origin .greeted d) :
    Sound origin .greeted d.settlePass := by
  have written := h.applyWin.writePty
  have drained := written.doIf d.applyWin.writePty.inputBacklog Daemon.readClient fun _ =>
    written.readClient
  exact drained.collectOutcome.pumpOutput.writeClient

theorem Daemon.Polled.running {d : Daemon} {ready : Source → PollFlags} (polled : d.Polled ready)
    (readable : (ready .pty).readable) : d.terminalClosedAt = none := by
  by_contra closed
  have absent : d.watchFor .pty = none := by
    simpa [Daemon.watchFor] using fun _ => closed
  rw [polled.unwatched absent] at readable
  simp [PollFlags.readable] at readable

theorem Daemon.Polled.free {d : Daemon} {ready : Source → PollFlags} (polled : d.Polled ready)
    (readable : (ready .listener).readable) : d.pending = none := by
  by_contra occupied
  have absent : d.watchFor .listener = none := by
    simpa [Daemon.watchFor] using fun _ => occupied
  rw [polled.unwatched absent] at readable
  simp [PollFlags.readable] at readable

theorem Sound.pollOnce {d : Daemon} (h : Sound origin .greeted d) {ready : Source → PollFlags}
    (polled : d.Polled ready) : Sound origin .greeted (d.pollOnce ready) := by
  have read := (h.takeSignals ready).readSession fun readable =>
    (takeSignals_terminalClosedAt d ready).trans (polled.running readable)
  have arrived := read.takeArrivals fun readable =>
    (readSession_pending ..).trans ((takeSignals_pending d ready).trans (polled.free readable))
  exact (arrived.serviceAgent ready).settlePass

theorem Sound.stopReason {d : Daemon} (h : Sound origin stage d) :
    Sound origin stage d.stopReason.2 := by
  unfold Daemon.stopReason
  split
  · exact h
  · split
    · exact h
    · exact h.world d.world.clock_quiet.aside

theorem Sound.pass {d : Daemon} (h : Sound origin .greeted d) :
    (∀ d', d.pass = .ok d' → Sound origin .greeted d') ∧
      ∀ d', d.pass = .error d' → Sound origin .greeted d' := by
  have stopped := h.stopReason
  unfold Daemon.pass
  generalize d.stopReason = result at stopped
  obtain ⟨reason, d₁⟩ := result
  cases reason with
  | some reason => exact ⟨fun d' no => (by cases no), fun d' eq => by cases eq; exact stopped⟩
  | none =>
      dsimp only at stopped ⊢
      cases waited : d₁.wait with
      | mk answer d₂ =>
          cases answer with
          | error err =>
              exact ⟨fun d' no => (by cases no), fun d' eq => by cases eq; exact stopped.wait_error waited⟩
          | ok ready =>
              obtain ⟨sound, polled⟩ := stopped.wait waited
              exact ⟨fun d' eq => (by cases eq; exact sound.pollOnce polled), fun d' no => by cases no⟩

/-! ## Runs -/

def Origin.start (requested : Nat) : Origin := ⟨max requested 1, []⟩

theorem sound_start {requested : Nat} {ring : Ring} (script : List Answer) (now : Nat)
    (reserved : Ring.tryNew true requested = some ring) :
    Sound (.start requested) .greeted (Daemon.start ring script now) where
  left := ⟨.nil, List.prefix_rfl⟩
  right :=
    { capacity := by cases reserved; rfl
      ring := Ring.holds_tryNew reserved, nextConn := rfl, inApplied := rfl
      pendingInput := rfl, terminalClosedAt := rfl, outcome := rfl
      client := fun a no => by cases no
      vacant := fun _ => rfl
      pending := fun c due no => by cases no
      idle := fun _ => rfl
      served := fun _ no => by cases no
      queued := fun no => (no rfl).elim
      closed := fun no => by cases no
      settled := fun o no => by cases no }

theorem Daemon.Reachable.sound {requested : Nat} {d : Daemon} (h : Reachable requested d) :
    Sound (.start requested) .greeted d := by
  induction h with
  | start script now reserved => exact sound_start script now reserved
  | pass before next ih => exact ih.pass.1 _ next

theorem Sound.shutdown {d : Daemon} (h : Sound origin .greeted d) :
    ∃ pty, Sound origin .greeted { d.shutdown with pty } := by
  refine ⟨_, show Sound origin .greeted (Daemon.dropPending _ .shutdown) from ?_⟩
  refine Sound.dropPending ?_ .shutdown (by simp)
  split
  · exact h
  · rename_i a client
    exact (h.finalFlush .shutdown client (by simp)).onDetached

theorem Daemon.Occurs.sound {requested : Nat} {d : Daemon} (h : Occurs requested d) :
    ∃ pty, Sound (.start requested) .greeted { d with pty } := by
  cases h with
  | running reachable => exact ⟨d.pty, reachable.sound⟩
  | returned before next => exact ⟨d.pty, before.sound.pass.2 _ next⟩
  | shutDown before next => exact (before.sound.pass.2 _ next).shutdown

theorem Daemon.Occurs.lawful {requested : Nat} {d : Daemon} (h : Occurs requested d) :
    Lawful (max requested 1) d.world.trace := by
  obtain ⟨pty, sound⟩ := h.sound
  exact sound.1.lawful

def Daemon.passes : Nat → Daemon → Daemon
  | 0, d => d
  | n + 1, d =>
      match d.pass with
      | .ok next => passes n next
      | .error _ => d

theorem Daemon.Reachable.passes {requested : Nat} {d : Daemon} (h : Reachable requested d)
    (n : Nat) : Reachable requested (d.passes n) := by
  induction n generalizing d with
  | zero => exact h
  | succ n ih =>
      rw [Daemon.passes]
      split
      · rename_i next eq
        exact ih (h.pass eq)
      · exact h

theorem Sound.here {d : Daemon} (h : Sound origin stage d) :
    Sound ⟨origin.capacity, d.world.trace⟩ stage d :=
  ⟨⟨h.1.lawful, List.prefix_rfl⟩, h.2⟩

theorem Daemon.Reachable.pass_trace {requested : Nat} {d d' : Daemon} (h : Reachable requested d)
    (next : d.pass = .ok d') : d.world.trace <+: d'.world.trace :=
  (h.sound.here.pass.1 d' next).1.past

end Nomux
