import Nomux.Daemon.Basic

/-!
# The fuse of a closed agent connection

An agent connection that the client has closed is given up a short while after the last of its queue
was placed. Operations are those of the daemon; beside the slot stand the moment the connection in it
was closed and the last moment a byte of its queue was placed.
-/

namespace Nomux
open Wire World

/-! ## Time -/

namespace World

theorem draw_now (w : World) : w.now ≤ w.draw.2.now := by
  unfold draw
  split
  · exact Nat.le_refl _
  · exact Nat.le_add_right ..

theorem retryOn_now {α : Type} (call : Answer → Except Errno α) (script : List Answer) (w : World) :
    w.now ≤ (retryOn call script w).2.now := by
  induction script generalizing w with
  | nil => exact Nat.le_refl _
  | cons answer rest ih =>
      have later : w.now ≤ w.now + answer.elapsed := Nat.le_add_right ..
      have rest := ih { w with script := rest, now := w.now + answer.elapsed }
      rw [retryOn]
      split
      · exact later.trans rest
      · exact later

theorem readOrEof_now (w : World) (bufLen : Nat) : w.now ≤ (w.readOrEof bufLen).2.now := by
  have asked : w.now ≤ (w.read bufLen).2.now := retryOn_now ..
  unfold readOrEof
  split
  · exact Nat.le_refl _
  · split <;> simp_all

theorem drainTo_now (w : World) (queue : Bytes) : w.now ≤ (w.drainTo queue).2.now := by
  have asked : w.now ≤ (w.retry (·.write)).2.now := retryOn_now ..
  unfold drainTo
  split
  · exact Nat.le_refl _
  · split <;> simp_all

theorem drainTo_failed (w : World) (queue : Bytes) (failed : (w.drainTo queue).1.failed) :
    (w.drainTo queue).1.written = [] := by
  unfold drainTo at failed ⊢
  split at failed
  · cases failed
  · split at failed <;> simp_all

theorem drainTo_partial (w : World) (queue : Bytes) :
    (w.drainTo queue).1.written ≠ [] ∧ (w.drainTo queue).1.queue ≠ [] ↔
      ∃ n, (w.retry (·.write)).1 = .ok n ∧ 0 < n ∧ n < queue.length := by
  unfold drainTo
  generalize w.retry (·.write) = result
  obtain ⟨_ | n, w⟩ := result
  · cases queue with
    | nil => simp
    | cons b queue => rename_i err; cases err <;> simp
  · cases queue with
    | nil => simp
    | cons b queue =>
        cases n with
        | zero => simp
        | succ n => simp

end World

namespace Agent

def isClosing (a : Agent) : Bool := a.channel.any (·.closing)

def places (before after : Agent) : Bool :=
  match before.channel, after.channel with
  | some chan, some chan' => chan'.pending.length < chan.pending.length
  | _, _ => false

theorem places_self (a : Agent) : a.places a = false := by
  unfold places
  split
  · rename_i here there
    rw [here] at there
    cases there
    simp
  · rfl

structure Flushed (a : Agent) (w : World) (chan : Channel) (deadline : Nat) (w' : World) : Prop where
  agent : (a.flush w).2 =
    ({ a with
      channel := some { chan with
        pending := (w.drainTo chan.pending).1.queue, idleDeadline := deadline } }, w')
  now : w.now ≤ w'.now
  still : (w.drainTo chan.pending).1.written = [] → deadline = chan.idleDeadline
  moved : (w.drainTo chan.pending).1.written ≠ [] → deadline = w'.now + agentIdleTimeout
  «open» : (a.flush w).1 = .open ↔ (w.drainTo chan.pending).1.failed = false ∧
    (chan.closing → (w.drainTo chan.pending).1.queue ≠ [])

theorem flush_spec {a : Agent} {chan : Channel} (serving : a.channel = some chan) (w : World) :
    ∃ deadline w', a.Flushed w chan deadline w' := by
  have split := w.drainTo_split chan.pending
  have later := w.drainTo_now chan.pending
  have result : (a.flush w).1 = .open ↔ (w.drainTo chan.pending).1.failed = false ∧
      (chan.closing → (w.drainTo chan.pending).1.queue ≠ []) := by
    unfold flush
    rw [serving]
    dsimp only
    split <;> cases chan.closing <;> cases (w.drainTo chan.pending).1.failed <;>
      simp [Channel.touch, List.isEmpty_iff]
  by_cases placed : (w.drainTo chan.pending).1.written = []
  · refine ⟨chan.idleDeadline, (w.drainTo chan.pending).2.log (.agentWrote chan.generation []), ?_,
      later, fun _ => rfl, fun no => (no placed).elim, result⟩
    have same := split
    rw [placed, List.nil_append] at same
    unfold flush
    rw [serving]
    dsimp only
    rw [placed, same, if_neg (by simp)]
  · have shorter : (w.drainTo chan.pending).1.queue.length ≠ chan.pending.length := by
      have size := congrArg List.length split
      have some_written := List.length_pos_of_ne_nil placed
      rw [List.length_append] at size
      omega
    let wrote := (w.drainTo chan.pending).2.log
      (.agentWrote chan.generation (w.drainTo chan.pending).1.written)
    refine ⟨wrote.clock.1 + agentIdleTimeout, wrote.clock.2, ?_, ?_, fun no => (placed no).elim,
      fun _ => rfl, result⟩
    · unfold flush
      rw [serving]
      dsimp only
      rw [if_pos shorter]
      rfl
    · exact later.trans wrote.draw_now

end Agent

/-! ## Operations on the slot -/

inductive AgentOp where
  /-- Time passes, and the kernel has other answers ready. -/
  | elsewhere (elapsed : Nat) (script : List Answer)
  | accept (serving : Bool)
  | read (bufLen : Nat)
  | flush
  | deliver (generation : UInt32) (data : Bytes)
  | closeFromClient (generation : UInt32)
  | closeIfIdle (now : Nat)
  | forget

/-- Each operation as the daemon performs it, with the slot emptied where it finds that it must be. -/
def AgentOp.run (op : AgentOp) (a : Agent) (w : World) : Agent × World :=
  match op with
  | .elsewhere elapsed script => (a, { w with script, now := w.now + elapsed })
  | .accept serving => (a.accept serving w).2
  | .read bufLen =>
      match a.read bufLen w with
      | (.eof, a, w) => (a.forget w).2
      | (.failed _, a, w) => (a.forget w).2
      | (_, a, w) => (a, w)
  | .flush =>
      match a.flush w with
      | (.open, a, w) => (a, w)
      | (_, a, w) => (a.forget w).2
  | .deliver generation data =>
      match a.deliver generation data with
      | (true, a) => (a, w)
      | (false, a) => (a.forget w).2
  | .closeFromClient generation => a.closeFromClient generation w
  | .closeIfIdle now => (a.closeIfIdle now w).2
  | .forget => (a.forget w).2

/-- The slot, with the moment the connection in it was closed by the client, and the last moment a byte
of its queue was placed. -/
structure Tending where
  agent : Agent := {}
  world : World
  closedAt : Nat
  placedAt : Nat

namespace Tending

def start (w : World) : Tending := { world := w, closedAt := w.now, placedAt := w.now }

def step (t : Tending) (op : AgentOp) : Tending :=
  match op.run t.agent t.world with
  | (agent, world) =>
      { agent, world
        closedAt := if agent.isClosing && !t.agent.isClosing then world.now else t.closedAt
        placedAt := if t.agent.places agent then world.now else t.placedAt }

def run (t : Tending) (ops : List AgentOp) : Tending := ops.foldl step t

/-- A closed connection is held for the grace at most, from when it was closed or last taken from. -/
def Fused (t : Tending) : Prop :=
  ∀ chan, t.agent.channel = some chan → chan.closing →
    chan.idleDeadline ≤ max t.closedAt t.placedAt + agentAbandonGrace

/-- The operation is a flush of a connection already closed, and places some of its queue but not all. -/
def Relights (t : Tending) : AgentOp → Prop
  | .flush => ∃ chan n, t.agent.channel = some chan ∧ chan.closing ∧
      (t.world.retry (·.write)).1 = .ok n ∧ 0 < n ∧ n < chan.pending.length
  | _ => False

theorem fused_of_open {t : Tending} («open» : t.agent.isClosing = false) : t.Fused := by
  intro chan serving closing
  simp [Agent.isClosing, serving, closing] at «open»

theorem Fused.of_same {t t' : Tending} (h : t.Fused) (agent : t'.agent = t.agent)
    (closedAt : t'.closedAt = t.closedAt) (placedAt : t'.placedAt = t.placedAt) : t'.Fused := by
  unfold Fused
  rw [agent, closedAt, placedAt]
  exact h

theorem step_same {t : Tending} {op : AgentOp} (h : t.Fused)
    (same : (op.run t.agent t.world).1 = t.agent) : (t.step op).Fused := by
  apply h.of_same
  · exact same
  · show (if (op.run t.agent t.world).1.isClosing && _ then _ else _) = _
    rw [same, Bool.and_not_self, if_neg Bool.false_ne_true]
  · show (if t.agent.places (op.run t.agent t.world).1 then _ else _) = _
    rw [same, Agent.places_self, if_neg Bool.false_ne_true]

theorem step_open {t : Tending} {op : AgentOp}
    («open» : (op.run t.agent t.world).1.isClosing = false) : (t.step op).Fused := fused_of_open «open»

theorem forget_open (a : Agent) (w : World) : (a.forget w).2.1.isClosing = false := by
  unfold Agent.forget
  split
  · rename_i vacant
    rw [Agent.isClosing, vacant]
    rfl
  · rfl

theorem accept_open (a : Agent) (serving : Bool) (w : World) :
    (a.accept serving w).2.1 = a ∨ (a.accept serving w).2.1.isClosing = false := by
  unfold Agent.accept
  split
  · exact .inl rfl
  · dsimp only
    split
    · exact .inl rfl
    · exact .inl rfl
    · exact .inl rfl
    · split
      · exact .inl rfl
      · exact .inr rfl

theorem accept_step {t : Tending} (h : t.Fused) (serving : Bool) : (t.step (.accept serving)).Fused := by
  rcases accept_open t.agent serving t.world with same | opened
  · exact step_same h same
  · exact step_open opened

theorem read_step {t : Tending} (h : t.Fused) (bufLen : Nat) : (t.step (.read bufLen)).Fused := by
  cases serving : t.agent.channel with
  | none =>
      apply step_open
      simp only [AgentOp.run, Agent.read, serving]
      exact forget_open ..
  | some chan =>
      cases closing : chan.closing with
      | true =>
          apply step_same h
          simp only [AgentOp.run, Agent.read, serving, closing, if_true]
      | false =>
          apply step_open
          have still : t.agent.isClosing = false := by simp [Agent.isClosing, serving, closing]
          simp only [AgentOp.run, Agent.read, serving, closing, Bool.false_eq_true, if_false]
          generalize t.world.readOrEof bufLen = result
          obtain ⟨outcome, w⟩ := result
          cases outcome with
          | data bytes => simp [Agent.isClosing, Channel.touch, closing]
          | eof => exact forget_open ..
          | wouldBlock => exact still
          | failed err => exact forget_open ..

theorem deliver_step {t : Tending} (h : t.Fused) (generation : UInt32) (data : Bytes) :
    (t.step (.deliver generation data)).Fused := by
  cases serving : t.agent.channel with
  | none =>
      apply step_same h
      simp only [AgentOp.run, Agent.deliver, serving]
  | some chan =>
      by_cases takes : (chan.generation = generation && !chan.closing) = true
      · apply step_open
        have «open» : chan.closing = false := by
          rw [Bool.and_eq_true, Bool.not_eq_true'] at takes
          exact takes.2
        simp only [AgentOp.run, Agent.deliver, serving, takes, if_true]
        split
        · rename_i eq
          split at eq
          · cases eq
          · cases eq
            simp [Agent.isClosing, «open»]
        · exact forget_open ..
      · apply step_same h
        simp only [AgentOp.run, Agent.deliver, serving, takes, Bool.false_eq_true, if_false]

theorem closeIfIdle_step {t : Tending} (h : t.Fused) (now : Nat) : (t.step (.closeIfIdle now)).Fused := by
  cases serving : t.agent.channel with
  | none =>
      apply step_same h
      simp only [AgentOp.run, Agent.closeIfIdle, serving]
  | some chan =>
      by_cases early : now < chan.idleDeadline
      · apply step_same h
        simp only [AgentOp.run, Agent.closeIfIdle, serving, early, if_true]
      · apply step_open
        simp only [AgentOp.run, Agent.closeIfIdle, serving, early, if_false]
        exact forget_open ..

theorem flush_run (a : Agent) (w : World) : AgentOp.flush.run a w =
    if (a.flush w).1 = .open then (a.flush w).2
    else ((a.flush w).2.1.forget (a.flush w).2.2).2 := by
  unfold AgentOp.run
  generalize a.flush w = result
  obtain ⟨result, a, w⟩ := result
  cases result <;> rfl

theorem flush_still {a : Agent} {chan : Channel} {w w' : World} {deadline : Nat}
    (serving : a.channel = some chan) (flushed : a.Flushed w chan deadline w')
    (placed : (w.drainTo chan.pending).1.written = []) : (a.flush w).2.1 = a := by
  have same := w.drainTo_split chan.pending
  rw [placed, List.nil_append] at same
  rw [flushed.agent, flushed.still placed, same, ← serving]

theorem flush_step {t : Tending} (h : t.Fused) (fine : ¬ t.Relights .flush) : (t.step .flush).Fused := by
  cases serving : t.agent.channel with
  | none =>
      apply step_open
      simp only [AgentOp.run, Agent.flush, serving]
      exact forget_open ..
  | some chan =>
      obtain ⟨deadline, w, flushed⟩ := Agent.flush_spec serving t.world
      have run := flush_run t.agent t.world
      by_cases stays : (t.agent.flush t.world).1 = .open
      · rw [if_pos stays] at run
        cases closing : chan.closing with
        | false =>
            apply step_open
            rw [run, flushed.agent]
            exact closing
        | true =>
            apply step_same h
            rw [run]
            have left := (flushed.open.1 stays).2 closing
            have placed : (t.world.drainTo chan.pending).1.written = [] :=
              by_contra fun moved => by
                obtain ⟨n, wrote, some_placed, some_left⟩ :=
                  (t.world.drainTo_partial chan.pending).1 ⟨moved, left⟩
                exact fine ⟨chan, n, serving, closing, wrote, some_placed, some_left⟩
            exact flush_still serving flushed placed
      · rw [if_neg stays] at run
        apply step_open
        rw [run]
        exact forget_open ..

theorem closeFromClient_cases {a : Agent} {chan : Channel} (serving : a.channel = some chan) (w : World) :
    (a.closeFromClient chan.generation w).1.channel = none ∨
    ∃ deadline w₁, ({ a with channel := some { chan with closing := true } } : Agent).Flushed w
        { chan with closing := true } deadline w₁ ∧
      a.closeFromClient chan.generation w =
        ({ a with
          channel := some { chan with
            closing := true, pending := (w.drainTo chan.pending).1.queue
            idleDeadline := min deadline (w₁.clock.1 + agentAbandonGrace) } }, w₁.clock.2) := by
  obtain ⟨deadline, w₁, flushed⟩ := Agent.flush_spec
    (a := { a with channel := some { chan with closing := true } }) rfl w
  have agent := flushed.agent
  unfold Agent.closeFromClient
  rw [serving]
  dsimp only
  rw [if_neg (not_not.2 rfl)]
  generalize ({ a with channel := some { chan with closing := true } } : Agent).flush w = result at agent
  obtain ⟨result, a', w'⟩ := result
  cases agent
  cases result with
  | «open» => exact .inr ⟨deadline, w₁, flushed, rfl⟩
  | finished | failed => exact .inl rfl

theorem step_of_run {t : Tending} {op : AgentOp} {a : Agent} {w : World}
    (run : op.run t.agent t.world = (a, w)) : t.step op =
      { agent := a, world := w
        closedAt := if a.isClosing && !t.agent.isClosing then w.now else t.closedAt
        placedAt := if t.agent.places a then w.now else t.placedAt } := by
  unfold Tending.step
  rw [run]

theorem step_lit {t : Tending} {op : AgentOp} {a : Agent} {w : World} {chan : Channel}
    (run : op.run t.agent t.world = (a, w)) (serving : a.channel = some chan)
    (recent : (a.isClosing && !t.agent.isClosing) ∨ t.agent.places a)
    (short : chan.idleDeadline ≤ w.now + agentAbandonGrace) : (t.step op).Fused := by
  rw [step_of_run run]
  intro chan' held _
  cases serving.symm.trans held
  refine short.trans (Nat.add_le_add_right ?_ _)
  rcases recent with closed | placed
  · exact le_max_of_le_left (Nat.le_of_eq (if_pos closed).symm)
  · exact le_max_of_le_right (Nat.le_of_eq (if_pos placed).symm)

theorem step_unlit {t : Tending} {op : AgentOp} {a : Agent} {w : World} {chan chan' : Channel}
    (h : t.Fused) (run : op.run t.agent t.world = (a, w)) (serving : t.agent.channel = some chan)
    (closing : chan.closing) (serving' : a.channel = some chan') (pending : chan'.pending = chan.pending)
    (short : chan'.idleDeadline ≤ chan.idleDeadline) : (t.step op).Fused := by
  have closed : t.agent.isClosing = true := by simp [Agent.isClosing, serving, closing]
  have unplaced : t.agent.places a = false := by simp [Agent.places, serving, serving', pending]
  rw [step_of_run run, closed, unplaced]
  intro chan₁ held _
  cases serving'.symm.trans held
  dsimp only
  rw [Bool.not_true, Bool.and_false, if_neg Bool.false_ne_true, if_neg Bool.false_ne_true]
  exact short.trans (h chan serving closing)

theorem closeFromClient_step {t : Tending} (h : t.Fused) (generation : UInt32) :
    (t.step (.closeFromClient generation)).Fused := by
  cases serving : t.agent.channel with
  | none =>
      apply step_same h
      simp only [AgentOp.run, Agent.closeFromClient, serving]
  | some chan =>
      by_cases named : chan.generation = generation
      · subst named
        rcases closeFromClient_cases serving t.world with gone | ⟨deadline, w, flushed, closed⟩
        · apply step_open
          rw [AgentOp.run, Agent.isClosing, gone]
          rfl
        · have split := t.world.drainTo_split chan.pending
          cases closing : chan.closing with
          | false =>
              refine step_lit closed rfl (.inl ?_) (Nat.min_le_right ..)
              simp [Agent.isClosing, serving, closing]
          | true =>
              by_cases placed : (t.world.drainTo chan.pending).1.written = []
              · have still : deadline = chan.idleDeadline := flushed.still placed
                rw [placed, List.nil_append] at split
                refine step_unlit h closed serving closing rfl split ?_
                exact (Nat.min_le_left ..).trans (Nat.le_of_eq still)
              · refine step_lit closed rfl (.inr ?_) (Nat.min_le_right ..)
                have size := congrArg List.length split
                have moved := List.length_pos_of_ne_nil placed
                rw [List.length_append] at size
                simp only [Agent.places, serving, decide_eq_true_eq]
                omega
      · apply step_same h
        simp only [AgentOp.run, Agent.closeFromClient, serving, named, ne_eq, not_false_eq_true, if_true]

theorem Fused.step {t : Tending} (h : t.Fused) {op : AgentOp} (fine : ¬ t.Relights op) :
    (t.step op).Fused := by
  cases op with
  | elsewhere elapsed script => exact step_same h rfl
  | accept serving => exact accept_step h serving
  | read bufLen => exact read_step h bufLen
  | flush => exact flush_step h fine
  | deliver generation data => exact deliver_step h generation data
  | closeFromClient generation => exact closeFromClient_step h generation
  | closeIfIdle now => exact closeIfIdle_step h now
  | forget => exact step_open (forget_open ..)

/-! ## A fuse relit -/

def Timely (t : Tending) : Prop := t.closedAt ≤ t.world.now ∧ t.placedAt ≤ t.world.now

theorem flush_now (a : Agent) (w : World) : w.now ≤ (a.flush w).2.2.now := by
  cases serving : a.channel with
  | none => simp [Agent.flush, serving]
  | some chan =>
      obtain ⟨deadline, w', flushed⟩ := Agent.flush_spec serving w
      rw [flushed.agent]
      exact flushed.now

theorem forget_now (a : Agent) (w : World) : (a.forget w).2.2.now = w.now := by
  unfold Agent.forget
  split <;> rfl

theorem read_now (a : Agent) (bufLen : Nat) (w : World) : w.now ≤ (a.read bufLen w).2.2.now := by
  have asked := w.readOrEof_now bufLen
  unfold Agent.read
  split
  · exact Nat.le_refl _
  · split
    · exact Nat.le_refl _
    · split
      · rename_i eq
        rw [eq] at asked
        exact asked.trans (draw_now _)
      · rename_i eq
        rw [eq] at asked
        exact asked

theorem run_now (op : AgentOp) (a : Agent) (w : World) : w.now ≤ (op.run a w).2.now := by
  cases op with
  | elsewhere elapsed script => exact Nat.le_add_right ..
  | accept serving =>
      show w.now ≤ (a.accept serving w).2.2.now
      have asked := w.draw_now
      unfold Agent.accept
      split
      · exact Nat.le_refl _
      · dsimp only
        split
        · exact asked
        · exact asked
        · exact asked
        · split
          · exact asked
          · exact asked.trans (draw_now _)
  | read bufLen =>
      have asked := read_now a bufLen w
      unfold AgentOp.run
      dsimp only
      generalize a.read bufLen w = result at asked
      obtain ⟨outcome, a, w⟩ := result
      cases outcome with
      | data | wouldBlock => exact asked
      | eof | failed =>
          dsimp only
          rw [forget_now]
          exact asked
  | flush =>
      rw [flush_run]
      split
      · exact flush_now a w
      · rw [forget_now]
        exact flush_now a w
  | deliver generation data =>
      unfold AgentOp.run
      dsimp only
      split
      · exact Nat.le_refl _
      · rw [forget_now]
  | closeFromClient generation =>
      show w.now ≤ (a.closeFromClient generation w).2.now
      unfold Agent.closeFromClient
      split
      · exact Nat.le_refl _
      · rename_i chan _
        split
        · exact Nat.le_refl _
        · have flushed := flush_now { a with channel := some { chan with closing := true } } w
          split
          · rename_i eq
            rw [eq] at flushed
            split
            · exact flushed
            · exact flushed.trans (draw_now _)
          · rename_i eq
            rw [eq] at flushed
            rw [forget_now]
            exact flushed
  | closeIfIdle now =>
      show w.now ≤ (a.closeIfIdle now w).2.2.now
      unfold Agent.closeIfIdle
      split
      · exact Nat.le_refl _
      · split
        · exact Nat.le_refl _
        · dsimp only
          rw [forget_now]
  | forget =>
      show w.now ≤ (a.forget w).2.2.now
      rw [forget_now]

theorem Timely.step {t : Tending} (h : t.Timely) (op : AgentOp) : (t.step op).Timely := by
  have later := run_now op t.agent t.world
  generalize run : op.run t.agent t.world = result at later
  obtain ⟨a, w⟩ := result
  rw [step_of_run run]
  constructor
  · dsimp only
    split
    · exact Nat.le_refl _
    · exact h.1.trans later
  · dsimp only
    split
    · exact Nat.le_refl _
    · exact h.2.trans later

/-- A flush that places some of the queue of a closed connection gives the rest a minute. -/
theorem not_fused_of_relights {t : Tending} (timely : t.Timely) {op : AgentOp} (relit : t.Relights op) :
    ¬ (t.step op).Fused := by
  cases op with
  | flush =>
      obtain ⟨chan, n, serving, closing, wrote, some_placed, some_left⟩ := relit
      obtain ⟨moved, left⟩ := (t.world.drainTo_partial chan.pending).2 ⟨n, wrote, some_placed, some_left⟩
      obtain ⟨deadline, w, flushed⟩ := Agent.flush_spec serving t.world
      have works : (t.world.drainTo chan.pending).1.failed = false :=
        Bool.eq_false_iff.2 fun failed => moved (t.world.drainTo_failed _ failed)
      have run := flush_run t.agent t.world
      rw [if_pos (flushed.open.2 ⟨works, fun _ => left⟩), flushed.agent] at run
      obtain ⟨late, late'⟩ := timely.step .flush
      have world : (t.step .flush).world = w := congrArg Prod.snd run
      have agent : (t.step .flush).agent = _ := congrArg Prod.fst run
      intro fuse
      have bound := fuse _ (congrArg Agent.channel agent) closing
      have grace : agentAbandonGrace < agentIdleTimeout := by decide
      have latest := max_le late late'
      rw [world] at latest
      dsimp only at bound
      rw [flushed.moved moved] at bound
      omega
  | _ => exact relit.elim

/-! ## Runs -/

theorem run_snoc (t : Tending) (ops : List AgentOp) (op : AgentOp) :
    t.run (ops ++ [op]) = (t.run ops).step op := List.foldl_concat ..

theorem Timely.run {t : Tending} (h : t.Timely) (ops : List AgentOp) : (t.run ops).Timely := by
  induction ops using List.reverseRecOn with
  | nil => exact h
  | append_singleton ops op ih =>
      rw [run_snoc]
      exact ih.step op

theorem start_timely (w : World) : (start w).Timely := ⟨Nat.le_refl _, Nat.le_refl _⟩

theorem start_fused (w : World) : (start w).Fused := fused_of_open rfl

theorem fused_run {w : World} {ops : List AgentOp}
    (fine : ∀ early op, early ++ [op] <+: ops → ¬ ((start w).run early).Relights op) :
    ((start w).run ops).Fused := by
  induction ops using List.reverseRecOn with
  | nil => exact start_fused w
  | append_singleton ops op ih =>
      rw [run_snoc]
      refine (ih fun early op' front => fine early op' (front.trans (List.prefix_append ..))).step ?_
      exact fine ops op List.prefix_rfl

/-- Once the grace is over, a closed connection is given up without a word to the client. -/
theorem Fused.released {t : Tending} (h : t.Fused) {chan : Channel}
    (serving : t.agent.channel = some chan) (closing : chan.closing) {now : Nat}
    (late : max t.closedAt t.placedAt + agentAbandonGrace ≤ now) (w : World) :
    (t.agent.closeIfIdle now w).1 = none ∧ (t.agent.closeIfIdle now w).2.1.channel = none := by
  have due := (h chan serving closing).trans late
  unfold Agent.closeIfIdle Agent.forget
  rw [serving]
  dsimp only
  rw [if_neg (Nat.not_lt.2 due), if_pos closing]
  exact ⟨rfl, rfl⟩

/-- In a run of operations on the slot, a connection that the client has closed is held for the grace at
most in every state exactly where no flush finds one closed and places some of its queue but not all;
and where it is, the slot is free when the grace is over. -/
theorem fused_iff (w : World) (ops : List AgentOp) :
    ((∀ early, early <+: ops → ((start w).run early).Fused) ↔
      ∀ early op, early ++ [op] <+: ops → ¬ ((start w).run early).Relights op) ∧
    ((∀ early op, early ++ [op] <+: ops → ¬ ((start w).run early).Relights op) →
      ∀ chan, ((start w).run ops).agent.channel = some chan → chan.closing → ∀ now w',
        max ((start w).run ops).closedAt ((start w).run ops).placedAt + agentAbandonGrace ≤ now →
          (((start w).run ops).agent.closeIfIdle now w').1 = none ∧
          (((start w).run ops).agent.closeIfIdle now w').2.1.channel = none) := by
  refine ⟨⟨?_, ?_⟩, ?_⟩
  · intro fused early op front relit
    apply not_fused_of_relights ((start_timely w).run early) relit
    rw [← run_snoc]
    exact fused _ front
  · intro fine early front
    exact fused_run fun first op short => fine first op (short.trans front)
  · intro fine chan serving closing now w' late
    exact (fused_run fine).released serving closing late w'

end Tending

/-! ## A peer that takes one byte -/

/-- A connection is accepted and sent three bytes, and closed while its peer takes none of them. Then
the peer takes one. -/
def sipping : World :=
  { script := [{ accept := .ok ⟨true, true⟩ }, {}, {}, {}, { write := .ok 1 }] }

def sips : List AgentOp := [.accept true, .deliver 0 [1, 2, 3], .closeFromClient 0, .flush]

theorem fuse_relit_sips :
    ((Tending.start sipping).run (sips.take 3)).agent.deadline = some agentAbandonGrace ∧
    ((Tending.start sipping).run sips).agent.deadline = some agentIdleTimeout ∧
    ¬ ((Tending.start sipping).run sips).Fused := by
  refine ⟨by decide, by decide, ?_⟩
  intro fuse
  have bound := fuse { generation := 0, pending := [2, 3], closing := true
                       idleDeadline := agentIdleTimeout } rfl rfl
  revert bound
  decide

end Nomux
