import Nomux.Conn.Bounds
import Nomux.Daemon.Output
import Nomux.Daemon.Runs

/-!
# Bounded queues

Whatever the peers send and however little they read, the queues of the daemon stay within fixed
bounds. Each bound is tested somewhere else than where the queue grows, so each is an invariant of
the moves.
-/

namespace Nomux
open Wire World

/-! ## The queue of the agent slot -/

namespace Agent

def Bounded (a : Agent) : Prop :=
  ∀ chan, a.channel = some chan → chan.pending.length ≤ maxChannelQueue

theorem bounded_of_free {a : Agent} (free : a.channel = none) : a.Bounded := by
  intro chan here
  simp [free] at here

theorem Bounded.forget {a : Agent} (h : a.Bounded) (w : World) : (a.forget w).2.1.Bounded := by
  unfold Agent.forget
  split
  · exact h
  · exact bounded_of_free rfl

theorem Bounded.closeIfIdle {a : Agent} (h : a.Bounded) (now : Nat) (w : World) :
    (a.closeIfIdle now w).2.1.Bounded := by
  unfold Agent.closeIfIdle
  split
  · exact h
  · split
    · exact h
    · exact h.forget w

theorem Bounded.accept {a : Agent} (h : a.Bounded) (serving : Bool) (w : World) :
    (a.accept serving w).2.1.Bounded := by
  unfold Agent.accept
  split
  · exact h
  · dsimp only
    split
    · exact h
    · exact h
    · exact h
    · split
      · exact h
      · intro chan here
        cases here
        exact Nat.zero_le _

theorem Bounded.read {a : Agent} (h : a.Bounded) (bufLen : Nat) (w : World) :
    (a.read bufLen w).2.1.Bounded := by
  unfold Agent.read
  split
  · exact h
  · rename_i chan here
    split
    · exact h
    · split
      · intro chan' touched
        cases touched
        exact h chan here
      · exact h

theorem Bounded.deliver {a : Agent} (h : a.Bounded) (generation : UInt32) (data : Bytes) :
    (a.deliver generation data).2.Bounded := by
  unfold Agent.deliver
  split
  · exact h
  · split
    · split
      · exact h
      · rename_i fits
        intro chan' queued
        cases queued
        rw [List.length_append]
        omega
    · exact h

theorem Bounded.flush {a : Agent} (h : a.Bounded) (w : World) : (a.flush w).2.1.Bounded := by
  unfold Agent.flush
  split
  · exact h
  · rename_i chan here
    have shorter : (w.drainTo chan.pending).1.queue.length ≤ chan.pending.length := by
      conv_rhs => rw [← w.drainTo_split chan.pending, List.length_append]
      exact Nat.le_add_left ..
    intro chan' left
    dsimp only at left
    split at left
    · cases left
      exact shorter.trans (h chan here)
    · cases left
      exact shorter.trans (h chan here)

theorem Bounded.closeFromClient {a : Agent} (h : a.Bounded) (generation : UInt32) (w : World) :
    (a.closeFromClient generation w).1.Bounded := by
  unfold Agent.closeFromClient
  split
  · exact h
  · rename_i chan here
    split
    · exact h
    · have closing : ({ a with channel := some { chan with closing := true } } : Agent).Bounded := by
        intro chan' same
        cases same
        exact h chan here
      have flushed := closing.flush w
      split
      · rename_i eq
        rw [eq] at flushed
        split
        · exact flushed
        · rename_i chan' left
          intro last same
          cases same
          exact flushed chan' left
      · rename_i eq
        rw [eq] at flushed
        exact flushed.forget _

end Agent

/-! ## The daemon -/

namespace Daemon

structure Bounded (d : Daemon) : Prop where
  input : d.pendingInput.length ≤ maxPendingInput - 1 + maxOutputData
  client : ∀ client, d.client = some client → client.conn.Bounded
  pending : ∀ conn deadline, d.pending = some (conn, deadline) → conn.Bounded
  agent : ∀ agent, d.agent = some agent → agent.Bounded

theorem bounded_start (ring : Ring) (script : List Answer) (now : Nat) :
    (Daemon.start ring script now).Bounded :=
  ⟨Nat.zero_le _, fun _ no => (nomatch no), fun _ _ no => (nomatch no), fun _ no => (nomatch no)⟩

theorem Bounded.tellClient {d : Daemon} (h : d.Bounded) (f : Frame) : (d.tellClient f).Bounded := by
  unfold Daemon.tellClient
  split
  · exact h
  · rename_i client attached
    refine ⟨h.input, ?_, h.pending, h.agent⟩
    intro client' here
    cases here
    exact (h.client client attached).send f d.world

theorem Bounded.withAgent {d : Daemon} (h : d.Bounded) {agent : Agent} (bounded : agent.Bounded)
    (world : World) : ({ d with agent := some agent, world } : Daemon).Bounded := by
  refine ⟨h.input, h.client, h.pending, ?_⟩
  intro agent' here
  cases here
  exact bounded

theorem Bounded.closeAgentChannel {d : Daemon} (h : d.Bounded) : d.closeAgentChannel.Bounded := by
  unfold Daemon.closeAgentChannel
  split
  · exact h
  · rename_i agent here
    have freed := (h.agent agent here).forget d.world
    split
    · rename_i eq
      rw [eq] at freed
      exact h.withAgent freed _
    · rename_i eq
      rw [eq] at freed
      exact (h.withAgent freed _).tellClient _

theorem Bounded.onDetached {d : Daemon} (h : d.Bounded) : d.onDetached.Bounded := by
  have detached : ({ d with world := d.world.clock.2, lastDetach := d.world.clock.1 } :
      Daemon).Bounded := ⟨h.input, h.client, h.pending, h.agent⟩
  unfold Daemon.onDetached
  dsimp only
  split
  · exact detached
  · rename_i agent here
    split
    · exact detached
    · rename_i generation _
      exact detached.withAgent ((h.agent agent here).closeFromClient generation _) _

theorem Bounded.handleForAgent {d : Daemon} (h : d.Bounded) {frame : Frame}
    (forAgent : frame.isForAgent) : (d.handleFrame frame).Bounded := by
  cases frame with
  | agentData generation data =>
      unfold Daemon.handleFrame
      dsimp only
      split
      · exact h
      · rename_i agent here
        have delivered := (h.agent agent here).deliver generation data
        split
        · rename_i eq
          rw [eq] at delivered
          exact h.withAgent delivered _
        · rename_i eq
          rw [eq] at delivered
          exact (h.withAgent delivered _).closeAgentChannel
  | agentClose generation =>
      unfold Daemon.handleFrame
      dsimp only
      split
      · exact h
      · rename_i agent here
        exact h.withAgent ((h.agent agent here).closeFromClient generation d.world) _
  | _ => cases forAgent

theorem Bounded.repaintIfDue {d : Daemon} (h : d.Bounded) : d.repaintIfDue.Bounded := by
  have painted : d.repaint.2.Bounded := by
    have cases := d.repaint_cases
    generalize d.repaint = result at cases
    cases cases with
    | formFeed running formFeed room =>
        refine ⟨?_, h.client, h.pending, h.agent⟩
        simp only [inputIsSaturated, decide_eq_true_eq] at room
        have data : 1 ≤ maxOutputData := by decide
        simp only [List.length_append, List.length_singleton]
        omega
    | _ => exact ⟨h.input, h.client, h.pending, h.agent⟩
  unfold Daemon.repaintIfDue
  split
  · split
    · rename_i eq
      rw [eq] at painted
      refine ⟨painted.input, ?_, painted.pending, painted.agent⟩
      intro client' here
      obtain ⟨client, attached, rfl⟩ := Option.map_eq_some_iff.1 here
      exact painted.client client attached
    · rename_i eq
      rw [eq] at painted
      exact painted
  · exact h

theorem Bounded.acceptAgent {d : Daemon} (h : d.Bounded) : d.acceptAgent.Bounded := by
  unfold Daemon.acceptAgent
  dsimp only
  split
  · exact h
  · rename_i agent here
    have accepted := (h.agent agent here).accept d.client.isSome d.world
    split
    · rename_i eq
      rw [eq] at accepted
      exact (h.withAgent accepted _).tellClient _
    · rename_i agent' world eq
      rw [eq] at accepted
      have kept := h.withAgent accepted world
      exact ⟨kept.input, kept.client, kept.pending, kept.agent⟩
    · rename_i eq
      rw [eq] at accepted
      exact h.withAgent accepted _

theorem Bounded.readAgentChannel {d : Daemon} (h : d.Bounded) (events : PollFlags) :
    (d.readAgentChannel events).Bounded := by
  unfold Daemon.readAgentChannel
  split
  · exact h
  · split
    · exact h
    · rename_i agent here
      have read := (h.agent agent here).read readBufLen d.world
      dsimp only
      split
      · rename_i bytes agent' world eq
        rw [eq] at read
        split
        · rename_i generation client _ attached
          refine ⟨h.input, ?_, h.pending, (h.withAgent read world).agent⟩
          intro client' same
          cases same
          exact (h.client client attached).send _ _
        · exact h.withAgent read _
      · rename_i eq
        rw [eq] at read
        exact (h.withAgent read _).closeAgentChannel
      · rename_i eq
        rw [eq] at read
        exact (h.withAgent read _).closeAgentChannel
      · rename_i eq
        rw [eq] at read
        exact h.withAgent read _

theorem Bounded.serviceAgentChannel {d : Daemon} (h : d.Bounded) (events : PollFlags) :
    (d.serviceAgentChannel events).Bounded := by
  unfold Daemon.serviceAgentChannel
  split
  · exact h
  · rename_i agent here
    split
    · have flushed := (h.agent agent here).flush d.world
      split
      · rename_i eq
        rw [eq] at flushed
        exact (h.withAgent flushed _).readAgentChannel events
      · rename_i eq
        rw [eq] at flushed
        exact h.withAgent (flushed.forget _) _
      · rename_i eq
        rw [eq] at flushed
        exact (h.withAgent flushed _).closeAgentChannel
    · exact h.readAgentChannel events

theorem Bounded.expireAgent {d : Daemon} (h : d.Bounded) (now : Nat) :
    (d.expireAgent now).Bounded := by
  unfold Daemon.expireAgent
  split
  · exact h
  · rename_i agent here
    have closed := (h.agent agent here).closeIfIdle now d.world
    split
    · rename_i eq
      rw [eq] at closed
      exact (h.withAgent closed _).tellClient _
    · rename_i eq
      rw [eq] at closed
      exact h.withAgent closed _

theorem Bounded.withClient {d : Daemon} (h : d.Bounded) {client : Attached}
    (bounded : client.conn.Bounded) (world : World) :
    ({ d with client := some client, world } : Daemon).Bounded := by
  refine ⟨h.input, ?_, h.pending, h.agent⟩
  intro client' here
  cases here
  exact bounded

theorem sendExit_bounded {client : Attached} (h : client.conn.Bounded) (ring : Ring)
    (terminalEnd : Option (Nat × (Int32 × ExitKind))) (w : World) :
    (sendExit ring terminalEnd client w).1.conn.Bounded := by
  unfold sendExit
  split
  · split
    · exact h
    · exact h.send _ _
  · exact h

theorem Bounded.move {may : Special → Prop} {d d' : Daemon} (h : d.Bounded)
    (move : Move may d d') : d'.Bounded := by
  have same : ∀ world pty ring win appliedWin childSignalled terminalClosedAt outcome acceptRetry
      agentAcceptRetry stop inApplied, Bounded { d with
        world, pty, ring, win, appliedWin, childSignalled, terminalClosedAt, outcome, acceptRetry
        agentAcceptRetry, stop, inApplied } := by
    intros
    exact ⟨h.input, h.client, h.pending, h.agent⟩
  cases move with
  | quiet => exact same ..
  | tell frame => exact h.tellClient frame
  | depart =>
      refine Bounded.onDetached ⟨h.input, ?_, h.pending, h.agent⟩
      intro client no
      cases no
  | fillClient attached => exact h.withClient ((h.client _ attached).fill ..) _
  | take attached room whole =>
      have taken := (h.client _ attached).takeFrame
      rw [whole] at taken
      exact h.withClient taken _
  | takeForAgent attached room whole decodes forAgent =>
      have taken := (h.client _ attached).takeFrame
      rw [whole] at taken
      exact (h.withClient taken _).handleForAgent forAgent
  | takeBad attached whole =>
      have taken := (h.client _ attached).takeFrame
      rw [whole] at taken
      exact h.withClient taken _
  | @applied offset data kept room fits reaches more trimmed =>
      refine ⟨?_, h.client, h.pending, h.agent⟩
      have short : kept.length ≤ data.length := by
        rw [trimmed]
        split
        · simp
        · exact Nat.zero_le _
      simp only [inputIsSaturated, decide_eq_true_eq] at room
      simp only [List.length_append]
      omega
  | resize => exact same ..
  | accept =>
      refine ⟨h.input, h.client, ?_, h.agent⟩
      intro conn deadline here
      cases here
      exact Conn.bounded_fresh _
  | fillPending waiting =>
      refine ⟨h.input, h.client, ?_, h.agent⟩
      intro conn deadline here
      cases here
      exact (h.pending _ _ waiting).fill ..
  | takePending waiting whole =>
      have taken := (h.pending _ _ waiting).takeFrame
      rw [whole] at taken
      refine ⟨h.input, h.client, ?_, h.agent⟩
      intro conn deadline here
      cases here
      exact taken
  | leave =>
      refine ⟨h.input, h.client, ?_, h.agent⟩
      intro conn deadline no
      cases no
  | attach hello waiting =>
      refine ⟨h.input, ?_, ?_, h.agent⟩
      · intro client here
        cases here
        exact h.pending _ _ waiting
      · intro conn deadline no
        cases no
  | hello => exact same ..
  | spawn _ _ bound | cannotSpawn _ _ _ bound =>
      refine ⟨h.input, h.client, h.pending, fun agent here => ?_⟩
      rcases bound with rfl | rfl
      · exact h.agent agent here
      · cases here
        exact Agent.bounded_of_free rfl
  | greet hello =>
      unfold Daemon.greet
      dsimp only
      split
      · exact h
      · rename_i client attached
        apply Bounded.tellClient
        apply h.withClient
        exact h.client client attached
  | output => exact same ..
  | closed =>
      obtain ⟨world, closedAt, shape⟩ := d.onTerminalClosed_shape
      rw [shape]
      exact ⟨Nat.zero_le _, h.client, h.pending, h.agent⟩
  | writePty =>
      obtain ⟨world, left, suffix, shape⟩ := d.writePty_shape
      rw [shape]
      exact ⟨suffix.length_le.trans h.input, h.client, h.pending, h.agent⟩
  | applyWin =>
      obtain ⟨world, appliedWin, shape⟩ := d.applyWin_shape
      rw [shape]
      exact same ..
  | collect =>
      obtain ⟨world, pty, childSignalled, outcome, -, shape⟩ := d.collectOutcome_shape
      rw [shape]
      exact same ..
  | gap attached => exact h.withClient ((h.client _ attached).send ..) _
  | chunk attached => exact h.withClient ((h.client _ attached).send ..) _
  | exit attached => exact h.withClient (sendExit_bounded (h.client _ attached) ..) _
  | repaint => exact h.repaintIfDue
  | flush attached => exact h.withClient ((h.client _ attached).flushSome _) _
  | acceptAgent => exact h.acceptAgent
  | serviceAgent events => exact h.serviceAgentChannel events
  | expireAgent now => exact h.expireAgent now
  | shutDown => exact same ..

/-! ## The queue towards the client -/

theorem sendParts_queued (parts : List Bytes) {client : Attached} (h : client.conn.Bounded)
    (w : World) :
    (sendParts parts client w).1.conn.Bounded ∧
      (sendParts parts client w).1.conn.queued ≤ max client.conn.queued Conn.maxAfterOutput := by
  induction parts generalizing client w with
  | nil => exact ⟨h, Nat.le_max_left ..⟩
  | cons part parts ih =>
      have fits : ∀ piece ∈ History.chunks maxOutputData part, piece.length ≤ maxOutputData :=
        fun piece inside => (History.mem_chunks (by decide) inside).2
      have sent := h.sendChunks_queued _ fits client.sentThrough w
      rw [sendParts]
      split
      · exact ih h w
      · dsimp only [Conn.sendOutput]
        split
        · exact sent
        · obtain ⟨bounded, more⟩ := @ih { client with
            conn := (Conn.sendChunks _ client.sentThrough client.conn w).2.1
            sentThrough := (Conn.sendChunks _ client.sentThrough client.conn w).1 } sent.1
            (Conn.sendChunks _ client.sentThrough client.conn w).2.2
          exact ⟨bounded, more.trans (max_le sent.2 (Nat.le_max_right ..))⟩

theorem reportGap_queued (ring : Ring) {client : Attached} (h : client.conn.Bounded)
    (room : client.conn.queued < maxPendingWrite) (w : World) :
    (reportGap ring client w).1.conn.Bounded ∧
      (reportGap ring client w).1.conn.queued ≤ Conn.maxAfterOutput := by
  have within : client.conn.queued + 12 ≤ Conn.maxAfterOutput ∧ 12 + 12 ≤ Conn.maxAfterOutput := by
    simp only [Conn.maxAfterOutput, maxPendingWrite, headerLen, maxPayload] at room ⊢
    omega
  unfold reportGap
  split
  · have cost := h.send_queued (.gap (UInt64.ofNat ring.base)) w
    rw [Conn.length_wire_gap] at cost
    refine ⟨h.send (.gap (UInt64.ofNat ring.base)) w, cost.trans ?_⟩
    have preamble : serverPreamble.length = 12 := rfl
    omega
  · exact ⟨h, by dsimp only; omega⟩

theorem replay_queued (ring : Ring) {client : Attached} (h : client.conn.Bounded) (w : World) :
    (replay ring client w).1.conn.Bounded ∧
      (replay ring client w).1.conn.queued ≤ max client.conn.queued Conn.maxAfterOutput := by
  unfold replay
  split
  · rename_i owed
    simp only [Bool.and_eq_true, decide_eq_true_eq] at owed
    obtain ⟨bounded, reported⟩ := reportGap_queued ring h owed.1 w
    dsimp only
    obtain ⟨replayed, more⟩ := sendParts_queued
      [((reportGap ring client w).2.draw.1.wrap |> (ring.slicesFrom ·
          (reportGap ring client w).1.sentThrough)).1,
        ((reportGap ring client w).2.draw.1.wrap |> (ring.slicesFrom ·
          (reportGap ring client w).1.sentThrough)).2]
      bounded (reportGap ring client w).2.draw.2
    refine ⟨replayed, more.trans ?_⟩
    exact max_le (le_max_of_le_right reported) (Nat.le_max_right ..)
  · exact ⟨h, Nat.le_max_left ..⟩

theorem sendExit_queued (ring : Ring) (terminalEnd : Option (Nat × (Int32 × ExitKind)))
    {client : Attached} (h : client.conn.Bounded) (w : World) :
    (sendExit ring terminalEnd client w).1.conn.queued ≤
      max client.conn.queued serverPreamble.length + 13 := by
  unfold sendExit
  split
  · split
    · dsimp only
      omega
    · rename_i closedAt status kind
      have cost := h.send_queued (.exit status kind
        (u32OfUsize ((w.clock.1 - closedAt) / 1000000000))) w.clock.2
      rwa [Conn.length_wire_exit] at cost
  · dsimp only
    omega

theorem repaint_client (d : Daemon) : d.repaint.2.client = d.client := by
  have cases := d.repaint_cases
  generalize d.repaint = result at cases
  cases cases <;> rfl

theorem repaintIfDue_conn (d : Daemon) :
    d.repaintIfDue.client.map (·.conn) = d.client.map (·.conn) := by
  have painted := d.repaint_client
  unfold repaintIfDue
  split
  · split
    · rename_i eq
      rw [eq] at painted
      dsimp only at painted ⊢
      rw [painted, Option.map_map]
      rfl
    · rename_i eq
      rw [eq] at painted
      exact congrArg _ painted
  · rfl

theorem Bounded.pumpOutput_queued {d : Daemon} (h : d.Bounded) {client client' : Attached}
    (before : d.client = some client) (after : d.pumpOutput.client = some client') :
    client'.conn.queued ≤ max client.conn.queued Conn.maxAfterOutput + 13 := by
  obtain ⟨replayed, more⟩ := replay_queued d.ring (h.client client before) d.world
  have exited := sendExit_queued d.ring d.terminalEnd replayed (replay d.ring client d.world).2
  unfold pumpOutput at after
  rw [before] at after
  dsimp only at after
  have conn := repaintIfDue_conn { d with
    client := some (sendExit d.ring d.terminalEnd (replay d.ring client d.world).1
      (replay d.ring client d.world).2).1
    world := (sendExit d.ring d.terminalEnd (replay d.ring client d.world).1
      (replay d.ring client d.world).2).2 }
  rw [after] at conn
  have same : client'.conn = _ := Option.some.inj conn
  rw [same]
  have preamble : serverPreamble.length ≤ Conn.maxAfterOutput := by decide
  dsimp only
  omega

theorem repaint_trace (d : Daemon) : ∃ events, d.repaint.2.world.trace = d.world.trace ++ events ∧
    ∀ e ∈ events, e = .repaintQueued ∨ e.isAside := by
  obtain ⟨asides, fine, trace⟩ := (Pty.nudgeRepaint_aside d.win d.world).trace
  have cases := d.repaint_cases
  generalize d.repaint = result at cases
  cases cases with
  | formFeed => exact ⟨[.repaintQueued], rfl, by simp⟩
  | nudged | refused => exact ⟨asides, trace, fun e inside => .inr (fine e inside)⟩
  | _ => exact ⟨[], by simp, by simp⟩

theorem repaintIfDue_trace (d : Daemon) :
    ∃ events, d.repaintIfDue.world.trace = d.world.trace ++ events ∧
      ∀ e ∈ events, e = .repaintQueued ∨ e.isAside := by
  obtain ⟨events, trace, fine⟩ := d.repaint_trace
  unfold repaintIfDue
  split
  · split
    · rename_i eq
      rw [eq] at trace
      exact ⟨events, trace, fine⟩
    · rename_i eq
      rw [eq] at trace
      exact ⟨events, trace, fine⟩
  · exact ⟨[], by simp, by simp⟩

theorem pumpOutput_full {d : Daemon} {client : Attached} (attached : d.client = some client)
    (full : maxPendingWrite ≤ client.conn.queued) :
    ∃ events, d.pumpOutput.world.trace = d.world.trace ++ events ∧
      ∀ e ∈ events, ∀ conn frame, e = .sent conn frame → frame.isExit := by
  have idle : replay d.ring client d.world = (client, d.world) := by
    unfold replay
    rw [if_neg]
    simp only [Bool.and_eq_true, decide_eq_true_eq, not_and]
    intro room
    omega
  have exited : ∃ events,
      (sendExit d.ring d.terminalEnd client d.world).2.trace = d.world.trace ++ events ∧
      ∀ e ∈ events, ∀ conn frame, e = .sent conn frame → frame.isExit := by
    unfold sendExit
    split
    · split
      · exact ⟨[], by simp, by simp⟩
      · rename_i closedAt status kind _
        dsimp only
        have quiet := d.world.clock_quiet.trace
        rcases client.conn.send_cases (.exit status kind
          (u32OfUsize ((d.world.clock.1 - closedAt) / 1000000000))) d.world.clock.2 with sent | failed
        · rw [sent]
          refine ⟨[_], congrArg (· ++ _) quiet, ?_⟩
          intro e inside conn frame same
          rw [List.mem_singleton] at inside
          rw [inside] at same
          cases same
          rfl
        · rw [failed]
          exact ⟨[], by simpa using quiet, by simp⟩
    · exact ⟨[], by simp, by simp⟩
  obtain ⟨said, trace, exits⟩ := exited
  unfold pumpOutput
  rw [attached]
  dsimp only
  rw [idle]
  obtain ⟨painted, trace', fine⟩ := repaintIfDue_trace { d with
    client := some (sendExit d.ring d.terminalEnd client d.world).1
    world := (sendExit d.ring d.terminalEnd client d.world).2 }
  refine ⟨said ++ painted, ?_, ?_⟩
  · rw [trace', trace, List.append_assoc]
  · intro e inside conn frame same
    rcases List.mem_append.1 inside with early | late
    · exact exits e early conn frame same
    · rcases fine e late with byte | aside
      · rw [byte] at same
        cases same
      · rw [same] at aside
        cases aside

theorem writeClient_queued (d : Daemon) {client : Attached}
    (attached : d.writeClient.client = some client) : client.conn.queued < abandonPendingWrite := by
  unfold writeClient at attached
  split at attached
  · rename_i gone
    simp [gone] at attached
  · dsimp only at attached
    split at attached
    · simp [dropClient_client] at attached
    · split at attached
      · simp [dropClient_client] at attached
      · rename_i within
        split at attached
        · simp [dropClient_client] at attached
        · cases attached
          exact Nat.not_le.1 within

/-! ## In every state -/

def Connected (d : Daemon) (conn : Conn) : Prop :=
  d.client.any (·.conn = conn) ∨ d.pending.any (·.1 = conn)

/-- The bounds on what a daemon in this state holds for its peers, and on what pumping and writing to
the client leave it holding. -/
structure QueueBounds (d : Daemon) : Prop where
  input : d.pendingInput.length ≤ maxPendingInput - 1 + maxOutputData
  received : ∀ conn, d.Connected conn →
    conn.buffered ≤ maxPendingRead ∧ conn.rx.length < 2 * maxPendingRead
  takes : ∀ conn, d.Connected conn → maxPendingRead ≤ conn.buffered → conn.takeFrame.1 ≠ .ok none
  agent : ∀ agent chan, d.agent = some agent → agent.channel = some chan →
    chan.pending.length ≤ maxChannelQueue
  pumped : ∀ client client', d.client = some client → d.pumpOutput.client = some client' →
    client'.conn.queued ≤
      max client.conn.queued (maxPendingWrite - 1 + headerLen + maxPayload) + 13
  pumpedFull : ∀ client, d.client = some client → maxPendingWrite ≤ client.conn.queued →
    ∃ events, d.pumpOutput.world.trace = d.world.trace ++ events ∧
      ∀ e ∈ events, ∀ conn frame, e = .sent conn frame → frame.isExit
  written : ∀ client, d.writeClient.client = some client → client.conn.queued < abandonPendingWrite

theorem Bounded.queueBounds {d : Daemon} (h : d.Bounded) : d.QueueBounds := by
  have connected : ∀ conn, d.Connected conn → conn.Bounded := by
    intro conn here
    rcases here with client | pending
    · obtain ⟨client, attached, same⟩ := (Option.any_eq_true ..).1 client
      rw [decide_eq_true_eq] at same
      exact same ▸ h.client client attached
    · obtain ⟨⟨_, deadline⟩, waiting, same⟩ := (Option.any_eq_true ..).1 pending
      rw [decide_eq_true_eq] at same
      exact same ▸ h.pending _ deadline waiting
  exact {
    input := h.input
    received := fun conn here => ⟨(connected conn here).cap, (connected conn here).rx_lt⟩
    takes := fun conn _ full => Conn.takeFrame_of_full full
    agent := fun agent chan here serving => h.agent agent here chan serving
    pumped := fun client client' before after => h.pumpOutput_queued before after
    pumpedFull := fun client attached full => pumpOutput_full attached full
    written := fun client attached => writeClient_queued d attached }

theorem Reachable.bounded {requested : Nat} {d : Daemon} (h : Reachable requested d) :
    d.Bounded := by
  obtain ⟨ring, script, now, -, moves⟩ : ∃ ring script now, _ ∧ Moves ⊤ _ d :=
    h.moves trivial trivial
  exact moves.invariant (fun _ _ => Bounded.move) (bounded_start ring script now)

/-- The bounds hold in every reachable state and in every state on the way from it, such as the one a
pass pumps in. -/
theorem Reachable.queues_bounded {requested : Nat} {d : Daemon} (h : Reachable requested d) :
    (∀ p, Moves ⊤ d p → p.QueueBounds) ∧
      ∀ d', d.pass = .ok d' → ∃ p, Moves ⊤ d p ∧ d' = p.pumpOutput.writeClient := by
  refine ⟨?_, ?_⟩
  · intro p moves
    exact (moves.invariant (fun _ _ => Bounded.move) h.bounded).queueBounds
  · intro d' next
    obtain ⟨p, pumps, same⟩ := (pass_eq ..).1 next
    exact ⟨p, (h.beforePump_arrives pumps).moves trivial, same⟩

end Daemon

theorem queues_bounded_overrun : overrun.QueueBounds :=
  (Daemon.Reachable.queues_bounded (overrunning_reachable 3)).1 _ .refl

end Nomux
