import Nomux.Daemon.Frame
import Mathlib.Logic.Relation

/-!
# The moves of the daemon

Everything the event loop does is a sequence of a few moves, each made where the source makes it and
under the conditions it tests there. What every move keeps, every run keeps; so this module says once
what the daemon can do, and the invariants that follow are checked move by move.
-/

namespace Nomux
open Wire World

def Wire.Frame.isReply : Frame → Bool
  | .pong | .inputAck _ | .error _ _ => true
  | _ => false

def Wire.Frame.isForAgent : Frame → Bool
  | .agentData _ _ | .agentClose _ => true
  | _ => false

/-- What a departing connection leaves in the trace: a last `Error`, and bytes written. -/
def Event.isFarewell (conn : Nat) : Event → Prop
  | .sent c (.error _ _) => c = conn
  | .wrote c _ => c = conn
  | _ => False

structure Farewell (conn : Nat) (before after : World) : Prop where
  nextConn : after.nextConn = before.nextConn
  said : ∃ words, after.trace = before.trace ++ words ∧ ∀ e ∈ words, e.isFarewell conn

def Event.greeting : Event → Option (Nat × Hello)
  | .attached conn hello => some (conn, hello)
  | _ => none

def latestGreeting (trace : List Event) : Option (Nat × Hello) := History.latest Event.greeting trace

theorem latestGreeting_attached (trace : List Event) (conn : Nat) (hello : Hello) :
    latestGreeting (trace ++ [.attached conn hello]) = some (conn, hello) :=
  History.latest_snoc (rfl : Event.greeting (.attached conn hello) = _) trace

namespace Daemon

def taken (d : Daemon) (client : Attached) (conn : Conn) (frame : Frame) : Daemon :=
  ({ d with client := some { client with conn } } : Daemon).noteFrame conn.id frame

/-- The client, if there is one, is new and was attached by this `Hello`. -/
def GreetedBy (d : Daemon) (hello : Hello) : Prop :=
  ∀ client, d.client = some client →
    client.repaintDue = false ∧ latestGreeting d.world.trace = some (client.conn.id, hello)

/-- The moves that some statements leave out. -/
inductive Special where
  | attach | repaint | shutDown

inductive Move (may : Special → Prop) (d : Daemon) : Daemon → Prop
  /-- Time passes, and the loop minds its own timers and flags. -/
  | quiet {world : World} (stop : Option String) (childSignalled : Bool)
      (acceptRetry agentAcceptRetry : Option Nat) (quiet : Quiet d.world world)
      (stopped : d.stop.isSome → stop.isSome) :
      Move may d { d with world, stop, childSignalled, acceptRetry, agentAcceptRetry }
  | tell (frame : Frame) (reply : frame.isReply) :
      Move may d (d.tellClient frame)
  | depart {client : Attached} {world : World} (why : Departure)
      (attached : d.client = some client) (farewell : Farewell client.conn.id d.world world) :
      Move may d (({ d with client := none, world := world.log (.left client.conn.id why) } :
        Daemon).onDetached)
  -- the receive buffer of the client
  | fillClient {client : Attached} (attached : d.client = some client) :
      Move may d { d with
        client := some { client with conn := (client.conn.fill readBufLen d.world).2.1 }
        world := (client.conn.fill readBufLen d.world).2.2 }
  | take {client : Attached} {conn : Conn} {ty : FrameType} {payload : Bytes} {frame : Frame}
      (attached : d.client = some client) (room : ¬ d.inputIsSaturated)
      (whole : client.conn.takeFrame = (.ok (some (ty, payload)), conn))
      (decodes : Frame.decode ty payload = .ok frame)
      (plain : frame.isForAgent = false) :
      Move may d (d.taken client conn frame)
  | takeForAgent {client : Attached} {conn : Conn} {ty : FrameType} {payload : Bytes}
      {frame : Frame} (attached : d.client = some client) (room : ¬ d.inputIsSaturated)
      (whole : client.conn.takeFrame = (.ok (some (ty, payload)), conn))
      (decodes : Frame.decode ty payload = .ok frame)
      (agent : frame.isForAgent) :
      Move may d ((d.taken client conn frame).handleFrame frame)
  | takeBad {client : Attached} {conn : Conn} {raw : FrameType × Bytes}
      (attached : d.client = some client)
      (whole : client.conn.takeFrame = (.ok (some raw), conn)) :
      Move may d { d with client := some { client with conn } }
  | applied {offset : UInt64} {data kept : Bytes} (room : ¬ d.inputIsSaturated)
      (fits : data.length ≤ maxOutputData) (reaches : offset.toNat ≤ d.inApplied)
      (more : d.inApplied < saturatingAdd offset.toNat data.length)
      (trimmed : kept = if d.terminalClosedAt.isNone then data.drop (d.inApplied - offset.toNat)
        else []) :
      Move may d { d with
        pendingInput := d.pendingInput ++ kept
        inApplied := saturatingAdd offset.toNat data.length
        world := d.world.log (.applied offset data kept) }
  | resize (win : WinSize) : Move may d { d with win }
  -- the pending connection
  | accept {world : World} (deadline : Nat) (quiet : Quiet d.world world) (free : d.pending = none) :
      Move may d { d with
        world := ({ world with nextConn := world.nextConn + 1 } : World).log
          (.accepted world.nextConn)
        pending := some ({ id := world.nextConn }, deadline) }
  | fillPending {conn : Conn} {deadline : Nat} (waiting : d.pending = some (conn, deadline)) :
      Move may d { d with
        pending := some ((conn.fill readBufLen d.world).2.1, deadline)
        world := (conn.fill readBufLen d.world).2.2 }
  | takePending {conn conn' : Conn} {deadline : Nat} {raw : FrameType × Bytes}
      (waiting : d.pending = some (conn, deadline))
      (whole : conn.takeFrame = (.ok (some raw), conn')) :
      Move may d { d with pending := some (conn', deadline) }
  | leave {conn : Conn} {deadline : Nat} {world : World} (why : Departure)
      (waiting : d.pending = some (conn, deadline)) (farewell : Farewell conn.id d.world world) :
      Move may d { d with pending := none, world := world.log (.left conn.id why) }
  -- a greeting
  | attach {conn : Conn} {deadline : Nat} (hello : Hello) (waiting : d.pending = some (conn, deadline))
      (vacant : d.client = none) (allowed : may .attach) :
      Move may d { d with
        client := some (.greeting conn), pending := none
        world := d.world.log (.attached conn.id hello) }
  | hello (hello : Hello) : Move may d { d with win := hello.win, appliedWin := none }
  | spawn {agent : Option Agent} {world : World} (first : d.pty = none) (running : d.stop = none)
      (bound : agent = d.agent ∨ agent = some {}) (quiet : Quiet d.world world)
      (reset : d.appliedWin = none) :
      Move may d { d with agent, pty := some {}, world := world.log (.resized d.win) }
  | cannotSpawn {agent : Option Agent} {world : World} (reason : String) (first : d.pty = none)
      (running : d.stop = none) (bound : agent = d.agent ∨ agent = some {})
      (quiet : Quiet d.world world) :
      Move may d { d with agent, world, stop := some reason }
  | greet (hello : Hello) (greeted : d.GreetedBy hello) (present : d.pty.isSome) :
      Move may d (d.greet hello)
  -- the terminal
  | output {world : World} {bytes : Bytes} (quiet : Quiet d.world world) (present : d.pty.isSome) :
      Move may d { d with ring := d.ring.push bytes, world := world.log (.output bytes) }
  | closed (present : d.pty.isSome) : Move may d d.onTerminalClosed
  | writePty : Move may d d.writePty
  | applyWin : Move may d d.applyWin
  | collect : Move may d d.collectOutcome
  -- the pump
  | gap {client : Attached} (attached : d.client = some client)
      (room : client.conn.queued < maxPendingWrite) (behind : client.sentThrough < d.ring.base) :
      Move may d { d with
        client := some { client with
          conn := (client.conn.send (.gap (UInt64.ofNat d.ring.base)) d.world).2.1
          sentThrough := d.ring.base, repaintDue := true }
        world := (client.conn.send (.gap (UInt64.ofNat d.ring.base)) d.world).2.2 }
  | chunk {client : Attached} {part : Bytes} (attached : d.client = some client)
      (room : client.conn.queued < maxPendingWrite) (fits : part.length ≤ maxOutputData) :
      Move may d { d with
        client := some { client with
          conn := (client.conn.send (.output (UInt64.ofNat client.sentThrough) part) d.world).2.1
          sentThrough := if (client.conn.send (.output (UInt64.ofNat client.sentThrough) part)
              d.world).1 then client.sentThrough + part.length else client.sentThrough }
        world := (client.conn.send (.output (UInt64.ofNat client.sentThrough) part) d.world).2.2 }
  | exit {client : Attached} (attached : d.client = some client) :
      Move may d { d with
        client := some (sendExit d.ring d.terminalEnd client d.world).1
        world := (sendExit d.ring d.terminalEnd client d.world).2 }
  | repaint (allowed : may .repaint) : Move may d d.repaintIfDue
  | flush {client : Attached} (attached : d.client = some client) :
      Move may d { d with
        client := some { client with conn := (client.conn.flushSome d.world).2.1 }
        world := (client.conn.flushSome d.world).2.2 }
  -- the agent socket
  | acceptAgent : Move may d d.acceptAgent
  | serviceAgent (events : PollFlags) : Move may d (d.serviceAgentChannel events)
  | expireAgent (now : Nat) : Move may d (d.expireAgent now)
  -- the end
  | shutDown (allowed : may .shutDown) : Move may d { d with pty := none }

abbrev Moves (may : Special → Prop) : Daemon → Daemon → Prop := Relation.ReflTransGen (Move may)

variable {may : Special → Prop}

end Daemon

/-! ## Last words -/

theorem Farewell.of_quiet {conn : Nat} {before after : World} (quiet : Quiet before after) :
    Farewell conn before after :=
  ⟨quiet.nextConn, [], by simp [quiet.trace], by simp⟩

theorem Farewell.trans {conn : Nat} {a b c : World} (ab : Farewell conn a b)
    (bc : Farewell conn b c) : Farewell conn a c := by
  obtain ⟨first, said, fine⟩ := ab.said
  obtain ⟨second, said', fine'⟩ := bc.said
  refine ⟨bc.nextConn.trans ab.nextConn, first ++ second, ?_, ?_⟩
  · rw [said', said, List.append_assoc]
  · intro e inside
    rcases List.mem_append.1 inside with early | late
    · exact fine e early
    · exact fine' e late

theorem Farewell.log {conn : Nat} {before after : World} (h : Farewell conn before after)
    {e : Event} (last : e.isFarewell conn) : Farewell conn before (after.log e) :=
  h.trans ⟨rfl, [e], rfl, by simpa using last⟩

theorem writeLoop_quiet (len : Nat) (script : List Answer) (pos : Nat) (w : World) :
    Quiet w (Conn.writeLoop len script pos w).2.2 := by
  induction script generalizing pos w with
  | nil => exact ⟨rfl, rfl⟩
  | cons answer rest ih =>
      rw [Conn.writeLoop]
      split
      · exact ⟨rfl, rfl⟩
      · dsimp only
        split
        · exact ⟨rfl, rfl⟩
        · exact ⟨(ih ..).trace, (ih ..).nextConn⟩
        · exact ⟨rfl, rfl⟩
        · exact ⟨(ih ..).trace, (ih ..).nextConn⟩
        · exact ⟨rfl, rfl⟩

theorem finalLoop_quiet (len deadline : Nat) (script : List Answer) (pos : Nat) (w : World) :
    Quiet w (Conn.finalLoop len deadline script pos w).2 := by
  induction script generalizing pos w with
  | nil => exact ⟨rfl, rfl⟩
  | cons answer rest ih =>
      rw [Conn.finalLoop]
      split
      · exact ⟨rfl, rfl⟩
      · dsimp only
        split
        · exact ⟨rfl, rfl⟩
        · split
          · exact ⟨rfl, rfl⟩
          · split
            · exact ⟨rfl, rfl⟩
            · exact ⟨(ih ..).trace, (ih ..).nextConn⟩
            · exact ⟨(ih ..).trace, (ih ..).nextConn⟩
            · exact ⟨rfl, rfl⟩

theorem flushSome_farewell (c : Conn) (w : World) : Farewell c.id w (c.flushSome w).2.2 := by
  have quiet := writeLoop_quiet c.tx.length w.script c.txPos w
  unfold Conn.flushSome
  generalize Conn.writeLoop c.tx.length w.script c.txPos w = result at quiet
  obtain ⟨failed, pos, w'⟩ := result
  have wrote : Farewell c.id w (w'.log (.wrote c.id (c.unsent.take (pos - c.txPos)))) :=
    (Farewell.of_quiet quiet).log rfl
  dsimp only
  split
  · exact wrote
  · exact wrote

theorem flushFinal_farewell (c : Conn) (w : World) : Farewell c.id w (c.flushFinal w) := by
  have drawn : Farewell c.id w _ := .of_quiet w.draw_quiet
  unfold Conn.flushFinal
  dsimp only
  split
  · exact drawn
  · exact (drawn.trans (.of_quiet (finalLoop_quiet ..))).log rfl

theorem closeWith_farewell (c : Conn) (code : ErrorCode) (message : String) (w : World) :
    Farewell c.id w (c.closeWith (some (.error code message)) w) := by
  have flushed := flushFinal_farewell (c.send (.error code message) w).2.1
    (c.send (.error code message) w).2.2
  unfold Conn.closeWith
  dsimp only
  rcases c.send_cases (.error code message) w with queued | failed
  · rw [queued] at flushed ⊢
    have said : Farewell c.id w (w.log (.sent c.id (.error code message))) :=
      (Farewell.of_quiet (.refl w)).log rfl
    exact said.trans flushed
  · rw [failed] at flushed ⊢
    exact flushed

namespace Daemon

/-! ## What the larger moves touch -/

theorem collectOutcome_shape (d : Daemon) : ∃ world pty childSignalled outcome,
    (d.pty.isSome → pty.isSome) ∧
      d.collectOutcome = { d with world, pty, childSignalled, outcome } := by
  have observed : ∃ world pty outcome, (d.pty.isSome → pty.isSome) ∧
      d.observe.2 = { d with world, pty, outcome } := by
    unfold observe
    split
    · split
      · exact ⟨_, _, _, id, rfl⟩
      · split
        · exact ⟨_, _, _, fun _ => rfl, rfl⟩
        · dsimp only
          split
          · exact ⟨_, _, _, fun _ => rfl, rfl⟩
          · exact ⟨_, _, _, fun _ => rfl, rfl⟩
    · exact ⟨_, _, _, id, rfl⟩
  obtain ⟨world, pty, outcome, kept, shape⟩ := observed
  unfold collectOutcome
  dsimp only
  rw [shape]
  split
  · exact ⟨_, _, _, _, kept, rfl⟩
  · split
    · exact ⟨_, _, _, _, kept, rfl⟩
    · split
      · exact ⟨_, _, _, _, kept, rfl⟩
      · split
        · exact ⟨_, _, _, _, kept, rfl⟩
        · exact ⟨_, _, _, _, kept, rfl⟩

theorem applyWin_shape (d : Daemon) : ∃ world appliedWin,
    d.applyWin = { d with world, appliedWin } := by
  unfold applyWin
  split
  · exact ⟨_, _, rfl⟩
  · split
    · exact ⟨_, _, rfl⟩
    · exact ⟨_, _, rfl⟩

theorem writePty_shape (d : Daemon) : ∃ world pendingInput,
    pendingInput <:+ d.pendingInput ∧ d.writePty = { d with world, pendingInput } := by
  unfold writePty
  split
  · exact ⟨_, _, List.suffix_rfl, rfl⟩
  · dsimp only
    split
    · exact ⟨_, _, List.nil_suffix, rfl⟩
    · exact ⟨_, _, ⟨_, d.world.drainTo_split d.pendingInput⟩, rfl⟩

theorem onTerminalClosed_shape (d : Daemon) : ∃ world terminalClosedAt,
    d.onTerminalClosed = { d with world, terminalClosedAt, pendingInput := [] } := by
  unfold onTerminalClosed
  split
  · rename_i closed
    exact ⟨d.world, d.terminalClosedAt, rfl⟩
  · exact ⟨_, _, rfl⟩

/-- What `repaint` comes to, with what it found. -/
inductive Repaint (d : Daemon) : Bool × Daemon → Prop
  | closed (closed : d.terminalClosedAt.isSome) : Repaint d (true, d)
  | full (running : d.terminalClosedAt = none) (formFeed : d.client.any (·.repaintCtrlL))
      (full : d.inputIsSaturated) : Repaint d (false, d)
  | formFeed (running : d.terminalClosedAt = none) (formFeed : d.client.any (·.repaintCtrlL))
      (room : ¬ d.inputIsSaturated) :
      Repaint d (true,
        { d with pendingInput := d.pendingInput ++ [0x0c], world := d.world.log .repaintQueued })
  | absent (running : d.terminalClosedAt = none) (resizes : ¬ d.client.any (·.repaintCtrlL))
      (absent : d.pty = none) : Repaint d (true, d)
  | nudged (running : d.terminalClosedAt = none) (resizes : ¬ d.client.any (·.repaintCtrlL))
      (present : d.pty.isSome) (taken : (Pty.nudgeRepaint d.win d.world).1) :
      Repaint d (true, { d with world := (Pty.nudgeRepaint d.win d.world).2 })
  | refused (running : d.terminalClosedAt = none) (resizes : ¬ d.client.any (·.repaintCtrlL))
      (present : d.pty.isSome) (refused : (Pty.nudgeRepaint d.win d.world).1 = false) :
      Repaint d (true,
        { d with world := (Pty.nudgeRepaint d.win d.world).2, appliedWin := none })

theorem repaint_cases (d : Daemon) : Repaint d d.repaint := by
  unfold repaint
  split
  · rename_i closed
    exact .closed closed
  · rename_i running
    rw [Bool.not_eq_true, Option.isSome_eq_false_iff, Option.isNone_iff_eq_none] at running
    split
    · rename_i formFeed
      split
      · rename_i full
        exact .full running formFeed full
      · rename_i room
        exact .formFeed running formFeed room
    · rename_i resizes
      split
      · rename_i absent
        exact .absent running resizes absent
      · rename_i present
        have nudged := Repaint.nudged running resizes (by simp [present])
        have refused := Repaint.refused running resizes (by simp [present])
        generalize Pty.nudgeRepaint d.win d.world = result at nudged refused
        obtain ⟨_ | _, world⟩ := result
        · exact refused rfl
        · exact nudged rfl

/-! ## Departures -/

theorem Moves.tell (d : Daemon) (frame : Frame) (reply : frame.isReply) :
    Moves may d (d.tellClient frame) :=
  .single (.tell frame reply)

theorem dropClient_moves (d : Daemon) (why : Departure) : Moves may d (d.dropClient why) := by
  unfold dropClient
  split
  · exact .refl
  · rename_i client attached
    have farewell := flushSome_farewell client.conn d.world
    obtain ⟨-, -, same⟩ := Conn.flushSome_trace client.conn d.world
    dsimp only
    rw [same]
    exact .single (.depart why attached farewell)

theorem reject_moves (d : Daemon) (code : ErrorCode) (message : String) :
    Moves may d (d.reject code message) :=
  (Moves.tell d _ rfl).trans (dropClient_moves ..)

theorem evict_moves (d : Daemon) : Moves may d d.evict := by
  unfold evict
  split
  · exact .refl
  · rename_i client attached
    exact .single (.depart .takeover attached (closeWith_farewell ..))

theorem rejectPending_moves (d : Daemon) (code : ErrorCode) (message : String) :
    Moves may d (d.rejectPending code message) := by
  unfold rejectPending
  split
  · exact .refl
  · rename_i waiting
    exact .single (.leave .refused waiting (closeWith_farewell ..))

theorem dropPending_moves (d : Daemon) (why : Departure) : Moves may d (d.dropPending why) := by
  unfold dropPending
  split
  · exact .refl
  · rename_i waiting
    exact .single (.leave why waiting (.of_quiet (.refl _)))

theorem Moves.quiet (d : Daemon) {world : World} (quiet : Quiet d.world world) :
    Moves may d { d with world } :=
  .single (.quiet d.stop d.childSignalled d.acceptRetry d.agentAcceptRetry quiet id)

/-! ## Reading the client -/

theorem onInput_moves (d : Daemon) (offset : UInt64) (data : Bytes) (room : ¬ d.inputIsSaturated)
    (fits : data.length ≤ maxOutputData) : Moves may d (d.onInput offset data) := by
  unfold onInput
  dsimp only
  split
  · exact reject_moves ..
  · rename_i reaches
    split
    · rename_i more
      exact .head (.applied room fits (by omega) more rfl) (Moves.tell _ _ rfl)
    · exact Moves.tell _ _ rfl

theorem handleFrame_moves (d : Daemon) (frame : Frame) (room : ¬ d.inputIsSaturated)
    (fits : frame.payload.length ≤ maxPayload)
    (plain : frame.isForAgent = false) : Moves may d (d.handleFrame frame) := by
  cases frame with
  | input offset data =>
      refine onInput_moves d offset data room ?_
      have len : (Frame.input offset data).payload.length = 8 + data.length := by
        simp [Frame.payload, Frame.encodePayload]
      rw [len] at fits
      unfold maxOutputData
      omega
  | resize win => exact .single (.resize win)
  | ping => exact Moves.tell d .pong rfl
  | detach => exact dropClient_moves ..
  | agentData generation data => cases plain
  | agentClose generation => cases plain
  | _ => exact reject_moves ..

theorem taken_moves {d : Daemon} {client : Attached} {conn : Conn} {ty : FrameType}
    {payload : Bytes} {frame : Frame} (attached : d.client = some client)
    (room : ¬ d.inputIsSaturated)
    (whole : client.conn.takeFrame = (.ok (some (ty, payload)), conn))
    (decodes : Frame.decode ty payload = .ok frame) :
    Moves may d ((d.taken client conn frame).handleFrame frame) := by
  cases kind : frame.isForAgent with
  | true => exact .single (.takeForAgent attached room whole decodes kind)
  | false =>
      obtain ⟨-, -, same, fits⟩ := (decode_eq_ok ty payload frame).1 decodes
      rw [same] at fits
      exact .head (.take attached room whole decodes kind)
        (handleFrame_moves (d.taken client conn frame) frame room fits kind)

theorem decodeLoop_moves (rounds : Nat) (d : Daemon) : Moves may d (decodeLoop rounds d).2 := by
  induction rounds generalizing d with
  | zero => exact .refl
  | succ rounds ih =>
      rw [decodeLoop]
      split
      · exact .refl
      · rename_i room
        split
        · exact .refl
        · rename_i client attached
          split
          · exact .refl
          · exact reject_moves ..
          · rename_i ty payload conn whole
            dsimp only
            split
            · exact .head (.takeBad attached whole)
                (reject_moves _ .protocol "unparseable frame payload")
            · rename_i frame decodes
              exact (taken_moves attached room whole decodes).trans (ih _)

theorem decodeFrames_moves (d : Daemon) : Moves may d d.decodeFrames := by
  have decoded : Moves may d _ := decodeLoop_moves
    ((d.client.elim 0 fun client => client.conn.buffered) + 1) d
  unfold decodeFrames
  split
  · rename_i d' eq
    rw [eq] at decoded
    refine decoded.trans ?_
    unfold refuseTruncated
    split
    · exact reject_moves ..
    · exact .refl
  · rename_i d' eq
    rwa [eq] at decoded

theorem readClient_moves (d : Daemon) : Moves may d d.readClient := by
  unfold readClient
  split
  · exact .refl
  · rename_i client attached
    split
    · exact decodeFrames_moves d
    · have filled : Move may d _ := .fillClient attached
      split
      · rename_i eq
        rw [eq] at filled
        exact .head filled (dropClient_moves ..)
      · rename_i eq
        rw [eq] at filled
        exact .head filled (decodeFrames_moves _)

theorem Moves.doIf {a d : Daemon} (h : Moves may a d) (cond : Bool) (f : Daemon → Daemon)
    (done : cond → Moves may d (f d)) : Moves may a (d.doIf cond f) := by
  unfold Daemon.doIf
  split
  · rename_i holds
    exact h.trans (done holds)
  · exact h

/-! ## Greetings -/

theorem GreetedBy.of_aside {d d' : Daemon} {hello : Hello} (h : d.GreetedBy hello)
    (client : d'.client = d.client) (aside : Aside d.world d'.world) : d'.GreetedBy hello := by
  obtain ⟨events, asides, trace⟩ := aside.trace
  intro here attached
  obtain ⟨fresh, latest⟩ := h here (client ▸ attached)
  refine ⟨fresh, ?_⟩
  rw [latestGreeting, trace, History.latest_append_of_none]
  · exact latest
  · intro e inside
    have kind := asides e inside
    cases e <;> first | rfl | cases kind

theorem bindAgent_shape (d : Daemon) (hello : Hello) : ∃ agent world,
    (agent = d.agent ∨ agent = some {}) ∧ Quiet d.world world ∧
      d.bindAgent hello = { d with agent, world } := by
  have quiet := Agent.bind_quiet d.world
  unfold bindAgent
  split
  · split
    · rename_i eq
      rw [eq] at quiet
      refine ⟨_, _, .inr ?_, quiet, rfl⟩
      unfold Agent.bind at eq
      dsimp only at eq
      split at eq
      · cases eq
        rfl
      · cases eq
    · rename_i eq
      rw [eq] at quiet
      exact ⟨_, _, .inl rfl, quiet, rfl⟩
  · exact ⟨_, _, .inl rfl, .refl _, rfl⟩

theorem startSession_greetedBy {d : Daemon} {hello : Hello} (h : d.GreetedBy hello) :
    (d.startSession hello).GreetedBy hello := by
  obtain ⟨agent, world, -, quiet, bound⟩ := d.bindAgent_shape hello
  have aside := Pty.spawn_aside hello.win world
  unfold startSession
  dsimp only
  rw [bound]
  split
  · rename_i eq
    rw [eq] at aside
    exact h.of_aside rfl (quiet.aside.trans aside)
  · intro client no
    rw [reject_client] at no
    cases no

theorem reject_stop (d : Daemon) (code : ErrorCode) (message : String) (stop : Option String) :
    ({ d with stop } : Daemon).reject code message = { d.reject code message with stop } := by
  have detached : ∀ d : Daemon, ({ d with stop } : Daemon).onDetached = { d.onDetached with stop } := by
    intro d
    unfold onDetached
    dsimp only
    split
    · rfl
    · split <;> rfl
  have told : ∀ d : Daemon, ({ d with stop } : Daemon).tellClient (.error code message) =
      { d.tellClient (.error code message) with stop } := by
    intro d
    unfold tellClient
    dsimp only
    split <;> rfl
  have dropped : ∀ d : Daemon, ({ d with stop } : Daemon).dropClient .refused =
      { d.dropClient .refused with stop } := by
    intro d
    unfold dropClient
    dsimp only
    split
    · rfl
    · rw [← detached]
  rw [reject, told, dropped]
  rfl

theorem startSession_moves (d : Daemon) (hello : Hello) (win : d.win = hello.win)
    (reset : d.appliedWin = none) (first : d.pty = none) (running : d.stop = none) :
    Moves may d (d.startSession hello) := by
  obtain ⟨agent, world, fresh, quiet, bound⟩ := d.bindAgent_shape hello
  have drawn := quiet.trans world.draw_quiet
  unfold startSession Pty.spawn
  dsimp only
  rw [bound]
  split
  · rename_i eq
    split at eq
    · cases eq
      rw [← win]
      exact .single (.spawn first running fresh drawn reset)
    · cases eq
  · rename_i eq
    split at eq
    · cases eq
    · cases eq
      rw [← reject_stop]
      exact .head (.cannotSpawn _ first running fresh drawn)
        (reject_moves _ .internal "failed to start the session shell")

theorem onHello_moves (d : Daemon) (hello : Hello) (running : d.stop = none)
    (greeted : d.GreetedBy hello) : Moves may d (d.onHello hello) := by
  refine .head (.hello hello) ?_
  unfold onHello
  dsimp only
  split
  · rename_i present
    exact .single (.greet hello greeted present)
  · rename_i first
    rw [Bool.not_eq_true, Option.isSome_eq_false_iff, Option.isNone_iff_eq_none] at first
    have started : Moves may _ _ := startSession_moves { d with win := hello.win, appliedWin := none }
      hello rfl rfl first running
    have still := startSession_greetedBy
      (d := { d with win := hello.win, appliedWin := none }) greeted
    split
    · rename_i present
      exact started.trans (.single (.greet hello still present))
    · exact started

theorem promote_moves (attaches : may .attach) (d : Daemon) (hello : Hello)
    (running : d.stop = none) : Moves may d (d.promote hello) := by
  have work := d.evict_work
  have gone := d.evict_client
  unfold promote
  dsimp only
  refine (evict_moves d).trans ?_
  split
  · exact .refl
  · rename_i conn deadline waiting
    have greeted : Moves may _ _ := onHello_moves { d.evict with
      client := some (.greeting conn), pending := none
      world := d.evict.world.log (.attached conn.id hello) } hello (work.stop.trans running) (by
        intro client here
        cases here
        exact ⟨rfl, latestGreeting_attached ..⟩)
    exact .head (.attach hello waiting gone attaches) (greeted.trans (readClient_moves _))

theorem takeOver_moves (attaches : may .attach) (d : Daemon) (hello : Hello)
    (running : d.stop = none) : Moves may d (d.takeOver hello) := by
  have drained : Moves may d d.finalDrain := Moves.doIf .refl _ _ fun _ => readClient_moves d
  have same : d.finalDrain.stop = d.stop := (doIf_work d.readClient_work).stop
  unfold takeOver
  dsimp only
  refine drained.trans ?_
  split
  · exact rejectPending_moves ..
  · exact promote_moves attaches _ hello (same.trans running)

theorem readPending_moves (attaches : may .attach) (d : Daemon) (running : d.stop = none) :
    Moves may d d.readPending := by
  unfold readPending
  split
  · exact .refl
  · rename_i conn deadline waiting
    have filled : Move may d _ := .fillPending waiting
    split
    · rename_i eq
      rw [eq] at filled
      exact .head filled (dropPending_moves ..)
    · rename_i eq
      rw [eq] at filled
      refine .head filled ?_
      split
      · dsimp only
        split
        · exact dropPending_moves ..
        · exact .refl
      · exact rejectPending_moves ..
      · rename_i whole
        refine .head (.takePending rfl whole) ?_
        dsimp only
        split
        · exact rejectPending_moves ..
        · split
          · split
            · exact rejectPending_moves ..
            · exact takeOver_moves attaches _ _ running
          · exact rejectPending_moves ..

theorem accept_moves (d : Daemon) (free : d.pending = none) : Moves may d d.accept := by
  have asked := d.world.retry_quiet (·.accept)
  unfold accept
  split
  · rename_i eq
    rw [eq] at asked
    split
    · exact Moves.quiet d asked
    · split
      · have same : Moves may d _ := Moves.quiet d asked
        rw [show d = { d with pending := none } from by rw [← free]] at same ⊢
        exact same
      · exact .single (.accept _ (asked.trans (World.clock_quiet _)) free)
  · rename_i eq
    rw [eq] at asked
    exact Moves.quiet d asked
  · rename_i eq
    rw [eq] at asked
    exact .single (.quiet d.stop d.childSignalled _ d.agentAcceptRetry
      (asked.trans (World.clock_quiet _)) id)

/-! ## The terminal and the pump -/

theorem readPty_moves (d : Daemon) : Moves may d d.readPty := by
  have asked := d.world.readOrEof_quiet readBufLen
  unfold readPty
  split
  · exact .refl
  · rename_i present
    split
    · rename_i eq
      rw [eq] at asked
      exact .single (.output asked (by simp [present]))
    · rename_i eq
      rw [eq] at asked
      exact (Moves.quiet d asked).tail (.closed (by simp [present]))
    · rename_i eq
      rw [eq] at asked
      exact Moves.quiet d asked
    · rename_i eq
      rw [eq] at asked
      refine (Moves.quiet d asked).trans ((reject_moves _ .internal "terminal read failed").trans ?_)
      refine .single (.quiet _ _ _ _ (.refl _) fun _ => ?_)
      simp

theorem sendChunks_moves (parts : List Bytes) (fits : ∀ part ∈ parts, part.length ≤ maxOutputData)
    {d : Daemon} {client : Attached} (attached : d.client = some client) :
    Moves may d { d with
      client := some { client with
        conn := (Conn.sendChunks parts client.sentThrough client.conn d.world).2.1
        sentThrough := (Conn.sendChunks parts client.sentThrough client.conn d.world).1 }
      world := (Conn.sendChunks parts client.sentThrough client.conn d.world).2.2 } := by
  induction parts generalizing d client with
  | nil =>
      rw [Conn.sendChunks]
      rw [← attached]
  | cons part parts ih =>
      rw [Conn.sendChunks]
      split
      · rw [← attached]
      · rename_i room
        have sent : Move may d _ := .chunk attached (Nat.not_le.1 room) (fits part (List.mem_cons_self ..))
        split
        · rename_i eq
          rw [eq] at sent
          exact .single sent
        · rename_i c w eq
          rw [eq] at sent
          have rest := ih (fun part inside => fits part (List.mem_cons_of_mem _ inside))
            (d := { d with
              client := some { client with conn := c, sentThrough := client.sentThrough + part.length }
              world := w }) rfl
          exact .head sent rest

theorem sendParts_moves (parts : List Bytes) {d : Daemon} {client : Attached}
    (attached : d.client = some client) :
    Moves may d { d with
      client := some (sendParts parts client d.world).1
      world := (sendParts parts client d.world).2 } := by
  induction parts generalizing d client with
  | nil =>
      rw [sendParts]
      rw [← attached]
  | cons part parts ih =>
      have fits : ∀ piece ∈ History.chunks maxOutputData part, piece.length ≤ maxOutputData :=
        fun piece inside => (History.mem_chunks (by decide) inside).2
      have sent : Moves may d _ := sendChunks_moves _ fits attached
      rw [sendParts]
      split
      · exact ih attached
      · dsimp only [Conn.sendOutput]
        split
        · exact sent
        · refine sent.trans ?_
          exact ih (d := { d with
            client := some { client with
              conn := (Conn.sendChunks _ client.sentThrough client.conn d.world).2.1
              sentThrough := (Conn.sendChunks _ client.sentThrough client.conn d.world).1 }
            world := (Conn.sendChunks _ client.sentThrough client.conn d.world).2.2 }) rfl

theorem replay_moves {d : Daemon} {client : Attached} (attached : d.client = some client) :
    Moves may d { d with
      client := some (replay d.ring client d.world).1
      world := (replay d.ring client d.world).2 } := by
  have reported : client.conn.queued < maxPendingWrite → Moves may d { d with
      client := some (reportGap d.ring client d.world).1
      world := (reportGap d.ring client d.world).2 } := by
    intro room
    unfold reportGap
    split
    · rename_i behind
      exact .single (.gap attached room behind)
    · rw [← attached]
  unfold replay
  split
  · rename_i owed
    simp only [Bool.and_eq_true, decide_eq_true_eq] at owed
    refine (reported owed.1).trans ?_
    dsimp only
    refine (Moves.quiet _ (World.draw_quiet _)).trans ?_
    exact sendParts_moves _ (d := { d with
      client := some (reportGap d.ring client d.world).1
      world := (reportGap d.ring client d.world).2.draw.2 }) rfl
  · rw [← attached]

def pumped (d : Daemon) : Daemon :=
  match d.client with
  | none => d
  | some client =>
      match replay d.ring client d.world with
      | (client, world) =>
          match sendExit d.ring d.terminalEnd client world with
          | (client, world) => { d with client := some client, world }

theorem pumpOutput_eq (d : Daemon) : d.pumpOutput = d.pumped.repaintIfDue := by
  unfold pumpOutput pumped
  cases attached : d.client with
  | none =>
      unfold repaintIfDue
      rw [attached]
      rfl
  | some client => rfl

theorem pumped_moves (d : Daemon) : Moves may d d.pumped := by
  unfold pumped
  split
  · exact .refl
  · rename_i client attached
    exact (replay_moves attached).tail (.exit rfl)

theorem pumpOutput_moves (repaints : may .repaint) (d : Daemon) : Moves may d d.pumpOutput := by
  rw [pumpOutput_eq]
  exact (pumped_moves d).tail (.repaint repaints)

theorem writeClient_moves (d : Daemon) : Moves may d d.writeClient := by
  unfold writeClient
  split
  · exact .refl
  · rename_i client attached
    refine .head (.flush attached) ?_
    dsimp only
    split
    · exact dropClient_moves ..
    · split
      · exact dropClient_moves ..
      · split
        · exact dropClient_moves ..
        · exact .refl

/-! ## The loop -/

theorem stopReason_moves (d : Daemon) : Moves may d d.stopReason.2 := by
  unfold stopReason
  split
  · exact .refl
  · split
    · exact .refl
    · exact Moves.quiet d d.world.clock_quiet

theorem expire_moves (d : Daemon) : Moves may d d.expire := by
  rw [expire_eq]
  refine Relation.ReflTransGen.tail ?_ (.expireAgent _)
  have timers : Move may d { d with
      world := d.world.clock.2
      acceptRetry := d.acceptRetry.filter (d.world.clock.1 < ·)
      agentAcceptRetry := d.agentAcceptRetry.filter (d.world.clock.1 < ·) } :=
    .quiet d.stop d.childSignalled _ _ d.world.clock_quiet id
  refine .head timers ?_
  split
  · exact dropPending_moves ..
  · exact .refl

theorem readSession_moves (d : Daemon) (ready : Source → PollFlags) :
    Moves may d (d.readSession ready) := by
  have drained : Moves may d (d.doIf (ready .pty).readable readPty) :=
    Moves.doIf .refl _ _ fun _ => readPty_moves d
  have read := drained.doIf
    ((ready .client).readable || (d.doIf (ready .pty).readable readPty).inputBacklog) readClient
    fun _ => readClient_moves _
  exact read.doIf _ (dropClient · .hangup) fun _ => dropClient_moves ..

theorem serviceAgent_moves (d : Daemon) (ready : Source → PollFlags) :
    Moves may d (d.serviceAgent ready) := by
  have serviced : Moves may d (d.doIf (!(ready .agentChannel).isEmpty)
      (serviceAgentChannel · (ready .agentChannel))) :=
    Moves.doIf .refl _ _ fun _ => .single (.serviceAgent _)
  exact serviced.doIf _ acceptAgent fun _ => .single .acceptAgent

/-- `settlePass` up to where it pumps. -/
def settled (d : Daemon) : Daemon :=
  let d := d.applyWin.writePty
  (d.doIf d.inputBacklog readClient).collectOutcome

theorem settled_moves (d : Daemon) : Moves may d d.settled := by
  have written : Moves may d d.applyWin.writePty := .tail (.single .applyWin) .writePty
  have read := written.doIf d.applyWin.writePty.inputBacklog readClient fun _ => readClient_moves _
  exact read.tail .collect

end Daemon
end Nomux
