import Nomux.Ring
import Nomux.Agent
import Nomux.Pty

/-!
# The session daemon: state and client

`daemon.rs`. Counters are unbounded and cut to their width where a frame carries them; instants are
nanoseconds. Run files and logging are left out. A connection's departure is written to the trace
with its reason.
-/

namespace Nomux
open Wire World

def idleTimeout : Nat := seconds (7 * 24 * 60 * 60)

def idleTick : Nat := seconds (60 * 60)

def firstAttachTimeout : Nat := seconds 30

def acceptBackoff : Nat := millis 100

def resizeRetry : Nat := millis 100

def pendingHelloTimeout : Nat := seconds 5

def maxPendingInput : Nat := 2 ^ 20

def abandonPendingWrite : Nat := 8 * 2 ^ 20

def readBufLen : Nat := 64 * 1024

structure Attached where
  conn : Conn
  terminalEndSent : Bool := false
  sentThrough : Nat := 0
  repaintCtrlL : Bool := false
  repaintDue : Bool := false
  deriving DecidableEq, Repr

def Attached.greeting (conn : Conn) : Attached := { conn }

structure Daemon where
  world : World
  stop : Option String := none
  ring : Ring
  pty : Option Pty := none
  client : Option Attached := none
  pending : Option (Conn × Nat) := none
  agent : Option Agent := none
  inApplied : Nat := 0
  pendingInput : Bytes := []
  win : WinSize := ⟨0, 0, 0, 0⟩
  appliedWin : Option WinSize := none
  childSignalled : Bool := false
  terminalClosedAt : Option Nat := none
  outcome : Option (Int32 × ExitKind) := none
  acceptRetry : Option Nat := none
  agentAcceptRetry : Option Nat := none
  lastDetach : Nat

namespace Daemon

def doIf (d : Daemon) (cond : Bool) (f : Daemon → Daemon) : Daemon := if cond then f d else d

def inputIsSaturated (d : Daemon) : Bool := maxPendingInput ≤ d.pendingInput.length

def inputBacklog (d : Daemon) : Bool :=
  !d.inputIsSaturated && d.client.any fun client => 0 < client.conn.buffered

def tellClient (d : Daemon) (frame : Frame) : Daemon :=
  match d.client with
  | none => d
  | some client =>
      match client.conn.send frame d.world with
      | (_, conn, world) => { d with client := some { client with conn }, world }

def closeAgentChannel (d : Daemon) : Daemon :=
  match d.agent with
  | none => d
  | some agent =>
      match agent.forget d.world with
      | (none, agent, world) => { d with agent := some agent, world }
      | (some generation, agent, world) =>
          ({ d with agent := some agent, world } : Daemon).tellClient (.agentClose generation)

def acceptAgent (d : Daemon) : Daemon :=
  let serving := d.client.isSome
  match d.agent with
  | none => d
  | some agent =>
      match agent.accept serving d.world with
      | (.opened generation, agent, world) =>
          ({ d with agent := some agent, world } : Daemon).tellClient (.agentOpen generation)
      | (.failed, agent, world) =>
          match world.clock with
          | (now, world) =>
              { d with agent := some agent, world, agentAcceptRetry := some (now + acceptBackoff) }
      | (.idle, agent, world) => { d with agent := some agent, world }

/-- The second half of `service_agent_channel`. -/
def readAgentChannel (d : Daemon) (events : PollFlags) : Daemon :=
  if !events.readable then d
  else
    match d.agent with
    | none => d
    | some agent =>
        let generation := agent.generation
        match agent.read readBufLen d.world with
        | (.data bytes, agent, world) =>
            let d := { d with agent := some agent, world }
            match generation, d.client with
            | some generation, some client =>
                match client.conn.sendAgentData generation bytes d.world with
                | (conn, world) => { d with client := some { client with conn }, world }
            | _, _ => d
        | (.eof, agent, world) => ({ d with agent := some agent, world } : Daemon).closeAgentChannel
        | (.failed _, agent, world) =>
            ({ d with agent := some agent, world } : Daemon).closeAgentChannel
        | (.wouldBlock, agent, world) => { d with agent := some agent, world }

def serviceAgentChannel (d : Daemon) (events : PollFlags) : Daemon :=
  match d.agent with
  | none => d
  | some agent =>
      if events.output then
        match agent.flush d.world with
        | (.open, agent, world) =>
            ({ d with agent := some agent, world } : Daemon).readAgentChannel events
        | (.finished, agent, world) =>
            match agent.forget world with
            | (_, agent, world) => { d with agent := some agent, world }
        | (.failed, agent, world) =>
            ({ d with agent := some agent, world } : Daemon).closeAgentChannel
      else d.readAgentChannel events

def onDetached (d : Daemon) : Daemon :=
  match d.world.clock with
  | (now, world) =>
      let d := { d with world, lastDetach := now }
      match d.agent with
      | none => d
      | some agent =>
          match agent.generation with
          | none => d
          | some generation =>
              match agent.closeFromClient generation d.world with
              | (agent, world) => { d with agent := some agent, world }

def dropClient (d : Daemon) (why : Departure) : Daemon :=
  match d.client with
  | none => d
  | some client =>
      match client.conn.flushSome d.world with
      | (_, conn, world) =>
          ({ d with client := none, world := world.log (.left conn.id why) } : Daemon).onDetached

def reject (d : Daemon) (code : ErrorCode) (message : String) : Daemon :=
  (d.tellClient (.error code message)).dropClient .refused

def evict (d : Daemon) : Daemon :=
  match d.client with
  | none => d
  | some client =>
      let world := client.conn.closeWith (some (.error .takeover "another client attached")) d.world
      ({ d with client := none, world := world.log (.left client.conn.id .takeover) } :
        Daemon).onDetached

def rejectPending (d : Daemon) (code : ErrorCode) (message : String) : Daemon :=
  match d.pending with
  | none => d
  | some (pending, _) =>
      let world := pending.closeWith (some (.error code message)) d.world
      { d with pending := none, world := world.log (.left pending.id .refused) }

/-- `self.pending = None`, for the reason given. -/
def dropPending (d : Daemon) (why : Departure) : Daemon :=
  match d.pending with
  | none => d
  | some (pending, _) => { d with pending := none, world := d.world.log (.left pending.id why) }

def onInput (d : Daemon) (offset : UInt64) (data : Bytes) : Daemon :=
  let «end» := saturatingAdd offset.toNat data.length
  if d.inApplied < offset.toNat then d.reject .inputGap "input stream skipped ahead"
  else
    let d :=
      if d.inApplied < «end» then
        let kept :=
          if d.terminalClosedAt.isNone then data.drop (d.inApplied - offset.toNat) else []
        { d with
          pendingInput := d.pendingInput ++ kept
          inApplied := «end»
          world := d.world.log (.applied offset data kept) }
      else d
    d.tellClient (.inputAck (UInt64.ofNat d.inApplied))

def handleFrame (d : Daemon) (frame : Frame) : Daemon :=
  match frame with
  | .input offset data => d.onInput offset data
  | .resize win => { d with win }
  | .ping => d.tellClient .pong
  | .detach => d.dropClient .detached
  | .agentData generation data =>
      match d.agent with
      | none => d
      | some agent =>
          match agent.deliver generation data with
          | (true, agent) => { d with agent := some agent }
          | (false, agent) => ({ d with agent := some agent } : Daemon).closeAgentChannel
  | .agentClose generation =>
      match d.agent with
      | none => d
      | some agent =>
          match agent.closeFromClient generation d.world with
          | (agent, world) => { d with agent := some agent, world }
  | .hello _ => d.reject .protocol "this connection has already greeted"
  | _ => d.reject .protocol "frame is not valid from a client"

def noteFrame (d : Daemon) (conn : Nat) (frame : Frame) : Daemon :=
  { d with world := d.world.log (.handled conn frame) }

/-- The loop of `read_client`: whether it ran out of whole frames, or returned before that. Each round
consumes a frame, so one round for each unread byte is enough. -/
def decodeLoop : Nat → Daemon → Bool × Daemon
  | 0, d => (false, d)
  | rounds + 1, d =>
      if d.inputIsSaturated then (false, d)
      else
        match d.client with
        | none => (false, d)
        | some client =>
            match client.conn.takeFrame with
            | (.ok none, _) => (true, d)
            | (.error _, _) => (false, d.reject .protocol "unparseable frame header")
            | (.ok (some (ty, payload)), conn) =>
                let d := { d with client := some { client with conn } }
                match Frame.decode ty payload with
                | .error _ => (false, d.reject .protocol "unparseable frame payload")
                | .ok frame => decodeLoop rounds ((d.noteFrame conn.id frame).handleFrame frame)

/-- The end of `read_client`, behind the loop: what is left at end of file is no whole frame. -/
def refuseTruncated (d : Daemon) : Daemon :=
  if d.client.any fun client => client.conn.eof && client.conn.buffered ≠ 0 then
    d.reject .protocol "truncated frame at end of input"
  else d

def decodeFrames (d : Daemon) : Daemon :=
  match decodeLoop ((d.client.elim 0 fun client => client.conn.buffered) + 1) d with
  | (true, d) => d.refuseTruncated
  | (false, d) => d

def readClient (d : Daemon) : Daemon :=
  match d.client with
  | none => d
  | some client =>
      if client.conn.eof then d.decodeFrames
      else
        match client.conn.fill readBufLen d.world with
        | (.error _, conn, world) =>
            ({ d with client := some { client with conn }, world } : Daemon).dropClient .failed
        | (.ok (), conn, world) =>
            ({ d with client := some { client with conn }, world } : Daemon).decodeFrames

end Daemon
end Nomux
