import Nomux.Daemon.Basic

/-!
# The session daemon: one pass of the event loop

The rest of `daemon.rs`: greetings, the terminal, the pump, and the order in which `poll_once` does
things.
-/

namespace Nomux
open Wire World
namespace Daemon

/-! ## Greetings -/

/-- The first half of `start_session`: the agent socket, if the `Hello` asks for one. -/
def bindAgent (d : Daemon) (hello : Hello) : Daemon :=
  if hello.agentForward then
    match Agent.bind d.world with
    | (some agent, world) => { d with agent := some agent, world }
    | (none, world) => { d with world }
  else d

def startSession (d : Daemon) (hello : Hello) : Daemon :=
  let d := d.bindAgent hello
  match Pty.spawn hello.win d.world with
  | (some pty, world) => { d with pty := some pty, world }
  | (none, world) =>
      { ({ d with world } : Daemon).reject .internal "failed to start the session shell" with
        stop := some "exiting: the session shell could not be started" }

/-- Where a client that asked for `outOffset` resumes. -/
def resumeFrom (d : Daemon) (outOffset : UInt64) : Nat :=
  if outOffset = resumeFromStart then d.ring.base
  else max (min outOffset.toNat d.ring.end) d.ring.base

/-- The second half of `on_hello`: the connection's resume point and its `HelloOk`. -/
def greet (d : Daemon) (hello : Hello) : Daemon :=
  let resumeFrom := d.resumeFrom hello.outOffset
  let ok : HelloOk :=
    { resumeFrom := UInt64.ofNat resumeFrom
      inApplied := UInt64.ofNat d.inApplied
      agent := d.agent.isSome }
  let gap := ok.gap hello.outOffset
  match d.client with
  | none => d
  | some client =>
      ({ d with
        client := some
          { client with
            sentThrough := resumeFrom, repaintCtrlL := hello.repaintCtrlL, repaintDue := gap }
        world := d.world.log (.resumed client.conn.id resumeFrom) } : Daemon).tellClient (.helloOk ok)

def onHello (d : Daemon) (hello : Hello) : Daemon :=
  let d := { d with win := hello.win, appliedWin := none }
  if d.pty.isSome then d.greet hello
  else
    let d := d.startSession hello
    if d.pty.isSome then d.greet hello else d

/-- The end of `read_pending`: the pending connection takes the session. -/
def promote (d : Daemon) (hello : Hello) : Daemon :=
  let d := d.evict
  match d.pending with
  | none => d
  | some (conn, _) =>
      (({ d with
        client := some (.greeting conn), pending := none
        world := d.world.log (.attached conn.id hello) } : Daemon).onHello hello).readClient

def finalDrain (d : Daemon) : Daemon := d.doIf d.client.isSome readClient

/-- `read_pending` once it has a current `Hello` in hand. -/
def takeOver (d : Daemon) (hello : Hello) : Daemon :=
  let d := d.finalDrain
  if hello.ifDetached && d.client.isSome then
    d.rejectPending .alreadyAttached "another client is already attached"
  else d.promote hello

def readPending (d : Daemon) : Daemon :=
  match d.pending with
  | none => d
  | some (pending, deadline) =>
      match pending.fill readBufLen d.world with
      | (.error _, pending, world) =>
          ({ d with pending := some (pending, deadline), world } : Daemon).dropPending .failed
      | (.ok (), pending, world) =>
          match pending.takeFrame with
          | (.ok none, _) =>
              let d := { d with pending := some (pending, deadline), world }
              if pending.eof then d.dropPending .probe else d
          | (.error _, _) =>
              ({ d with pending := some (pending, deadline), world } : Daemon).rejectPending
                .protocol "unparseable frame header"
          | (.ok (some (ty, payload)), pending) =>
              let d := { d with pending := some (pending, deadline), world }
              if ty ≠ .hello then
                d.rejectPending .protocol "first frame from a client must be Hello"
              else
                match Frame.decode ty payload with
                | .ok (.hello hello) =>
                    if hello.protocol ≠ protocolVersion then
                      d.rejectPending .version "protocol version mismatch"
                    else d.takeOver hello
                | _ => d.rejectPending .protocol "unparseable Hello"

def accept (d : Daemon) : Daemon :=
  match d.world.retry (·.accept) with
  | (.ok peer, world) =>
      if !peer.ours then { d with world }
      else if !peer.nonblocking then { d with world, pending := none }
      else
        match world.clock with
        | (now, world) =>
            let conn : Conn := { id := world.nextConn }
            let world := { world with nextConn := world.nextConn + 1 }
            { d with
              world := world.log (.accepted conn.id)
              pending := some (conn, now + pendingHelloTimeout) }
  | (.error .again, world) => { d with world }
  | (.error _, world) =>
      match world.clock with
      | (now, world) => { d with world, acceptRetry := some (now + acceptBackoff) }

/-! ## The terminal -/

def onTerminalClosed (d : Daemon) : Daemon :=
  match d.terminalClosedAt with
  | some _ => { d with pendingInput := [] }
  | none =>
      match d.world.clock with
      | (now, world) =>
          { d with
            terminalClosedAt := some now, pendingInput := []
            world := world.log (.terminalClosed now) }

def readPty (d : Daemon) : Daemon :=
  match d.pty with
  | none => d
  | some _ =>
      match d.world.readOrEof readBufLen with
      | (.data bytes, world) =>
          { d with ring := d.ring.push bytes, world := world.log (.output bytes) }
      | (.eof, world) => ({ d with world } : Daemon).onTerminalClosed
      | (.wouldBlock, world) => { d with world }
      | (.failed _, world) =>
          let d := ({ d with world } : Daemon).reject .internal "terminal read failed"
          { d with stop := d.stop.or (some "exiting: the terminal failed") }

def writePty (d : Daemon) : Daemon :=
  match d.pty with
  | none => d
  | some _ =>
      match d.world.drainTo d.pendingInput with
      | (drained, world) =>
          if drained.failed then { d with pendingInput := [], world := world.log .masterFailed }
          else
            { d with
              pendingInput := drained.queue, world := world.log (.masterWrote drained.written) }

def applyWin (d : Daemon) : Daemon :=
  if d.appliedWin = some d.win then d
  else
    match d.pty with
    | none => d
    | some _ =>
        match Pty.resize d.win d.world with
        | (taken, world) => { d with world, appliedWin := if taken then some d.win else none }

def repaint (d : Daemon) : Bool × Daemon :=
  if d.terminalClosedAt.isSome then (true, d)
  else if d.client.any (·.repaintCtrlL) then
    if d.inputIsSaturated then (false, d)
    else
      (true, { d with pendingInput := d.pendingInput ++ [0x0c], world := d.world.log .repaintQueued })
  else
    match d.pty with
    | none => (true, d)
    | some _ =>
        match Pty.nudgeRepaint d.win d.world with
        | (true, world) => (true, { d with world })
        | (false, world) => (true, { d with world, appliedWin := none })

/-! ## The outcome -/

def worthAWaitpid (d : Daemon) : Bool :=
  d.childSignalled ||
    (d.terminalClosedAt.isSome && (d.outcome.isNone || d.pty.any (·.needsObservation)))

def settle (d : Daemon) (outcome : Int32 × ExitKind) (settled : Settled) : Daemon :=
  { d with outcome := some outcome, world := d.world.log (.outcome outcome settled) }

/-- The first half of `collect_outcome`: what `waitid` had to say. -/
def observe (d : Daemon) : Option (Int32 × ExitKind) × Daemon :=
  if d.worthAWaitpid then
    match d.pty with
    | none => (none, d)
    | some pty =>
        match pty.tryOutcome d.world with
        | (.ok outcome, pty, world) => (outcome, { d with pty := some pty, world })
        | (.error _, pty, world) =>
            let d := { d with pty := some pty, world }
            if d.terminalClosedAt.isSome then (none, d.settle (0, .unknown) .waitFailed) else (none, d)
  else (none, d)

def collectOutcome (d : Daemon) : Daemon :=
  match d.observe with
  | (observed, d) =>
      let d := { d with childSignalled := false }
      if d.outcome.isSome then d
      else
        match observed with
        | some outcome => d.settle outcome .reported
        | none =>
            match d.terminalClosedAt with
            | none => d
            | some closedAt =>
                match d.world.clock with
                | (now, world) =>
                    let d := { d with world }
                    if outcomeGrace ≤ now - closedAt then
                      d.settle (0, .unknown) (.graceElapsed now)
                    else d

/-! ## The pump -/

def sendParts : List Bytes → Attached → World → Attached × World
  | [], client, w => (client, w)
  | part :: parts, client, w =>
      if part.isEmpty then sendParts parts client w
      else
        let want := client.sentThrough + part.length
        match client.conn.sendOutput client.sentThrough part w with
        | (sentThrough, conn, w) =>
            let client := { client with conn, sentThrough }
            if sentThrough ≠ want then (client, w) else sendParts parts client w

/-- The gap, where the ring has moved past this client. -/
def reportGap (ring : Ring) (client : Attached) (w : World) : Attached × World :=
  if client.sentThrough < ring.base then
    match client.conn.send (.gap (UInt64.ofNat ring.base)) w with
    | (_, conn, w) => ({ client with conn, sentThrough := ring.base, repaintDue := true }, w)
  else (client, w)

/-- The first part of `pump_output`: what the ring still owes this client, as far as its queue has
room. -/
def replay (ring : Ring) (client : Attached) (w : World) : Attached × World :=
  if client.conn.queued < maxPendingWrite && client.sentThrough < ring.end then
    match reportGap ring client w with
    | (client, w) =>
        match w.draw with
        | (answer, w) =>
            let parts := ring.slicesFrom answer.wrap client.sentThrough
            sendParts [parts.1, parts.2] client w
  else (client, w)

/-- The second: the `Exit` behind a complete transcript. -/
def sendExit (ring : Ring) (terminalEnd : Option (Nat × (Int32 × ExitKind))) (client : Attached)
    (w : World) : Attached × World :=
  if !client.terminalEndSent && ring.end ≤ client.sentThrough then
    match terminalEnd with
    | none => (client, w)
    | some (closedAt, (status, kind)) =>
        match w.clock with
        | (now, w) =>
            let secs := u32OfUsize ((now - closedAt) / 1000000000)
            match client.conn.send (.exit status kind secs) w with
            | (_, conn, w) => ({ client with conn, terminalEndSent := true }, w)
  else (client, w)

def terminalEnd (d : Daemon) : Option (Nat × (Int32 × ExitKind)) :=
  match d.terminalClosedAt, d.outcome with
  | some closedAt, some outcome => some (closedAt, outcome)
  | _, _ => none

/-- The last: one repaint for the gaps since the client last held the whole ring. -/
def repaintIfDue (d : Daemon) : Daemon :=
  if d.client.any fun client => client.repaintDue && d.ring.end ≤ client.sentThrough then
    match d.repaint with
    | (true, d) => { d with client := d.client.map fun client => { client with repaintDue := false } }
    | (false, d) => d
  else d

def pumpOutput (d : Daemon) : Daemon :=
  match d.client with
  | none => d
  | some client =>
      match replay d.ring client d.world with
      | (client, world) =>
          match sendExit d.ring d.terminalEnd client world with
          | (client, world) => ({ d with client := some client, world } : Daemon).repaintIfDue

def writeClient (d : Daemon) : Daemon :=
  match d.client with
  | none => d
  | some client =>
      match client.conn.flushSome d.world with
      | (result, conn, world) =>
          let d := { d with client := some { client with conn }, world }
          match result with
          | .error _ => d.dropClient .failed
          | .ok () =>
              if abandonPendingWrite ≤ conn.queued then d.dropClient .abandoned
              else if client.terminalEndSent && conn.eof && conn.queued = 0 then
                d.dropClient .finished
              else d

/-! ## The loop -/

def detachDeadline (d : Daemon) : Option Nat :=
  if d.client.isNone then
    some (d.lastDetach + if d.pty.isNone then firstAttachTimeout else idleTimeout)
  else none

def stopReason (d : Daemon) : Option String × Daemon :=
  match d.stop with
  | some reason => (some reason, d)
  | none =>
      match d.detachDeadline with
      | none => (none, d)
      | some deadline =>
          match d.world.clock with
          | (now, world) =>
              (if deadline ≤ now then
                some (if d.pty.isNone then "exiting: no client ever attached"
                  else "exiting: idle with no client")
              else none, { d with world })

/-- What to ask `poll` about a source, or `none` where it is not in the set. -/
def watchFor (d : Daemon) : Source → Option PollFlags
  | .listener =>
      if d.acceptRetry.isNone && d.pending.isNone then some { input := true } else none
  | .stop => some { input := true }
  | .child => some { input := true }
  | .pty =>
      if d.pty.isSome && d.terminalClosedAt.isNone then
        some { input := true, output := !d.pendingInput.isEmpty }
      else none
  | .client =>
      d.client.map fun client =>
        { input := !(d.inputIsSaturated || client.conn.eof)
          output := 0 < client.conn.queued || client.sentThrough < d.ring.end }
  | .pending => d.pending.map fun _ => { input := true }
  | .agentListener =>
      if d.agentAcceptRetry.isNone && d.agent.any (!·.isServing) then some { input := true }
      else none
  | .agentChannel =>
      match d.agent.bind Agent.watch with
      | none => none
      | some (wantsWrite, wantsRead) =>
          let saturated := d.client.any fun client => maxPendingWrite ≤ client.conn.queued
          let flags : PollFlags :=
            { input := !(saturated || !wantsRead), output := wantsWrite }
          if flags.isEmpty then none else some flags

/-- `remaining`, before the deadlines: how long until the daemon would stop. -/
def untilDetached (d : Daemon) : Nat × World :=
  match d.detachDeadline with
  | none => (idleTick, d.world)
  | some deadline =>
      match d.world.clock with
      | (now, world) => (min (deadline - now) idleTick, world)

/-- The master has not taken the size the client last asked for. -/
def resizeIsOwed (d : Daemon) : Bool :=
  d.pty.isSome && d.client.isSome && d.terminalClosedAt.isNone && d.appliedWin ≠ some d.win

def resizeDeadline (d : Daemon) (world : World) : Option Nat × World :=
  if d.resizeIsOwed then
    match world.clock with
    | (now, world) => (some (now + resizeRetry), world)
  else (none, world)

def outcomeDeadline (d : Daemon) : Option Nat :=
  if d.outcome.isNone then d.terminalClosedAt.map (· + outcomeGrace) else none

def deadlines (d : Daemon) (resize : Option Nat) : List Nat :=
  [d.acceptRetry, d.agentAcceptRetry, d.pending.map (·.2), d.agent.bind Agent.deadline,
    d.outcomeDeadline, resize].reduceOption

/-- How long `poll` may sleep, in nanoseconds. -/
def pollTimeout (d : Daemon) : Nat × Daemon :=
  match d.untilDetached with
  | (remaining, world) =>
      match d.resizeDeadline world with
      | (resize, world) =>
          match (d.deadlines resize).min? with
          | none => (remaining, { d with world })
          | some deadline =>
              match world.clock with
              | (now, world) => (min remaining (deadline - now), { d with world })

/-- The events `poll` may report: those asked for, and the three it always does. -/
def revents (watched : Option PollFlags) (answer : PollFlags) : PollFlags :=
  match watched with
  | none => {}
  | some flags =>
      { answer with input := answer.input && flags.input, output := answer.output && flags.output }

/-- What `wait` does about the deadline of the agent's connection. -/
def expireAgent (d : Daemon) (now : Nat) : Daemon :=
  match d.agent with
  | none => d
  | some agent =>
      match agent.closeIfIdle now d.world with
      | (some generation, agent, world) =>
          ({ d with agent := some agent, world } : Daemon).tellClient (.agentClose generation)
      | (none, agent, world) => { d with agent := some agent, world }

/-- The first half of `wait`: the deadlines that decide the poll set. -/
def expire (d : Daemon) : Daemon :=
  match d.world.clock with
  | (now, world) =>
      let d :=
        { d with
          world
          acceptRetry := d.acceptRetry.filter (now < ·)
          agentAcceptRetry := d.agentAcceptRetry.filter (now < ·) }
      let d := if d.pending.any (·.2 ≤ now) then d.dropPending .expired else d
      d.expireAgent now

theorem expire_eq (d : Daemon) :
    let timed : Daemon := { d with
      world := d.world.clock.2
      acceptRetry := d.acceptRetry.filter (d.world.clock.1 < ·)
      agentAcceptRetry := d.agentAcceptRetry.filter (d.world.clock.1 < ·) }
    d.expire = (if timed.pending.any (·.2 ≤ d.world.clock.1) then timed.dropPending .expired
      else timed).expireAgent d.world.clock.1 := rfl

def wait (d : Daemon) : Except Errno (Source → PollFlags) × Daemon :=
  match d.expire.pollTimeout with
  | (_, d) =>
      match d.world.draw with
      | (answer, world) =>
          let d := { d with world }
          match answer.poll with
          | .ok events => (.ok fun source => revents (d.watchFor source) (events source), d)
          | .error .intr => (.ok fun _ => {}, d)
          | .error err => (.error err, d)

def drainChildPipe : List Answer → World → World
  | [], w => { w with script := [] }
  | answer :: rest, w =>
      let w := { w with script := rest, now := w.now + answer.elapsed }
      match answer.read with
      | .error .intr => drainChildPipe rest w
      | .ok bytes => if 64 ≤ bytes.length then drainChildPipe rest w else w
      | .error _ => w

/-- The signals of a pass, at the head of `poll_once`. -/
def takeSignals (d : Daemon) (ready : Source → PollFlags) : Daemon :=
  let d := d.doIf (ready .stop).readable fun d =>
    { d with stop := d.stop.or (some "exiting: signalled") }
  d.doIf (ready .child).readable fun d =>
    { d with childSignalled := true, world := drainChildPipe d.world.script d.world }

/-- The part of `poll_once` that reads the terminal and the client. -/
def readSession (d : Daemon) (ready : Source → PollFlags) : Daemon :=
  let d := d.doIf (ready .pty).readable readPty
  let d := d.doIf ((ready .client).readable || d.inputBacklog) readClient
  d.doIf ((ready .client).hup || (ready .client).err) (dropClient · .hangup)

/-- The part that takes what arrives, unless the session is ending. -/
def takeArrivals (d : Daemon) (ready : Source → PollFlags) : Daemon :=
  d.doIf d.stop.isNone fun d =>
    (d.doIf (ready .pending).readable readPending).doIf (ready .listener).readable accept

def serviceAgent (d : Daemon) (ready : Source → PollFlags) : Daemon :=
  let d := d.doIf (!(ready .agentChannel).isEmpty) (serviceAgentChannel · (ready .agentChannel))
  d.doIf (d.stop.isNone && (ready .agentListener).readable) acceptAgent

/-- The rest of the pass, whatever `poll` reported. -/
def settlePass (d : Daemon) : Daemon :=
  let d := d.applyWin.writePty
  let d := d.doIf d.inputBacklog readClient
  d.collectOutcome.pumpOutput.writeClient

def pollOnce (d : Daemon) (ready : Source → PollFlags) : Daemon :=
  ((((d.takeSignals ready).readSession ready).takeArrivals ready).serviceAgent ready).settlePass

/-- One round of `event_loop`; an error is the loop having returned. -/
def pass (d : Daemon) : Except Daemon Daemon :=
  match d.stopReason with
  | (some _, d) => .error d
  | (none, d) =>
      match d.wait with
      | (.error _, d) => .error d
      | (.ok ready, d) => .ok (d.pollOnce ready)

/-- `shutdown`, as far as the session's connections go. -/
def shutdown (d : Daemon) : Daemon :=
  let d :=
    match d.client with
    | none => d
    | some client =>
        let world := client.conn.closeWith none d.world
        ({ d with client := none, world := world.log (.left client.conn.id .shutdown) } :
          Daemon).onDetached
  { d.dropPending .shutdown with pty := none }

def start (ring : Ring) (script : List Answer) (now : Nat) : Daemon :=
  { world := { script, now }, ring, lastDetach := now }

/-- The states a session of the given ring capacity can be in between two passes. -/
inductive Reachable (capacity : Nat) : Daemon → Prop
  | start {ring : Ring} (script : List Answer) (now : Nat)
      (reserved : Ring.tryNew true capacity = some ring) : Reachable capacity (start ring script now)
  | pass {d d' : Daemon} (before : Reachable capacity d) (next : d.pass = .ok d') :
      Reachable capacity d'

/-- Those states, and the two a session ends in. -/
inductive Occurs (capacity : Nat) : Daemon → Prop
  | running {d : Daemon} (reachable : Reachable capacity d) : Occurs capacity d
  | returned {d d' : Daemon} (before : Reachable capacity d) (next : d.pass = .error d') :
      Occurs capacity d'
  | shutDown {d d' : Daemon} (before : Reachable capacity d) (next : d.pass = .error d') :
      Occurs capacity d'.shutdown

end Daemon
end Nomux
