import Nomux.Lib.Program
import Nomux.World

/-!
# The attach relay

`relay` of `attach.rs`, call by call: the two pumps, the descriptors it polls, and one pass of its
loop. The blocking writes of the stdout worker are behind its channel and not modelled.
-/

namespace Nomux.Relay
open Program

inductive Fd
  | stdin
  | socket
  | stdout
  deriving DecidableEq

inductive Errno
  | again
  | intr
  | io
  | connReset
  | notConn
  | pipe
  | other (n : Nat)
  deriving DecidableEq

def RELAY_CHUNK : Nat := 16 * 1024

/-- What one `read` into the buffer of a pump can answer. -/
abbrev Chunk := { bytes : Bytes // bytes.length ≤ RELAY_CHUNK }

structure PollFd where
  fd : Fd
  flags : PollFlags
  deriving DecidableEq

inductive Call
  | setNonblocking
  | spawnStdout
  | poll (fds : List PollFd)
  | read (fd : Fd)
  | write (fd : Fd) (bytes : Bytes)
  | shutdownWrite
  | finishStdout

/-- `poll` answers with the `revents` of its slots, in their order. -/
@[reducible] def Reply : Call → Type
  | .poll _ => Except Errno (List PollFlags)
  | .read _ => Except Errno Chunk
  | .write _ _ => Except Errno Nat
  | .setNonblocking | .spawnStdout | .shutdownWrite | .finishStdout => Except Errno Unit

/-- Why the relay is left before its end. A loop is followed for as many rounds as there is fuel. -/
inductive Halt
  | failed (e : Errno)
  | writeZero
  | unfinished
  deriving DecidableEq

abbrev Run := ExceptT Halt (Program Reply)

def sys (c : Call) : Run (Reply c) := ExceptT.lift (ask c)

/-- `?` -/
def check {α : Type} : Except Errno α → Run α
  | .ok value => pure value
  | .error e => throw (.failed e)

/-- `buf` is what the last read put into the buffer, up to `len`. -/
structure Pump where
  buf : Bytes
  pos : Nat
  fits : buf.length ≤ RELAY_CHUNK
  within : pos ≤ buf.length

namespace Pump

instance : Inhabited Pump := ⟨⟨[], 0, Nat.zero_le _, le_rfl⟩⟩

def owed (p : Pump) : Nat := p.buf.length - p.pos

def hasData (p : Pump) : Bool := p.owed ≠ 0

def pending (p : Pump) : Bytes := p.buf.drop p.pos

def fill (chunk : Chunk) : Pump := ⟨chunk.1, 0, chunk.2, Nat.zero_le _⟩

def advance (p : Pump) (n : Nat) : Pump :=
  { p with pos := min p.buf.length (p.pos + n), within := Nat.min_le_left _ _ }

def forfeit (p : Pump) : Pump := { p with pos := p.buf.length, within := le_rfl }

end Pump

def nbioRead (fd : Fd) : (fuel : Nat) → Run (Except Errno Chunk)
  | 0 => throw .unfinished
  | fuel + 1 => do
      match ← sys (.read fd) with
      | .error .intr => nbioRead fd fuel
      | outcome => pure outcome

def writeOnce (fd : Fd) (bytes : Bytes) : (fuel : Nat) → Run (Except Errno Nat)
  | 0 => throw .unfinished
  | fuel + 1 => do
      match ← sys (.write fd bytes) with
      | .error .intr => writeOnce fd bytes fuel
      | outcome => pure outcome

/-- `false` means that the source has ended. -/
def Pump.fillFrom (p : Pump) (src : Fd) (fuel : Nat) : Run (Pump × Bool) := do
  match ← nbioRead src fuel with
  | .ok chunk => pure (if chunk.1 = [] then (p, false) else (.fill chunk, true))
  | .error .io | .error .connReset | .error .notConn => pure (p, false)
  | .error .again => pure (p, true)
  | .error e => throw (.failed e)

/-- `false` means that the destination has stopped reading. -/
def Pump.drainTo (p : Pump) (fd : Fd) (fuel : Nat) : Run (Pump × Bool) :=
  if p.hasData then do
    match ← writeOnce fd p.pending fuel with
    | .ok 0 => throw .writeZero
    | .ok n => pure (p.advance n, true)
    | .error .again => pure (p, true)
    | .error .pipe => pure (p.forfeit, false)
    | .error e => throw (.failed e)
  else
    pure (p, true)

structure State where
  toSocket : Pump := default
  toStdout : Pump := default
  stdinOpen : Bool := true
  socketOpen : Bool := true
  stdoutOpen : Bool := true

namespace State

def stdinFlags (s : State) : PollFlags := { input := s.stdinOpen && !s.toSocket.hasData }

def socketFlags (s : State) : PollFlags :=
  { input := s.socketOpen && !s.toStdout.hasData, output := s.toSocket.hasData }

def stdoutFlags (s : State) : PollFlags := { output := s.toStdout.hasData }

/-- The slots that are filled: an empty mask is left out, but for stdout's. -/
def watched (s : State) : List PollFd :=
  ([(.stdin, s.stdinFlags, false), (.socket, s.socketFlags, false), (.stdout, s.stdoutFlags, true)]
    : List (Fd × PollFlags × Bool)).filterMap fun (fd, flags, alwaysWatch) =>
      if alwaysWatch || !flags.isEmpty then some ⟨fd, flags⟩ else none

def running (s : State) : Bool := s.stdoutOpen && (s.socketOpen || s.toStdout.hasData)

end State

/-- The next of the events that came back, for a descriptor that was registered. -/
def revents (registered : Bool) (events : List PollFlags) : PollFlags × List PollFlags :=
  if registered then (events.headD {}, events.tail) else ({}, events)

def spinning (events : PollFlags) (pump : Pump) : Bool := events.err && !pump.hasData

def serviceStdin (s : State) (events : PollFlags) (fuel : Nat) : Run State :=
  if events.readable then
    if events.nval then closeStdin s
    else do
      let (toSocket, alive) ← s.toSocket.fillFrom .stdin fuel
      let s := { s with toSocket }
      if !alive || spinning events s.toSocket then closeStdin s else pure s
  else
    pure s
where
  closeStdin (s : State) : Run State := do
    let _ ← sys .shutdownWrite
    pure { s with stdinOpen := false }

def serviceSocket (s : State) (events : PollFlags) (fuel : Nat) : Run State :=
  if events.readable && !s.toStdout.hasData then do
    let (toStdout, alive) ← s.toStdout.fillFrom .socket fuel
    let s := { s with toStdout }
    if !alive || spinning events s.toStdout then pure { s with socketOpen := false } else pure s
  else
    pure s

def drainUpload (s : State) (events : PollFlags) (fuel : Nat) : Run State :=
  if events.output || s.toSocket.hasData then do
    let (toSocket, alive) ← s.toSocket.drainTo .socket fuel
    pure (if alive then { s with toSocket } else { s with toSocket, stdinOpen := false })
  else
    pure s

def PollFlags.gone (events : PollFlags) : Bool := events.err || events.hup || events.nval

def serviceStdout (s : State) (events : PollFlags) (fuel : Nat) : Run State :=
  if PollFlags.gone events then
    pure { s with stdoutOpen := false }
  else if events.output then do
    let (toStdout, stdoutOpen) ← s.toStdout.drainTo .stdout fuel
    pure { s with toStdout, stdoutOpen }
  else
    pure s

/-- The events are taken back by the masks they were registered with. -/
def service (s : State) (events : List PollFlags) (fuel : Nat) : Run State := do
  let (stdinEvents, events) := revents (!s.stdinFlags.isEmpty) events
  let (socketEvents, events) := revents (!s.socketFlags.isEmpty) events
  let (stdoutEvents, _) := revents true events
  let s ← serviceStdin s stdinEvents fuel
  let s ← serviceSocket s socketEvents fuel
  let s ← drainUpload s socketEvents fuel
  serviceStdout s stdoutEvents fuel

def pass (s : State) (fuel : Nat) : Run State := do
  match ← sys (.poll s.watched) with
  | .ok events => service s events fuel
  | .error .intr => pure s
  | .error e => throw (.failed e)

def relayLoop (fuel : Nat) : (passes : Nat) → State → Run Unit
  | 0, s => if s.running then throw .unfinished else pure ()
  | passes + 1, s =>
      if s.running then do
        let s ← pass s fuel
        relayLoop fuel passes s
      else
        pure ()

def relay (fuel : Nat) : Run Unit := do
  check (← sys .setNonblocking)
  check (← sys .spawnStdout)
  relayLoop fuel fuel {}
  check (← sys .finishStdout)

end Nomux.Relay
