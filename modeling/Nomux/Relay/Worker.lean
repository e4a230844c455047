import Nomux.Exec.Halves
import Nomux.Relay.Faithful

/-!
# The stdout worker

The thread that writes what the relay hands it to the inherited stdout, and how the relay waits for it
in the end: `StdoutWorker`, `stdout_worker` and `copy_channel_to_stdout` of `attach.rs`. The worker calls
its end of the channel its socket.
-/

namespace Nomux.Relay
open Program

def Errno.raw : Errno → Nat
  | .again => 11
  | .intr => 4
  | .io => 5
  | .connReset => 104
  | .notConn => 107
  | .pipe => 32
  | .other n => n

def ETIMEDOUT : Errno := .other 110

def toNeBytes (status : Int32) : Bytes := Spawn.toNeBytes status.toUInt32

def fromNeBytes (raw : Bytes) : Int32 := (Spawn.fromNeBytes raw).toInt32

/-! ## The worker -/

inductive WorkerCall
  | io (c : Call)
  | count
  | status (bytes : Bytes)
  | close

@[reducible] def WorkerReply : WorkerCall → Type
  | .io c => Reply c
  | .count | .close => Unit
  | .status _ => Except Errno Nat

abbrev WorkerRun := ExceptT Halt (Program WorkerReply)

def work (c : WorkerCall) : WorkerRun (WorkerReply c) := ExceptT.lift (ask c)

def onWorker {α : Type} (program : Run α) : WorkerRun α :=
  ExceptT.mk (embed WorkerCall.io (fun _ reply => reply) program.run)

/-- What is done once `poll` has returned, and `again` from there. -/
def deliverReady (fuel : Nat) (events : PollFlags) (p : Pump) (again : Pump → WorkerRun (Option Pump)) :
    WorkerRun (Option Pump) :=
  if PollFlags.gone events then pure none
  else do
    let (q, alive) ← if events.output then onWorker (p.drainTo .stdout fuel) else pure (p, true)
    if alive then
      if q.owed < p.owed then do
        work .count
        again q
      else again q
    else pure none

/-- The inner loop of `copy_channel_to_stdout`, which ends with nothing where stdout takes no more. -/
def deliver (fuel : Nat) : (rounds : Nat) → Pump → WorkerRun (Option Pump)
  | 0, p => if p.hasData then throw .unfinished else pure (some p)
  | rounds + 1, p =>
      if p.hasData then do
        match ← work (.io (.poll [⟨.stdout, { output := true }⟩])) with
        | .ok events => deliverReady fuel (events.headD {}) p (deliver fuel rounds)
        | .error .intr => deliver fuel rounds p
        | .error e => throw (.failed e)
      else pure (some p)

def copyChannelToStdout (fuel : Nat) : (rounds : Nat) → Pump → WorkerRun Unit
  | 0, _ => throw .unfinished
  | rounds + 1, p => do
      let (p, alive) ← onWorker (p.fillFrom .socket fuel)
      if alive then
        match ← deliver fuel fuel p with
        | some p => copyChannelToStdout fuel rounds p
        | none => pure ()
      else pure ()

/-- What is reported of how the copying ended. -/
def statusOf : Except Halt Unit → Int32
  | .ok () => 0
  | .error (.failed e) => if 0 < e.raw then Int32.ofNat e.raw else -1
  | .error _ => -1

/-- `write_all`, whose error is dropped. -/
def writeStatus : (fuel : Nat) → Bytes → WorkerRun Unit
  | 0, bytes => if bytes = [] then pure () else throw .unfinished
  | fuel + 1, bytes =>
      if bytes = [] then pure ()
      else do
        match ← work (.status bytes) with
        | .ok 0 => pure ()
        | .ok n => writeStatus fuel (bytes.drop n)
        | .error .intr => writeStatus fuel bytes
        | .error _ => pure ()

def report (fuel : Nat) : Except Halt Unit → WorkerRun Unit
  | .error .unfinished => throw .unfinished
  | outcome => do
      writeStatus fuel (toNeBytes (statusOf outcome))
      work .close

def stdoutWorker (fuel : Nat) : WorkerRun Unit :=
  ExceptT.mk do
    let outcome ← (copyChannelToStdout fuel fuel default).run
    (report fuel outcome).run

/-! ## The relay, to its end -/

inductive FinishCall
  | setBlocking
  | shutdownWrite
  | loadProgress
  | openWindow
  | windowPassed
  | setReadTimeout
  | read (len : Nat)

inductive MainCall
  | relay (c : Call)
  | finish (c : FinishCall)

@[reducible] def FinishReply : FinishCall → Type
  | .setBlocking | .shutdownWrite | .setReadTimeout => Except Errno Unit
  | .loadProgress => Nat
  | .openWindow => Unit
  | .windowPassed => Bool
  | .read len => Except Errno { bytes : Bytes // bytes.length ≤ len }

@[reducible] def MainReply : MainCall → Type
  | .relay c => Reply c
  | .finish c => FinishReply c

inductive MainHalt
  | relay (why : Halt)
  | channel (e : Errno)
  | timedOut
  | unexpectedEof
  /-- The worker failed, with this errno. -/
  | stdout (status : Int32)
  | workerFailed
  | unfinished

abbrev MainRun := ExceptT MainHalt (Program MainReply)

def fin (c : FinishCall) : MainRun (FinishReply c) :=
  ExceptT.lift (ask (MainCall.finish c) : Program MainReply (FinishReply c))

def onMain {α : Type} (program : Run α) : MainRun α :=
  ExceptT.mk do
    match ← embed MainCall.relay (fun _ reply => reply) program.run with
    | .ok value => pure (.ok value)
    | .error why => pure (.error (.relay why))

def accept {α : Type} : Except Errno α → MainRun α
  | .ok value => pure value
  | .error e => throw (.channel e)

/-- `WouldBlock`, `Interrupted` and `TimedOut`. -/
def comesBack (e : Errno) : Bool := e = .again || e = .intr || e = ETIMEDOUT

def settle (status : Bytes) : MainRun Unit :=
  if fromNeBytes status = 0 then pure ()
  else if 0 < fromNeBytes status then throw (.stdout (fromNeBytes status))
  else throw .workerFailed

/-- The window is opened anew where something moved. -/
def look (seen : Nat) (delivered : Bool) (again : Nat → MainRun Unit) : MainRun Unit := do
  let progress ← fin .loadProgress
  if delivered || progress ≠ seen then do
    fin .openWindow
    again progress
  else again seen

/-- The loop of `finish`. -/
def awaitStatus : (fuel : Nat) → (status : Bytes) → (seen : Nat) → MainRun Unit
  | 0, _, _ => throw .unfinished
  | fuel + 1, status, seen =>
      if status.length < 4 then do
        if ← fin .windowPassed then throw .timedOut
        else do
          accept (← fin .setReadTimeout)
          match ← fin (.read (4 - status.length)) with
          | .ok chunk =>
              if chunk.1 = [] then throw .unexpectedEof
              else look seen true (awaitStatus fuel (status ++ chunk.1))
          | .error e =>
              if comesBack e then look seen false (awaitStatus fuel status) else throw (.channel e)
      else settle status

def finish (fuel : Nat) : MainRun Unit := do
  accept (← fin .setBlocking)
  let _ ← fin .shutdownWrite
  let seen ← fin .loadProgress
  fin .openWindow
  awaitStatus fuel [] seen

/-- `relay` up to where it waits for the worker. -/
def relayBytes (fuel : Nat) : Run Unit := do
  check (← sys .setNonblocking)
  check (← sys .spawnStdout)
  relayLoop fuel fuel {}

def relayToEnd (fuel : Nat) : MainRun Unit := do
  onMain (relayBytes fuel)
  finish fuel

/-! ## Both -/

/-- What a call writes to stdout, or to the channel that stands for it. -/
def wrote : (c : Call) → Reply c → Bytes
  | .write .stdout bytes, .ok n => bytes.take n
  | _, _ => []

/-- What a call reads off the socket, or off the channel that stands for it. -/
def got : (c : Call) → Reply c → Bytes
  | .read .socket, .ok chunk => chunk.1
  | _, _ => []

def Fits : (c : Call) → Reply c → Prop
  | .poll _, .error e | .read _, .error e | .write _ _, .error e => e.raw < 2 ^ 31
  | .setNonblocking, .error e | .spawnStdout, .error e | .shutdownWrite, .error e
  | .finishStdout, .error e => e.raw < 2 ^ 31
  | _, _ => True

/-- What is between the two, and behind them. -/
structure World where
  /-- What the relay has read and written. -/
  relayed : Ledger := {}
  /-- What the worker has. -/
  delivered : Ledger := {}
  /-- The bytes in the channel, and those that come back. -/
  queue : Bytes := []
  status : Bytes := []
  shut : Bool := false
  /-- The worker has closed its end. -/
  left : Bool := false
  progress : Nat := 0

namespace World

/-- What the relay is answered: only a worker that has left breaks its end of the channel. -/
def MainGives (s : World) : (c : MainCall) → MainReply c → Prop
  | .relay (.write .stdout bytes), .ok n => n ≤ bytes.length ∧ s.left = false
  | .relay (.write .stdout _), .error .pipe => s.left = true
  | .relay (.poll fds), .ok events => PollFlags.gone (reported fds events .stdout) = true → s.left = true
  | .finish .loadProgress, n => n = s.progress
  | .finish (.read _), .ok chunk => chunk.1 <+: s.status ∧ (chunk.1 = [] → s.status = [] ∧ s.left = true)
  | _, _ => True

def mainDoes (s : World) : (c : MainCall) → MainReply c → World
  | .relay c, reply => { s with relayed := s.relayed.after c reply, queue := s.queue ++ wrote c reply }
  | .finish .shutdownWrite, _ => { s with shut := true }
  | .finish (.read _), .ok chunk => { s with status := s.status.drop chunk.1.length }
  | .finish _, _ => s

/-- What the worker is answered on the descriptors: its end of the channel blocks, and ends where it is
shut down. -/
def ChannelGives (s : World) : (c : Call) → Reply c → Prop
  | .read .socket, .ok chunk => chunk.1 <+: s.queue ∧ (chunk.1 = [] → s.queue = [] ∧ s.shut = true)
  | .read .socket, .error e => e ≠ .again ∧ e ≠ .io ∧ e ≠ .connReset ∧ e ≠ .notConn
  | .write _ bytes, .ok n => n ≤ bytes.length
  | _, _ => True

def WorkerGives (s : World) : (c : WorkerCall) → WorkerReply c → Prop
  | .io c, reply => Fits c reply ∧ s.ChannelGives c reply
  | .status bytes, .ok n => n ≤ bytes.length
  | _, _ => True

def workerDoes (s : World) : (c : WorkerCall) → WorkerReply c → World
  | .io c, reply =>
      { s with delivered := s.delivered.after c reply, queue := s.queue.drop (got c reply).length }
  | .count, _ => { s with progress := s.progress + 1 }
  | .status bytes, .ok n => { s with status := s.status ++ bytes.take n }
  | .status _, .error _ => s
  | .close, _ => { s with left := true }

end World

/-- The worker is there from the beginning: as long as the channel is empty it waits. -/
structure Pair extends World where
  main : Program MainReply (Except MainHalt Unit)
  worker : Program WorkerReply (Except Halt Unit)

namespace Pair

inductive Step : Pair → Pair → Prop
  | main {s : Pair} {c : MainCall} {rest : MainReply c → Program MainReply (Except MainHalt Unit)}
      {reply : MainReply c} (next : s.main = .call c rest) (gives : s.MainGives c reply) :
      Step s ⟨s.mainDoes c reply, rest reply, s.worker⟩
  | worker {s : Pair} {c : WorkerCall} {rest : WorkerReply c → Program WorkerReply (Except Halt Unit)}
      {reply : WorkerReply c} (next : s.worker = .call c rest) (gives : s.WorkerGives c reply) :
      Step s ⟨s.workerDoes c reply, s.main, rest reply⟩

def Reaches : Pair → Pair → Prop := Relation.ReflTransGen Step

def start (fuel : Nat) : Pair := ⟨{}, (relayToEnd fuel).run, (stdoutWorker fuel).run⟩

end Pair

end Nomux.Relay
