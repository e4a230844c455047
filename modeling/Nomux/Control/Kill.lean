import Nomux.Cli.Args
import Nomux.Lib.Program

/-!
# `nomux kill`

`kill` of `control.rs` with what it calls there, in `usock.rs` and in `rundir.rs`, call by call. The
clock is asked only whether a deadline has passed.
-/

namespace Nomux.Control
open Wire Program

abbrev Pid := Int

/-- A process, by a number that no other process ever has. -/
abbrev Proc := Nat

structure Pidfd where
  proc : Proc
  deriving DecidableEq

inductive Signal
  | term
  | kill
  deriving DecidableEq

inductive Errno
  | again
  | intr
  | refused
  | noent
  | other (n : Nat)
  deriving DecidableEq

def MAX_PID_LEN : Nat := 32

inductive File
  | pidfile
  | cmdline (pid : Pid)
  deriving DecidableEq

def File.bound : File → Nat
  | .pidfile => MAX_PID_LEN
  | .cmdline _ => maxCmdlineLen

inductive Call
  | sessionPaths
  | checkRunDir
  | lockSpawnUntil
  | connect
  | deadlinePassed
  | sleep
  | openRead (file : File)
  | read (len : Nat)
  | testKill (pid : Pid)
  | pidfdOpen (pid : Pid)
  | pidfdSendSignal (pidfd : Pidfd) (sig : Signal)
  | unlinkAllLocked

/-- A connection answers with whether its peer is this user, and an `open` with whether the file is
regular. -/
@[reducible] def Reply : Call → Type
  | .sessionPaths | .lockSpawnUntil | .testKill _ | .pidfdSendSignal _ _ | .unlinkAllLocked =>
      Except Errno Unit
  | .checkRunDir | .connect | .openRead _ => Except Errno Bool
  | .deadlinePassed => Bool
  | .sleep => Unit
  | .read len => Except Errno { bytes : Bytes // bytes.length ≤ len }
  | .pidfdOpen _ => Except Errno Pidfd

inductive ConnectError
  | errno (e : Errno)
  | foreign
  | timedOut (last : Errno)
  deriving DecidableEq

inductive Liveness
  | alive
  | stale (e : ConnectError)
  | unknown (e : ConnectError)
  deriving DecidableEq

structure Chosen where
  pid : Pid
  reach : Except Errno Pidfd

inductive ReadError
  | errno (e : Errno)
  | notRegular
  deriving DecidableEq

inductive Problem
  | unidentified (filed : Option Pid) (body : Bytes)
  | neverWritten
  | neverAppeared
  | unreadable (e : ReadError)

inductive Refusal
  | io (e : Errno)
  | unprobeable (e : ConnectError)
  | runningBut (problem : Problem)
  | stillAnswering (chosen : Chosen) (term kill : Except Errno Unit)
  | boundSince

/-- Why `kill` is left before its end. A loop is followed for as many rounds as there is fuel. -/
inductive Halt
  | refused (why : Refusal)
  | unfinished

abbrev Run := ExceptT Halt (Program Reply)

def sys (c : Call) : Run (Reply c) := ExceptT.lift (ask c)

/-- `?` -/
def check {α : Type} : Except Errno α → Run α
  | .ok value => pure value
  | .error e => throw (.refused (.io e))

def nothingIsListening : ConnectError → Bool
  | .errno .refused | .errno .noent => true
  | _ => false

/-- A connect that says nothing of the listener is tried `again`, until the deadline. -/
def unsettled (e : Errno) (again : Run (Except ConnectError Unit)) : Run (Except ConnectError Unit) := do
  if ← sys .deadlinePassed then
    pure (.error (.timedOut e))
  else do
    sys .sleep
    again

def connectWithin : (fuel : Nat) → Run (Except ConnectError Unit)
  | 0 => throw .unfinished
  | fuel + 1 => do
      match ← sys .connect with
      | .ok true => pure (.ok ())
      | .ok false => pure (.error .foreign)
      | .error .again => unsettled .again (connectWithin fuel)
      | .error .intr => unsettled .intr (connectWithin fuel)
      | .error e => pure (.error (.errno e))

def liveness (fuel : Nat) : Run Liveness := do
  match ← connectWithin fuel with
  | .ok () => pure .alive
  | .error e => pure (if nothingIsListening e then .stale e else .unknown e)

/-- The loop of `read_prefix`. -/
def fillFrom (file : File) : (fuel : Nat) → (filled : Bytes) → Run (Except ReadError Bytes)
  | 0, _ => throw .unfinished
  | fuel + 1, filled =>
      if filled.length < file.bound then do
        match ← sys (.read (file.bound - filled.length)) with
        | .ok chunk => if chunk.1 = [] then pure (.ok filled) else fillFrom file fuel (filled ++ chunk.1)
        | .error .intr => fillFrom file fuel filled
        | .error e => pure (.error (.errno e))
      else
        pure (.ok filled)

def readPrefix (file : File) (fuel : Nat) : Run (Except ReadError Bytes) := do
  match ← sys (.openRead file) with
  | .ok true => fillFrom file fuel []
  | .ok false => pure (.error .notRegular)
  | .error e => pure (.error (.errno e))

def parsePid (body : Bytes) : Option Int :=
  if MAX_PID_LEN ≤ body.length || body.getLast? ≠ some 0x0a then none
  else
    ((fromUtf8 body).bind fun text => parseI32 (utf8 (String.ofList (trim text.toList)))).filter
      (0 < ·)

def fromRaw (n : Int) : Option Pid := if n = 0 then none else some n

def pidfile (fuel : Nat) : Run (Except ReadError (Option Pid × Bytes)) := do
  match ← readPrefix .pidfile fuel with
  | .error e => pure (.error e)
  | .ok body =>
      match (parsePid body).bind fromRaw with
      | none => pure (.ok (none, body))
      | some pid => do
          match ← sys (.testKill pid) with
          | .ok () => pure (.ok (some pid, body))
          | .error _ => pure (.ok (none, body))

def isDaemonFor (pid : Pid) (id : Bytes) (fuel : Nat) : Run (Option Bool) := do
  match ← readPrefix (.cmdline pid) fuel with
  | .ok body => pure (daemonVerdict body id)
  | .error _ => pure none

def identified (id : Bytes) (filed : Option Pid) (fuel : Nat) : Run (Option Pid) :=
  match filed with
  | none => pure none
  | some pid => do
      let verdict ← isDaemonFor pid id fuel
      pure (if verdict ≠ some false then some pid else none)

def pin (pid : Pid) : Run (Except Errno Pidfd) := sys (.pidfdOpen pid)

def chosen (id : Bytes) (filed : Option Pid) (fuel : Nat) : Run (Option Chosen) :=
  match filed with
  | none => pure none
  | some pid => do
      let reach ← pin pid
      let named ← identified id filed fuel
      pure (named.map fun pid => ⟨pid, reach⟩)

def Chosen.signal (c : Chosen) (sig : Signal) : Run (Except Errno Unit) :=
  match c.reach with
  | .ok pidfd => sys (.pidfdSendSignal pidfd sig)
  | .error e => pure (.error e)

def unresolved (unprobed : Option ConnectError) (problem : Problem) : Refusal :=
  match unprobed with
  | none => .runningBut problem
  | some e => .unprobeable e

def isAsciiWhitespace (byte : UInt8) : Bool :=
  byte = 0x20 || byte = 0x09 || byte = 0x0a || byte = 0x0c || byte = 0x0d

/-- What is missing from the pidfile is waited out, and asked for `again` until the deadline. -/
def awaitPid (unprobed : Option ConnectError) (waitingOn : Problem) (again : Run (Option Chosen)) :
    Run (Option Chosen) := do
  if ← sys .deadlinePassed then
    throw (.refused (unresolved unprobed waitingOn))
  else do
    sys .sleep
    again

/-- The rest of one round, with what kept the probe off the socket. -/
def resolveNamed (id : Bytes) (unprobed : Option ConnectError) (fuel : Nat)
    (again : Run (Option Chosen)) : Run (Option Chosen) := do
  match ← pidfile fuel with
  | .ok (filed, body) =>
      if body.all isAsciiWhitespace then awaitPid unprobed .neverWritten again
      else do
        match ← chosen id filed fuel with
        | some chosen => pure (some chosen)
        | none => throw (.refused (unresolved unprobed (.unidentified filed body)))
  | .error (.errno .noent) => awaitPid unprobed .neverAppeared again
  | .error e => throw (.refused (unresolved unprobed (.unreadable e)))

def resolve (id : Bytes) (fuel : Nat) : (rounds : Nat) → Run (Option Chosen)
  | 0 => throw .unfinished
  | rounds + 1 => do
      match ← liveness fuel with
      | .stale _ => pure none
      | .alive => resolveNamed id none fuel (resolve id fuel rounds)
      | .unknown e => resolveNamed id (some e) fuel (resolve id fuel rounds)

/-- The loop of `kill`, with what came of the `SIGTERM` and, once it was sent, of the `SIGKILL`. -/
def awaitEnd (chosen : Chosen) (term : Except Errno Unit) (fuel : Nat) :
    (rounds : Nat) → (killed : Option (Except Errno Unit)) → Run Unit
  | 0, _ => throw .unfinished
  | rounds + 1, killed => do
      match ← liveness fuel with
      | .stale _ => pure ()
      | .unknown e => throw (.refused (.unprobeable e))
      | .alive =>
          if ← sys .deadlinePassed then
            match killed with
            | some kill => throw (.refused (.stillAnswering chosen term kill))
            | none => do
                let kill ← chosen.signal .kill
                sys .sleep
                awaitEnd chosen term fuel rounds (some kill)
          else do
            sys .sleep
            awaitEnd chosen term fuel rounds killed

def killLocked (id : Bytes) (fuel : Nat) : Run Unit := do
  match ← resolve id fuel fuel with
  | none => pure ()
  | some chosen => do
      let term ← chosen.signal .term
      awaitEnd chosen term fuel fuel none
  match ← liveness fuel with
  | .stale _ => check (← sys .unlinkAllLocked)
  | .alive => throw (.refused .boundSince)
  | .unknown e => throw (.refused (.unprobeable e))

def kill (id : Bytes) (fuel : Nat) : Run Unit := do
  check (← sys .sessionPaths)
  if ← check (← sys .checkRunDir) then do
    check (← sys .lockSpawnUntil)
    killLocked id fuel
  else
    pure ()

end Nomux.Control
