import Nomux.Lib.BigEndian
import Nomux.Lib.Descriptors
import Nomux.Lib.Program
import Nomux.Wire.Basic
import Mathlib.Logic.Relation

/-!
# Starting a program

`spawn` of `exec.rs`: what the parent does around its `fork`, what the child does up to its `execve`,
and the pipe by which the one learns how the other ended. A call that is made again for as long as it
is interrupted is one call, which an interruption does not answer.
-/

namespace Nomux.Spawn
open Wire Program Descriptor

abbrev Fd := Nat

abbrev Pid := Nat

abbrev Errno := UInt32

def EINTR : Errno := 4
def ENOEXEC : Errno := 8
def EBADF : Errno := 9
def EMFILE : Errno := 24

def stderrFileno : Fd := 2

def toNeBytes (e : Errno) : Bytes := (BigEndian.bytes 4 e.toNat).reverse

def fromNeBytes (raw : Bytes) : Errno := UInt32.ofNat (BigEndian.value raw.reverse)

/-- What a descriptor of either process is on: the read end of the pipe, its write end, or anything
else. -/
inductive Object (α : Type)
  | outside (object : α)
  | report
  | failure
  deriving DecidableEq

structure Stdio where
  input : Fd
  output : Fd
  diagnostics : Fd
  deriving DecidableEq

/-- What a `setup` does: a call that leaves the descriptors as they are, or the one that lets a
descriptor outlive the `execve`. -/
inductive Setup
  | work
  | clearCloexec (fd : Fd)
  deriving DecidableEq

structure Ready where
  stdio : Stdio
  fail : Fd
  setup : List Setup
  /-- Whether the program has a directory to start in. -/
  dir : Bool
  deriving DecidableEq

inductive Call
  | dupAbove (fd : Fd)
  | pipe
  | close (fd : Fd)
  | fork (ready : Ready)
  | read (fd : Fd) (len : Nat)
  | wait
  | work
  | clearCloexec (fd : Fd)
  | dup2 (fd slot : Fd)
  | chdir
  /-- Answered only where it fails. -/
  | execve
  | write (fd : Fd) (raw : Bytes)
  deriving DecidableEq

@[reducible] def Reply : Call → Type
  | .dupAbove _ => Except Errno Fd
  | .pipe => Except Errno (Fd × Fd)
  | .close _ | .wait => Unit
  | .fork _ => Except Errno Pid
  | .read _ _ => Except Errno Bytes
  | .work | .clearCloexec _ | .dup2 _ _ | .chdir | .write _ _ => Except Errno Unit
  | .execve => Errno

abbrev Run := Program Reply

def sys (c : Call) : Run (Reply c) := ask c

/-! ## The child -/

def runSetup : List Setup → Run (Except Errno Unit)
  | [] => pure (.ok ())
  | step :: steps => do
      match ← made step with
      | .error e => pure (.error e)
      | .ok () => runSetup steps
where
  made : Setup → Run (Except Errno Unit)
    | .work => sys .work
    | .clearCloexec fd => sys (.clearCloexec fd)

def place : List (Fd × Fd) → Run (Except Errno Unit)
  | [] => pure (.ok ())
  | (source, slot) :: later => do
      match ← sys (.dup2 source slot) with
      | .error e => pure (.error e)
      | .ok () => place later

def enter : (dir : Bool) → Run (Except Errno Unit)
  | false => pure (.ok ())
  | true => sys .chdir

/-- Up to the `execve`, with what the first call that failed was refused with. -/
def prepare (ready : Ready) : Run Errno := do
  match ← runSetup ready.setup with
  | .error e => pure e
  | .ok () =>
      match ← place [(ready.stdio.input, 0), (ready.stdio.output, 1), (ready.stdio.diagnostics, 2)] with
      | .error e => pure e
      | .ok () =>
          match ← enter ready.dir with
          | .error e => pure e
          | .ok () => sys .execve

def child (ready : Ready) : Run Unit := do
  let failure ← prepare ready
  let _ ← sys (.write ready.fail (toNeBytes failure))
  pure ()

/-! ## The parent -/

def aboveStdio (fd : Fd) : Run (Except Errno Fd) := sys (.dupAbove fd)

def raise (stdio : Stdio) : Run (Except Errno Stdio) := do
  match ← aboveStdio stdio.input with
  | .error e => pure (.error e)
  | .ok input =>
      match ← aboveStdio stdio.output with
      | .error e => do
          sys (.close input)
          pure (.error e)
      | .ok output =>
          match ← aboveStdio stdio.diagnostics with
          | .error e => do
              sys (.close output)
              sys (.close input)
              pure (.error e)
          | .ok diagnostics => pure (.ok ⟨input, output, diagnostics⟩)

def dropStdio (stdio : Stdio) : Run Unit := do
  sys (.close stdio.input)
  sys (.close stdio.output)
  sys (.close stdio.diagnostics)

/-- The loop that reads the report. Every round fills a byte, so one round for each is enough. -/
def readReport (report : Fd) : (rounds : Nat) → (raw : Bytes) → Run Bytes
  | 0, raw => pure raw
  | rounds + 1, raw =>
      if raw.length < 4 then do
        match ← sys (.read report (4 - raw.length)) with
        | .error _ => pure raw
        | .ok chunk => if chunk = [] then pure raw else readReport report rounds (raw ++ chunk)
      else pure raw

/-- From the `fork` on. -/
def await (report : Fd) (pid : Pid) : Run (Except Errno Pid) := do
  let raw ← readReport report 4 []
  if raw.length = 4 then do
    sys .wait
    sys (.close report)
    pure (.error (fromNeBytes raw))
  else do
    sys (.close report)
    pure (.ok pid)

/-- With the pipe, whose write end came back as `bound`. -/
def launch (raised : Stdio) (report bound : Fd) (setup : List Setup) (dir : Bool) :
    Run (Except Errno Pid) := do
  match ← aboveStdio bound with
  | .error e => do
      sys (.close bound)
      sys (.close report)
      dropStdio raised
      pure (.error e)
  | .ok failure => do
      sys (.close bound)
      match ← sys (.fork ⟨raised, failure, setup, dir⟩) with
      | .error e => do
          sys (.close failure)
          sys (.close report)
          dropStdio raised
          pure (.error e)
      | .ok pid => do
          dropStdio raised
          sys (.close failure)
          await report pid

def spawn (stdio : Stdio) (setup : List Setup) (dir : Bool) : Run (Except Errno Pid) := do
  match ← raise stdio with
  | .error e => pure (.error e)
  | .ok raised =>
      match ← sys .pipe with
      | .error e => do
          dropStdio raised
          pure (.error e)
      | .ok (report, bound) => launch raised report bound setup dir

/-! ## The two processes -/

inductive Stage
  | preparing (left : Run Unit)
  | program
  | exited

def Stage.over : Stage → Bool
  | preparing _ => false
  | program | exited => true

variable {α : Type} [DecidableEq α]

abbrev Open (α : Type) := Table (Object α)

structure Child (α : Type) where
  table : Open α
  stage : Stage
  /-- What the last of its calls to fail was refused with. -/
  refused : Option Errno := none

structure State (α : Type) where
  parent : Open α
  left : Run (Except Errno Pid)
  child : Option (Child α) := none
  queued : Bytes := []
  /-- Whether a `read` failed, or the child was ended or kept from writing. -/
  faulted : Bool := false
  /-- Whether the parent has waited for its child. -/
  reaped : Bool := false

/-- What is decided outside: whether a call fails, how short a `read` falls, and the child's pid. -/
structure Oracle where
  fault : Option Errno := none
  short : Nat := 3
  pid : Pid := 1

def dupAbove (t : Open α) (fd : Fd) : Except Errno Fd × Open α :=
  match t.held fd, t.lowest (stderrFileno + 1) with
  | none, _ => (.error EBADF, t)
  | some _, none => (.error EMFILE, t)
  | some d, some n => (.ok n, t.set n (some ⟨d.object, true⟩))

def pipe (t : Open α) : Except Errno (Fd × Fd) × Open α :=
  match t.lowest 0 with
  | none => (.error EMFILE, t)
  | some report =>
      let t' : Open α := t.set report (some ⟨.report, true⟩)
      match t'.lowest 0 with
      | none => (.error EMFILE, t)
      | some bound => (.ok (report, bound), t'.set bound (some ⟨.failure, true⟩))

/-- What a call is answered, with `queued` in the pipe, and what is open behind it. -/
def serve (t : Open α) (queued : Bytes) (o : Oracle) : (c : Call) → Reply c × Open α
  | .dupAbove fd => o.fault.elim (dupAbove t fd) fun e => (.error e, t)
  | .pipe => o.fault.elim (pipe t) fun e => (.error e, t)
  | .close fd => ((), t.close fd)
  | .fork _ => (o.fault.elim (.ok o.pid) .error, t)
  | .read fd len =>
      (o.fault.elim (if (t.held fd).isSome then .ok (queued.take (min len (o.short + 1))) else .error EBADF)
        .error, t)
  | .wait => ((), t)
  | .work | .chdir | .write _ _ => (o.fault.elim (.ok ()) .error, t)
  | .clearCloexec fd =>
      o.fault.elim (if (t.held fd).isSome then (.ok (), t.clearCloexec fd) else (.error EBADF, t))
        fun e => (.error e, t)
  | .dup2 fd slot =>
      o.fault.elim (if (t.held fd).isSome ∧ slot < t.length then (.ok (), t.dup2 fd slot)
        else (.error EBADF, t)) fun e => (.error e, t)
  | .execve => (o.fault.getD ENOEXEC, t)

/-- The calls that an interruption does not answer. -/
def Call.resumed : Call → Bool
  | .read _ _ | .wait | .dup2 _ _ | .write _ _ => true
  | _ => false

/-- What a call that failed was refused with, up to the report of it. -/
def refusal : (c : Call) → Reply c → Option Errno
  | .work, .error e | .clearCloexec _, .error e | .dup2 _ _, .error e | .chdir, .error e => some e
  | .execve, e => some e
  | _, _ => none

def through (queued : Bytes) : (c : Call) → Reply c → Bytes
  | .read _ _, .ok chunk => queued.drop chunk.length
  | .write _ raw, .ok _ => queued ++ raw
  | _, _ => queued

def failed : (c : Call) → Reply c → Bool
  | .read _ _, .error _ | .write _ _, .error _ => true
  | _, _ => false

def born (t : Open α) : (c : Call) → Reply c → Option (Child α)
  | .fork ready, .ok _ => some { table := t, stage := .preparing (Spawn.child ready) }
  | _, _ => none

def Call.reaps : Call → Bool
  | .wait => true
  | _ => false

inductive Move
  | parent (o : Oracle)
  | child (o : Oracle)
  | kill

namespace State

def writers (s : State α) : Bool :=
  s.parent.has .failure || s.child.any fun c => c.table.has .failure

def blocks (s : State α) : Call → Bool
  | .read _ _ => s.queued = [] && s.writers
  | .wait => s.child.any fun c => match c.stage with
      | .exited => false
      | _ => true
  | _ => false

def advance (s : State α) (o : Oracle) (c : Call) (rest : Reply c → Run (Except Errno Pid)) : State α :=
  let answered := serve s.parent s.queued o c
  { parent := answered.2
    left := rest answered.1
    child := (born s.parent c answered.1).or s.child
    queued := through s.queued c answered.1
    faulted := failed c answered.1 || s.faulted
    reaped := c.reaps || s.reaped }

def advanceChild (s : State α) (o : Oracle) (table : Open α) (refused : Option Errno) (c : Call)
    (rest : Reply c → Run Unit) : State α :=
  let answered := serve table s.queued o c
  { s with
    child := some ⟨answered.2, .preparing (rest answered.1), (refusal c answered.1).or refused⟩
    queued := through s.queued c answered.1
    faulted := failed c answered.1 || s.faulted }

/-- A move that does not apply, or that has to wait, changes nothing. -/
def next (s : State α) : Move → State α
  | .parent o =>
      match s.left with
      | .done _ => s
      | .call c rest =>
          if s.blocks c || (c.resumed && o.fault = some EINTR) then s else s.advance o c rest
  | .child o =>
      match s.child with
      | some ⟨table, .preparing (.call c rest), refused⟩ =>
          if c.resumed && o.fault = some EINTR then s
          else if c = .execve ∧ o.fault = none then { s with child := some ⟨table.exec, .program, refused⟩ }
          else s.advanceChild o table refused c rest
      | some ⟨_, .preparing (.done _), refused⟩ => { s with child := some ⟨[], .exited, refused⟩ }
      | _ => s
  | .kill =>
      match s.child with
      | some ⟨_, .preparing _, refused⟩ =>
          { s with child := some ⟨[], .exited, refused⟩, faulted := true }
      | _ => s

def run (s : State α) (moves : List Move) : State α := moves.foldl State.next s

def Reaches (start s : State α) : Prop := Relation.ReflTransGen (fun s s' => ∃ move, s' = s.next move) start s

end State

def outside (table : Table α) : Open α :=
  table.map fun entry => entry.map fun d => ⟨.outside d.object, d.cloexec⟩

def start (table : Table α) (stdio : Stdio) (setup : List Setup) (dir : Bool) : State α where
  parent := outside table
  left := spawn stdio setup dir

end Nomux.Spawn
