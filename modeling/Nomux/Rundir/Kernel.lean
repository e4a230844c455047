import Nomux.Lib.Program

/-!
# The run directory and the calls made on it

The names `<id>.*` of one session, the nodes behind them, and the open file descriptions the
processes hold: on what is opened at a name, with the `flock` it carries, and on a socket that is
bound at one. Every system call is one step. A call can fail with any error for reasons the model
does not have; what it answers when it does not fail is decided by the directory.
-/

namespace Nomux.Rundir

/-- A process, by a number that no other process ever has. -/
abbrev Proc := Nat

/-- An open file description, which a `fork` shares between two processes. -/
abbrev Fd := Nat

abbrev Sock := Nat

inductive Kind
  | regular
  | directory
  | fifo
  | socket
  | symlink
  deriving DecidableEq

structure Node where
  ino : Nat
  kind : Kind
  deriving DecidableEq

/-- The names of one session in its run directory. -/
inductive RunName
  | socket
  | pid
  | label
  | agent
  | lock
  | other (n : Nat)
  deriving DecidableEq

inductive Errno
  | noent
  | exist
  | rofs
  | access
  | perm
  | loop
  | nxio
  | notdir
  | isdir
  | wouldblock
  | nolck
  | opnotsupp
  | addrinuse
  | badf
  | other (n : Nat)
  deriving DecidableEq

structure Description where
  node : Node
  refs : List Proc
  /-- Whether `listen` has been called on it. -/
  listens : Bool

/-- Closing one process's descriptor; the description goes with the last one. -/
def Description.without (p : Proc) (d : Description) : Option Description :=
  if d.refs.filter (· ≠ p) = [] then none else some { d with refs := d.refs.filter (· ≠ p) }

/-- A `fork` of `p` gives its child whatever `p` holds. -/
def Description.share (p child : Proc) (d : Description) : Description :=
  if p ∈ d.refs then { d with refs := child :: d.refs } else d

structure Fs where
  name : RunName → Option Node
  file : Fd → Option Description
  sock : Sock → Option Description
  /-- The description that holds the lock on a node. -/
  flock : Nat → Option Fd
  /-- The socket that is bound to a node. -/
  bound : Nat → Option Sock
  /-- What a symlink in the directory leads to. -/
  linked : Option Node
  /-- No node and no description has this number yet, or a greater one. -/
  fresh : Nat

/-! ## Calls -/

/-- What else a process does that can fail, none of it on the names of the session. -/
inductive Work
  | checkRunDir
  | closeInherited
  | allocateRing
  | leaveDirectory
  | setNonblocking
  | setsid
  | leadsSession
  | armSignals
  | write
  | silence
  | prepareSpawn
  | getfd
  | setCloexec
  | readPid
  | identify
  | signal
  | startSession
  | forwardAgent
  | bindAgent
  deriving DecidableEq

/-- What a `fork` leaves in the child: the daemon that a `spawn` executes, or the half of a daemon
that detached from its terminal which only has to exit. -/
inductive Child
  | daemon (lock : Fd)
  | leftover
  deriving DecidableEq

/-- A socket somebody serves, nothing that listens there, or neither known. -/
inductive Liveness
  | alive
  | stale (refused : Bool)
  | unknown
  deriving DecidableEq

inductive Call
  /-- `open` with `O_CREAT | O_EXCL`. -/
  | create (n : RunName)
  /-- `open` of what is there, with `O_NOFOLLOW | O_NONBLOCK`. -/
  | reopen (n : RunName)
  | lstat (n : RunName)
  | stat (n : RunName)
  | fstat (fd : Fd)
  | flock (fd : Fd)
  | close (fd : Fd)
  | unlink (n : RunName)
  | rmdir (n : RunName)
  | readDir
  | connect
  | bind
  | listen (s : Sock)
  | closeSocket (s : Sock)
  | fork (child : Child)
  | work (w : Work)
  | poll
  deriving DecidableEq

@[reducible] def Reply : Call → Type
  | .create _ | .reopen _ => Except Errno Fd
  | .bind => Except Errno Sock
  | .lstat _ | .stat _ | .fstat _ => Except Errno Node
  | .flock _ | .unlink _ | .rmdir _ | .listen _ | .fork _ | .work _ => Except Errno Unit
  | .readDir => Except Errno (List (Except Errno Nat))
  | .connect => Liveness
  | .close _ | .closeSocket _ | .poll => Unit

/-- What is decided outside the model: whether a call fails, what a scan of the directory finds, and
the number of a new process. -/
structure Oracle where
  fault : Option Errno := none
  entries : List (Except Errno Nat) := []
  child : Proc := 0
  /-- Whether a `fork` that fails leaves a child after all, which could not execute anything. -/
  stillborn : Bool := false

/-! ## What the calls do -/

namespace Fs

/-- The descriptors of `p` that `which` picks are closed, and the locks of the descriptions that go
with them released. -/
def drop (fs : Fs) (p : Proc) (which : Fd → Bool) : Fs :=
  let file := fun fd => if which fd then (fs.file fd).bind (·.without p) else fs.file fd
  { fs with file, flock := fun ino => (fs.flock ino).filter fun fd => (file fd).isSome }

def dropSockets (fs : Fs) (p : Proc) (which : Sock → Bool) : Fs :=
  { fs with sock := fun s => if which s then (fs.sock s).bind (·.without p) else fs.sock s }

def exit (fs : Fs) (p : Proc) : Fs := (fs.drop p fun _ => true).dropSockets p fun _ => true

def named (fs : Fs) (n : RunName) (node : Option Node) : Fs :=
  { fs with name := Function.update fs.name n node }

def describe (fs : Fs) (p : Proc) (node : Node) : Fs := { fs with
  file := Function.update fs.file fs.fresh (some ⟨node, [p], false⟩)
  fresh := fs.fresh + 1 }

def create (fs : Fs) (p : Proc) (n : RunName) : Except Errno Fd × Fs :=
  match fs.name n with
  | some _ => (.error .exist, fs)
  | none =>
      let node : Node := ⟨fs.fresh, .regular⟩
      (.ok fs.fresh, (fs.describe p node).named n (some node))

def reopen (fs : Fs) (p : Proc) (n : RunName) : Except Errno Fd × Fs :=
  match fs.name n with
  | none => (.error .noent, fs)
  | some node =>
      match node.kind with
      | .symlink => (.error .loop, fs)
      | .socket => (.error .nxio, fs)
      | _ => (.ok fs.fresh, fs.describe p node)

def lstat (fs : Fs) (n : RunName) : Except Errno Node :=
  match fs.name n with
  | none => .error .noent
  | some node => .ok node

/-- Unlike `lstat`, it follows a symlink. -/
def stat (fs : Fs) (n : RunName) : Except Errno Node :=
  match fs.name n with
  | none => .error .noent
  | some node =>
      match node.kind with
      | .symlink => fs.linked.elim (.error .noent) .ok
      | _ => .ok node

def fstat (fs : Fs) (p : Proc) (fd : Fd) : Except Errno Node :=
  match fs.file fd with
  | none => .error .badf
  | some d => if p ∈ d.refs then .ok d.node else .error .badf

/-- `LOCK_EX | LOCK_NB`. -/
def lock (fs : Fs) (p : Proc) (fd : Fd) : Except Errno Unit × Fs :=
  match fs.file fd with
  | none => (.error .badf, fs)
  | some d =>
      if p ∈ d.refs then
        match fs.flock d.node.ino with
        | none => (.ok (), { fs with flock := Function.update fs.flock d.node.ino (some fd) })
        | some holder => (if holder = fd then .ok () else .error .wouldblock, fs)
      else (.error .badf, fs)

def unlink (fs : Fs) (n : RunName) : Except Errno Unit × Fs :=
  match fs.name n with
  | none => (.error .noent, fs)
  | some node =>
      match node.kind with
      | .directory => (.error .isdir, fs)
      | _ => (.ok (), fs.named n none)

/-- Of an empty directory. -/
def rmdir (fs : Fs) (n : RunName) : Except Errno Unit × Fs :=
  match fs.name n with
  | none => (.error .noent, fs)
  | some node =>
      match node.kind with
      | .directory => (.ok (), fs.named n none)
      | _ => (.error .notdir, fs)

/-- Whether a socket that listens is bound to the node. -/
def listening (fs : Fs) (node : Node) : Bool :=
  match (fs.bound node.ino).bind fs.sock with
  | none => false
  | some d => d.listens && d.node == node

def connect (fs : Fs) : Liveness :=
  match fs.name .socket with
  | none => .stale false
  | some node => if fs.listening node then .alive else .stale true

def bind (fs : Fs) (p : Proc) : Except Errno Sock × Fs :=
  match fs.name .socket with
  | some _ => (.error .addrinuse, fs)
  | none =>
      let node : Node := ⟨fs.fresh, .socket⟩
      (.ok fs.fresh, { fs with
        name := Function.update fs.name .socket (some node)
        sock := Function.update fs.sock fs.fresh (some ⟨node, [p], false⟩)
        bound := Function.update fs.bound fs.fresh (some fs.fresh)
        fresh := fs.fresh + 1 })

def listen (fs : Fs) (p : Proc) (s : Sock) : Except Errno Unit × Fs :=
  match fs.sock s with
  | none => (.error .badf, fs)
  | some d =>
      if p ∈ d.refs then
        (.ok (), { fs with sock := Function.update fs.sock s (some { d with listens := true }) })
      else (.error .badf, fs)

/-- The child gets every descriptor of its parent. -/
def fork (fs : Fs) (p child : Proc) : Fs := { fs with
  file := fun fd => (fs.file fd).map (·.share p child)
  sock := fun s => (fs.sock s).map (·.share p child) }

/-- One call of `p`: what it is answered, and what it does to the directory. -/
def serve (fs : Fs) (p : Proc) (o : Oracle) : (c : Call) → Reply c × Fs
  | .create n => o.fault.elim (fs.create p n) fun e => (.error e, fs)
  | .reopen n => o.fault.elim (fs.reopen p n) fun e => (.error e, fs)
  | .lstat n => (o.fault.elim (fs.lstat n) .error, fs)
  | .stat n => (o.fault.elim (fs.stat n) .error, fs)
  | .fstat fd => (o.fault.elim (fs.fstat p fd) .error, fs)
  | .flock fd => o.fault.elim (fs.lock p fd) fun e => (.error e, fs)
  | .close fd => ((), fs.drop p (· = fd))
  | .unlink n => o.fault.elim (fs.unlink n) fun e => (.error e, fs)
  | .rmdir n => o.fault.elim (fs.rmdir n) fun e => (.error e, fs)
  | .readDir => (o.fault.elim (.ok o.entries) .error, fs)
  | .connect => (o.fault.elim fs.connect fun _ => .unknown, fs)
  | .bind => o.fault.elim (fs.bind p) fun e => (.error e, fs)
  | .listen s => o.fault.elim (fs.listen p s) fun e => (.error e, fs)
  | .closeSocket s => ((), fs.dropSockets p (· = s))
  | .fork _ => o.fault.elim (.ok (), fs.fork p o.child) fun e =>
      (.error e, if o.stillborn then fs.fork p o.child else fs)
  | .work _ => (o.fault.elim (.ok ()) .error, fs)
  | .poll => ((), fs)

end Fs

end Nomux.Rundir
