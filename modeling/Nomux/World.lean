import Nomux.Wire.Basic

/-!
# What the daemon asks of the kernel

The kernel is a script of answers. Every system call takes the next one and the time it took, and a
script that has run out answers that nothing is ready. A call that a signal may interrupt is asked
again, as in `nbio.rs`. What happens is written to a trace, which no definition of the model reads.
-/

namespace Nomux
open Wire

def seconds (n : Nat) : Nat := n * 1000000000

def millis (n : Nat) : Nat := n * 1000000

/-- How long an outcome may stay unreadable once the terminal has closed. -/
def outcomeGrace : Nat := seconds 2

inductive Errno where
  | again | intr | io | other
  deriving DecidableEq, Repr

structure PollFlags where
  input : Bool := false
  output : Bool := false
  hup : Bool := false
  err : Bool := false
  nval : Bool := false
  deriving DecidableEq, Repr

def PollFlags.readable (flags : PollFlags) : Bool :=
  flags.input || flags.hup || flags.err || flags.nval

def PollFlags.isEmpty (flags : PollFlags) : Bool := !(flags.readable || flags.output)

inductive Source where
  | listener | stop | child | pty | client | pending | agentListener | agentChannel
  deriving DecidableEq, Repr

structure WaitStatus where
  exitStatus : Option Int32
  terminatingSignal : Option Int32
  deriving DecidableEq, Repr

def WaitStatus.outcome (status : WaitStatus) : Int32 × ExitKind :=
  match status.exitStatus with
  | none => (status.terminatingSignal.getD 0, .signalled)
  | some code => (code, .exited)

/-- A connection off a backlog: whether `SO_PEERCRED` names this uid, and whether the socket could
be made non-blocking. -/
structure Peer where
  ours : Bool
  nonblocking : Bool
  deriving DecidableEq, Repr

/-- One answer of the kernel, with a field for each kind of call. -/
structure Answer where
  elapsed : Nat := 0
  read : Except Errno Bytes := .error .again
  write : Except Errno Nat := .error .again
  accept : Except Errno Peer := .error .again
  waitid : Except Errno (Option WaitStatus) := .ok none
  /-- Whether a call that answers nothing else succeeded. -/
  done : Bool := true
  /-- Where the ring's deque wraps. -/
  wrap : Nat := 0
  poll : Except Errno (Source → PollFlags) := .ok fun _ => {}

/-- Why a connection ended. -/
inductive Departure where
  | probe | expired | failed | refused | detached | hangup | finished | abandoned | takeover
  | shutdown
  deriving DecidableEq, Repr

/-- The three places where an outcome is settled. -/
inductive Settled where
  | reported
  | waitFailed
  | graceElapsed (now : Nat)
  deriving DecidableEq, Repr

inductive Event where
  | accepted (conn : Nat)
  | received (conn : Nat) (bytes : Bytes)
  | endOfFile (conn : Nat)
  | attached (conn : Nat) (hello : Hello)
  | resumed (conn : Nat) (sentThrough : Nat)
  | handled (conn : Nat) (frame : Frame)
  | applied (offset : UInt64) (data kept : Bytes)
  | sent (conn : Nat) (frame : Frame)
  | wrote (conn : Nat) (bytes : Bytes)
  | left (conn : Nat) (why : Departure)
  | output (bytes : Bytes)
  | terminalClosed (now : Nat)
  | repaintQueued
  | masterWrote (bytes : Bytes)
  | masterFailed
  | waited (answer : Except Errno (Option WaitStatus))
  | outcome (outcome : Int32 × ExitKind) (settled : Settled)
  | resized (win : WinSize)
  | resizeRefused (win : WinSize)
  | agentOpened (generation : UInt32)
  | agentRead (generation : UInt32) (bytes : Bytes)
  | agentWrote (generation : UInt32) (bytes : Bytes)
  | agentClosed (generation : UInt32)

/-- Events of the agent slot and of the terminal's size. -/
def Event.isAside : Event → Bool
  | .resized _ | .resizeRefused _ | .agentOpened _ | .agentRead _ _ | .agentWrote _ _
  | .agentClosed _ => true
  | _ => false

def Event.isAgent : Event → Bool
  | .agentOpened _ | .agentRead _ _ | .agentWrote _ _ | .agentClosed _ => true
  | _ => false

structure World where
  script : List Answer
  now : Nat := 0
  trace : List Event := []
  nextConn : Nat := 0

namespace World

def log (w : World) (e : Event) : World := { w with trace := w.trace ++ [e] }

def draw (w : World) : Answer × World :=
  match w.script with
  | [] => ({}, w)
  | answer :: rest => (answer, { w with script := rest, now := w.now + answer.elapsed })

/-- `Instant::now()`. -/
def clock (w : World) : Nat × World :=
  let w := w.draw.2
  (w.now, w)

def retryOn {α : Type} (call : Answer → Except Errno α) :
    List Answer → World → Except Errno α × World
  | [], w => (call {}, { w with script := [] })
  | answer :: rest, w =>
      let w := { w with script := rest, now := w.now + answer.elapsed }
      match call answer with
      | .error .intr => retryOn call rest w
      | result => (result, w)

/-- A call that is made again after `EINTR`. -/
def retry {α : Type} (call : Answer → Except Errno α) (w : World) : Except Errno α × World :=
  retryOn call w.script w

def read (w : World) (bufLen : Nat) : Except Errno Bytes × World :=
  w.retry fun answer => answer.read.map (·.take bufLen)

inductive ReadOutcome where
  | data (bytes : Bytes)
  | eof
  | wouldBlock
  | failed (err : Errno)
  deriving DecidableEq, Repr

def readOrEof (w : World) (bufLen : Nat) : ReadOutcome × World :=
  if bufLen = 0 then (.wouldBlock, w)
  else
    match w.read bufLen with
    | (.ok [], w) => (.eof, w)
    | (.ok bytes, w) => (.data bytes, w)
    | (.error .again, w) => (.wouldBlock, w)
    | (.error .io, w) => (.eof, w)
    | (.error err, w) => (.failed err, w)

/-- What `nbio::drain_to` wrote of a queue, what it left there, and whether it failed. -/
structure Drained where
  written : Bytes
  queue : Bytes
  failed : Bool
  deriving DecidableEq, Repr

def drainTo (w : World) (queue : Bytes) : Drained × World :=
  if queue.isEmpty then ({ written := [], queue, failed := false }, w)
  else
    match w.retry (·.write) with
    | (.ok 0, w) => ({ written := [], queue, failed := true }, w)
    | (.ok n, w) => ({ written := queue.take n, queue := queue.drop n, failed := false }, w)
    | (.error .again, w) => ({ written := [], queue, failed := false }, w)
    | (.error _, w) => ({ written := [], queue, failed := true }, w)

/-! ## Calls that leave no trace -/

/-- The world moved on without anything being written to the trace. -/
structure Quiet (before after : World) : Prop where
  trace : after.trace = before.trace
  nextConn : after.nextConn = before.nextConn

theorem Quiet.refl (w : World) : Quiet w w := ⟨rfl, rfl⟩

theorem Quiet.trans {a b c : World} (ab : Quiet a b) (bc : Quiet b c) : Quiet a c :=
  ⟨bc.trace.trans ab.trace, bc.nextConn.trans ab.nextConn⟩

/-- The world moved on with nothing but asides written to the trace. -/
structure Aside (before after : World) : Prop where
  trace : ∃ events, (∀ e ∈ events, e.isAside) ∧ after.trace = before.trace ++ events
  nextConn : after.nextConn = before.nextConn

/-- The world moved on, and only events of one kind were written to the trace. -/
structure Only (kind : Event → Bool) (before after : World) : Prop where
  trace : ∃ events, (∀ e ∈ events, kind e) ∧ after.trace = before.trace ++ events
  nextConn : after.nextConn = before.nextConn

theorem Quiet.only {kind : Event → Bool} {a b : World} (quiet : Quiet a b) : Only kind a b :=
  ⟨⟨[], by simp, by simpa using quiet.trace⟩, quiet.nextConn⟩

theorem Only.trans {kind : Event → Bool} {a b c : World} (ab : Only kind a b)
    (bc : Only kind b c) : Only kind a c := by
  obtain ⟨⟨es, hes, ab_trace⟩, ab_next⟩ := ab
  obtain ⟨⟨fs, hfs, bc_trace⟩, bc_next⟩ := bc
  refine ⟨⟨es ++ fs, ?_, by rw [bc_trace, ab_trace, List.append_assoc]⟩, bc_next.trans ab_next⟩
  intro e he
  rcases List.mem_append.1 he with he | he
  · exact hes e he
  · exact hfs e he

theorem Only.log {kind : Event → Bool} {a b : World} (ab : Only kind a b) {e : Event}
    (he : kind e) : Only kind a (b.log e) :=
  ab.trans ⟨⟨[e], by simpa using he, rfl⟩, rfl⟩

theorem Only.aside {a b : World} (ab : Only Event.isAgent a b) : Aside a b := by
  obtain ⟨⟨es, agent, trace⟩, next⟩ := ab
  refine ⟨⟨es, ?_, trace⟩, next⟩
  intro e he
  have kind := agent e he
  cases e <;> first | rfl | cases kind

theorem Quiet.aside {a b : World} (quiet : Quiet a b) : Aside a b :=
  ⟨⟨[], by simp, by simpa using quiet.trace⟩, quiet.nextConn⟩

theorem Aside.refl (w : World) : Aside w w := (Quiet.refl w).aside

theorem Aside.trans {a b c : World} (ab : Aside a b) (bc : Aside b c) : Aside a c := by
  obtain ⟨⟨es, hes, ab_trace⟩, ab_next⟩ := ab
  obtain ⟨⟨fs, hfs, bc_trace⟩, bc_next⟩ := bc
  refine ⟨⟨es ++ fs, ?_, by rw [bc_trace, ab_trace, List.append_assoc]⟩, bc_next.trans ab_next⟩
  intro e he
  rcases List.mem_append.1 he with he | he
  · exact hes e he
  · exact hfs e he

theorem Aside.log {a b : World} (ab : Aside a b) {e : Event} (he : e.isAside) :
    Aside a (b.log e) :=
  ab.trans ⟨⟨[e], by simpa using he, rfl⟩, rfl⟩

theorem draw_quiet (w : World) : Quiet w w.draw.2 := by
  unfold draw
  split
  · exact .refl w
  · exact ⟨rfl, rfl⟩

theorem clock_quiet (w : World) : Quiet w w.clock.2 := w.draw_quiet

theorem retryOn_quiet {α : Type} (call : Answer → Except Errno α) (script : List Answer)
    (w : World) : Quiet w (retryOn call script w).2 := by
  induction script generalizing w with
  | nil => exact ⟨rfl, rfl⟩
  | cons answer rest ih =>
      rw [retryOn]
      split
      · have rest := ih { w with script := rest, now := w.now + answer.elapsed }
        exact ⟨rest.trace, rest.nextConn⟩
      · exact ⟨rfl, rfl⟩

theorem retry_quiet {α : Type} (call : Answer → Except Errno α) (w : World) :
    Quiet w (w.retry call).2 := retryOn_quiet ..

theorem read_quiet (w : World) (bufLen : Nat) : Quiet w (w.read bufLen).2 := retry_quiet ..

theorem readOrEof_quiet (w : World) (bufLen : Nat) : Quiet w (w.readOrEof bufLen).2 := by
  have quiet := w.read_quiet bufLen
  unfold readOrEof
  split
  · exact .refl w
  · split <;> simp_all

theorem drainTo_quiet (w : World) (queue : Bytes) : Quiet w (w.drainTo queue).2 := by
  have quiet := w.retry_quiet (·.write)
  unfold drainTo
  split
  · exact .refl w
  · split <;> simp_all

theorem drainTo_split (w : World) (queue : Bytes) :
    (w.drainTo queue).1.written ++ (w.drainTo queue).1.queue = queue := by
  unfold drainTo
  split
  · rfl
  · split <;> simp

theorem retryOn_ok {α : Type} {call : Answer → Except Errno α} {script : List Answer}
    {w w' : World} {value : α} (h : retryOn call script w = (.ok value, w')) :
    ∃ answer, call answer = .ok value := by
  induction script generalizing w with
  | nil => exact ⟨{}, (Prod.mk.inj h).1⟩
  | cons answer rest ih =>
      rw [retryOn] at h
      split at h
      · exact ih h
      · exact ⟨answer, (Prod.mk.inj h).1⟩

theorem read_length (w : World) {bufLen : Nat} {bytes : Bytes} {w' : World}
    (h : w.read bufLen = (.ok bytes, w')) : bytes.length ≤ bufLen := by
  obtain ⟨answer, given⟩ := retryOn_ok h
  cases read : answer.read with
  | error err => simp [read, Except.map] at given
  | ok all =>
      simp only [read, Except.map, Except.ok.injEq] at given
      rw [← given, List.length_take]
      exact Nat.min_le_left ..

end World
end Nomux
