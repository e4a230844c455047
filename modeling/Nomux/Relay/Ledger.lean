import Nomux.Relay.Basic

/-!
# The relay keeps its account

What has been read off each source and written to each destination, kept along the calls the relay
makes. A call is allowed where the account says so.
-/

namespace Nomux.Relay
open Program

inductive Direction
  | upload
  | download
  deriving DecidableEq

namespace Direction

def src : Direction → Fd
  | .upload => .stdin
  | .download => .socket

def dst : Direction → Fd
  | .upload => .socket
  | .download => .stdout

theorem src_inj {d e : Direction} (h : d.src = e.src) : d = e := by
  cases d <;> cases e <;> first | rfl | cases h

theorem dst_inj {d e : Direction} (h : d.dst = e.dst) : d = e := by
  cases d <;> cases e <;> first | rfl | cases h

end Direction

structure Ledger where
  /-- Everything read off a descriptor. -/
  taken : Fd → Bytes := fun _ => []
  /-- Everything a descriptor has accepted. -/
  given : Fd → Bytes := fun _ => []
  /-- What the last `poll` said of it. -/
  polled : Fd → PollFlags := fun _ => {}
  ended : Fd → Bool := fun _ => false
  /-- It has stopped reading. -/
  closed : Fd → Bool := fun _ => false
  failure : Option Halt := none

/-- What came back for a descriptor: the events of its slot. -/
def reported (fds : List PollFd) (events : List PollFlags) (fd : Fd) : PollFlags :=
  (((fds.map PollFd.fd).zip events).lookup fd).getD {}

namespace Ledger

def fail (l : Ledger) (why : Halt) : Ledger := { l with failure := some why }

def settle {α : Type} (l : Ledger) : Except Errno α → Ledger
  | .ok _ => l
  | .error e => l.fail (.failed e)

def polls (l : Ledger) (fds : List PollFd) : Except Errno (List PollFlags) → Ledger
  | .ok events => { l with
      polled := reported fds events
      closed := fun fd =>
        l.closed fd || (fd = .stdout && PollFlags.gone (reported fds events fd)) }
  | .error .intr => l
  | .error e => l.fail (.failed e)

def ends (l : Ledger) (fd : Fd) : Ledger := { l with ended := Function.update l.ended fd true }

/-- Nothing pending is an end where the descriptor has an error latched. -/
def reads (l : Ledger) (fd : Fd) : Except Errno Chunk → Ledger
  | .ok chunk =>
      if chunk.1 = [] then l.ends fd
      else { l with taken := Function.update l.taken fd (l.taken fd ++ chunk.1) }
  | .error .io | .error .connReset | .error .notConn => l.ends fd
  | .error .again => if (l.polled fd).err then l.ends fd else l
  | .error .intr => l
  | .error e => l.fail (.failed e)

def writes (l : Ledger) (fd : Fd) (bytes : Bytes) : Except Errno Nat → Ledger
  | .ok 0 => l.fail .writeZero
  | .ok n => { l with given := Function.update l.given fd (l.given fd ++ bytes.take n) }
  | .error .again | .error .intr => l
  | .error .pipe => { l with closed := Function.update l.closed fd true }
  | .error e => l.fail (.failed e)

def after (l : Ledger) : (c : Call) → Reply c → Ledger
  | .poll fds, reply => l.polls fds reply
  | .read fd, reply => l.reads fd reply
  | .write fd bytes, reply => l.writes fd bytes reply
  | .setNonblocking, reply | .spawnStdout, reply | .finishStdout, reply => l.settle reply
  | .shutdownWrite, _ => l

/-- Everything read off the source is at the destination. -/
def Level (l : Ledger) (d : Direction) : Prop := l.given d.dst = l.taken d.src

def Finished (l : Ledger) : Prop :=
  l.closed .stdout = true ∨ l.ended .socket = true ∧ l.Level .download

/-- A source is read where nothing is owed, a destination is offered exactly what it is owed, and
the write half of the socket is shut down where all of stdin has been written. -/
def Allows (l : Ledger) : Call → Prop
  | .read fd => ∃ d : Direction, d.src = fd ∧ l.Level d
  | .write fd bytes => ∃ d : Direction, d.dst = fd ∧ bytes ≠ [] ∧ l.closed fd = false ∧
      l.given fd ++ bytes = l.taken d.src
  | .shutdownWrite => l.Level .upload
  | .finishStdout => l.Finished
  | .poll _ => l.closed .stdout = false
  | .setNonblocking | .spawnStdout => True

/-- Nothing is asked after a failure. -/
def Permits (l : Ledger) (c : Call) : Prop := l.failure = none ∧ l.Allows c

/-- A program is left with the failure of its last call. -/
def Failed (l : Ledger) (why : Halt) : Prop := l.failure = some why ∨ why = .unfinished

end Ledger

abbrev Keeps {α : Type} (program : Run α) (l : Ledger) (post : Ledger → α → Prop) : Prop :=
  FollowsOr Ledger.after Ledger.Permits Ledger.Failed program l post

theorem keeps_sys {c : Call} {l : Ledger} {post : Ledger → Reply c → Prop} :
    Keeps (sys c) l post ↔ l.Permits c ∧ ∀ reply, post (l.after c reply) reply := .rfl

theorem keeps_check {reply : Except Errno Unit} {l : Ledger} {post : Ledger → Unit → Prop}
    (fine : reply = .ok () → post l ()) (held : ∀ e, reply = .error e → l.failure = some (.failed e)) :
    Keeps (check reply) l post := by
  cases reply with
  | ok value => exact fine rfl
  | error e => exact .inl (held e rfl)

/-! ## Pumps -/

namespace Pump

theorem hasData_iff {p : Pump} : p.hasData = true ↔ p.pending ≠ [] := by
  simp [hasData, owed, pending, Nat.sub_eq_zero_iff_le]

theorem hasData_eq_false {p : Pump} : p.hasData = false ↔ p.pending = [] := by
  rw [← Bool.not_eq_true, hasData_iff, not_not]

@[simp] theorem forfeit_pending (p : Pump) : p.forfeit.pending = [] := by
  simp [forfeit, pending]

theorem advance_pending (p : Pump) (n : Nat) :
    p.pending.take n ++ (p.advance n).pending = p.pending := by
  have rest : (p.advance n).pending = p.pending.drop n := by
    show p.buf.drop (min p.buf.length (p.pos + n)) = (p.buf.drop p.pos).drop n
    rw [List.drop_drop]
    rcases Nat.le_total p.buf.length (p.pos + n) with short | long
    · rw [Nat.min_eq_left short, List.drop_of_length_le le_rfl, List.drop_of_length_le short]
    · rw [Nat.min_eq_right long]
  rw [rest, List.take_append_drop]

end Pump

/-- A pump owes what was read off its source and has not been written. -/
def Ledger.Owes (l : Ledger) (d : Direction) (p : Pump) : Prop :=
  l.given d.dst ++ p.pending = l.taken d.src

theorem Ledger.Owes.level {l : Ledger} {d : Direction} {p : Pump} (h : l.Owes d p)
    (empty : p.hasData = false) : l.Level d := by
  rw [Ledger.Owes, Pump.hasData_eq_false.1 empty, List.append_nil] at h
  exact h

/-! ## Reading -/

theorem nbioRead_keeps (fd : Fd) (fuel : Nat) {l : Ledger} (permitted : l.Permits (.read fd)) :
    Keeps (nbioRead fd fuel) l fun l' outcome =>
      l' = l.reads fd outcome ∧ outcome ≠ .error .intr := by
  induction fuel with
  | zero => exact .inr rfl
  | succ fuel ih =>
      apply followsOr_bind.2
      apply keeps_sys.2
      refine ⟨permitted, fun reply => ?_⟩
      rcases reply with (_ | _ | _ | _ | _ | _ | _) | chunk
      case error.intr => exact ih
      all_goals exact ⟨rfl, by simp⟩

/-- What a read changes: the bytes taken off its source, and whether that has ended. -/
structure Filled (d : Direction) (l : Ledger) (p : Pump) (alive : Bool) (l' : Ledger) : Prop where
  going : l'.failure = none
  owes : l'.Owes d p
  spent : alive = false → p.hasData = false
  ended : alive = false ∨ p.hasData = false ∧ (l.polled d.src).err = true → l'.ended d.src = true
  taken : ∀ e ≠ d, l'.taken e.src = l.taken e.src
  given : l'.given = l.given
  closed : l'.closed = l.closed
  polled : l'.polled = l.polled
  stays : ∀ fd, l.ended fd = true → l'.ended fd = true

theorem Filled.ends {d : Direction} {l : Ledger} {p : Pump} (alive : Bool)
    (going : l.failure = none) (owes : l.Owes d p) (empty : p.hasData = false) :
    Filled d l p alive (l.ends d.src) := by
  refine ⟨going, owes, fun _ => empty, fun _ => ?_, fun _ _ => rfl, rfl, rfl, rfl, fun fd held => ?_⟩
  · exact Function.update_self ..
  · rcases eq_or_ne fd d.src with rfl | other
    · exact Function.update_self ..
    · exact (Function.update_of_ne other ..).trans held

theorem Filled.chunk {d : Direction} {l : Ledger} {chunk : Chunk} (going : l.failure = none)
    (level : l.Level d) (some : chunk.1 ≠ []) :
    Filled d l (.fill chunk) true (l.reads d.src (.ok chunk)) := by
  have reads : l.reads d.src (.ok chunk) = { l with
      taken := Function.update l.taken d.src (l.taken d.src ++ chunk.1) } := if_neg some
  rw [reads]
  refine ⟨going, ?_, by simp, ?_, fun e other => ?_, rfl, rfl, rfl, fun _ held => held⟩
  · show l.given d.dst ++ chunk.1 = Function.update l.taken d.src (l.taken d.src ++ chunk.1) d.src
    rw [Function.update_self, level]
  · rintro (dead | ⟨empty, -⟩)
    · cases dead
    · exact absurd (Pump.hasData_eq_false.1 empty) some
  · exact Function.update_of_ne (fun same => other (Direction.src_inj same)) ..

theorem fillFrom_keeps (d : Direction) (fuel : Nat) {l : Ledger} {p : Pump}
    (going : l.failure = none) (owes : l.Owes d p) (empty : p.hasData = false) :
    Keeps (p.fillFrom d.src fuel) l fun l' filled => Filled d l filled.1 filled.2 l' := by
  have level := owes.level empty
  apply (nbioRead_keeps d.src fuel ⟨going, d, rfl, level⟩).bind
  rintro l' outcome ⟨rfl, settled⟩
  rcases outcome with (_ | _ | _ | _ | _ | _ | _) | chunk
  case error.again =>
    show Filled d l p true (if _ then _ else _)
    split
    · exact .ends _ going owes empty
    · rename_i quiet
      refine ⟨going, owes, by simp, ?_, fun _ _ => rfl, rfl, rfl, rfl, fun _ held => held⟩
      rintro (dead | ⟨-, latched⟩)
      · cases dead
      · exact absurd latched quiet
  case error.intr => exact absurd rfl settled
  case error.io | error.connReset | error.notConn => exact .ends _ going owes empty
  case error.pipe | error.other => exact .inl rfl
  case ok =>
    show Filled d l (if _ then _ else _ : Pump × Bool).1 (if _ then _ else _ : Pump × Bool).2
      (l.reads d.src (.ok chunk))
    by_cases none : chunk.1 = []
    · have reads : l.reads d.src (.ok chunk) = l.ends d.src := if_pos none
      rw [if_pos none, reads]
      exact .ends _ going owes empty
    · rw [if_neg none]
      exact .chunk going level none

/-! ## Writing -/

theorem writeOnce_keeps (fd : Fd) (bytes : Bytes) (fuel : Nat) {l : Ledger}
    (permitted : l.Permits (.write fd bytes)) :
    Keeps (writeOnce fd bytes fuel) l fun l' outcome =>
      l' = l.writes fd bytes outcome ∧ outcome ≠ .error .intr := by
  induction fuel with
  | zero => exact .inr rfl
  | succ fuel ih =>
      apply followsOr_bind.2
      apply keeps_sys.2
      refine ⟨permitted, fun reply => ?_⟩
      rcases reply with (_ | _ | _ | _ | _ | _ | _) | n
      case error.intr => exact ih
      all_goals exact ⟨rfl, by simp⟩

/-- What a write changes: the bytes its destination has accepted, or that it has stopped reading. -/
structure Drained (d : Direction) (l : Ledger) (p : Pump) (alive : Bool) (l' : Ledger) : Prop where
  going : l'.failure = none
  owes : alive = true → l'.Owes d p ∧ l'.closed = l.closed
  lost : alive = false → l'.closed d.dst = true ∧ p.pending = []
  given : ∀ e ≠ d, l'.given e.dst = l.given e.dst
  closed : ∀ e ≠ d, l'.closed e.dst = l.closed e.dst
  taken : l'.taken = l.taken
  ended : l'.ended = l.ended
  polled : l'.polled = l.polled

theorem Drained.same {d : Direction} {l : Ledger} {p : Pump} (going : l.failure = none)
    (owes : l.Owes d p) : Drained d l p true l :=
  ⟨going, fun _ => ⟨owes, rfl⟩, by simp, fun _ _ => rfl, fun _ _ => rfl, rfl, rfl, rfl⟩

theorem Drained.some {d : Direction} {l : Ledger} {p : Pump} (n : Nat) (going : l.failure = none)
    (owes : l.Owes d p) : Drained d l (p.advance (n + 1)) true
      (l.writes d.dst p.pending (.ok (n + 1))) := by
  refine ⟨going, fun _ => ⟨?_, rfl⟩, by simp, fun e other => ?_, fun _ _ => rfl, rfl, rfl, rfl⟩
  · show Function.update l.given d.dst (l.given d.dst ++ p.pending.take (n + 1)) d.dst ++ _ = _
    rw [Function.update_self, List.append_assoc, Pump.advance_pending]
    exact owes
  · exact Function.update_of_ne (fun same => other (Direction.dst_inj same)) ..

theorem Drained.pipe {d : Direction} {l : Ledger} (p : Pump) (going : l.failure = none) :
    Drained d l p.forfeit false (l.writes d.dst p.pending (.error .pipe)) := by
  refine ⟨going, by simp, fun _ => ⟨?_, p.forfeit_pending⟩, fun _ _ => rfl, fun e other => ?_, rfl,
    rfl, rfl⟩
  · exact Function.update_self ..
  · exact Function.update_of_ne (fun same => other (Direction.dst_inj same)) ..

theorem drainTo_keeps (d : Direction) (fuel : Nat) {l : Ledger} {p : Pump}
    (going : l.failure = none) (owes : l.Owes d p)
    («open» : p.hasData = true → l.closed d.dst = false) :
    Keeps (p.drainTo d.dst fuel) l fun l' drained => Drained d l drained.1 drained.2 l' := by
  unfold Pump.drainTo
  split
  · rename_i data
    have permitted : l.Permits (.write d.dst p.pending) :=
      ⟨going, d, rfl, Pump.hasData_iff.1 data, «open» data, owes⟩
    apply (writeOnce_keeps d.dst p.pending fuel permitted).bind
    rintro l' outcome ⟨rfl, settled⟩
    rcases outcome with (_ | _ | _ | _ | _ | _ | _) | (_ | n)
    case error.again => exact .same going owes
    case error.intr => exact absurd rfl settled
    case error.pipe => exact .pipe p going
    case ok.succ => exact .some n going owes
    all_goals exact .inl rfl
  · exact .same going owes

end Nomux.Relay
