import Nomux.Relay.Worker

/-!
# What the relay reads is written to stdout

The account of the worker beside that of the relay: what the one has written the other has read, but for
what is still between them.
-/

namespace Nomux.Relay
open Program

/-! ## The worker -/

def Ledger.Ends (l : Ledger) : Except Halt Unit → Prop
  | .ok () => l.closed .stdout = true ∨ l.ended .socket = true ∧ l.Level .download
  | .error why => l.failure = some why

/-- What is reported is how the copying ended. -/
def Ledger.Honest (l : Ledger) (raw : Bytes) : Prop :=
  ∃ outcome, raw = toNeBytes (statusOf outcome) ∧ l.Ends outcome

structure WorkerRole where
  ledger : Ledger := {}
  sent : Bytes := []
  told : Bool := false
  left : Bool := false

namespace WorkerRole

def after (role : WorkerRole) : (c : WorkerCall) → WorkerReply c → WorkerRole
  | .io c, reply => { role with ledger := role.ledger.after c reply }
  | .count, _ => role
  | .status bytes, .ok n => { role with sent := role.sent ++ bytes.take n, told := true }
  | .status _, .error _ => { role with told := true }
  | .close, _ => { role with left := true }

/-- Nothing is read or written behind the report. -/
def Allows (role : WorkerRole) : WorkerCall → Prop
  | .io c => role.told = false ∧ role.left = false ∧ role.ledger.Permits c
  | .count => True
  | .status bytes => role.left = false ∧ role.ledger.Honest (role.sent ++ bytes)
  | .close => role.left = false

structure Copying (role : WorkerRole) : Prop where
  told : role.told = false
  left : role.left = false
  sent : role.sent = []

def Broken (role : WorkerRole) (why : Halt) : Prop := role.Copying ∧ role.ledger.Failed why

end WorkerRole

abbrev Works {α : Type} (program : WorkerRun α) (role : WorkerRole) (post : WorkerRole → α → Prop) : Prop :=
  FollowsOr WorkerRole.after WorkerRole.Allows WorkerRole.Broken program role post

theorem works_work {c : WorkerCall} {role : WorkerRole} {post : WorkerRole → WorkerReply c → Prop} :
    Works (work c) role post ↔ role.Allows c ∧ ∀ reply, post (role.after c reply) reply := .rfl

theorem works_io {α : Type} {program : Run α} {role : WorkerRole} {post : Ledger → α → Prop}
    (copying : role.Copying) (h : Keeps program role.ledger post) :
    Works (onWorker program) role fun role value => role.Copying ∧ post role.ledger value := by
  have inside : Follows WorkerRole.after WorkerRole.Allows
      (embed WorkerCall.io (fun _ reply => reply) program.run) role _ :=
    Follows.embed WorkerCall.io _ WorkerRole.ledger WorkerRole.Copying
      (fun role c copying permitted => ⟨⟨copying.told, copying.left, permitted⟩, fun reply =>
        ⟨⟨copying.told, copying.left, copying.sent⟩, rfl⟩⟩) copying h
  apply inside.mono
  · exact fun _ _ allowed => allowed
  · rintro role (why | value) held
    · exact held
    · exact held

/-- What the pump of the worker owes stdout, between two of its passes. -/
structure Pumping (role : WorkerRole) (p : Pump) : Prop where
  copying : role.Copying
  going : role.ledger.failure = none
  owes : role.ledger.Owes .download p
  «open» : role.ledger.closed .stdout = false

/-- Where the inner loop ends, it has emptied the pump, or stdout takes no more. -/
def Emptied (role : WorkerRole) : Option Pump → Prop
  | some p => Pumping role p ∧ p.hasData = false
  | none => role.Copying ∧ role.ledger.failure = none ∧ role.ledger.closed .stdout = true

theorem deliverReady_works (fuel : Nat) {events : PollFlags} {role : WorkerRole} {p : Pump}
    {again : Pump → WorkerRun (Option Pump)} (copying : role.Copying)
    (going : role.ledger.failure = none) (owes : role.ledger.Owes .download p)
    (own : role.ledger.closed .stdout = PollFlags.gone events)
    (onward : ∀ role p, Pumping role p → Works (again p) role Emptied) :
    Works (deliverReady fuel events p again) role Emptied := by
  unfold deliverReady
  split
  · next gone => exact ⟨copying, going, own.trans gone⟩
  · next reading =>
      have unclosed : role.ledger.closed .stdout = false := own.trans (by simpa using reading)
      have moves (role : WorkerRole) (q : Pump) (pumping : Pumping role q) :
          Works (if q.owed < p.owed then do work .count; again q else again q) role Emptied := by
        split
        · apply followsOr_bind.2
          apply works_work.2
          exact ⟨trivial, fun _ => onward _ _ pumping⟩
        · exact onward _ _ pumping
      split
      · apply (works_io copying (drainTo_keeps .download fuel going owes fun _ => unclosed)).bind
        rintro role ⟨q, alive⟩ ⟨copying, drained⟩
        cases alive with
        | true =>
            obtain ⟨owes, closed⟩ := drained.owes rfl
            exact moves role q ⟨copying, drained.going, owes, by rw [closed]; exact unclosed⟩
        | false => exact ⟨copying, drained.going, (drained.lost rfl).1⟩
      · exact moves role p ⟨copying, going, owes, unclosed⟩

theorem deliver_works (fuel rounds : Nat) {role : WorkerRole} {p : Pump} (h : Pumping role p) :
    Works (deliver fuel rounds p) role Emptied := by
  induction rounds generalizing role p with
  | zero =>
      unfold deliver
      split
      · exact ⟨h.copying, .inr rfl⟩
      · next empty => exact ⟨h, by simpa using empty⟩
  | succ rounds ih =>
      unfold deliver
      split
      · apply followsOr_bind.2
        apply works_work.2
        refine ⟨⟨h.copying.told, h.copying.left, h.going, h.open⟩, fun reply => ?_⟩
        rcases reply with (_ | _ | _ | _ | _ | _ | _) | events
        case error.intr => exact ih h
        case ok =>
          have own : (role.ledger.polls [⟨.stdout, { output := true }⟩] (.ok events)).closed .stdout =
              PollFlags.gone (events.headD {}) := by
            show (role.ledger.closed .stdout || _) = _
            rw [h.open]
            cases events <;> rfl
          have copying : WorkerRole.Copying
              { role with ledger := role.ledger.polls [⟨.stdout, { output := true }⟩] (.ok events) } :=
            ⟨h.copying.told, h.copying.left, h.copying.sent⟩
          exact deliverReady_works fuel copying h.going h.owes own fun _ _ => ih
        all_goals exact ⟨⟨h.copying.told, h.copying.left, h.copying.sent⟩, .inl rfl⟩
      · next empty => exact ⟨h, by simpa using empty⟩

theorem copyChannelToStdout_works (fuel rounds : Nat) {role : WorkerRole} {p : Pump}
    (h : Pumping role p) (empty : p.hasData = false) :
    Works (copyChannelToStdout fuel rounds p) role fun role _ =>
      role.Copying ∧ role.ledger.Ends (.ok ()) := by
  induction rounds generalizing role p with
  | zero => exact ⟨h.copying, .inr rfl⟩
  | succ rounds ih =>
      unfold copyChannelToStdout
      apply (works_io h.copying (fillFrom_keeps .download fuel h.going h.owes empty)).bind
      rintro role ⟨q, alive⟩ ⟨copying, filled⟩
      cases alive with
      | true =>
          have unclosed : role.ledger.closed .stdout = false := by
            rw [filled.closed]
            exact h.open
          apply (deliver_works fuel fuel ⟨copying, filled.going, filled.owes, unclosed⟩).bind
          rintro role (_ | q) emptied
          · exact ⟨emptied.1, .inl emptied.2.2⟩
          · exact ih emptied.1 emptied.2
      | false =>
          have spent := filled.owes.level (filled.spent rfl)
          exact ⟨copying, .inr ⟨filled.ended (.inl rfl), spent⟩⟩

/-- Nothing is said of how the report fails. -/
abbrev Reports {α : Type} (program : WorkerRun α) (role : WorkerRole) (post : WorkerRole → α → Prop) :
    Prop := FollowsOr WorkerRole.after WorkerRole.Allows (fun _ _ => True) program role post

theorem reports_work {c : WorkerCall} {role : WorkerRole} {post : WorkerRole → WorkerReply c → Prop} :
    Reports (work c) role post ↔ role.Allows c ∧ ∀ reply, post (role.after c reply) reply := .rfl

theorem writeStatus_reports (fuel : Nat) {role : WorkerRole} {bytes : Bytes} (here : role.left = false)
    (honest : role.ledger.Honest (role.sent ++ bytes)) :
    Reports (writeStatus fuel bytes) role fun role _ => role.left = false := by
  induction fuel generalizing role bytes with
  | zero =>
      unfold writeStatus
      split
      · exact here
      · trivial
  | succ fuel ih =>
      unfold writeStatus
      split
      · exact here
      · apply followsOr_bind.2
        apply reports_work.2
        refine ⟨⟨here, honest⟩, fun reply => ?_⟩
        rcases reply with (_ | _ | _ | _ | _ | _ | _) | (_ | n)
        case error.intr => exact @ih { role with told := true } bytes here honest
        case ok.succ =>
          apply @ih { role with sent := role.sent ++ bytes.take (n + 1), told := true } _ here
          rw [List.append_assoc, List.take_append_drop]
          exact honest
        all_goals exact here

theorem report_reports (fuel : Nat) {role : WorkerRole} {outcome : Except Halt Unit}
    (copying : role.Copying) (ends : outcome = .error .unfinished ∨ role.ledger.Ends outcome) :
    Reports (report fuel outcome) role fun _ _ => True := by
  unfold report
  split
  · trivial
  · next _ finished =>
      have honest : role.ledger.Honest (role.sent ++ toNeBytes (statusOf outcome)) := by
        rw [copying.sent]
        refine ⟨outcome, rfl, ends.resolve_left ?_⟩
        rintro rfl
        exact finished rfl
      apply (writeStatus_reports fuel copying.left honest).bind
      intro role _ here
      exact ⟨here, fun _ => trivial⟩

theorem stdoutWorker_reports (fuel : Nat) : Reports (stdoutWorker fuel) {} fun _ _ => True := by
  have first : Pumping {} default := ⟨⟨rfl, rfl, rfl⟩, rfl, rfl, rfl⟩
  apply Follows.bind (copyChannelToStdout_works fuel fuel first rfl)
  rintro role (why | _) held
  · apply report_reports fuel held.1
    rcases held.2 with failed | rfl
    · exact .inr failed
    · exact .inl rfl
  · exact report_reports fuel held.1 (.inr held.2)

/-! ## The relay -/

structure MainRole where
  ledger : Ledger := {}
  shut : Bool := false
  /-- What the worker has reported. -/
  received : Bytes := []

namespace MainRole

def after (role : MainRole) : (c : MainCall) → MainReply c → MainRole
  | .relay c, reply => { role with ledger := role.ledger.after c reply }
  | .finish .shutdownWrite, _ => { role with shut := true }
  | .finish (.read _), .ok chunk => { role with received := role.received ++ chunk.1 }
  | .finish _, _ => role

/-- The channel is shut down where the loop has ended, and then nothing is relayed any more. -/
def Allows (role : MainRole) : MainCall → Prop
  | .relay c => role.shut = false ∧ role.received = [] ∧ role.ledger.Permits c
  | .finish .shutdownWrite => role.ledger.Finished
  | .finish (.read len) => role.shut = true ∧ role.received.length + len = 4
  | .finish _ => True

/-- The answer is the report of the worker, where there is one. -/
def Answers (role : MainRole) : Except MainHalt Unit → Prop
  | .ok () => role.shut = true ∧ role.received.length = 4 ∧ fromNeBytes role.received = 0
  | .error (.stdout status) =>
      role.received.length = 4 ∧ 0 < status ∧ fromNeBytes role.received = status
  | .error _ => True

end MainRole

abbrev Relays (program : MainRun Unit) (role : MainRole) : Prop :=
  program.run.Follows MainRole.after MainRole.Allows role MainRole.Answers

theorem relayBytes_keeps (fuel : Nat) :
    Keeps (relayBytes fuel) {} fun l _ => l.failure = none ∧ l.Finished := by
  have start : Looping {} {} :=
    ⟨⟨rfl, fun _ => rfl, by simp, fun _ => rfl, by simp, by simp⟩, fun _ => rfl⟩
  apply followsOr_bind.2
  apply keeps_sys.2
  refine ⟨⟨rfl, trivial⟩, fun nonblocking => ?_⟩
  apply followsOr_bind.2
  apply keeps_check
  case held => rintro e rfl; rfl
  rintro rfl
  apply followsOr_bind.2
  apply keeps_sys.2
  refine ⟨⟨rfl, trivial⟩, fun spawned => ?_⟩
  apply followsOr_bind.2
  apply keeps_check
  case held => rintro e rfl; rfl
  rintro rfl
  exact relayLoop_keeps fuel fuel start

theorem relays_bind {c : FinishCall} {next : FinishReply c → MainRun Unit} {role : MainRole}
    (allowed : role.Allows (.finish c))
    (onward : ∀ reply, Relays (next reply) (role.after (.finish c) reply)) :
    Relays (fin c >>= next) role := by
  refine ⟨allowed, fun reply => ?_⟩
  exact onward reply

theorem relays_accept {reply : Except Errno Unit} {next : Unit → MainRun Unit} {role : MainRole}
    (onward : Relays (next ()) role) : Relays (accept reply >>= next) role := by
  cases reply with
  | error e => trivial
  | ok value => exact onward

theorem settle_relays {role : MainRole} (shut : role.shut = true) (whole : role.received.length = 4) :
    Relays (settle role.received) role := by
  unfold settle
  split
  · next zero => exact ⟨shut, whole, zero⟩
  · split
    · next positive => exact ⟨whole, positive, rfl⟩
    · trivial

theorem look_relays {seen : Nat} {delivered : Bool} {again : Nat → MainRun Unit} {role : MainRole}
    (onward : ∀ seen, Relays (again seen) role) : Relays (look seen delivered again) role := by
  refine relays_bind ?_ fun progress => ?_
  · trivial
  · by_cases moved : (delivered || progress ≠ seen) = true
    · rw [if_pos moved]
      refine relays_bind ?_ fun _ => onward progress
      trivial
    · rw [if_neg moved]
      exact onward seen

theorem awaitStatus_relays (fuel seen : Nat) {role : MainRole} (shut : role.shut = true)
    (within : role.received.length ≤ 4) : Relays (awaitStatus fuel role.received seen) role := by
  induction fuel generalizing seen role with
  | zero => trivial
  | succ fuel ih =>
      unfold awaitStatus
      split
      case isFalse full => exact settle_relays shut (by omega)
      case isTrue room =>
        have left : role.received.length + (4 - role.received.length) = 4 := by omega
        refine relays_bind ?_ fun passed => ?_
        · trivial
        cases passed with
        | true => trivial
        | false =>
            refine relays_bind ?_ fun timeout => relays_accept (relays_bind ?_ fun reply => ?_)
            · trivial
            · exact ⟨shut, left⟩
            rcases reply with e | chunk
            · by_cases back : comesBack e = true
              · show Relays (if _ then _ else _) _
                rw [if_pos back]
                exact look_relays fun seen => ih seen shut within
              · show Relays (if _ then _ else _) _
                rw [if_neg back]
                trivial
            · by_cases nothing : chunk.1 = []
              · show Relays (if _ then _ else _) _
                rw [if_pos nothing]
                trivial
              · show Relays (if _ then _ else _) _
                rw [if_neg nothing]
                apply look_relays
                intro seen
                apply @ih seen { role with received := role.received ++ chunk.1 } shut
                have fits := chunk.2
                rw [List.length_append]
                omega

theorem finish_relays (fuel : Nat) {role : MainRole} (finished : role.ledger.Finished)
    (nothing : role.received = []) : Relays (finish fuel) role := by
  obtain ⟨ledger, shut, received⟩ := role
  obtain rfl : received = [] := nothing
  refine relays_bind ?_ fun blocking => relays_accept (relays_bind ?_ fun _ =>
    relays_bind ?_ fun seen => relays_bind ?_ fun _ => ?_)
  · trivial
  · exact finished
  · trivial
  · trivial
  · exact @awaitStatus_relays fuel seen ⟨ledger, true, []⟩ rfl (Nat.zero_le _)

theorem relayToEnd_relays (fuel : Nat) : Relays (relayToEnd fuel) {} := by
  have inside : Follows MainRole.after MainRole.Allows
      (embed MainCall.relay (fun _ reply => reply) (relayBytes fuel).run) {} _ :=
    Follows.embed MainCall.relay _ MainRole.ledger (fun role => role.shut = false ∧ role.received = [])
      (fun role c idle permitted => ⟨⟨idle.1, idle.2, permitted⟩, fun reply => ⟨idle, rfl⟩⟩)
      ⟨rfl, rfl⟩ (relayBytes_keeps fuel)
  apply follows_bind.2
  apply follows_bind.2
  apply inside.mono
  · exact fun _ _ allowed => allowed
  · rintro role (why | _) ⟨⟨-, nothing⟩, held⟩
    · trivial
    · exact finish_relays fuel held.2 nothing

/-! ## What a call does to an account -/

section

variable (l : Ledger)

theorem reads_frame (fd : Fd) (reply : Except Errno Chunk) :
    (l.reads fd reply).given = l.given ∧ (l.reads fd reply).closed = l.closed := by
  rcases reply with (_ | _ | _ | _ | _ | _ | _) | chunk
  case error.again =>
    show Ledger.given (if _ then _ else _) = _ ∧ Ledger.closed (if _ then _ else _) = _
    split <;> exact ⟨rfl, rfl⟩
  case ok =>
    show Ledger.given (if _ then _ else _) = _ ∧ Ledger.closed (if _ then _ else _) = _
    split <;> exact ⟨rfl, rfl⟩
  all_goals exact ⟨rfl, rfl⟩

theorem writes_frame (fd : Fd) (bytes : Bytes) (reply : Except Errno Nat) :
    (l.writes fd bytes reply).taken = l.taken ∧ (l.writes fd bytes reply).ended = l.ended := by
  rcases reply with (_ | _ | _ | _ | _ | _ | _) | (_ | n) <;> exact ⟨rfl, rfl⟩

theorem polls_frame (fds : List PollFd) (reply : Except Errno (List PollFlags)) :
    (l.polls fds reply).taken = l.taken ∧ (l.polls fds reply).given = l.given ∧
      (l.polls fds reply).ended = l.ended := by
  rcases reply with (_ | _ | _ | _ | _ | _ | _) | events <;> exact ⟨rfl, rfl, rfl⟩

theorem settle_frame (reply : Except Errno Unit) :
    (l.settle reply).taken = l.taken ∧ (l.settle reply).given = l.given ∧
      (l.settle reply).ended = l.ended ∧ (l.settle reply).closed = l.closed := by
  rcases reply with e | value <;> exact ⟨rfl, rfl, rfl, rfl⟩

theorem after_given (c : Call) (reply : Reply c) :
    (l.after c reply).given .stdout = l.given .stdout ++ wrote c reply := by
  cases c with
  | write fd bytes =>
      rcases reply with (_ | _ | _ | _ | _ | _ | _) | (_ | n)
      case ok.succ =>
        show Function.update l.given fd (l.given fd ++ bytes.take (n + 1)) .stdout = _
        cases fd with
        | stdout => exact Function.update_self ..
        | stdin => exact (List.append_nil _).symm
        | socket => exact (List.append_nil _).symm
      all_goals cases fd <;> exact (List.append_nil _).symm
  | read fd =>
      show (l.reads fd reply).given .stdout = l.given .stdout ++ []
      rw [(reads_frame l fd reply).1, List.append_nil]
  | poll fds =>
      show (l.polls fds reply).given .stdout = l.given .stdout ++ []
      rw [(polls_frame l fds reply).2.1, List.append_nil]
  | shutdownWrite => exact (List.append_nil _).symm
  | _ =>
      show (l.settle reply).given .stdout = l.given .stdout ++ []
      rw [(settle_frame l reply).2.1, List.append_nil]

theorem after_taken (c : Call) (reply : Reply c) :
    (l.after c reply).taken .socket = l.taken .socket ++ got c reply := by
  cases c with
  | read fd =>
      rcases reply with (_ | _ | _ | _ | _ | _ | _) | chunk
      case error.again =>
        show Ledger.taken (if _ then _ else _) .socket = _
        cases fd <;> split <;> exact (List.append_nil _).symm
      case ok =>
        show Ledger.taken (if _ then _ else _) .socket = _
        split
        · next nothing =>
            cases fd with
            | socket =>
                show l.taken .socket = l.taken .socket ++ chunk.1
                rw [nothing, List.append_nil]
            | stdin => exact (List.append_nil _).symm
            | stdout => exact (List.append_nil _).symm
        · show Function.update l.taken fd (l.taken fd ++ chunk.1) .socket = _
          cases fd with
          | socket => exact Function.update_self ..
          | stdin => exact (List.append_nil _).symm
          | stdout => exact (List.append_nil _).symm
      all_goals cases fd <;> exact (List.append_nil _).symm
  | write fd bytes =>
      show (l.writes fd bytes reply).taken .socket = l.taken .socket ++ []
      rw [(writes_frame l fd bytes reply).1, List.append_nil]
  | poll fds =>
      show (l.polls fds reply).taken .socket = l.taken .socket ++ []
      rw [(polls_frame l fds reply).1, List.append_nil]
  | shutdownWrite => exact (List.append_nil _).symm
  | _ =>
      show (l.settle reply).taken .socket = l.taken .socket ++ []
      rw [(settle_frame l reply).1, List.append_nil]

end

namespace Pair

variable {s : Pair} {c : Call} {reply : Reply c}

theorem ended_shut (gives : s.ChannelGives c reply)
    (ended : (s.delivered.after c reply).ended .socket = true) :
    s.delivered.ended .socket = true ∨ s.queue = [] ∧ s.shut = true := by
  cases c with
  | read fd =>
      rcases reply with (_ | _ | _ | _ | _ | _ | _) | chunk
      case ok =>
        have ended : Ledger.ended (if _ then _ else _) .socket = true := ended
        split at ended
        · next nothing =>
            cases fd with
            | socket => exact .inr (gives.2 nothing)
            | stdin => exact .inl ended
            | stdout => exact .inl ended
        · exact .inl ended
      case error.again =>
        have ended : Ledger.ended (if _ then _ else _) .socket = true := ended
        cases fd with
        | socket => exact absurd rfl gives.1
        | stdin =>
            split at ended
            · exact .inl ended
            · exact .inl ended
        | stdout =>
            split at ended
            · exact .inl ended
            · exact .inl ended
      case error.io =>
        cases fd with
        | socket => exact absurd rfl gives.2.1
        | stdin => exact .inl ended
        | stdout => exact .inl ended
      case error.connReset =>
        cases fd with
        | socket => exact absurd rfl gives.2.2.1
        | stdin => exact .inl ended
        | stdout => exact .inl ended
      case error.notConn =>
        cases fd with
        | socket => exact absurd rfl gives.2.2.2
        | stdin => exact .inl ended
        | stdout => exact .inl ended
      all_goals exact .inl ended
  | write fd bytes => exact .inl ((writes_frame s.delivered fd bytes reply).2 ▸ ended)
  | poll fds => exact .inl ((polls_frame s.delivered fds reply).2.2 ▸ ended)
  | shutdownWrite => exact .inl ended
  | _ => exact .inl ((settle_frame s.delivered reply).2.2.1 ▸ ended)

theorem closed_left (gives : s.MainGives (.relay c) reply)
    (closed : (s.relayed.after c reply).closed .stdout = true) :
    s.relayed.closed .stdout = true ∨ s.left = true := by
  cases c with
  | read fd => exact .inl ((reads_frame s.relayed fd reply).2 ▸ closed)
  | write fd bytes =>
      rcases reply with (_ | _ | _ | _ | _ | _ | _) | (_ | n)
      case error.pipe =>
        cases fd with
        | stdout => exact .inr gives
        | stdin => exact .inl closed
        | socket => exact .inl closed
      all_goals exact .inl closed
  | poll fds =>
      rcases reply with (_ | _ | _ | _ | _ | _ | _) | events
      case ok =>
        have closed : (s.relayed.closed .stdout || (true && PollFlags.gone (reported fds events .stdout))) =
            true := closed
        rcases Bool.or_eq_true_iff.1 closed with before | gone
        · exact .inl before
        · exact .inr (gives gone)
      all_goals exact .inl closed
  | shutdownWrite => exact .inl closed
  | _ => exact .inl ((settle_frame s.relayed reply).2.2.2 ▸ closed)

theorem failure_fits {l : Ledger} (fits : Fits c reply) (going : l.failure = none) {e : Errno}
    (failed : (l.after c reply).failure = some (.failed e)) : e.raw < 2 ^ 31 := by
  have unfailed {l' : Ledger} (same : l'.failure = l.failure)
      (failed : l'.failure = some (.failed e)) : e.raw < 2 ^ 31 := by
    rw [same, going] at failed
    cases failed
  cases c with
  | read fd =>
      rcases reply with (_ | _ | _ | _ | _ | _ | _) | chunk
      case error.again =>
        have failed : Ledger.failure (if _ then _ else _) = _ := failed
        split at failed
        · exact unfailed rfl failed
        · exact unfailed rfl failed
      case ok =>
        have failed : Ledger.failure (if _ then _ else _) = _ := failed
        split at failed
        · exact unfailed rfl failed
        · exact unfailed rfl failed
      case error.pipe | error.other =>
        cases failed
        exact fits
      all_goals exact unfailed rfl failed
  | write fd bytes =>
      rcases reply with (_ | _ | _ | _ | _ | _ | _) | (_ | n)
      case ok.zero => cases failed
      case error.io | error.connReset | error.notConn | error.other =>
        cases failed
        exact fits
      all_goals exact unfailed rfl failed
  | poll fds =>
      rcases reply with (_ | _ | _ | _ | _ | _ | _) | events
      case ok | error.intr => exact unfailed rfl failed
      all_goals
        cases failed
        exact fits
  | shutdownWrite => exact unfailed rfl failed
  | _ =>
      rcases reply with e | value
      · cases failed
        exact fits
      · exact unfailed rfl failed

/-! ## Every step -/

structure Sound (s : Pair) (received sent : Bytes) (told : Bool) : Prop where
  main : Relays s.main ⟨s.relayed, s.shut, received⟩
  worker : Reports s.worker ⟨s.delivered, sent, told, s.left⟩ fun _ _ => True
  fifo : s.relayed.given .stdout = s.delivered.taken .socket ++ s.queue
  relayed : s.relayed.InOrder
  delivered : s.delivered.InOrder
  ended : s.delivered.ended .socket = true → s.queue = [] ∧ s.shut = true
  /-- Where the relay has found the channel broken, the worker did not leave for its end. -/
  gone : s.relayed.closed .stdout = true → s.left = true ∧ s.delivered.ended .socket = false
  finished : s.shut = true → s.relayed.Finished
  flow : sent = received ++ s.status
  silent : told = false → sent = []
  short : sent.length ≤ 4
  honest : sent.length = 4 → s.delivered.Honest sent
  fits : ∀ e, s.delivered.failure = some (.failed e) → e.raw < 2 ^ 31

variable {received sent : Bytes} {told : Bool}

theorem Sound.main_step (h : Sound s received sent told) {c : MainCall}
    {rest : MainReply c → Program MainReply (Except MainHalt Unit)} {reply : MainReply c}
    (next : s.main = .call c rest) (gives : s.MainGives c reply) :
    ∃ received, Sound ⟨s.mainDoes c reply, rest reply, s.worker⟩ received sent told := by
  have main := h.main
  rw [next] at main
  obtain ⟨allowed, onward⟩ := main
  have onward := onward reply
  cases c with
  | relay c =>
      obtain ⟨shut, -, -, allowed⟩ := allowed
      have shut : s.shut = false := shut
      have unended : s.delivered.ended .socket = false := by
        by_contra ended
        have closed := (h.ended (by simpa using ended)).2
        rw [shut] at closed
        cases closed
      refine ⟨received, { h with
        main := onward, fifo := ?_, relayed := h.relayed.after c reply allowed, ended := ?_,
        gone := ?_, finished := ?_ }⟩
      · show (s.relayed.after c reply).given .stdout =
          s.delivered.taken .socket ++ (s.queue ++ wrote c reply)
        rw [after_given, h.fifo, List.append_assoc]
      · intro ended
        exact absurd (unended.symm.trans ended) (by decide)
      · intro closed
        rcases closed_left gives closed with before | left
        · exact h.gone before
        · exact ⟨left, unended⟩
      · intro closed
        exact absurd (shut.symm.trans closed) (by decide)
  | finish c =>
      cases c with
      | shutdownWrite =>
          exact ⟨received, { h with
            main := onward
            ended := fun ended => ⟨(h.ended ended).1, rfl⟩
            finished := fun _ => allowed }⟩
      | read len =>
          rcases reply with e | chunk
          · exact ⟨received, { h with main := onward }⟩
          · obtain ⟨⟨rest', split⟩, -⟩ := gives
            refine ⟨received ++ chunk.1, { h with main := onward, flow := ?_ }⟩
            show sent = received ++ chunk.1 ++ s.status.drop chunk.1.length
            rw [h.flow, ← split, List.drop_left, List.append_assoc]
      | _ => exact ⟨received, { h with main := onward }⟩

theorem length_toNeBytes (status : Int32) : (toNeBytes status).length = 4 := Spawn.length_toNeBytes _

theorem Sound.worker_step (h : Sound s received sent told) {c : WorkerCall}
    {rest : WorkerReply c → Program WorkerReply (Except Halt Unit)} {reply : WorkerReply c}
    (next : s.worker = .call c rest) (gives : s.WorkerGives c reply) :
    ∃ sent told, Sound ⟨s.workerDoes c reply, s.main, rest reply⟩ received sent told := by
  have worker := h.worker
  rw [next] at worker
  obtain ⟨allowed, onward⟩ := worker
  have onward := onward reply
  cases c with
  | io c =>
      obtain ⟨untold, here, going, allowed⟩ := allowed
      have nothing := h.silent untold
      have front : got c reply <+: s.queue := by
        cases c with
        | read fd =>
            cases fd with
            | socket =>
                rcases reply with e | chunk
                · exact List.nil_prefix
                · exact gives.2.1
            | stdin => exact List.nil_prefix
            | stdout => exact List.nil_prefix
        | _ => exact List.nil_prefix
      refine ⟨sent, told, { h with
        worker := onward, fifo := ?_, delivered := h.delivered.after c reply allowed, ended := ?_,
        gone := ?_, honest := ?_, fits := fun e failed => failure_fits gives.1 going failed }⟩
      · obtain ⟨rest', split⟩ := front
        show s.relayed.given .stdout = (s.delivered.after c reply).taken .socket ++ s.queue.drop _
        rw [after_taken, h.fifo, ← split, List.drop_left, List.append_assoc]
      · intro ended
        show s.queue.drop _ = [] ∧ s.shut = true
        rcases ended_shut gives.2 ended with before | ⟨empty, shut⟩
        · obtain ⟨empty, shut⟩ := h.ended before
          rw [empty, List.drop_nil]
          exact ⟨rfl, shut⟩
        · rw [empty, List.drop_nil]
          exact ⟨rfl, shut⟩
      · intro closed
        exact absurd (here.symm.trans (h.gone closed).1) (by decide)
      · intro whole
        rw [nothing] at whole
        cases whole
  | count => exact ⟨sent, told, { h with worker := onward }⟩
  | close =>
      exact ⟨sent, told, { h with
        worker := onward
        gone := fun closed => absurd (allowed.symm.trans (h.gone closed).1) (by decide) }⟩
  | status bytes =>
      obtain ⟨here, honest⟩ := allowed
      rcases reply with e | n
      · exact ⟨sent, true, { h with worker := onward, silent := fun untold => by cases untold }⟩
      · have whole : (sent ++ bytes).length = 4 := by
          obtain ⟨outcome, same, -⟩ := honest
          rw [same, length_toNeBytes]
        rw [List.length_append] at whole
        have part := List.length_take_le n bytes
        refine ⟨sent ++ bytes.take n, true, { h with
          worker := onward, flow := ?_, silent := fun untold => (by cases untold), short := ?_,
          honest := fun all => ?_ }⟩
        · show sent ++ bytes.take n = received ++ (s.status ++ bytes.take n)
          rw [h.flow, List.append_assoc]
        · rw [List.length_append]
          have := List.length_take_le' n bytes
          omega
        · have same : bytes.take n = bytes := by
            apply (List.take_prefix n bytes).eq_of_length
            rw [List.length_append] at all
            omega
          rw [same]
          exact honest

theorem Reaches.sound {fuel : Nat} (run : (start fuel).Reaches s) :
    ∃ received sent told, Sound s received sent told := by
  induction run with
  | refl =>
      refine ⟨[], [], false, relayToEnd_relays fuel, stdoutWorker_reports fuel, rfl,
        fun _ => List.nil_prefix, fun _ => List.nil_prefix, ?_, ?_, ?_, rfl, fun _ => rfl, ?_, ?_, ?_⟩
      · exact fun ended => by cases ended
      · exact fun closed => by cases closed
      · exact fun shut => by cases shut
      · exact Nat.zero_le _
      · exact fun whole => by cases whole
      · exact fun e failed => by cases failed
  | tail run step ih =>
      obtain ⟨received, sent, told, h⟩ := ih
      cases step with
      | main next gives =>
          obtain ⟨received, h⟩ := h.main_step next gives
          exact ⟨received, sent, told, h⟩
      | worker next gives => exact ⟨received, h.worker_step next gives⟩

/-! ## Runs -/

theorem fromNeBytes_toNeBytes (status : Int32) : fromNeBytes (toNeBytes status) = status := by
  rw [fromNeBytes, toNeBytes, Spawn.fromNeBytes_toNeBytes, Int32.toInt32_toUInt32]

theorem toInt_raw {e : Errno} (fits : e.raw < 2 ^ 31) : (Int32.ofNat e.raw).toInt = e.raw :=
  Int32.toInt_ofNat_of_lt fits

theorem ends_of_zero {l : Ledger} {raw : Bytes} (honest : l.Honest raw)
    (fits : ∀ e, l.failure = some (.failed e) → e.raw < 2 ^ 31) (zero : fromNeBytes raw = 0) :
    l.Ends (.ok ()) := by
  obtain ⟨outcome, rfl, ends⟩ := honest
  rw [fromNeBytes_toNeBytes] at zero
  rcases outcome with why | _
  · cases why with
    | failed e =>
        rw [statusOf] at zero
        split at zero
        · next positive =>
            have same := toInt_raw (fits e ends)
            rw [zero] at same
            have none : (0 : Int) = e.raw := same
            omega
        · exact absurd zero (by decide)
    | writeZero => exact absurd zero (by decide)
    | unfinished => exact absurd zero (by decide)
  · exact ends

theorem failure_of_positive {l : Ledger} {raw : Bytes} (honest : l.Honest raw)
    (positive : 0 < fromNeBytes raw) :
    ∃ e, l.failure = some (.failed e) ∧ fromNeBytes raw = Int32.ofNat e.raw := by
  obtain ⟨outcome, rfl, ends⟩ := honest
  rw [fromNeBytes_toNeBytes] at positive ⊢
  rcases outcome with why | ⟨⟩
  · cases why with
    | failed e =>
        refine ⟨e, ends, ?_⟩
        rw [statusOf] at positive ⊢
        split at positive
        · next some => rw [if_pos some]
        · exact absurd positive (by decide)
    | writeZero => exact absurd positive (by decide)
    | unfinished => exact absurd positive (by decide)
  · have zero : ¬ 0 < statusOf (.ok ()) := by decide
    exact absurd positive zero

theorem Sound.report (h : Sound s received sent told) (whole : received.length = 4) :
    s.delivered.Honest received := by
  have short := h.short
  have flow := h.flow
  rw [flow, List.length_append] at short
  have nothing : s.status = [] := List.eq_nil_of_length_eq_zero (by omega)
  rw [nothing, List.append_nil] at flow
  rw [← flow]
  apply h.honest
  rw [flow]
  exact whole

theorem Sound.settled (h : Sound s received sent told) (shut : s.shut = true)
    (ends : s.delivered.Ends (.ok ())) : s.delivered.closed .stdout = true ∨
      s.relayed.ended .socket = true ∧ s.delivered.given .stdout = s.relayed.taken .socket := by
  rcases ends with closed | ⟨ended, level⟩
  · exact .inl closed
  · right
    have fifo := h.fifo
    rw [(h.ended ended).1, List.append_nil] at fifo
    rcases h.finished shut with broken | ⟨over', level'⟩
    · exact absurd (ended.symm.trans (h.gone broken).2) (by decide)
    · exact ⟨over', level.trans (fifo.symm.trans level')⟩

/-- However the relay and its worker run: what stdout has taken, the socket has supplied, in that order;
a relay that ends well has either brought all of the session's output there, or stdout has stopped
reading; and an errno it ends with for stdout is the one the worker met. -/
theorem Reaches.relay_delivers {fuel : Nat} (run : (start fuel).Reaches s) :
    s.delivered.given .stdout <+: s.relayed.taken .socket ∧
    s.relayed.given .socket <+: s.relayed.taken .stdin ∧
    (s.main = .done (.ok ()) → s.delivered.closed .stdout = true ∨
      s.relayed.ended .socket = true ∧ s.delivered.given .stdout = s.relayed.taken .socket) ∧
    ∀ status, s.main = .done (.error (.stdout status)) →
      ∃ e, s.delivered.failure = some (.failed e) ∧ status = Int32.ofNat e.raw := by
  obtain ⟨received, sent, told, h⟩ := run.sound
  refine ⟨?_, h.relayed .upload, fun done => ?_, fun status done => ?_⟩
  · have between : s.delivered.taken .socket <+: s.relayed.given .stdout := by
      rw [h.fifo]
      exact List.prefix_append ..
    exact (h.delivered .download).trans (between.trans (h.relayed .download))
  · have main := h.main
    rw [done] at main
    obtain ⟨shut, whole, zero⟩ := main
    exact h.settled shut (ends_of_zero (h.report whole) h.fits zero)
  · have main := h.main
    rw [done] at main
    obtain ⟨whole, positive, same⟩ := main
    have same : fromNeBytes received = status := same
    rw [← same] at positive ⊢
    exact failure_of_positive (h.report whole) positive

/-- What the two do, one call after the other. -/
inductive Event
  | main (c : MainCall) (reply : MainReply c)
  | worker (c : WorkerCall) (reply : WorkerReply c)

/-- The world after these, where it gives all the answers. -/
inductive Plays : World → List Event → World → Prop
  | nil {w : World} : Plays w [] w
  | main {w w' : World} {c : MainCall} {reply : MainReply c} {events : List Event}
      (gives : w.MainGives c reply) (onward : Plays (w.mainDoes c reply) events w') :
      Plays w (.main c reply :: events) w'
  | worker {w w' : World} {c : WorkerCall} {reply : WorkerReply c} {events : List Event}
      (gives : w.WorkerGives c reply) (onward : Plays (w.workerDoes c reply) events w') :
      Plays w (.worker c reply :: events) w'

def mainTrace : List Event → List (Σ c, MainReply c)
  | [] => []
  | .main c reply :: events => ⟨c, reply⟩ :: mainTrace events
  | .worker _ _ :: events => mainTrace events

def workerTrace : List Event → List (Σ c, WorkerReply c)
  | [] => []
  | .main _ _ :: events => workerTrace events
  | .worker c reply :: events => ⟨c, reply⟩ :: workerTrace events

theorem Plays.reaches {w w' : World} {events : List Event} (plays : Plays w events w')
    {main main' : Program MainReply (Except MainHalt Unit)}
    {worker worker' : Program WorkerReply (Except Halt Unit)} (mine : Runs main (mainTrace events) main')
    (its : Runs worker (workerTrace events) worker') :
    Pair.Reaches ⟨w, main, worker⟩ ⟨w', main', worker'⟩ := by
  induction plays generalizing main worker with
  | nil =>
      cases mine
      cases its
      exact .refl
  | main gives onward ih =>
      cases mine with
      | call mine => exact .head (.main rfl gives) (ih mine its)
  | worker gives onward ih =>
      cases its with
      | call its => exact .head (.worker rfl gives) (ih mine its)

/-- A byte of output, and the end of the session. -/
def oneByte : List Event := [
  .main (.relay .setNonblocking) (.ok ()), .main (.relay .spawnStdout) (.ok ()),
  .main (.relay (.poll [⟨.stdin, { input := true }⟩, ⟨.socket, { input := true }⟩, ⟨.stdout, {}⟩]))
    (.ok [{}, { input := true }, {}]),
  .main (.relay (.read .socket)) (.ok ⟨[111], by decide⟩),
  .main (.relay (.poll [⟨.stdin, { input := true }⟩, ⟨.stdout, { output := true }⟩]))
    (.ok [{}, { output := true }]),
  .main (.relay (.write .stdout [111])) (.ok 1),
  .worker (.io (.read .socket)) (.ok ⟨[111], by decide⟩),
  .worker (.io (.poll [⟨.stdout, { output := true }⟩])) (.ok [{ output := true }]),
  .main (.relay (.poll [⟨.stdin, { input := true }⟩, ⟨.socket, { input := true }⟩, ⟨.stdout, {}⟩]))
    (.ok [{}, { hup := true }, {}]),
  .main (.relay (.read .socket)) (.ok ⟨[], by decide⟩),
  .main (.finish .setBlocking) (.ok ()), .main (.finish .shutdownWrite) (.ok ()),
  .main (.finish .loadProgress) (0 : Nat), .main (.finish .openWindow) (),
  .worker (.io (.write .stdout [111])) (.ok 1), .worker .count (),
  .worker (.io (.read .socket)) (.ok ⟨[], by decide⟩),
  .worker (.status [0, 0, 0, 0]) (.ok 4), .worker .close (),
  .main (.finish .windowPassed) false, .main (.finish .setReadTimeout) (.ok ()),
  .main (.finish (.read 4)) (.ok ⟨[0, 0, 0, 0], by decide⟩),
  .main (.finish .loadProgress) (1 : Nat), .main (.finish .openWindow) ()]

theorem oneByte_plays : ∃ w, Plays {} oneByte w ∧ w.delivered.given .stdout = [111] := by
  have quiet (gone : PollFlags.gone {} = true) : (false : Bool) = true := gone
  refine ⟨_, .main trivial (.main trivial (.main quiet (.main trivial (.main quiet
    (.main ⟨Nat.le_refl 1, rfl⟩ (.worker ⟨trivial, List.prefix_refl _, ?_⟩
    (.worker ⟨trivial, trivial⟩ (.main quiet (.main trivial (.main trivial
    (.main trivial (.main rfl (.main trivial (.worker ⟨trivial, Nat.le_refl 1⟩ (.worker trivial
    (.worker ⟨trivial, List.nil_prefix, fun _ => ⟨rfl, rfl⟩⟩ (.worker (Nat.le_refl 4) (.worker trivial
    (.main trivial (.main trivial (.main ⟨List.prefix_refl _, ?_⟩ (.main rfl (.main trivial
    .nil))))))))))))))))))))))), rfl⟩
  · exact fun none => by cases none
  · exact fun none => by cases none

/-- One byte of output, and the end of the session. -/
theorem Reaches.relay_delivers_byte : ∃ s, (start 3).Reaches s ∧ s.main = .done (.ok ()) ∧
    s.delivered.given .stdout = [111] ∧ (s.delivered.closed .stdout = true ∨
      s.relayed.ended .socket = true ∧ s.delivered.given .stdout = s.relayed.taken .socket) := by
  have mine : Runs (relayToEnd 3).run (mainTrace oneByte) (.done (.ok ())) := by repeat constructor
  have its : Runs (stdoutWorker 3).run (workerTrace oneByte) (.done (.ok ())) := by repeat constructor
  obtain ⟨w, plays, given⟩ := oneByte_plays
  have run : (start 3).Reaches ⟨w, .done (.ok ()), .done (.ok ())⟩ := plays.reaches mine its
  exact ⟨_, run, rfl, given, (Reaches.relay_delivers run).2.2.1 rfl⟩

end Pair

end Nomux.Relay
