import Nomux.Relay.Ledger

/-!
# The relay is a faithful pipe

One pass keeps the account of both directions, and so does the loop, whatever the kernel answers.
-/

namespace Nomux.Relay
open Program

/-! ## Readiness -/

theorem watched_eq (s : State) : s.watched =
    (if s.stdinFlags.isEmpty then [] else [⟨.stdin, s.stdinFlags⟩]) ++
    (if s.socketFlags.isEmpty then [] else [⟨.socket, s.socketFlags⟩]) ++
    [⟨.stdout, s.stdoutFlags⟩] := by
  by_cases stdin : s.stdinFlags.isEmpty = true <;>
    by_cases socket : s.socketFlags.isEmpty = true <;>
    simp [State.watched, stdin, socket]

theorem revents_own (s : State) (events : List PollFlags) :
    let (stdinEvents, rest) := revents (!s.stdinFlags.isEmpty) events
    let (socketEvents, rest) := revents (!s.socketFlags.isEmpty) rest
    reported s.watched events .stdin = stdinEvents ∧
      reported s.watched events .socket = socketEvents ∧
      reported s.watched events .stdout = (revents true rest).1 := by
  rw [watched_eq]
  cases s.stdinFlags.isEmpty <;> cases s.socketFlags.isEmpty <;>
    rcases events with _ | ⟨first, _ | ⟨second, _ | ⟨third, events⟩⟩⟩ <;>
    exact ⟨rfl, rfl, rfl⟩

theorem stdin_registered {s : State} {events : List PollFlags}
    (readable : (revents (!s.stdinFlags.isEmpty) events).1.readable = true) :
    s.stdinOpen = true ∧ s.toSocket.hasData = false := by
  by_cases empty : s.stdinFlags.isEmpty = true
  · rw [empty] at readable
    cases readable
  · simpa [State.stdinFlags, PollFlags.isEmpty, PollFlags.readable] using empty

/-! ## One pass -/

structure Coupled (s : State) (l : Ledger) : Prop where
  going : l.failure = none
  upload : l.closed .socket = false → l.Owes .upload s.toSocket
  lost : l.closed .socket = true → s.stdinOpen = false ∧ s.toSocket.pending = []
  download : s.stdoutOpen = true → l.Owes .download s.toStdout
  socketEnded : s.socketOpen = false → l.ended .socket = true
  stdoutClosed : s.stdoutOpen = false → l.closed .stdout = true

/-- What a part of a pass leaves to the parts after it. -/
structure Onward (s : State) (l l' : Ledger) (s' : State) : Prop where
  coupled : Coupled s' l'
  stdoutOpen : s'.stdoutOpen = s.stdoutOpen
  stdoutClosed : l'.closed .stdout = l.closed .stdout
  polled : l'.polled = l.polled

theorem Onward.refl {s : State} {l : Ledger} (h : Coupled s l) : Onward s l l s :=
  ⟨h, rfl, rfl, rfl⟩

theorem Coupled.stdin_open {s : State} {l : Ledger} (h : Coupled s l)
    («open» : s.stdinOpen = true) : l.Owes .upload s.toSocket := by
  apply h.upload
  by_contra closed
  rw [(h.lost (by simpa using closed)).1] at «open»
  cases «open»

theorem Onward.trans {s s' s'' : State} {l l' l'' : Ledger} (h : Onward s l l' s')
    (next : Onward s' l' l'' s'') : Onward s l l'' s'' :=
  ⟨next.coupled, next.stdoutOpen.trans h.stdoutOpen, next.stdoutClosed.trans h.stdoutClosed,
    next.polled.trans h.polled⟩

theorem closeStdin_keeps {s : State} {l : Ledger} (h : Coupled s l)
    (owes : l.Owes .upload s.toSocket) (empty : s.toSocket.hasData = false) :
    Keeps (serviceStdin.closeStdin s) l (Onward s l) := by
  apply followsOr_bind.2
  apply keeps_sys.2
  refine ⟨⟨h.going, owes.level empty⟩, fun _ => ?_⟩
  have coupled : Coupled { s with stdinOpen := false } l :=
    { h with lost := fun closed => ⟨rfl, (h.lost closed).2⟩ }
  exact ⟨coupled, rfl, rfl, rfl⟩

theorem Coupled.filled_upload {s : State} {l l' : Ledger} {p : Pump} {alive : Bool} (h : Coupled s l)
    («open» : s.stdinOpen = true) (filled : Filled .upload l p alive l') :
    Onward s l l' { s with toSocket := p } := by
  have unlost : l.closed .socket ≠ true := fun closed => by
    rw [(h.lost closed).1] at «open»
    cases «open»
  refine ⟨⟨filled.going, fun _ => filled.owes, ?_, ?_, ?_, ?_⟩, rfl, ?_, filled.polled⟩
  · intro closed
    rw [filled.closed] at closed
    exact absurd closed unlost
  · intro running
    have taken : l'.taken .socket = l.taken .socket := filled.taken .download (by simp)
    show l'.given .stdout ++ s.toStdout.pending = l'.taken .socket
    rw [filled.given, taken]
    exact h.download running
  · exact fun closed => filled.stays _ (h.socketEnded closed)
  · intro closed
    rw [filled.closed]
    exact h.stdoutClosed closed
  · rw [filled.closed]

theorem serviceStdin_keeps {s : State} {l : Ledger} (events : PollFlags) (fuel : Nat)
    (h : Coupled s l)
    (registered : events.readable = true → s.stdinOpen = true ∧ s.toSocket.hasData = false) :
    Keeps (serviceStdin s events fuel) l (Onward s l) := by
  unfold serviceStdin
  split
  case isFalse => exact .refl h
  case isTrue readable =>
    obtain ⟨isOpen, empty⟩ := registered readable
    have owes := h.stdin_open isOpen
    split
    · exact closeStdin_keeps h owes empty
    · apply (fillFrom_keeps .upload fuel h.going owes empty).bind
      rintro l' ⟨p, alive⟩ filled
      have onward := h.filled_upload isOpen filled
      show Keeps (if _ then _ else _) l' _
      split
      case isFalse => exact onward
      case isTrue ended =>
        have spent : p.hasData = false := by
          simp only [Bool.or_eq_true, Bool.not_eq_true', spinning, Bool.and_eq_true] at ended
          rcases ended with dead | ⟨-, spent⟩
          · exact filled.spent dead
          · exact spent
        exact (closeStdin_keeps onward.coupled filled.owes spent).mono fun _ _ => onward.trans

theorem Coupled.filled_download {s : State} {l l' : Ledger} {p : Pump} {alive socketOpen : Bool}
    (h : Coupled s l) (filled : Filled .download l p alive l')
    (kept : socketOpen = false → s.socketOpen = false ∨ l'.ended .socket = true) :
    Onward s l l' { s with toStdout := p, socketOpen } := by
  refine ⟨⟨filled.going, ?_, ?_, fun _ => filled.owes, ?_, ?_⟩, rfl, ?_, filled.polled⟩
  · intro unlost
    rw [filled.closed] at unlost
    have taken : l'.taken .stdin = l.taken .stdin := filled.taken .upload (by simp)
    show l'.given .socket ++ s.toSocket.pending = l'.taken .stdin
    rw [filled.given, taken]
    exact h.upload unlost
  · intro closed
    rw [filled.closed] at closed
    exact h.lost closed
  · intro closed
    rcases kept closed with before | ended
    · exact filled.stays _ (h.socketEnded before)
    · exact ended
  · intro closed
    rw [filled.closed]
    exact h.stdoutClosed closed
  · rw [filled.closed]

theorem serviceSocket_keeps {s : State} {l : Ledger} (events : PollFlags) (fuel : Nat)
    (h : Coupled s l) (running : s.stdoutOpen = true) (own : l.polled .socket = events) :
    Keeps (serviceSocket s events fuel) l (Onward s l) := by
  unfold serviceSocket
  split
  case isFalse => exact .refl h
  case isTrue readable =>
    have empty : s.toStdout.hasData = false := by simpa using (Bool.and_eq_true_iff.1 readable).2
    apply (fillFrom_keeps .download fuel h.going (h.download running) empty).bind
    rintro l' ⟨p, alive⟩ filled
    show Keeps (if _ then _ else _) l' _
    split
    case isFalse => exact h.filled_download filled .inl
    case isTrue ended =>
      apply h.filled_download filled
      intro _
      right
      apply filled.ended
      simp only [Bool.or_eq_true, Bool.not_eq_true', spinning, Bool.and_eq_true] at ended
      rcases ended with dead | ⟨latched, spent⟩
      · exact .inl dead
      · exact .inr ⟨spent, own ▸ latched⟩

theorem drainUpload_keeps {s : State} {l : Ledger} (events : PollFlags) (fuel : Nat)
    (h : Coupled s l) : Keeps (drainUpload s events fuel) l (Onward s l) := by
  unfold drainUpload
  split
  case isFalse => exact .refl h
  case isTrue =>
    by_cases data : s.toSocket.hasData = true
    · have unlost : l.closed .socket = false := by
        rw [← Bool.not_eq_true]
        exact fun closed => Pump.hasData_iff.1 data (h.lost closed).2
      apply (drainTo_keeps .upload fuel h.going (h.upload unlost) fun _ => unlost).bind
      rintro l' ⟨p, alive⟩ drained
      have closed : l'.closed .stdout = l.closed .stdout := drained.closed .download (by simp)
      have download : s.stdoutOpen = true → l'.Owes .download s.toStdout := by
        intro running
        have given : l'.given .stdout = l.given .stdout := drained.given .download (by simp)
        show l'.given .stdout ++ s.toStdout.pending = l'.taken .socket
        rw [given, drained.taken]
        exact h.download running
      have ended : s.socketOpen = false → l'.ended .socket = true := by
        rw [drained.ended]
        exact h.socketEnded
      have stdoutClosed : s.stdoutOpen = false → l'.closed .stdout = true := by
        rw [closed]
        exact h.stdoutClosed
      cases alive with
      | true =>
          obtain ⟨owes, same⟩ := drained.owes rfl
          have still : l'.closed .socket = false := by rw [same, unlost]
          have onward : Coupled { s with toSocket := p } l' :=
            ⟨drained.going, fun _ => owes, by simp [still], download, ended, stdoutClosed⟩
          exact ⟨onward, rfl, closed, drained.polled⟩
      | false =>
          obtain ⟨lost, nothing⟩ := drained.lost rfl
          have broken : l'.closed .socket = true := lost
          have onward : Coupled { s with toSocket := p, stdinOpen := false } l' :=
            ⟨drained.going, by simp [broken], fun _ => ⟨rfl, nothing⟩, download, ended, stdoutClosed⟩
          exact ⟨onward, rfl, closed, drained.polled⟩
    · simp only [Pump.drainTo, data]
      exact .refl h

structure Looping (s : State) (l : Ledger) : Prop extends Coupled s l where
  reading : s.stdoutOpen = true → l.closed .stdout = false

theorem serviceStdout_keeps {s : State} {l : Ledger} (events : PollFlags) (fuel : Nat)
    (h : Coupled s l) (running : s.stdoutOpen = true)
    (own : l.closed .stdout = PollFlags.gone events) :
    Keeps (serviceStdout s events fuel) l fun l' s' => Looping s' l' := by
  unfold serviceStdout
  split
  case isTrue gone =>
    have left : Coupled { s with stdoutOpen := false } l :=
      { h with download := by simp, stdoutClosed := fun _ => own.trans gone }
    exact ⟨left, by simp⟩
  case isFalse reading =>
    have unclosed : l.closed .stdout = false := own.trans (by simpa using reading)
    split
    case isFalse => exact ⟨h, fun _ => unclosed⟩
    case isTrue =>
      apply (drainTo_keeps .download fuel h.going (h.download running) fun _ => unclosed).bind
      rintro l' ⟨p, alive⟩ drained
      have closed : l'.closed .socket = l.closed .socket := drained.closed .upload (by simp)
      have upload : l'.closed .socket = false → l'.Owes .upload s.toSocket := by
        intro unlost
        have given : l'.given .socket = l.given .socket := drained.given .upload (by simp)
        rw [closed] at unlost
        show l'.given .socket ++ s.toSocket.pending = l'.taken .stdin
        rw [given, drained.taken]
        exact h.upload unlost
      have lost : l'.closed .socket = true → s.stdinOpen = false ∧ s.toSocket.pending = [] := by
        rw [closed]
        exact h.lost
      have ended : s.socketOpen = false → l'.ended .socket = true := by
        rw [drained.ended]
        exact h.socketEnded
      have left : Coupled { s with toStdout := p, stdoutOpen := alive } l' :=
        ⟨drained.going, upload, lost, fun alive => (drained.owes alive).1, ended,
          fun dead => (drained.lost dead).1⟩
      refine ⟨left, fun alive => ?_⟩
      rw [(drained.owes alive).2]
      exact unclosed

theorem service_keeps {s : State} {l : Ledger} (events : List PollFlags) (fuel : Nat)
    (h : Coupled s l) (running : s.stdoutOpen = true)
    (polled : l.polled = reported s.watched events)
    (closed : l.closed .stdout = PollFlags.gone (reported s.watched events .stdout)) :
    Keeps (service s events fuel) l fun l' s' => Looping s' l' := by
  obtain ⟨-, socketOwn, stdoutOwn⟩ := revents_own s events
  rw [stdoutOwn] at closed
  apply (serviceStdin_keeps _ fuel h stdin_registered).bind
  intro l₁ s₁ stdin
  have socketOwn := (congrFun (stdin.polled.trans polled) .socket).trans socketOwn
  apply (serviceSocket_keeps _ fuel stdin.coupled (stdin.stdoutOpen.trans running) socketOwn).bind
  intro l₂ s₂ socket
  apply (drainUpload_keeps _ fuel socket.coupled).bind
  intro l₃ s₃ upload
  have onward := (stdin.trans socket).trans upload
  exact serviceStdout_keeps _ fuel onward.coupled (onward.stdoutOpen.trans running)
    (onward.stdoutClosed.trans closed)

theorem pass_keeps {s : State} {l : Ledger} (fuel : Nat) (h : Looping s l)
    (running : s.stdoutOpen = true) : Keeps (pass s fuel) l fun l' s' => Looping s' l' := by
  apply followsOr_bind.2
  apply keeps_sys.2
  refine ⟨⟨h.going, h.reading running⟩, fun reply => ?_⟩
  rcases reply with (_ | _ | _ | _ | _ | _ | _) | events
  case error.intr => exact h
  case ok =>
    apply service_keeps events fuel _ running rfl
    · show (l.closed .stdout || _) = _
      rw [h.reading running]
      rfl
    · have socket : (l.closed .socket || false) = l.closed .socket := Bool.or_false _
      refine ⟨h.going, fun unlost => h.upload (socket.symm.trans unlost),
        fun lost => h.lost (socket.symm.trans lost), h.download, h.socketEnded, ?_⟩
      intro dead
      rw [running] at dead
      cases dead
  all_goals exact .inl rfl

theorem Looping.finished {s : State} {l : Ledger} (h : Looping s l) (stopped : s.running = false) :
    l.Finished := by
  by_cases running : s.stdoutOpen = true
  · have rest : s.socketOpen = false ∧ s.toStdout.hasData = false := by
      simpa [State.running, running] using stopped
    exact .inr ⟨h.socketEnded rest.1, (h.download running).level rest.2⟩
  · exact .inl (h.stdoutClosed (by simpa using running))

theorem relayLoop_keeps (fuel passes : Nat) {s : State} {l : Ledger} (h : Looping s l) :
    Keeps (relayLoop fuel passes s) l fun l' _ => l'.failure = none ∧ l'.Finished := by
  induction passes generalizing s l with
  | zero =>
      unfold relayLoop
      split
      case isTrue => exact .inr rfl
      case isFalse stopped => exact ⟨h.going, h.finished (by simpa using stopped)⟩
  | succ passes ih =>
      unfold relayLoop
      split
      case isTrue going =>
        exact (pass_keeps fuel h (Bool.and_eq_true_iff.1 going).1).bind fun _ _ => ih
      case isFalse stopped => exact ⟨h.going, h.finished (by simpa using stopped)⟩

theorem relay_keeps (fuel : Nat) : Keeps (relay fuel) {} fun l _ => l.Finished := by
  have start : Looping {} {} :=
    ⟨⟨rfl, fun _ => rfl, by simp, fun _ => rfl, by simp, by simp⟩, fun _ => rfl⟩
  apply followsOr_bind.2
  apply keeps_sys.2
  refine ⟨⟨rfl, trivial⟩, fun nonblocking => ?_⟩
  apply followsOr_bind.2
  apply keeps_check
  case held => rintro e rfl; rfl
  rintro rfl
  apply followsOr_bind.2
  apply keeps_sys.2
  refine ⟨⟨rfl, trivial⟩, fun spawned => ?_⟩
  apply followsOr_bind.2
  apply keeps_check
  case held => rintro e rfl; rfl
  rintro rfl
  apply (relayLoop_keeps fuel fuel start).bind
  rintro l - ⟨going, finished⟩
  apply followsOr_bind.2
  apply keeps_sys.2
  refine ⟨⟨going, finished⟩, fun settled => ?_⟩
  apply keeps_check
  · rintro rfl
    exact finished
  · rintro e rfl
    rfl

/-! ## Runs -/

/-- What was read and written in a run. -/
def account (trace : List (Σ c, Reply c)) : Ledger := roleAfter Ledger.after {} trace

/-- What a destination has accepted, its source has supplied, in that order. -/
def Ledger.InOrder (l : Ledger) : Prop := ∀ d : Direction, l.given d.dst <+: l.taken d.src

theorem Ledger.InOrder.reads {l : Ledger} (h : l.InOrder) (fd : Fd) (reply : Except Errno Chunk) :
    (l.reads fd reply).InOrder := by
  rcases reply with (_ | _ | _ | _ | _ | _ | _) | chunk
  case error.again =>
    show Ledger.InOrder (if _ then _ else _)
    split
    · exact h
    · exact h
  case ok =>
    show Ledger.InOrder (if _ then _ else _)
    split
    · exact h
    · intro d
      show l.given d.dst <+: Function.update l.taken fd (l.taken fd ++ chunk.1) d.src
      rcases eq_or_ne d.src fd with rfl | other
      · rw [Function.update_self]
        exact (h d).trans (List.prefix_append ..)
      · rw [Function.update_of_ne other]
        exact h d
  all_goals exact h

theorem Ledger.InOrder.writes {l : Ledger} (h : l.InOrder) {fd : Fd} {bytes : Bytes}
    (allowed : l.Allows (.write fd bytes)) (reply : Except Errno Nat) :
    (l.writes fd bytes reply).InOrder := by
  rcases reply with (_ | _ | _ | _ | _ | _ | _) | (_ | n)
  case ok.succ =>
    intro d
    show Function.update l.given fd (l.given fd ++ bytes.take (n + 1)) d.dst <+: l.taken d.src
    rcases eq_or_ne d.dst fd with rfl | other
    · obtain ⟨e, same, -, -, exactly⟩ := allowed
      rw [Function.update_self, ← Direction.dst_inj same, ← exactly, Direction.dst_inj same]
      exact (List.prefix_append_right_inj _).2 (List.take_prefix ..)
    · rw [Function.update_of_ne other]
      exact h d
  all_goals exact h

theorem Ledger.InOrder.after {l : Ledger} (h : l.InOrder) (c : Call) (reply : Reply c)
    (allowed : l.Allows c) : (l.after c reply).InOrder := by
  cases c with
  | read fd => exact h.reads fd reply
  | write fd bytes => exact h.writes allowed reply
  | poll fds => rcases reply with (_ | _ | _ | _ | _ | _ | _) | events <;> exact h
  | setNonblocking | spawnStdout | finishStdout => rcases reply with e | value <;> exact h
  | shutdownWrite => exact h

/-- Where the socket answers `EPIPE`, the pass goes on with the download as it was. -/
theorem drainUpload_pipe {s : State} {events : PollFlags} {fuel : Nat} {bytes : Bytes}
    {trace : List (Σ c, Reply c)} {left : Program Reply (Except Halt State)}
    (run : Runs (drainUpload s events fuel) (trace ++ [⟨.write .socket bytes, .error .pipe⟩]) left) :
    left = .done (.ok { s with toSocket := s.toSocket.forfeit, stdinOpen := false }) := by
  by_cases data : s.toSocket.hasData = true
  · simp only [drainUpload, Pump.drainTo, data, Bool.or_true, if_true] at run
    induction fuel generalizing trace with
    | zero =>
        obtain ⟨nothing, -⟩ := Runs.of_done run
        simp at nothing
    | succ fuel ih =>
        rcases trace with _ | ⟨e, trace⟩
        · obtain ⟨reply, same, onward⟩ := Runs.of_call run
          cases same
          exact (Runs.of_done onward).2
        · obtain ⟨reply, -, onward⟩ := Runs.of_call run
          rcases reply with (_ | _ | _ | _ | _ | _ | _) | (_ | n)
          case error.intr => exact ih onward
          all_goals
            obtain ⟨nothing, -⟩ := Runs.of_done onward
            simp at nothing
  · have idle : drainUpload s events fuel = pure s := by
      simp only [drainUpload, Pump.drainTo, data]
      split
      · rfl
      · rfl
    rw [idle] at run
    obtain ⟨nothing, -⟩ := Runs.of_done run
    simp at nothing

theorem relay_faithful {fuel : Nat} {trace : List (Σ c, Reply c)}
    {left : Program Reply (Except Halt Unit)} (run : Runs (relay fuel) trace left) :
    (account trace).given .socket <+: (account trace).taken .stdin ∧
    (account trace).given .stdout <+: (account trace).taken .socket ∧
    (∀ c rest, left = .call c rest → (account trace).Permits c) ∧
    (left = .done (.ok ()) → (account trace).Finished) ∧
    (∀ why, left = .done (.error why) → (account trace).Failed why) ∧
    ∀ before s events bytes next,
      Runs (drainUpload s events fuel) (before ++ [⟨.write .socket bytes, .error .pipe⟩]) next →
        next = .done (.ok { s with toSocket := s.toSocket.forfeit, stdinOpen := false }) := by
  have keeps := relay_keeps fuel
  have inOrder : (account trace).InOrder := Follows.invariant keeps run
    (fun l c reply h permitted => h.after c reply permitted.2) fun _ => List.nil_prefix
  have rest := keeps.left run
  refine ⟨inOrder .upload, inOrder .download, ?_, ?_, ?_, fun _ _ _ _ _ => drainUpload_pipe⟩
  · rintro c rest rfl
    exact rest.1
  · rintro rfl
    exact rest
  · rintro why rfl
    exact rest

/-- A line is read off stdin, and the socket answers `EPIPE`. -/
theorem relay_faithful_broken : ∃ trace left, Runs (relay 2) trace left ∧
    (account trace).closed .socket = true ∧ (account trace).taken .stdin = [108, 10] ∧
    ((account trace).given .socket <+: (account trace).taken .stdin) ∧
    (∀ c rest, left = .call c rest → (account trace).Permits c) := by
  have run : ∃ left, Runs (relay 2) [⟨.setNonblocking, .ok ()⟩, ⟨.spawnStdout, .ok ()⟩,
      ⟨.poll (State.watched {}), .ok [{ input := true }]⟩,
      ⟨.read .stdin, .ok ⟨[108, 10], by decide⟩⟩,
      ⟨.write .socket [108, 10], .error .pipe⟩] left :=
    ⟨_, .call (.call (.call (.call (.call .stop))))⟩
  obtain ⟨left, run⟩ := run
  have faithful := relay_faithful run
  exact ⟨_, left, run, by decide, by decide, faithful.1, faithful.2.2.1⟩

end Nomux.Relay
