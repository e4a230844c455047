import Nomux.Daemon.DecodeSound

/-!
# Soundness of greetings

A connection accepted, its `Hello`, and the takeover: from a pending connection with nothing queued
to an attached client whose first frame is its `HelloOk`.
-/

namespace Nomux
open Wire World

variable {origin : Origin} {stage stage' : Stage}

/-! ## Greeting -/

theorem Coupled.base_eq {s : Session} {v : View} (h : Coupled s stage v) : v.ring.base = s.base := by
  rw [h.ring.base_eq, h.capacity, Session.base]

theorem Coupled.end_eq {s : Session} {v : View} (h : Coupled s stage v) :
    v.ring.end = s.output.length := h.ring.end_eq

theorem Sound.resumeFrom_eq {d : Daemon} (h : Sound origin stage d) (outOffset : UInt64) :
    d.resumeFrom outOffset = (session origin.capacity d.world.trace).resumeFrom outOffset := by
  have base := h.2.base_eq
  have «end» := h.2.end_eq
  simp only [Daemon.view] at base «end»
  rw [Daemon.resumeFrom, Session.resumeFrom, base, «end»]

theorem encodable_helloOk (ok : HelloOk) : (Frame.helloOk ok).Encodable :=
  ⟨trivial, by simp [Frame.payload, Frame.encodePayload, maxPayload]⟩

theorem Link.greeted_of_helloOk {l : Link} (unsent : l.sent = []) (s : Session) (ok : HelloOk) :
    (s.queued (.helloOk ok) l).Greeted :=
  ⟨ok, [], by rw [Session.queued_sent, unsent]; rfl, fun _ no => by cases no⟩

theorem Sound.resume {d : Daemon} {a : Attached} {hello : Hello}
    (h : Sound origin (.fresh hello) d) (client : d.client = some a) (repaintCtrlL due : Bool) :
    Sound origin (.fresh hello) { d with
      client := some
        { a with
          sentThrough := d.resumeFrom hello.outOffset, repaintCtrlL := repaintCtrlL
          repaintDue := due }
      world := d.world.log (.resumed a.conn.id (d.resumeFrom hello.outOffset)) } := by
  have serves := h.2.client a client
  obtain ⟨unsent, greeting⟩ := serves.stage
  refine h.log (e := .resumed a.conn.id _)
    ⟨serves.attached, unsent, hello, greeting, h.resumeFrom_eq hello.outOffset⟩ rfl
    (h.2.touchClient h.identified client (Link.resumed (d.resumeFrom hello.outOffset)) ?_
      fun no => by cases no)
  refine ⟨serves.attached, ?_, ?_, ?_, ?_⟩
  · rw [Session.update_self]
    exact ⟨serves.linked.carries, serves.linked.preamble, serves.linked.eof⟩
  · rw [Session.update_self]
    rfl
  · rw [Session.update_self]
    exact serves.terminalEndSent
  · rw [Session.update_self]
    exact ⟨unsent, greeting⟩

theorem Sound.greet {d : Daemon} {hello : Hello} (h : Sound origin (.fresh hello) d)
    (terminal : d.pty.isSome) : Sound origin .greeted (d.greet hello) := by
  unfold Daemon.greet
  dsimp only
  split
  · rename_i none
    exact h.vacant none
  · rename_i a client
    have resumed := h.resume client hello.repaintCtrlL (HelloOk.gap
      { resumeFrom := UInt64.ofNat (d.resumeFrom hello.outOffset)
        inApplied := UInt64.ofNat d.inApplied, agent := d.agent.isSome } hello.outOffset)
    have there := resumed.2.client _ rfl
    have inApplied := resumed.2.inApplied
    have through := there.sentThrough
    have bounds := Session.resumeFrom_bounds (session origin.capacity d.world.trace) hello.outOffset
    rw [← h.resumeFrom_eq] at bounds
    simp only [Daemon.view, World.log, session_snoc] at through inApplied
    simp only [Daemon.tellClient, Conn.send_eq _ (encodable_helloOk _)]
    refine resumed.queue .greeted _ _ _ rfl ⟨there.attached, there.stage.1, ?_, ?_, ?_, ?_⟩
      there.sentThrough (Bool.or_false _).symm (Link.greeted_of_helloOk there.stage.1 _ _)
      fun _ => terminal
    · simp only [World.log, session_snoc]
      rw [← through]
      exact bounds.1
    · simp only [World.log, session_snoc]
      rw [← through]
      exact bounds.2
    · simp only [World.log, session_snoc]
      exact congrArg UInt64.ofNat through
    · simp only [World.log, session_snoc]
      exact congrArg UInt64.ofNat inApplied

theorem Sound.bindAgent {d : Daemon} (h : Sound origin stage d) (hello : Hello) :
    Sound origin stage (d.bindAgent hello) ∧ (d.bindAgent hello).pty = d.pty := by
  have quiet := (Agent.bind_quiet d.world).aside
  unfold Daemon.bindAgent
  split
  · split
    · rename_i eq
      rw [eq] at quiet
      exact ⟨h.move quiet rfl, rfl⟩
    · rename_i eq
      rw [eq] at quiet
      exact ⟨h.world quiet, rfl⟩
  · exact ⟨h, rfl⟩

theorem Sound.spawn {d : Daemon} {pty : Pty} {w : World} (h : Sound origin stage d)
    (absent : d.pty = none) (aside : Aside d.world w) :
    Sound origin stage { d with pty := some pty, world := w } := by
  refine h.aside aside { h.2 with
    served := fun _ _ => rfl, queued := fun _ => rfl, closed := fun _ => rfl
    settled := fun o ho => ?_ }
  rcases h.2.settled o ho with observed | unknown
  · simp [Daemon.view, absent] at observed
  · exact .inr unknown

theorem Sound.startSession {d : Daemon} {hello : Hello} (h : Sound origin (.fresh hello) d)
    (absent : d.pty = none) :
    ((d.startSession hello).pty.isSome ∧ Sound origin (.fresh hello) (d.startSession hello)) ∨
    ((d.startSession hello).pty.isSome = false ∧
      Sound origin .greeted (d.startSession hello)) := by
  obtain ⟨bound, same⟩ := h.bindAgent hello
  have aside := Pty.spawn_aside hello.win (d.bindAgent hello).world
  unfold Daemon.startSession
  dsimp only
  split
  · rename_i pty w eq
    rw [eq] at aside
    exact .inl ⟨rfl, bound.spawn (same.trans absent) aside⟩
  · rename_i w eq
    rw [eq] at aside
    have refused := (bound.world aside).reject .internal "failed to start the session shell"
      (by simp) (by decide) fun no => by cases no
    refine .inr ⟨?_, refused.move (.refl _) rfl⟩
    have kept := (Daemon.reject_work { d.bindAgent hello with world := w } .internal
      "failed to start the session shell").pty
    exact congrArg Option.isSome (kept.trans (same.trans absent))

theorem Sound.onHello {d : Daemon} {hello : Hello} (h : Sound origin (.fresh hello) d) :
    Sound origin .greeted (d.onHello hello) := by
  have sized : Sound origin (.fresh hello) { d with win := hello.win, appliedWin := none } :=
    h.move (.refl _) rfl
  unfold Daemon.onHello
  dsimp only
  split
  · rename_i terminal
    exact sized.greet terminal
  · rename_i absent
    rcases sized.startSession (by simpa using absent) with ⟨terminal, started⟩ | ⟨refused, ended⟩
    · rw [if_pos terminal]
      exact started.greet terminal
    · rw [if_neg (by rw [refused]; exact Bool.false_ne_true)]
      exact ended

/-! ## The pending connection -/

theorem Sound.repend {d : Daemon} {c c' : Conn} {deadline : Nat} (h : Sound origin stage d)
    (pending : d.pending = some (c, deadline)) (same : c'.id = c.id)
    (linked : Linked c ((session origin.capacity d.world.trace).links c.id) →
      Linked c' ((session origin.capacity d.world.trace).links c.id)) :
    Sound origin stage { d with pending := some (c', deadline) } := by
  have waits := h.2.pending c deadline pending
  refine ⟨h.1, { h.2 with pending := fun b due hb => ?_, idle := fun no => (by cases no) }⟩
  cases hb
  refine ⟨?_, ?_, ?_, ?_⟩
  · simpa only [same] using waits.pending
  · simpa only [same] using linked waits.linked
  · simpa only [same] using waits.unsent
  · simpa only [same] using waits.through

theorem Sound.fillPending {d : Daemon} {c c' : Conn} {deadline n : Nat}
    {result : Except Errno Unit} {w : World} (h : Sound origin stage d)
    (pending : d.pending = some (c, deadline)) (fill : c.fill n d.world = (result, c', w)) :
    Sound origin stage { d with pending := some (c', deadline), world := w } := by
  obtain ⟨result', w', quiet, idle | eof | ⟨bytes, -, -, more⟩⟩ := c.fill_cases n d.world
  · rw [idle] at fill
    cases fill
    exact (h.world quiet.aside).repend pending rfl id
  · rw [eof] at fill
    cases fill
    have moved := h.world quiet.aside
    have waits := moved.2.pending c deadline pending
    refine moved.log (e := .endOfFile c.id) (.inl waits.pending) rfl
      (moved.2.touchPending moved.identified pending Link.atEof ?_)
    refine ⟨waits.pending, ?_, ?_, ?_⟩
    · rw [Session.update_self]; exact waits.linked.atEof
    · rw [Session.update_self]; exact waits.unsent
    · rw [Session.update_self]; exact waits.through
  · rw [more] at fill
    cases fill
    have moved : Sound origin stage
        { d with pending := some ({ c with rx := c.rx ++ bytes }, deadline), world := w' } :=
      (h.world quiet.aside).repend pending rfl fun linked => linked.receive _
    have waits := moved.2.pending _ _ rfl
    exact moved.log (e := .received c.id bytes) (.inl waits.pending) rfl moved.2

theorem Sound.attach {d : Daemon} {c : Conn} {deadline : Nat} (h : Sound origin stage d)
    (vacant : d.client = none) (pending : d.pending = some (c, deadline)) (hello : Hello) :
    Sound origin (.fresh hello) { d with
      client := some (.greeting c), pending := none
      world := d.world.log (.attached c.id hello) } := by
  have waits := h.2.pending c deadline pending
  refine h.log (e := .attached c.id hello) ⟨waits.pending, h.2.vacant vacant, waits.unsent⟩ rfl
    { h.2 with
      client := fun a ha => ?_
      vacant := fun no => (by cases no)
      pending := fun b due no => (by cases no)
      idle := fun _ => rfl
      served := fun no => (by cases no) }
  cases ha
  refine ⟨rfl, waits.linked, waits.through.symm, ?_, waits.unsent, rfl⟩
  simp [Attached.greeting, Link.exitSent, Session.step, waits.unsent]

theorem Sound.promote {d : Daemon} {hello : Hello} (h : Sound origin .greeted d) :
    Sound origin .greeted (d.promote hello) := by
  have evicted := h.evict
  unfold Daemon.promote
  dsimp only
  split
  · exact evicted
  · rename_i c deadline pending
    exact ((evicted.attach d.evict_client pending hello).onHello).readClient

theorem Sound.finalDrain {d : Daemon} (h : Sound origin .greeted d) :
    Sound origin .greeted d.finalDrain := h.doIf _ _ fun _ => h.readClient

theorem Sound.takeOver {d : Daemon} {hello : Hello} (h : Sound origin .greeted d) :
    Sound origin .greeted (d.takeOver hello) := by
  have drained := h.finalDrain
  unfold Daemon.takeOver
  dsimp only
  split
  · exact drained.rejectPending (by decide) (by simp)
  · exact drained.promote

theorem Sound.readPending {d : Daemon} (h : Sound origin .greeted d) :
    Sound origin .greeted d.readPending := by
  unfold Daemon.readPending
  split
  · exact h
  · rename_i c deadline pending
    split
    · rename_i fill
      exact (h.fillPending pending fill).dropPending _ (by simp)
    · rename_i c' w fill
      have filled := h.fillPending pending fill
      split
      · dsimp only
        split
        · exact filled.dropPending _ (by simp)
        · exact filled
      · exact filled.rejectPending (by decide) (by simp)
      · rename_i ty payload conn take
        obtain ⟨-, -, rfl⟩ := Conn.takeFrame_some take
        have taken := filled.repend rfl (Conn.consume_id ..) fun linked =>
          linked.consume (RawFrame.bytes (ty, payload)).length
        dsimp only
        split
        · exact taken.rejectPending (by decide) (by simp)
        · split
          · split
            · exact taken.rejectPending (by decide) (by simp)
            · exact taken.takeOver
          · exact taken.rejectPending (by decide) (by simp)

theorem Sound.accept {d : Daemon} (h : Sound origin stage d) (free : d.pending = none) :
    Sound origin stage d.accept := by
  have quiet := (d.world.retry_quiet (·.accept))
  unfold Daemon.accept
  split
  · rename_i peer w eq
    rw [eq] at quiet
    split
    · exact h.world quiet.aside
    · split
      · exact (h.world quiet.aside).move (.refl _) (by simp only [Daemon.view, free])
      · have moved := h.world (quiet.trans w.clock_quiet).aside
        have fresh := moved.identified.fresh _ (Nat.le_refl _)
        have next := moved.2.nextConn
        simp only [Daemon.view] at next fresh
        refine moved.log (e := .accepted w.clock.2.nextConn) ⟨next, moved.2.idle free⟩ rfl
          { moved.2 with
            client := fun a ha => (moved.2.client a ha).of_same rfl rfl rfl
            nextConn := congrArg (· + 1) moved.2.nextConn
            pending := fun c due hc => ?_
            idle := fun no => (by cases no) }
        cases hc
        refine ⟨rfl, ?_, ?_, ?_⟩
        · rw [← next] at fresh
          exact (congrArg (Linked _) fresh).mpr (Linked.fresh _)
        · rw [← next] at fresh
          exact congrArg Link.sent fresh
        · rw [← next] at fresh
          exact congrArg Link.sentThrough fresh
  · rename_i eq
    rw [eq] at quiet
    exact h.world quiet.aside
  · rename_i w _ eq
    rw [eq] at quiet
    exact h.move (quiet.trans w.clock_quiet).aside rfl

end Nomux
