import Nomux.Daemon.ClientSound

/-!
# Soundness of reading the client

The frames a client sends, one after the other, and the agent slot they may concern.
-/

namespace Nomux
open Wire World

variable {origin : Origin} {stage stage' : Stage}

/-! ## The agent slot -/

theorem Sound.acceptAgent {d : Daemon} (h : Sound origin .greeted d) :
    Sound origin .greeted d.acceptAgent := by
  unfold Daemon.acceptAgent
  dsimp only
  split
  · exact h
  · rename_i agent _
    have aside := agent.accept_aside d.client.isSome d.world
    split
    · rename_i generation agent' w eq
      rw [eq] at aside
      have moved : Sound origin .greeted { d with agent := some agent', world := w } :=
        h.move aside rfl
      exact moved.tellClient (encodable_agentOpen _) rfl fun n no => by cases no
    · rename_i agent' w eq
      rw [eq] at aside
      exact h.move (aside.trans w.clock_quiet.aside) rfl
    · rename_i eq
      rw [eq] at aside
      exact h.move aside rfl

theorem readOrEof_length {w w' : World} {n : Nat} {bytes : Bytes}
    (h : w.readOrEof n = (.data bytes, w')) : bytes ≠ [] ∧ bytes.length ≤ n := by
  unfold World.readOrEof at h
  split at h
  · cases h
  · split at h
    · cases h
    · rename_i nonempty read
      cases h
      exact ⟨fun nil => nonempty (nil ▸ rfl), w.read_length read⟩
    · cases h
    · cases h
    · cases h

theorem Agent.read_length {a a' : Agent} {w w' : World} {n : Nat} {bytes : Bytes}
    (h : a.read n w = (.data bytes, a', w')) : bytes.length ≤ n := by
  unfold Agent.read at h
  split at h
  · cases h
  · split at h
    · cases h
    · split at h
      · rename_i read
        cases h
        exact (readOrEof_length read).2
      · rename_i notData _
        cases h
        exact (notData _ rfl).elim

theorem encodable_agentData (generation : UInt32) {data : Bytes}
    (short : data.length ≤ readBufLen) : (Frame.agentData generation data).Encodable := by
  refine ⟨trivial, ?_⟩
  simp only [Frame.payload, Frame.encodePayload, List.nil_append, List.length_append, length_put32]
  simp only [readBufLen, maxPayload] at short ⊢
  omega

theorem Sound.readAgentChannel {d : Daemon} (h : Sound origin .greeted d) (events : PollFlags) :
    Sound origin .greeted (d.readAgentChannel events) := by
  unfold Daemon.readAgentChannel
  split
  · exact h
  · split
    · exact h
    · rename_i agent _
      have aside := agent.read_aside readBufLen d.world
      dsimp only
      split
      · rename_i bytes agent' w eq
        rw [eq] at aside
        have moved : Sound origin .greeted { d with agent := some agent', world := w } :=
          h.move aside rfl
        have short := Agent.read_length eq
        split
        · rename_i generation a _ client
          have told := moved.tellClient (encodable_agentData generation short) rfl
            fun n no => by cases no
          simpa only [Daemon.tellClient, client, Conn.sendAgentData] using told
        · exact moved
      · rename_i agent' w eq
        rw [eq] at aside
        have moved : Sound origin .greeted { d with agent := some agent', world := w } :=
          h.move aside rfl
        exact moved.closeAgentChannel
      · rename_i agent' w eq
        rw [eq] at aside
        have moved : Sound origin .greeted { d with agent := some agent', world := w } :=
          h.move aside rfl
        exact moved.closeAgentChannel
      · rename_i eq
        rw [eq] at aside
        exact h.move aside rfl

theorem Sound.serviceAgentChannel {d : Daemon} (h : Sound origin .greeted d)
    (events : PollFlags) : Sound origin .greeted (d.serviceAgentChannel events) := by
  unfold Daemon.serviceAgentChannel
  split
  · exact h
  · rename_i agent _
    split
    · have aside := agent.flush_aside d.world
      split
      · rename_i agent' w eq
        rw [eq] at aside
        have moved : Sound origin .greeted { d with agent := some agent', world := w } :=
          h.move aside rfl
        exact moved.readAgentChannel events
      · rename_i agent' w eq
        rw [eq] at aside
        exact h.move (aside.trans (agent'.forget_aside w)) rfl
      · rename_i agent' w eq
        rw [eq] at aside
        have moved : Sound origin .greeted { d with agent := some agent', world := w } :=
          h.move aside rfl
        exact moved.closeAgentChannel
    · exact h.readAgentChannel events

/-! ## Input -/

theorem Sound.onInput {d : Daemon} {offset : UInt64} {data : Bytes}
    (h : Sound origin .greeted d) (served : d.client.isSome)
    (handling : (session origin.capacity d.world.trace).handling = some (.input offset data)) :
    Sound origin .greeted (d.onInput offset data) := by
  unfold Daemon.onInput
  dsimp only
  split
  · rename_i skipped
    exact h.reject _ _ (by simp) (by decide) fun _ => ⟨offset, data, handling, skipped⟩
  · rename_i behind
    split
    · rename_i ahead
      refine Sound.tellClient ?_ (encodable_inputAck _) rfl fun n same => by cases same; rfl
      have terminal := h.2.served rfl served
      have inApplied := h.2.inApplied
      have pendingInput := h.2.pendingInput
      have closed := h.2.terminalClosedAt
      simp only [Daemon.view] at inApplied pendingInput closed
      refine h.log (e := .applied offset data _) ⟨handling, ?_, ?_, ?_⟩ rfl
        { h.2 with
          client := fun a ha => (h.2.client a ha).of_same rfl rfl rfl
          pending := fun c deadline hc => (h.2.pending c deadline hc).of_same rfl rfl
          inApplied := rfl
          pendingInput := congrArg (· ++ _) h.2.pendingInput
          queued := fun _ => terminal }
      · omega
      · omega
      · rw [← closed, ← inApplied]
    · exact h.tellClient (encodable_inputAck _) rfl fun n same => by cases same; rfl

theorem Sound.handleFrame {d : Daemon} {frame : Frame} (h : Sound origin .greeted d)
    (served : d.client.isSome)
    (handling : (session origin.capacity d.world.trace).handling = some frame) :
    Sound origin .greeted (d.handleFrame frame) := by
  cases frame with
  | input offset data => exact h.onInput served handling
  | resize win => exact h.move (.refl _) rfl
  | ping => exact h.tellClient encodable_pong rfl fun n no => by cases no
  | detach => exact h.dropClient fun no => by cases no
  | agentData generation data =>
      simp only [Daemon.handleFrame]
      split
      · exact h
      · split
        · exact h.move (.refl _) rfl
        · exact Sound.closeAgentChannel (h.move (.refl _) rfl)
  | agentClose generation =>
      simp only [Daemon.handleFrame]
      split
      · exact h
      · rename_i agent _
        exact h.move (agent.closeFromClient_aside generation d.world) rfl
  | hello greeting => exact h.reject _ _ (by simp) (by decide) fun no => by cases no
  | helloOk | inputAck | output | gap | exit | pong | error | agentOpen =>
      exact h.reject _ _ (by simp) (by decide) fun no => by cases no

/-! ## Reading -/

theorem Sound.reread {d : Daemon} {a : Attached} {c : Conn} (h : Sound origin stage d)
    (client : d.client = some a) (same : c.id = a.conn.id)
    (linked : Linked a.conn ((session origin.capacity d.world.trace).links a.conn.id) →
      Linked c ((session origin.capacity d.world.trace).links a.conn.id)) :
    Sound origin stage { d with client := some { a with conn := c } } := by
  have serves := h.2.client a client
  refine ⟨h.1, { h.2 with
    client := fun b hb => ?_, vacant := fun no => (by cases no), served := fun greeted _ => ?_ }⟩
  · cases hb
    refine ⟨?_, ?_, ?_, ?_, ?_⟩
    · simpa only [same] using serves.attached
    · simpa only [same] using linked serves.linked
    · simpa only [same] using serves.sentThrough
    · simpa only [same] using serves.terminalEndSent
    · rw [same]
      exact serves.stage
  · exact h.2.served greeted (by simp [Daemon.view, client])

theorem Linked.consume {c : Conn} {l : Link} (h : Linked c l) (n : Nat) : Linked (c.consume n) l :=
  ⟨⟨h.carries.bound, h.carries.split, h.carries.fresh⟩, h.preamble, h.eof⟩

theorem Linked.receive {c : Conn} {l : Link} (h : Linked c l) (rx : Bytes) :
    Linked { c with rx } l :=
  ⟨⟨h.carries.bound, h.carries.split, h.carries.fresh⟩, h.preamble, h.eof⟩

theorem Linked.atEof {c : Conn} {l : Link} (h : Linked c l) :
    Linked { c with eof := true } l.atEof :=
  ⟨⟨h.carries.bound, h.carries.split, h.carries.fresh⟩, h.preamble, rfl⟩

theorem Sound.fillClient {d : Daemon} {a : Attached} {n : Nat} {result : Except Errno Unit}
    {conn : Conn} {w : World} (h : Sound origin stage d) (client : d.client = some a)
    (fill : a.conn.fill n d.world = (result, conn, w)) :
    Sound origin stage { d with client := some { a with conn }, world := w } := by
  obtain ⟨result', w', quiet, idle | eof | ⟨bytes, -, -, more⟩⟩ := a.conn.fill_cases n d.world
  · rw [idle] at fill
    cases fill
    exact (h.world quiet.aside).reread client rfl id
  · rw [eof] at fill
    cases fill
    have moved := h.world quiet.aside
    have serves := moved.2.client a client
    refine moved.log (e := .endOfFile a.conn.id) serves.open rfl
      (moved.2.touchClient moved.identified client Link.atEof ?_
        fun greeted => moved.2.served greeted (by simp [Daemon.view, client]))
    refine ⟨serves.attached, ?_, ?_, ?_, ?_⟩
    · rw [Session.update_self]; exact serves.linked.atEof
    · rw [Session.update_self]; exact serves.sentThrough
    · rw [Session.update_self]; exact serves.terminalEndSent
    · rw [Session.update_self]
      have stays := serves.stage
      cases stage <;> exact stays
  · rw [more] at fill
    cases fill
    have moved := (h.world quiet.aside).reread (c := { a.conn with rx := a.conn.rx ++ bytes }) client rfl
      fun linked => linked.receive _
    have serves := moved.2.client _ rfl
    exact moved.log (e := .received a.conn.id bytes) serves.open rfl moved.2

theorem Sound.noteFrame {d : Daemon} {a : Attached} {f : Frame} (h : Sound origin stage d)
    (client : d.client = some a) :
    Sound origin stage (d.noteFrame a.conn.id f) ∧
      (session origin.capacity (d.noteFrame a.conn.id f).world.trace).handling = some f := by
  have serves := h.2.client a client
  refine ⟨h.log (e := .handled a.conn.id f) serves.attached rfl ?_, ?_⟩
  · exact { h.2 with
      client := fun b hb => (h.2.client b hb).of_same rfl rfl rfl
      pending := fun c deadline hc => (h.2.pending c deadline hc).of_same rfl rfl }
  · simp only [Daemon.noteFrame, World.log, session_snoc]
    rfl

theorem Sound.decodeLoop {d : Daemon} (h : Sound origin .greeted d) (rounds : Nat) :
    Sound origin .greeted (Daemon.decodeLoop rounds d).2 := by
  induction rounds generalizing d with
  | zero => exact h
  | succ rounds ih =>
      rw [Daemon.decodeLoop]
      split
      · exact h
      · split
        · exact h
        · rename_i a client
          split
          · exact h
          · exact h.reject _ _ (by simp) (by decide) fun no => by cases no
          · rename_i ty payload conn take
            obtain ⟨-, -, rfl⟩ := Conn.takeFrame_some take
            have taken := h.reread client (Conn.consume_id ..) fun linked =>
              linked.consume (RawFrame.bytes (ty, payload)).length
            cases Frame.decode ty payload with
            | error err =>
                exact taken.reject .protocol "unparseable frame payload" (by simp) (by decide)
                  fun no => by cases no
            | ok frame =>
                obtain ⟨noted, handling⟩ := taken.noteFrame (f := frame) rfl
                exact ih (noted.handleFrame rfl handling)

theorem Sound.refuseTruncated {d : Daemon} (h : Sound origin .greeted d) :
    Sound origin .greeted d.refuseTruncated := by
  unfold Daemon.refuseTruncated
  split
  · exact h.reject _ _ (by simp) (by decide) fun no => by cases no
  · exact h

theorem Sound.decodeFrames {d : Daemon} (h : Sound origin .greeted d) :
    Sound origin .greeted d.decodeFrames := by
  have looped := h.decodeLoop ((d.client.elim 0 fun client => client.conn.buffered) + 1)
  unfold Daemon.decodeFrames
  split
  · rename_i eq
    rw [eq] at looped
    exact looped.refuseTruncated
  · rename_i eq
    rw [eq] at looped
    exact looped

theorem Sound.readClient {d : Daemon} (h : Sound origin .greeted d) :
    Sound origin .greeted d.readClient := by
  unfold Daemon.readClient
  split
  · exact h
  · rename_i a client
    split
    · exact h.decodeFrames
    · split
      · rename_i fill
        exact (h.fillClient client fill).dropClient fun no => by cases no
      · rename_i fill
        exact (h.fillClient client fill).decodeFrames

end Nomux
