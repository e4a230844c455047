import Nomux.Daemon.Coupling

/-!
# Soundness of what the client does

Each function of the client side keeps the daemon sound: frames queued, departures, and the decoding
of what the client sends.
-/

namespace Nomux
open Wire World

variable {origin : Origin} {stage stage' : Stage}

def Wire.Frame.isNotice : Frame → Bool
  | .inputAck _ | .pong | .agentOpen _ | .agentData .. | .agentClose _ => true
  | _ => false

theorem Wire.encodable_error {code : ErrorCode} {message : String}
    (short : (utf8 message).length ≤ maxPayload - 2) : (Frame.error code message).Encodable := by
  refine ⟨trivial, ?_⟩
  simp only [Frame.payload, Frame.encodePayload, List.nil_append, List.length_append, length_put16]
  simp only [maxPayload] at short ⊢
  omega

theorem Sound.move {d d' : Daemon} (h : Sound origin stage d) (aside : Aside d.world d'.world)
    (same : { d'.view with nextConn := d.view.nextConn } = d.view) : Sound origin stage d' := by
  refine h.aside aside ?_
  rw [same]
  exact h.2

theorem Sound.identified {d : Daemon} (h : Sound origin stage d) :
    (session origin.capacity d.world.trace).Identified := h.1.lawful.identified

theorem Sound.doIf {d : Daemon} (h : Sound origin stage d) (cond : Bool) (f : Daemon → Daemon)
    (done : cond → Sound origin stage (f d)) : Sound origin stage (d.doIf cond f) := by
  unfold Daemon.doIf
  split
  · rename_i yes
    exact done yes
  · exact h

theorem Sound.vacant {d : Daemon} (h : Sound origin stage d) (none : d.client = none) :
    Sound origin stage' d :=
  ⟨h.1, { h.2 with
    client := fun a ha => by rw [Daemon.view, none] at ha; cases ha
    served := fun _ some => by rw [Daemon.view, none] at some; cases some }⟩

/-! ## Queueing frames -/

theorem Serves.queue {s : Session} {a : Attached} (h : Serves s stage a) (f : Frame)
    {sentThrough : Nat} {terminalEndSent due : Bool}
    (through : sentThrough = (s.queued f (s.links a.conn.id)).sentThrough)
    (ended : terminalEndSent = (a.terminalEndSent || f.isExit))
    (next : stage'.Holds s (s.queued f (s.links a.conn.id))) :
    Serves (s.update a.conn.id (s.queued f)) stage'
      { a with
        conn := a.conn.queue f, sentThrough := sentThrough, terminalEndSent := terminalEndSent
        repaintDue := due } where
  attached := h.attached
  linked := by
    rw [Conn.queue_id, Session.update_self]
    exact h.linked.queue s f
  sentThrough := by
    rw [Conn.queue_id, Session.update_self]
    exact through
  terminalEndSent := by
    rw [Conn.queue_id, Session.update_self, Session.queued_exitSent, ← h.terminalEndSent]
    exact ended
  stage := by
    rw [Conn.queue_id, Session.update_self]
    cases stage' <;> exact next

theorem Sound.queue {d : Daemon} {a : Attached} {f : Frame} (h : Sound origin stage d)
    (stage' : Stage) (sentThrough : Nat) (terminalEndSent due : Bool) (client : d.client = some a)
    (legal : (session origin.capacity d.world.trace).Sendable a.conn.id f)
    (through : sentThrough = ((session origin.capacity d.world.trace).queued f
      ((session origin.capacity d.world.trace).links a.conn.id)).sentThrough)
    (ended : terminalEndSent = (a.terminalEndSent || f.isExit))
    (next : stage'.Holds (session origin.capacity d.world.trace) ((session origin.capacity d.world.trace).queued f
      ((session origin.capacity d.world.trace).links a.conn.id)))
    (served : stage' = .greeted → d.pty.isSome) :
    Sound origin stage' { d with
      client := some
        { a with
          conn := a.conn.queue f, sentThrough := sentThrough, terminalEndSent := terminalEndSent
          repaintDue := due }
      world := d.world.log (.sent a.conn.id f) } :=
  h.log (e := .sent a.conn.id f) legal rfl
    (h.2.touchClient h.identified client _
      ((h.2.client a client).queue f through ended next) served)

theorem Sound.tellClient {d : Daemon} {f : Frame} (h : Sound origin .greeted d)
    (encodable : f.Encodable) (notice : f.isNotice)
    (current : ∀ n, f = .inputAck n → n = UInt64.ofNat d.inApplied) :
    Sound origin .greeted (d.tellClient f) := by
  unfold Daemon.tellClient
  split
  · exact h
  · rename_i a client
    have serves := h.2.client a client
    have legal : (session origin.capacity d.world.trace).Sendable a.conn.id f := by
      cases f with
      | inputAck n => exact ⟨serves.attached, serves.stage, by rw [current n rfl, h.2.inApplied.symm]; rfl⟩
      | pong | agentOpen | agentData | agentClose => exact ⟨serves.attached, serves.stage⟩
      | _ => cases notice
    have plain : f.isResponse ∧ f.isExit = false := by
      cases f <;> first | exact ⟨rfl, rfl⟩ | cases notice
    rw [Conn.send_eq _ encodable]
    refine h.queue _ _ _ _ client legal ?_ (by rw [plain.2, Bool.or_false]) (serves.stage.append plain.1 _)
      (fun _ => h.2.served rfl (by simp [Daemon.view, client]))
    cases f <;> first | exact serves.sentThrough | cases notice

/-! ## Departures -/

theorem Sound.onDetached {d : Daemon} (h : Sound origin stage d) :
    Sound origin stage d.onDetached := by
  have clock := d.world.clock_quiet.aside
  unfold Daemon.onDetached
  dsimp only
  split
  · exact h.move clock rfl
  · split
    · exact h.move clock rfl
    · rename_i agent _ _ generation _
      exact h.move (clock.trans (agent.closeFromClient_aside generation _)) rfl

theorem Sound.wrote {d : Daemon} {a : Attached} {w : World} {bytes tx : Bytes} {pos : Nat}
    (h : Sound origin stage d) (client : d.client = some a) (quiet : Quiet d.world w)
    (bound : pos ≤ tx.length) (split : bytes ++ tx.drop pos = a.conn.unsent) :
    Sound origin stage { d with
      client := some { a with conn := a.conn.writing tx pos }
      world := w.log (.wrote a.conn.id bytes) } := by
  have moved : Sound origin stage { d with world := w } := h.world quiet.aside
  have serves := moved.2.client a client
  have whole := serves.linked.stream
  refine moved.log (e := .wrote a.conn.id bytes) ⟨serves.open, ?_⟩ rfl
    (moved.2.touchClient moved.identified client (Link.took bytes) ?_
      (fun greeted => moved.2.served greeted (by simp [Daemon.view, client])))
  · rw [← whole, ← split, ← List.append_assoc]
    exact List.prefix_append ..
  · refine ⟨serves.attached, ?_, ?_, ?_, ?_⟩
    · rw [Conn.writing_id, Session.update_self]
      exact serves.linked.writing bound split
    · rw [Conn.writing_id, Session.update_self]
      exact serves.sentThrough
    · rw [Conn.writing_id, Session.update_self]
      exact serves.terminalEndSent
    · rw [Conn.writing_id, Session.update_self]
      have stays := serves.stage
      cases stage <;> exact stays

/-- A client that is let go for being finished has had its `Exit` and has taken every byte. -/
def Daemon.MayFinish (d : Daemon) : Prop :=
  ∀ a, d.client = some a → a.terminalEndSent ∧ a.conn.eof ∧ a.conn.unsent = []

theorem Sound.left {d : Daemon} {a : Attached} {why : Departure} (h : Sound origin stage d)
    (client : d.client = some a) (finished : why = .finished → d.MayFinish) :
    Sound origin stage' { d with client := none, world := d.world.log (.left a.conn.id why) } := by
  have serves := h.2.client a client
  refine h.log (e := .left a.conn.id why) ⟨serves.open, fun done => ?_⟩ rfl
    (h.2.dropClient h.identified client why)
  obtain ⟨exit, eof, empty⟩ := finished done a client
  have whole := serves.linked.stream
  rw [empty, List.append_nil] at whole
  exact ⟨serves.terminalEndSent ▸ exit, serves.linked.eof ▸ eof, whole⟩

theorem Sound.dropClient {d : Daemon} {why : Departure} (h : Sound origin stage d)
    (finished : why = .finished → d.MayFinish) : Sound origin .greeted (d.dropClient why) := by
  unfold Daemon.dropClient
  split
  · rename_i none
    exact h.vacant none
  · rename_i a client
    have serves := h.2.client a client
    obtain ⟨result, tx, pos, w, bytes, flush, quiet, bound, split⟩ :=
      a.conn.flushSome_cases d.world serves.linked.carries.bound
    rw [flush]
    have wrote := h.wrote client quiet bound split
    refine (wrote.left rfl fun done b hb => ?_).onDetached
    cases hb
    obtain ⟨exit, eof, empty⟩ := finished done a client
    rw [empty] at split
    exact ⟨exit, eof, (List.append_eq_nil_iff.1 split).2⟩

theorem Serves.refusable {s : Session} {a : Attached} (h : Serves s stage a)
    (live : stage ≠ .refused) : (s.links a.conn.id).sent = [] ∨ (s.links a.conn.id).Greeted := by
  have holds := h.stage
  cases stage with
  | fresh hello => exact .inl holds.1
  | greeted => exact .inr holds
  | refused => exact (live rfl).elim

theorem Sound.reject {d : Daemon} (h : Sound origin stage d) (code : ErrorCode)
    (message : String) (live : stage ≠ .refused)
    (short : (utf8 message).length ≤ maxPayload - 2)
    (skipped : code = .inputGap → ∃ offset data,
      (session origin.capacity d.world.trace).handling = some (.input offset data) ∧
        d.inApplied < offset.toNat) :
    Sound origin .greeted (d.reject code message) := by
  unfold Daemon.reject Daemon.tellClient
  split
  · exact h.dropClient fun no => by cases no
  · rename_i a client
    have serves := h.2.client a client
    rw [Conn.send_eq _ (encodable_error short)]
    have legal : (session origin.capacity d.world.trace).Sendable a.conn.id (.error code message) := by
      refine ⟨serves.open, serves.refusable live, fun gap => ?_⟩
      rw [← h.2.inApplied]
      exact skipped gap
    have queued := h.queue .refused a.sentThrough a.terminalEndSent a.repaintDue client legal
      serves.sentThrough (Bool.or_false _).symm trivial (fun no => by cases no)
    exact queued.dropClient fun no => by cases no

theorem Sound.finalFlush {d : Daemon} {a : Attached} (h : Sound origin stage d) (why : Departure)
    (client : d.client = some a) (unfinished : why ≠ .finished) :
    Sound origin .greeted { d with
      client := none, world := (a.conn.flushFinal d.world).log (.left a.conn.id why) } := by
  have serves := h.2.client a client
  obtain ⟨w, quiet, none | ⟨bytes, front, some⟩⟩ :=
    a.conn.flushFinal_cases d.world serves.linked.carries.bound
  · rw [none]
    exact (h.world quiet.aside).left client fun done => (unfinished done).elim
  · rw [some]
    obtain ⟨rest, split⟩ := front
    have wrote := h.wrote client quiet (Nat.zero_le rest.length) split
    exact wrote.left (a := { a with conn := a.conn.writing rest 0 }) rfl
      fun done => (unfinished done).elim

theorem Sound.evict {d : Daemon} (h : Sound origin .greeted d) :
    Sound origin .greeted d.evict := by
  unfold Daemon.evict
  split
  · exact h
  · rename_i a client
    have serves := h.2.client a client
    have encodable : (Frame.error .takeover "another client attached").Encodable :=
      encodable_error (by decide)
    have legal : (session origin.capacity d.world.trace).Sendable a.conn.id
        (.error .takeover "another client attached") :=
      ⟨serves.open, .inr serves.stage, fun no => by cases no⟩
    have queued := h.queue .refused a.sentThrough a.terminalEndSent a.repaintDue client legal
      serves.sentThrough (Bool.or_false _).symm trivial (fun no => by cases no)
    simp only [Conn.closeWith, Conn.send_eq _ encodable]
    exact (queued.finalFlush .takeover rfl (by simp)).onDetached

/-! ## The pending connection -/

theorem Sound.dropPending {d : Daemon} (h : Sound origin stage d) (why : Departure)
    (unfinished : why ≠ .finished) : Sound origin stage (d.dropPending why) := by
  unfold Daemon.dropPending
  split
  · exact h
  · rename_i c deadline pending
    have waits := h.2.pending c deadline pending
    have gone := h.2.dropPending h.identified pending id why
    rw [Session.update_id] at gone
    exact h.log (e := .left c.id why) ⟨.inl waits.pending, fun done => (unfinished done).elim⟩ rfl
      gone

theorem Sound.rejectPending {d : Daemon} {code : ErrorCode} {message : String}
    (h : Sound origin stage d) (short : (utf8 message).length ≤ maxPayload - 2)
    (other : code ≠ .inputGap) : Sound origin stage (d.rejectPending code message) := by
  unfold Daemon.rejectPending
  split
  · exact h
  · rename_i c deadline pending
    have waits := h.2.pending c deadline pending
    have lawful := h.1.snoc (e := .sent c.id (.error code message))
      ⟨.inl waits.pending, .inl waits.unsent, fun gap => (other gap).elim⟩
    have queued := waits.linked.queue (session origin.capacity d.world.trace) (.error code message)
    simp only [Conn.closeWith, Conn.send_eq _ (encodable_error short)]
    obtain ⟨w, quiet, none | ⟨bytes, ⟨rest, split⟩, some⟩⟩ :=
      (c.queue (.error code message)).flushFinal_cases (d.world.log (.sent c.id (.error code message)))
        queued.carries.bound
    · rw [none]
      have trace : w.trace = d.world.trace ++ [.sent c.id (.error code message)] := quiet.trace
      have next : w.nextConn = d.world.nextConn := quiet.nextConn
      have whole := lawful.snoc (e := .left c.id .refused)
        ⟨by rw [session_snoc]; exact .inl waits.pending, fun no => by cases no⟩
      refine ⟨by simpa only [World.log, trace] using whole, ?_⟩
      simp only [World.log, trace, session_snoc, Daemon.view, next]
      exact h.2.dropPending h.identified pending
        ((session origin.capacity d.world.trace).queued (.error code message)) .refused
    · rw [some, Conn.queue_id]
      have trace : w.trace = d.world.trace ++ [.sent c.id (.error code message)] := quiet.trace
      have next : w.nextConn = d.world.nextConn := quiet.nextConn
      have took := lawful.snoc (e := .wrote c.id bytes) ⟨by rw [session_snoc]; exact .inl waits.pending,
        by
          rw [session_snoc]
          simp only [Session.step, Session.update_self]
          rw [← queued.stream, ← split, ← List.append_assoc]
          exact List.prefix_append ..⟩
      have whole := took.snoc (e := .left c.id .refused)
        ⟨by rw [session_snoc, session_snoc]; exact .inl waits.pending, fun no => by cases no⟩
      refine ⟨by simpa only [World.log, trace] using whole, ?_⟩
      simp only [World.log, trace, session_snoc, Daemon.view, next]
      have gone := h.2.dropPending h.identified pending (Link.took bytes ∘
        (session origin.capacity d.world.trace).queued (.error code message)) .refused
      rw [← Session.update_update] at gone
      exact gone

/-! ## The agent slot -/

theorem encodable_agentClose (generation : UInt32) : (Frame.agentClose generation).Encodable :=
  ⟨trivial, by simp [Frame.payload, Frame.encodePayload, maxPayload]⟩

theorem encodable_agentOpen (generation : UInt32) : (Frame.agentOpen generation).Encodable :=
  ⟨trivial, by simp [Frame.payload, Frame.encodePayload, maxPayload]⟩

theorem encodable_inputAck (n : UInt64) : (Frame.inputAck n).Encodable :=
  ⟨trivial, by simp [Frame.payload, Frame.encodePayload, maxPayload]⟩

theorem encodable_pong : Frame.pong.Encodable :=
  ⟨trivial, by simp [Frame.payload, Frame.encodePayload]⟩

theorem Sound.closeAgentChannel {d : Daemon} (h : Sound origin .greeted d) :
    Sound origin .greeted d.closeAgentChannel := by
  unfold Daemon.closeAgentChannel
  split
  · exact h
  · rename_i agent _
    have aside := agent.forget_aside d.world
    split
    · rename_i eq
      rw [eq] at aside
      exact h.move aside rfl
    · rename_i agent' w eq
      rw [eq] at aside
      have moved : Sound origin .greeted { d with agent := some agent', world := w } :=
        h.move aside rfl
      exact moved.tellClient (encodable_agentClose _) rfl fun n no => by cases no

end Nomux
