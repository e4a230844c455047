import Nomux.Daemon.Frame

/-!
# The decode loop

How far `read_client` gets through the receive buffer. Handling a frame leaves the buffer alone, so
the loop takes the frames of the one-shot reading until it runs dry, unless the input saturates or
the client goes first.
-/

namespace Nomux
open Wire World

/-- Whoever is the client afterwards was it before, with the same receive buffer. -/
structure Keeps (d d' : Daemon) : Prop where
  reading : ∀ client', d'.client = some client' → ∃ client, d.client = some client ∧
    client'.conn.id = client.conn.id ∧ client'.conn.unread = client.conn.unread ∧
    client'.conn.eof = client.conn.eof

theorem Keeps.of_client {d d' : Daemon} (same : d'.client = d.client) : Keeps d d' :=
  ⟨fun client' some => ⟨client', same ▸ some, rfl, rfl, rfl⟩⟩

theorem Keeps.of_none {d d' : Daemon} (gone : d'.client = none) : Keeps d d' :=
  ⟨fun client' some => by simp [gone] at some⟩

theorem Keeps.trans {a b c : Daemon} (ab : Keeps a b) (bc : Keeps b c) : Keeps a c := by
  refine ⟨fun last hlast => ?_⟩
  obtain ⟨middle, hmiddle, id, unread, eof⟩ := bc.reading last hlast
  obtain ⟨first, hfirst, id', unread', eof'⟩ := ab.reading middle hmiddle
  exact ⟨first, hfirst, id.trans id', unread.trans unread', eof.trans eof'⟩

theorem Keeps.behind {a b c : Daemon} (bc : Keeps b c) (same : b.client = a.client) : Keeps a c :=
  (Keeps.of_client same).trans bc

theorem Conn.send_reading (c : Conn) (f : Frame) (w : World) :
    (c.send f w).2.1.id = c.id ∧ (c.send f w).2.1.unread = c.unread ∧
      (c.send f w).2.1.eof = c.eof := by
  rcases c.send_cases f w with queued | failed
  · rw [queued]
    exact ⟨rfl, rfl, rfl⟩
  · rw [failed]
    exact ⟨rfl, rfl, rfl⟩

/-! ## What handling a frame writes -/

/-- The refusal of input that ends inside a frame. -/
def truncation : Frame := .error .protocol "truncated frame at end of input"

def Event.isAnswer : Event → Bool
  | .sent _ frame => frame ≠ truncation
  | .wrote .. | .left .. | .applied .. => true
  | e => e.isAgent

structure Answers (a b : Daemon) : Prop where
  events : ∃ es, b.world.trace = a.world.trace ++ es ∧ ∀ e ∈ es, e.isAnswer

namespace Answers

variable {a b c : Daemon}

theorem of_trace (same : b.world.trace = a.world.trace) : Answers a b :=
  ⟨⟨[], by simpa using same, by simp⟩⟩

theorem trans (ab : Answers a b) (bc : Answers b c) : Answers a c := by
  obtain ⟨es, first, hes⟩ := ab.events
  obtain ⟨fs, second, hfs⟩ := bc.events
  refine ⟨es ++ fs, by rw [second, first, List.append_assoc], ?_⟩
  intro e inside
  rcases List.mem_append.1 inside with early | late
  · exact hes e early
  · exact hfs e late

theorem of_only (only : Only Event.isAgent a.world b.world) : Answers a b := by
  obtain ⟨es, agent, trace⟩ := only.trace
  refine ⟨es, trace, ?_⟩
  intro e inside
  have kind := agent e inside
  cases e <;> first | rfl | cases kind

theorem log {e : Event} (trace : b.world = a.world.log e) (answer : e.isAnswer) : Answers a b :=
  ⟨[e], by rw [trace, World.log], by simpa using answer⟩

end Answers

def Event.handledFor (conn : Nat) : Event → Option Frame
  | .handled c frame => if c = conn then some frame else none
  | _ => none

def handledOn (conn : Nat) (events : List Event) : List Frame :=
  events.filterMap (Event.handledFor conn)

theorem handledOn_answers {conn : Nat} {events : List Event} (answers : ∀ e ∈ events, e.isAnswer) :
    handledOn conn events = [] := by
  apply List.filterMap_eq_nil_iff.2
  intro e inside
  have kind := answers e inside
  cases e <;> first | rfl | cases kind

/-- Frames that no client loses its connection for. -/
def Wire.Frame.keepsClient : Frame → Bool
  | .resize _ | .ping | .agentData .. | .agentClose _ => true
  | _ => false

def Wire.Frame.raw (f : Frame) : RawFrame := (f.frameType, f.payload)

namespace Daemon

theorem tellClient_answers (d : Daemon) {f : Frame} (other : f ≠ truncation) :
    Answers d (d.tellClient f) := by
  unfold tellClient
  split
  · exact .of_trace rfl
  · rename_i client _
    rcases client.conn.send_cases f d.world with queued | failed
    · rw [queued]
      exact .log rfl (by simpa [Event.isAnswer] using other)
    · rw [failed]
      exact .of_trace rfl

theorem onDetached_answers (d : Daemon) : Answers d d.onDetached := by
  have clock : Only Event.isAgent d.world d.world.clock.2 := d.world.clock_quiet.only
  unfold onDetached
  dsimp only
  split
  · exact .of_only clock
  · rename_i agent _
    split
    · exact .of_only clock
    · rename_i generation _
      exact .of_only (clock.trans (agent.closeFromClient_only generation _))

theorem dropClient_answers (d : Daemon) (why : Departure) : Answers d (d.dropClient why) := by
  unfold dropClient
  split
  · exact .of_trace rfl
  · rename_i client _
    obtain ⟨bytes, trace, -⟩ := client.conn.flushSome_trace d.world
    generalize client.conn.flushSome d.world = flushed at trace
    obtain ⟨result, conn, w⟩ := flushed
    dsimp only at trace ⊢
    have left : Answers d { d with client := none, world := w.log (.left conn.id why) } := by
      refine ⟨[.wrote client.conn.id bytes, .left conn.id why], ?_, by simp [Event.isAnswer]⟩
      simp [World.log, trace]
    exact left.trans (onDetached_answers _)

theorem reject_answers (d : Daemon) (code : ErrorCode) (message : String)
    (other : .error code message ≠ truncation) : Answers d (d.reject code message) :=
  (tellClient_answers d other).trans (dropClient_answers ..)

theorem closeAgentChannel_answers (d : Daemon) : Answers d d.closeAgentChannel := by
  unfold closeAgentChannel
  split
  · exact .of_trace rfl
  · rename_i agent _
    have only := agent.forget_only d.world
    split
    · rename_i eq
      rw [eq] at only
      exact .of_only only
    · rename_i agent' w eq
      rw [eq] at only
      have freed : Answers d { d with agent := some agent', world := w } := .of_only only
      exact freed.trans (tellClient_answers _ (by simp [truncation]))

theorem onInput_answers (d : Daemon) (offset : UInt64) (data : Bytes) :
    Answers d (d.onInput offset data) := by
  unfold onInput
  dsimp only
  split
  · exact reject_answers d _ _ (by simp [truncation])
  · split
    · exact .trans (.log rfl rfl) (tellClient_answers _ (by simp [truncation]))
    · exact tellClient_answers d (by simp [truncation])

theorem handleFrame_answers (d : Daemon) (f : Frame) : Answers d (d.handleFrame f) := by
  cases f with
  | input offset data => exact onInput_answers ..
  | resize win => exact .of_trace rfl
  | ping => exact tellClient_answers d (f := .pong) (by simp [truncation])
  | detach => exact dropClient_answers d .detached
  | agentData generation data =>
      simp only [handleFrame]
      split
      · exact .of_trace rfl
      · split
        · exact .of_trace rfl
        · rename_i agent' _
          have dropped : Answers d { d with agent := some agent' } := .of_trace rfl
          exact dropped.trans (closeAgentChannel_answers _)
  | agentClose generation =>
      simp only [handleFrame]
      split
      · exact .of_trace rfl
      · rename_i agent _
        exact .of_only (agent.closeFromClient_only generation d.world)
  | hello hello =>
      exact reject_answers d .protocol "this connection has already greeted" (by simp [truncation])
  | helloOk | inputAck | output | gap | exit | pong | error | agentOpen =>
      exact reject_answers d .protocol "frame is not valid from a client" (by simp [truncation])

theorem tellClient_keeps (d : Daemon) (f : Frame) : Keeps d (d.tellClient f) := by
  unfold tellClient
  split
  · exact .of_client rfl
  · rename_i client attached
    refine ⟨fun client' some => ?_⟩
    cases some
    exact ⟨client, attached, client.conn.send_reading f d.world⟩

theorem dropClient_keeps (d : Daemon) (why : Departure) : Keeps d (d.dropClient why) :=
  .of_none (dropClient_client ..)

theorem reject_keeps (d : Daemon) (code : ErrorCode) (message : String) :
    Keeps d (d.reject code message) := .of_none (reject_client ..)

theorem closeAgentChannel_keeps (d : Daemon) : Keeps d d.closeAgentChannel := by
  unfold closeAgentChannel
  split
  · exact .of_client rfl
  · split
    · exact .of_client rfl
    · exact (tellClient_keeps ..).behind rfl

theorem onInput_keeps (d : Daemon) (offset : UInt64) (data : Bytes) :
    Keeps d (d.onInput offset data) := by
  unfold onInput
  dsimp only
  split
  · exact reject_keeps ..
  · split
    · exact (tellClient_keeps ..).behind rfl
    · exact tellClient_keeps ..

theorem handleFrame_keeps (d : Daemon) (f : Frame) : Keeps d (d.handleFrame f) := by
  cases f with
  | input offset data => exact onInput_keeps ..
  | resize win => exact .of_client rfl
  | ping => exact tellClient_keeps d .pong
  | detach => exact dropClient_keeps d .detached
  | agentData generation data =>
      simp only [handleFrame]
      split
      · exact .of_client rfl
      · split
        · exact .of_client rfl
        · exact (closeAgentChannel_keeps _).behind rfl
  | agentClose generation =>
      simp only [handleFrame]
      split <;> exact .of_client rfl
  | hello | helloOk | inputAck | output | gap | exit | pong | error | agentOpen =>
      exact reject_keeps ..

theorem tellClient_isSome (d : Daemon) (f : Frame) :
    (d.tellClient f).client.isSome = d.client.isSome := by
  unfold tellClient
  split
  · rfl
  · rename_i client attached
    rw [attached]
    rfl

theorem handleFrame_keepsClient (d : Daemon) {f : Frame} (keeps : f.keepsClient) :
    (d.handleFrame f).client.isSome = d.client.isSome := by
  cases f with
  | resize win => rfl
  | ping => exact tellClient_isSome d .pong
  | agentData generation data =>
      simp only [handleFrame]
      split
      · rfl
      · split
        · rfl
        · unfold closeAgentChannel
          dsimp only
          split
          · rfl
          · exact tellClient_isSome ..
  | agentClose generation =>
      simp only [handleFrame]
      split <;> rfl
  | _ => cases keeps

/-! ## The loop -/

/-- A loop that ran dry has taken every whole frame, and nothing else is left to take. -/
theorem decodeLoop_dry {rounds : Nat} {d d' : Daemon} (h : decodeLoop rounds d = (true, d')) :
    ∃ client client' frames, d.client = some client ∧ d'.client = some client' ∧
      client'.conn.id = client.conn.id ∧ client'.conn.eof = client.conn.eof ∧
      wireFramer.parse client.conn.unread = ⟨frames, client'.conn.unread, none⟩ := by
  induction rounds generalizing d with
  | zero => cases h
  | succ rounds ih =>
      rw [decodeLoop] at h
      split at h
      · cases h
      · split at h
        · cases h
        · rename_i client attached
          split at h
          · rename_i take
            cases h
            obtain ⟨stop, -⟩ := Conn.takeFrame_none take
            exact ⟨client, client, [], attached, attached, rfl, rfl,
              Framer.parse_of_none (F := wireFramer) stop⟩
          · cases h
          · rename_i ty payload conn take
            obtain ⟨valid, front, consumed⟩ := Conn.takeFrame_some take
            cases dec : Frame.decode ty payload with
            | error err => simp [dec] at h
            | ok frame =>
                simp only [dec] at h
                obtain ⟨next, client', frames, handled, attached', id, eof, parsed⟩ := ih h
                obtain ⟨before, same, id', unread, eof'⟩ := (handleFrame_keeps _ frame).reading next handled
                cases same
                refine ⟨client, client', (ty, payload) :: frames, attached, attached', ?_, ?_, ?_⟩
                · exact id.trans (id'.trans (by rw [consumed]; rfl))
                · exact eof.trans (eof'.trans (by rw [consumed]; rfl))
                · rw [front, parse_raw_append valid, ← unread, parsed]
                  rfl

/-- A loop that stopped early found the input saturated or has lost its client. -/
theorem decodeLoop_early {rounds : Nat} {d d' : Daemon} (h : decodeLoop rounds d = (false, d'))
    (enough : ∀ client, d.client = some client → client.conn.buffered < rounds) :
    d'.inputIsSaturated ∨ d'.client = none := by
  induction rounds generalizing d with
  | zero =>
      cases h
      cases attached : d'.client with
      | none => exact .inr rfl
      | some client => exact absurd (enough client attached) (Nat.not_lt_zero _)
  | succ rounds ih =>
      rw [decodeLoop] at h
      split at h
      · rename_i saturated
        cases h
        exact .inl saturated
      · split at h
        · rename_i gone
          cases h
          exact .inr gone
        · rename_i client attached
          split at h
          · cases h
          · cases h
            exact .inr (reject_client ..)
          · rename_i ty payload conn take
            obtain ⟨-, front, -⟩ := Conn.takeFrame_some take
            cases dec : Frame.decode ty payload with
            | error err =>
                simp only [dec] at h
                cases h
                exact .inr (reject_client ..)
            | ok frame =>
                simp only [dec] at h
                refine ih h fun next handled => ?_
                obtain ⟨before, same, -, unread, -⟩ := (handleFrame_keeps _ frame).reading next handled
                cases same
                have room := enough client attached
                have shorter := congrArg List.length front
                rw [← Conn.length_unread] at room ⊢
                rw [List.length_append, RawFrame.length_bytes, headerLen] at shorter
                rw [unread]
                change conn.unread.length < rounds
                omega

/-- Where the frames handled stop short of those there were, the connection has ended: the next does
not decode, or the last was one that may end it. -/
def EndsWith (frames : List RawFrame) (handled : List Frame) : Prop :=
  handled.map Frame.raw = frames ∨
    (∃ bad rest err, frames = handled.map Frame.raw ++ bad :: rest ∧
      Frame.decode bad.1 bad.2 = .error err) ∨
    ∃ last ∈ handled.getLast?, last.keepsClient = false

theorem EndsWith.cons {frames : List RawFrame} {handled : List Frame} (h : EndsWith frames handled)
    (frame : Frame) : EndsWith (frame.raw :: frames) (frame :: handled) := by
  rcases h with all | ⟨bad, rest, err, split, undecoded⟩ | ⟨last, here, ends⟩
  · exact .inl (by rw [List.map_cons, all])
  · exact .inr (.inl ⟨bad, rest, err, by rw [split]; rfl, undecoded⟩)
  · refine .inr (.inr ⟨last, ?_, ends⟩)
    rw [Option.mem_def, List.getLast?_cons, Option.mem_def.1 here]
    rfl

/-- What the loop writes to the trace: the frames of the one-shot reading are handled in order, all of
them where the loop runs dry, and all up to one that ends the connection where it loses its client. -/
structure HandlesInOrder (d : Daemon) (result : Bool × Daemon) (events : List Event) : Prop where
  trace : result.2.world.trace = d.world.trace ++ events
  kinds : ∀ e ∈ events, e.isAnswer ∨ ∃ conn frame, e = .handled conn frame
  order : ∀ client, d.client = some client →
    (handledOn client.conn.id events).map Frame.raw <+: (wireFramer.parse client.conn.unread).frames
  dry : result.1 → ∀ client, d.client = some client →
    (handledOn client.conn.id events).map Frame.raw = (wireFramer.parse client.conn.unread).frames
  gone : result.2.client = none → ∀ client, d.client = some client →
    EndsWith (wireFramer.parse client.conn.unread).frames (handledOn client.conn.id events)
  stays : result.2.client.isSome → ∀ client, d.client = some client →
    .detach ∉ handledOn client.conn.id events

theorem HandlesInOrder.of_still (d : Daemon) : HandlesInOrder d (false, d) [] where
  trace := (List.append_nil _).symm
  kinds := by simp
  order _ _ := List.nil_prefix
  dry no := nomatch no
  gone vacant client here := by
    rw [show d.client = none from vacant] at here
    cases here
  stays _ _ _ := List.not_mem_nil

theorem decodeLoop_vacant (rounds : Nat) {d : Daemon} (vacant : d.client = none) :
    decodeLoop rounds d = (false, d) := by
  cases rounds with
  | zero => rfl
  | succ rounds =>
      rw [decodeLoop]
      split
      · rfl
      · rw [vacant]

theorem HandlesInOrder.cons {d : Daemon} {client : Attached} {conn : Conn} {frame : Frame}
    {result : Bool × Daemon} {events : List Event} (attached : d.client = some client)
    (same : conn.id = client.conn.id) (valid : RawFrame.Valid frame.raw)
    (front : client.conn.unread = RawFrame.bytes frame.raw ++ conn.unread)
    (rest : HandlesInOrder
      ((({ d with client := some { client with conn } } : Daemon).noteFrame conn.id frame).handleFrame
        frame) result events)
    (vacant : ((({ d with client := some { client with conn } } : Daemon).noteFrame conn.id
      frame).handleFrame frame).client = none → result.2.client = none ∧ result.1 = false ∧ events = []) :
    ∃ events, HandlesInOrder d result events := by
  obtain ⟨answers, handled, fine⟩ := (handleFrame_answers
    (({ d with client := some { client with conn } } : Daemon).noteFrame conn.id frame) frame).events
  have reading := (handleFrame_keeps
    (({ d with client := some { client with conn } } : Daemon).noteFrame conn.id frame) frame).reading
  have stays : frame.keepsClient → _ := handleFrame_keepsClient
    (({ d with client := some { client with conn } } : Daemon).noteFrame conn.id frame)
  have leaves : frame = .detach → ((({ d with client := some { client with conn } } : Daemon).noteFrame
      conn.id frame).handleFrame frame).client = none := by
    intro detach
    rw [detach]
    exact dropClient_client ..
  generalize Daemon.handleFrame _ frame = next at handled reading rest vacant stays leaves
  have mine : handledOn client.conn.id (.handled conn.id frame :: (answers ++ events)) =
      frame :: handledOn client.conn.id events := by
    have silent : handledOn client.conn.id answers = [] := handledOn_answers fine
    have first : Event.handledFor client.conn.id (.handled conn.id frame) = some frame := if_pos same
    unfold handledOn at silent ⊢
    rw [List.filterMap_cons_some first, List.filterMap_append, silent]
    rfl
  have parsed : (wireFramer.parse client.conn.unread).frames =
      frame.raw :: (wireFramer.parse conn.unread).frames := by
    rw [front, parse_raw_append valid, Framer.prepend_frames]
    rfl
  have here : ∀ client', d.client = some client' → client' = client :=
    fun client' also => Option.some.inj (also.symm.trans attached)
  refine ⟨.handled conn.id frame :: (answers ++ events), ?_, ?_, ?_, ?_, ?_, ?_⟩
  · rw [rest.trace, handled]
    simp [noteFrame, World.log]
  · intro e inside
    rcases List.mem_cons.1 inside with rfl | later
    · exact .inr ⟨_, _, rfl⟩
    · rcases List.mem_append.1 later with answer | behind
      · exact .inl (fine e answer)
      · exact rest.kinds e behind
  · intro client' also
    rw [here client' also, mine, List.map_cons, parsed]
    refine List.cons_prefix_cons.2 ⟨rfl, ?_⟩
    cases still : next.client with
    | none =>
        rw [(vacant still).2.2]
        exact List.nil_prefix
    | some last =>
        obtain ⟨before, was, id, unread, -⟩ := reading last still
        cases was
        have upto := rest.order last still
        rw [id, unread] at upto
        rw [← same]
        exact upto
  · intro dry client' also
    rw [here client' also, mine, List.map_cons, parsed]
    cases still : next.client with
    | none => exact absurd dry (by simp [(vacant still).2.1])
    | some last =>
        obtain ⟨before, was, id, unread, -⟩ := reading last still
        cases was
        have all := rest.dry dry last still
        rw [id, unread] at all
        rw [← same]
        exact congrArg _ all
  · intro gone client' also
    rw [here client' also, mine, parsed]
    cases still : next.client with
    | none =>
        rw [(vacant still).2.2]
        refine .inr (.inr ⟨frame, rfl, Bool.eq_false_iff.2 fun keeps => ?_⟩)
        have kept := stays keeps
        rw [still] at kept
        cases kept
    | some last =>
        obtain ⟨before, was, id, unread, -⟩ := reading last still
        cases was
        have ends := rest.gone gone last still
        rw [id, unread] at ends
        rw [← same]
        exact ends.cons frame
  · intro remains client' also
    rw [here client' also, mine]
    cases still : next.client with
    | none => simp [(vacant still).1] at remains
    | some last =>
        obtain ⟨before, was, id, -, -⟩ := reading last still
        cases was
        have behind := rest.stays remains last still
        rw [id] at behind
        rintro (_ | ⟨_, later⟩)
        · rw [leaves rfl] at still
          cases still
        · rw [← same] at later
          exact behind later

theorem decodeLoop_handles (rounds : Nat) (d : Daemon) :
    ∃ events, HandlesInOrder d (decodeLoop rounds d) events := by
  induction rounds generalizing d with
  | zero => exact ⟨[], .of_still d⟩
  | succ rounds ih =>
      rw [decodeLoop]
      split
      · exact ⟨[], .of_still d⟩
      · split
        · exact ⟨[], .of_still d⟩
        · rename_i client attached
          split
          · rename_i take
            obtain ⟨stop, -⟩ := Conn.takeFrame_none take
            have none_whole : ∀ client', d.client = some client' →
                (wireFramer.parse client'.conn.unread).frames = [] := by
              intro client' here
              cases attached.symm.trans here
              rw [Framer.parse_of_none (F := wireFramer) stop]
            refine ⟨[], (List.append_nil _).symm, by simp, fun _ _ => List.nil_prefix, ?_, ?_, ?_⟩
            · intro _ client' here
              rw [none_whole client' here]
              rfl
            · intro vacant client' here
              rw [show d.client = none from vacant] at attached
              cases attached
            · intro _ client' _
              exact List.not_mem_nil
          · rename_i err take
            obtain ⟨events, trace, answers⟩ := (reject_answers d .protocol "unparseable frame header"
              (by simp [truncation])).events
            obtain ⟨stop, -⟩ := Conn.takeFrame_error take
            refine ⟨events, trace, fun e inside => .inl (answers e inside), ?_, by simp, ?_, ?_⟩
            · intro client' here
              rw [handledOn_answers answers]
              exact List.nil_prefix
            · intro _ client' here
              cases attached.symm.trans here
              rw [handledOn_answers answers, Framer.parse_of_error (F := wireFramer) stop]
              exact .inl rfl
            · intro _ client' _
              rw [handledOn_answers answers]
              exact List.not_mem_nil
          · rename_i ty payload conn take
            obtain ⟨valid, front, consumed⟩ := Conn.takeFrame_some take
            cases dec : Frame.decode ty payload with
            | error err =>
                have took : Answers d { d with client := some { client with conn } } := .of_trace rfl
                obtain ⟨events, trace, answers⟩ := (took.trans (reject_answers _ .protocol
                  "unparseable frame payload" (by simp [truncation]))).events
                refine ⟨events, trace, fun e inside => .inl (answers e inside), ?_, by simp, ?_, ?_⟩
                · intro client' here
                  rw [handledOn_answers answers]
                  exact List.nil_prefix
                · intro _ client' here
                  cases attached.symm.trans here
                  rw [handledOn_answers answers, front, parse_raw_append valid,
                    Framer.prepend_frames]
                  exact .inr (.inl ⟨(ty, payload), _, err, rfl, dec⟩)
                · intro _ client' _
                  rw [handledOn_answers answers]
                  exact List.not_mem_nil
            | ok frame =>
                have named : frame.raw = (ty, payload) := by
                  obtain ⟨type, -, bytes, -⟩ := (decode_eq_ok ..).1 dec
                  exact Prod.ext type bytes.symm
                rw [← named] at valid front
                obtain ⟨events, rest⟩ := ih
                  ((({ d with client := some { client with conn } } : Daemon).noteFrame conn.id
                    frame).handleFrame frame)
                dsimp only
                refine rest.cons attached (by rw [consumed]; rfl) valid front fun vacant => ?_
                have still := decodeLoop_vacant rounds vacant
                have trace := rest.trace
                rw [still] at trace ⊢
                exact ⟨vacant, rfl, by simpa using trace.symm⟩

theorem decodeFrames_cases (d : Daemon) :
    (d.decodeFrames.inputIsSaturated ∨ d.decodeFrames.client = none) ∨
    ∃ client client' frames, d.client = some client ∧ d.decodeFrames.client = some client' ∧
      client'.conn.eof = client.conn.eof ∧
      wireFramer.parse client.conn.unread = ⟨frames, client'.conn.unread, none⟩ ∧
      (client'.conn.eof → client'.conn.unread = []) := by
  unfold decodeFrames
  cases loop : decodeLoop ((d.client.elim 0 fun client => client.conn.buffered) + 1) d with
  | mk dry d' =>
      cases dry with
      | false =>
          refine .inl (decodeLoop_early loop fun client attached => ?_)
          simp [attached]
      | true =>
          obtain ⟨client, client', frames, attached, attached', -, eof, parsed⟩ := decodeLoop_dry loop
          dsimp only
          unfold refuseTruncated
          split
          · exact .inl (.inr (reject_client ..))
          · rename_i whole
            refine .inr ⟨client, client', frames, attached, attached', eof, parsed, fun ended => ?_⟩
            rw [attached', Option.any_some, ended] at whole
            have none_left : client'.conn.buffered = 0 := by simpa using whole
            rwa [← Conn.length_unread, List.length_eq_zero_iff] at none_left

end Daemon
end Nomux
