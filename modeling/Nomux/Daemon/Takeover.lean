import Nomux.Daemon.Decode
import Nomux.Daemon.Repaint

/-!
# Greetings, won and lost

A pending connection takes the session by its first frame and in no other way. One that loses leaves
the session alone. One that wins has had the incumbent's buffer read to where it ends the incumbent's
connection, so that nothing the incumbent had sent is lost to the takeover.
-/

namespace Nomux
open Wire World

/-! ## One client at a time -/

def Event.attaches : Event → Bool
  | .attached .. => true
  | _ => false

def Event.isOf (conn : Nat) : Event → Bool
  | .received c _ | .endOfFile c | .sent c _ | .wrote c _ | .left c _ => c = conn
  | _ => false

theorem Session.step_attached {s : Session} {c : Nat} {e : Event} (legal : s.Legal e)
    (held : s.attached = some c) (stays : ∀ why, e ≠ .left c why) : (s.step e).attached = some c := by
  cases e with
  | attached c' hello =>
      have vacant := legal.2.1
      rw [held] at vacant
      cases vacant
  | left c' why =>
      have other : c ≠ c' := fun same => stays why (same ▸ rfl)
      show (if s.attached = some c' then none else s.attached) = _
      rw [held, if_neg (fun same => other (Option.some.inj same))]
  | _ => exact held

theorem Lawful.attached_stays {capacity : Nat} {before between : List Event} {c : Nat}
    (lawful : Lawful capacity (before ++ between))
    (held : (session capacity before).attached = some c)
    (stays : ∀ why, .left c why ∉ between) :
    (session capacity (before ++ between)).attached = some c := by
  induction between using List.reverseRecOn with
  | nil => rwa [List.append_nil]
  | append_singleton between e ih =>
      rw [← List.append_assoc] at lawful ⊢
      have still := ih lawful.of_append fun why inside => stays why (List.mem_append_left _ inside)
      rw [session_snoc]
      apply Session.step_attached lawful.moment still
      intro why same
      exact stays why (by simp [same])

theorem Lawful.attached_alone {capacity : Nat} {before between after : List Event} {c c' : Nat}
    {hello hello' : Hello}
    (lawful : Lawful capacity
      ((before ++ [.attached c hello] ++ between) ++ .attached c' hello' :: after)) :
    ∃ why, .left c why ∈ between := by
  by_contra stays
  have vacant := lawful.moment.2.1
  have held : (session capacity (before ++ [.attached c hello])).attached = some c := by
    rw [session_snoc]
    rfl
  rw [lawful.of_append.attached_stays held fun why inside => stays ⟨why, inside⟩] at vacant
  cases vacant

namespace Daemon

variable {may : Special → Prop}

/-! ## Moves that attach nobody -/

/-- Nobody was attached in the meantime: whoever is the client was it before. -/
structure Stays (d d' : Daemon) : Prop where
  trace : ∃ events, d'.world.trace = d.world.trace ++ events ∧ ∀ e ∈ events, e.attaches = false
  same : ∀ client', d'.client = some client' →
    ∃ client, d.client = some client ∧ client.conn.id = client'.conn.id

namespace Stays

variable {a b c : Daemon}

theorem refl (d : Daemon) : Stays d d := ⟨⟨[], by simp, by simp⟩, fun client here => ⟨client, here, rfl⟩⟩

theorem trans (ab : Stays a b) (bc : Stays b c) : Stays a c := by
  obtain ⟨es, first, fine⟩ := ab.trace
  obtain ⟨fs, second, fine'⟩ := bc.trace
  refine ⟨⟨es ++ fs, by rw [second, first, List.append_assoc], ?_⟩, ?_⟩
  · intro e inside
    rcases List.mem_append.1 inside with early | late
    · exact fine e early
    · exact fine' e late
  · intro last here
    obtain ⟨middle, there, id⟩ := bc.same last here
    obtain ⟨first, was, id'⟩ := ab.same middle there
    exact ⟨first, was, id'.trans id⟩

theorem of_standing {events : List Event} (trace : b.world.trace = a.world.trace ++ events)
    (fine : ∀ e ∈ events, e.attaches = false)
    (ids : b.client.map (·.conn.id) = a.client.map (·.conn.id)) : Stays a b := by
  refine ⟨⟨events, trace, fine⟩, ?_⟩
  intro client' here
  rw [here, Option.map_some] at ids
  obtain ⟨client, was, id⟩ := Option.map_eq_some_iff.1 ids.symm
  exact ⟨client, was, id⟩

end Stays

theorem Stays.of_routine {d d' : Daemon} (h : Routine d d') : Stays d d' := by
  obtain ⟨events, trace, fine⟩ := h.trace
  refine .of_standing trace (fun e inside => ?_) ?_
  · have kind := fine e inside
    cases e <;> first | rfl | cases kind
  · have standing := congrArg (Option.map Prod.fst) h.standing
    rw [Option.map_map, Option.map_map] at standing
    exact standing

theorem repaintIfDue_stays (d : Daemon) : Stays d d.repaintIfDue := by
  have cleared : (d.client.map fun client => { client with repaintDue := false }).map (·.conn.id) =
      d.client.map (·.conn.id) := by
    rw [Option.map_map]
    rfl
  obtain ⟨asides, fine, trace⟩ := (Pty.nudgeRepaint_aside d.win d.world).trace
  have plain : ∀ e ∈ asides, e.attaches = false := by
    intro e inside
    have kind := fine e inside
    cases e <;> first | rfl | cases kind
  unfold repaintIfDue
  split
  · have cases := d.repaint_cases
    generalize d.repaint = result at cases
    cases cases with
    | closed | absent => exact @Stays.of_standing _ _ [] (by simp) (by simp) cleared
    | full => exact .refl d
    | formFeed => exact @Stays.of_standing _ _ [.repaintQueued] rfl (by simp [Event.attaches]) cleared
    | nudged | refused => exact .of_standing trace plain cleared
  · exact .refl d

theorem greet_stays (d : Daemon) (hello : Hello) : Stays d (d.greet hello) := by
  unfold greet tellClient
  dsimp only
  split
  · exact .refl d
  · rename_i client attached
    rw [Conn.send_eq _ (encodable_helloOk _)]
    refine .of_standing (List.append_assoc ..) (by simp [Event.attaches]) ?_
    rw [attached]
    rfl

theorem Move.stays {d d' : Daemon} (move : Move (· ≠ .attach) d d') : Stays d d' := by
  rcases move.effect with same | vacates | ⟨hello, waiting, vacant, allowed⟩ | hello |
    ⟨quiet, reset⟩ | ⟨hello, greeted, present⟩ | _ | @⟨client, attached, behind⟩ | allowed
  · exact .of_routine same
  · obtain ⟨events, trace, fine, -⟩ := vacates.trace
    refine ⟨⟨events, trace, fun e inside => ?_⟩, fun client' here => ?_⟩
    · have kind := fine e inside
      cases e <;> first | rfl | cases kind
    · rw [vacates.gone] at here
      cases here
  · exact (allowed rfl).elim
  · exact @Stays.of_standing _ _ [] (by simp) (by simp) rfl
  · exact .of_standing (congrArg (· ++ _) quiet.trace) (by simp [Event.attaches]) rfl
  · exact greet_stays d hello
  · have ids := congrArg (Option.map fun client => client.conn.id) d.applyWin_client
    rcases d.applyWin_told with same | ⟨-, taken, trace⟩
    · exact @Stays.of_standing _ _ [] (by simpa using same) (by simp) ids
    · refine .of_standing trace (fun e inside => ?_) ids
      rw [List.mem_singleton.1 inside]
      cases taken <;> rfl
  · rw [Conn.send_eq _ (encodable_gap _)]
    refine .of_standing rfl (by simp [Event.attaches]) ?_
    rw [attached]
    rfl
  · exact repaintIfDue_stays d

theorem Moves.stays {d d' : Daemon} (moves : Moves (· ≠ .attach) d d') : Stays d d' := by
  induction moves with
  | refl => exact .refl d
  | tail _ last ih => exact ih.trans last.stays

/-! ## The final drain -/

/-- Nothing whole is left to read in the client's buffer, unless the input is saturated. -/
def Quiescent (d : Daemon) : Prop :=
  ∀ client, d.client = some client →
    d.inputIsSaturated ∨ (wireFramer.parse client.conn.unread).frames = []

theorem quiescent_of_vacant {d : Daemon} (vacant : d.client = none) : d.Quiescent := by
  intro client here
  rw [vacant] at here
  cases here

theorem decodeFrames_quiescent (d : Daemon) : d.decodeFrames.Quiescent := by
  intro client here
  rcases d.decodeFrames_cases with (saturated | vacant) | ⟨before, client', frames, -, attached, -, parsed, -⟩
  · exact .inl saturated
  · rw [vacant] at here
    cases here
  · cases attached.symm.trans here
    right
    have stop := Framer.next_rest (F := wireFramer) before.conn.unread
    rw [parsed] at stop
    rw [Framer.parse_of_none stop]

theorem readClient_quiescent (d : Daemon) : d.readClient.Quiescent := by
  unfold readClient
  split
  · rename_i vacant
    exact quiescent_of_vacant vacant
  · split
    · exact decodeFrames_quiescent d
    · split
      · exact quiescent_of_vacant (dropClient_client ..)
      · exact decodeFrames_quiescent _

theorem readSession_quiescent (d : Daemon) (ready : Source → PollFlags) :
    (d.readSession ready).Quiescent := by
  unfold readSession
  dsimp only
  generalize d.doIf (ready .pty).readable readPty = d
  unfold doIf
  split
  · exact quiescent_of_vacant (dropClient_client ..)
  · split
    · exact readClient_quiescent d
    · rename_i idle
      intro client here
      rw [Bool.or_eq_true, not_or] at idle
      have none_waiting := idle.2
      simp only [inputBacklog, here, Option.any_some, Bool.and_eq_true, Bool.not_eq_true', not_and,
        decide_eq_true_eq, Nat.not_lt, Nat.le_zero] at none_waiting
      cases saturated : d.inputIsSaturated with
      | true => exact .inl rfl
      | false =>
          right
          have empty := none_waiting saturated
          rw [← Conn.length_unread, List.length_eq_zero_iff] at empty
          rw [empty]
          exact congrArg Framer.Parsed.frames (Framer.parse_of_none (F := wireFramer) rfl)

theorem refuseTruncated_trace (d : Daemon) (conn : Nat) : ∃ events,
    d.refuseTruncated.world.trace = d.world.trace ++ events ∧ handledOn conn events = [] := by
  unfold refuseTruncated
  split
  · obtain ⟨answers, trace, fine⟩ := (dropClient_answers (d.tellClient truncation) .refused).events
    have told : ∃ events, (d.tellClient truncation).world.trace = d.world.trace ++ events ∧
        handledOn conn events = [] := by
      unfold tellClient
      split
      · exact ⟨[], by simp, rfl⟩
      · rename_i client _
        rcases client.conn.send_cases truncation d.world with sent | failed
        · rw [sent]
          exact ⟨[.sent client.conn.id truncation], rfl, rfl⟩
        · rw [failed]
          exact ⟨[], by simp, rfl⟩
    obtain ⟨events, told, silent⟩ := told
    refine ⟨events ++ answers, ?_, ?_⟩
    · rw [← List.append_assoc, ← told]
      exact trace
    · unfold handledOn at silent ⊢
      rw [List.filterMap_append, silent]
      exact handledOn_answers fine
  · exact ⟨[], by simp, rfl⟩

/-- A read of the client: what it had sent is handled in order, all of it unless the input saturates or
its connection ends, and all up to where its connection ends. -/
structure Drains (client : Attached) (d d' : Daemon) : Prop where
  handles : ∃ bytes events, client.conn.unread <+: bytes ∧
    d'.world.trace = d.world.trace ++ events ∧
    (handledOn client.conn.id events).map Frame.raw <+: (wireFramer.parse bytes).frames ∧
    (d'.inputIsSaturated ∨
      EndsWith (wireFramer.parse bytes).frames (handledOn client.conn.id events)) ∧
    (d'.client.isSome → .detach ∉ handledOn client.conn.id events ∧ (d'.inputIsSaturated ∨
      (handledOn client.conn.id events).map Frame.raw = (wireFramer.parse bytes).frames))
  work : ClientWork d d'
  stays : Stays d d'

theorem decodeFrames_drains {d : Daemon} {client : Attached} (attached : d.client = some client) :
    Drains client d d.decodeFrames := by
  refine ⟨?_, decodeFrames_work d, Moves.stays (decodeFrames_moves d)⟩
  have size : ∀ other, d.client = some other → other.conn.buffered <
      (d.client.elim 0 fun client => client.conn.buffered) + 1 := by
    intro other here
    simp [here]
  obtain ⟨events, handles⟩ :=
    decodeLoop_handles ((d.client.elim 0 fun client => client.conn.buffered) + 1) d
  unfold decodeFrames
  generalize loop : decodeLoop _ d = result at handles
  obtain ⟨dry, d'⟩ := result
  have order := handles.order client attached
  cases dry with
  | false =>
      refine ⟨_, events, List.prefix_rfl, handles.trace, order, ?_, ?_⟩
      · rcases decodeLoop_early loop size with saturated | vacant
        · exact .inl saturated
        · exact .inr (handles.gone vacant client attached)
      · intro remains
        refine ⟨handles.stays remains client attached, .inl ?_⟩
        rcases decodeLoop_early loop size with saturated | vacant
        · exact saturated
        · rw [show d'.client = none from vacant] at remains
          cases remains
  | true =>
      have all := handles.dry rfl client attached
      have trace : d'.world.trace = d.world.trace ++ events := handles.trace
      obtain ⟨-, client', -, -, remains, -⟩ := decodeLoop_dry loop
      have stays := handles.stays (by simp [remains]) client attached
      obtain ⟨more, trace', silent⟩ := d'.refuseTruncated_trace client.conn.id
      have mine : handledOn client.conn.id (events ++ more) = handledOn client.conn.id events := by
        unfold handledOn at silent ⊢
        rw [List.filterMap_append, silent, List.append_nil]
      refine ⟨_, events ++ more, List.prefix_rfl, ?_, ?_, ?_, ?_⟩
      · rw [← List.append_assoc, ← trace]
        exact trace'
      · rw [mine]
        exact order
      · rw [mine]
        exact .inr (.inl all)
      · intro _
        rw [mine]
        exact ⟨stays, .inr all⟩

theorem Drains.behind_fill {client : Attached} {conn : Conn} {world : World} {d d' : Daemon}
    (drains : Drains { client with conn }
      { d with client := some { client with conn }, world } d')
    (same : conn.id = client.conn.id) (more : client.conn.unread <+: conn.unread)
    (filled : Stays d { d with client := some { client with conn }, world })
    (silent : ∃ events, world.trace = d.world.trace ++ events ∧
      handledOn client.conn.id events = []) : Drains client d d' := by
  obtain ⟨bytes, events, front, trace, order, ends, remains⟩ := drains.handles
  obtain ⟨early, before, silent⟩ := silent
  have mine : handledOn client.conn.id (early ++ events) = handledOn client.conn.id events := by
    unfold handledOn at silent ⊢
    rw [List.filterMap_append, silent, List.nil_append]
  dsimp only at order ends remains trace front
  rw [same] at order ends remains
  refine ⟨⟨bytes, early ++ events, more.trans front, ?_, ?_, ?_, ?_⟩,
    .trans ⟨_, _, _, _, _, _, _, rfl⟩ drains.work, filled.trans drains.stays⟩
  · rw [trace, before, List.append_assoc]
  · rwa [mine]
  · rwa [mine]
  · rwa [mine]

theorem fill_heard (c : Conn) (n : Nat) (w : World) :
    (c.fill n w).2.1.id = c.id ∧ c.unread <+: (c.fill n w).2.1.unread ∧
      ∃ events, (c.fill n w).2.2.trace = w.trace ++ events ∧
        ∀ e ∈ events, e.isOf c.id ∧ ∀ conn, e.handledFor conn = none := by
  obtain ⟨result, w', quiet, idle | ended | ⟨bytes, -, -, more⟩⟩ := c.fill_cases n w
  · rw [idle]
    exact ⟨rfl, List.prefix_rfl, [], by simp [quiet.trace], by simp⟩
  · rw [ended]
    refine ⟨rfl, List.prefix_rfl, [.endOfFile c.id], congrArg (· ++ _) quiet.trace, ?_⟩
    simp [Event.isOf, Event.handledFor]
  · rw [more]
    refine ⟨rfl, ?_, [.received c.id bytes], congrArg (· ++ _) quiet.trace, ?_⟩
    · show c.rx.drop c.rxPos <+: (c.rx ++ bytes).drop c.rxPos
      rw [List.drop_append]
      exact List.prefix_append ..
    · simp [Event.isOf, Event.handledFor]

theorem dropClient_drains {d : Daemon} {client : Attached} (attached : d.client = some client)
    (quiescent : d.Quiescent) (why : Departure) : Drains client d (d.dropClient why) := by
  have work := dropClient_work d why
  have saturated : d.inputIsSaturated → (d.dropClient why).inputIsSaturated := by
    intro full
    unfold dropClient onDetached
    rw [attached]
    dsimp only
    split
    · exact full
    · split
      · exact full
      · exact full
  obtain ⟨events, trace, fine⟩ := (dropClient_answers d why).events
  have silent : handledOn client.conn.id events = [] := handledOn_answers fine
  refine ⟨⟨_, events, List.prefix_rfl, trace, ?_, ?_, ?_⟩, work, (dropClient_moves d why).stays⟩
  · rw [silent]
    exact List.nil_prefix
  · rw [silent]
    rcases quiescent client attached with full | dry
    · exact .inl (saturated full)
    · rw [dry]
      exact .inr (.inl rfl)
  · intro remains
    rw [dropClient_client] at remains
    cases remains

theorem readClient_drains {d : Daemon} {client : Attached} (attached : d.client = some client)
    (quiescent : d.Quiescent) : Drains client d d.readClient := by
  unfold readClient
  rw [attached]
  dsimp only
  split
  · exact decodeFrames_drains attached
  · have filled : Move (· ≠ .attach) d _ := .fillClient attached
    have heard := fill_heard client.conn readBufLen d.world
    split
    · rename_i err conn world eq
      rw [eq] at filled heard
      obtain ⟨same, more, events, trace, fine⟩ := heard
      have unread : conn = client.conn := by
        obtain ⟨result, w, -, idle | ended | ⟨bytes, -, -, read⟩⟩ :=
          client.conn.fill_cases readBufLen d.world
        · rw [eq] at idle
          cases idle
          rfl
        · rw [eq] at ended
          cases ended
        · rw [eq] at read
          cases read
      subst unread
      have still : Quiescent { d with client := some { client with conn := client.conn }, world } := by
        intro other here
        cases here
        exact quiescent client attached
      refine (dropClient_drains rfl still .failed).behind_fill same more filled.stays
        ⟨events, trace, ?_⟩
      apply List.filterMap_eq_nil_iff.2
      exact fun e inside => (fine e inside).2 _
    · rename_i conn world eq
      rw [eq] at filled heard
      obtain ⟨same, more, events, trace, fine⟩ := heard
      refine (decodeFrames_drains rfl).behind_fill same more filled.stays ⟨events, trace, ?_⟩
      apply List.filterMap_eq_nil_iff.2
      exact fun e inside => (fine e inside).2 _

/-! ## What the first frame decides -/

def Greets (bytes : Bytes) (hello : Hello) : Prop :=
  hello.protocol = protocolVersion ∧ (Frame.hello hello).Encodable ∧ (Frame.hello hello).wire <+: bytes

/-- What the pending connection has sent, once it has been read, or `none` if that read fails. -/
def heard (d : Daemon) : Option Bytes :=
  match d.pending with
  | none => none
  | some (conn, _) =>
      match conn.fill readBufLen d.world with
      | (.error _, _, _) => none
      | (.ok (), conn, _) => some conn.unread

/-- Only the pending slot and the world are touched, the world on account of that connection. -/
structure Untouched (conn : Nat) (d d' : Daemon) : Prop where
  rest : d' = { d with pending := d'.pending, world := d'.world }
  trace : ∃ events, d'.world.trace = d.world.trace ++ events ∧ ∀ e ∈ events, e.isOf conn

theorem Untouched.trans {conn : Nat} {a b c : Daemon} (ab : Untouched conn a b)
    (bc : Untouched conn b c) : Untouched conn a c := by
  obtain ⟨es, first, fine⟩ := ab.trace
  obtain ⟨fs, second, fine'⟩ := bc.trace
  refine ⟨?_, es ++ fs, by rw [second, first, List.append_assoc], ?_⟩
  · rw [bc.rest, ab.rest]
  · intro e inside
    rcases List.mem_append.1 inside with early | late
    · exact fine e early
    · exact fine' e late

theorem farewell_isOf {conn : Nat} {e : Event} (last : e.isFarewell conn) : e.isOf conn := by
  cases e with
  | sent c frame =>
      cases frame with
      | error => exact decide_eq_true last
      | _ => cases last
  | wrote => exact decide_eq_true last
  | _ => cases last

theorem leave_untouched {d : Daemon} {conn : Nat} {world : World} (why : Departure)
    (farewell : Farewell conn d.world world) :
    Untouched conn d { d with pending := none, world := world.log (.left conn why) } := by
  obtain ⟨words, said, fine⟩ := farewell.said
  refine ⟨rfl, words ++ [.left conn why], ?_, ?_⟩
  · rw [World.log, said, List.append_assoc]
  · intro e inside
    rcases List.mem_append.1 inside with word | last
    · exact farewell_isOf (fine e word)
    · rw [List.mem_singleton.1 last]
      exact decide_eq_true rfl

theorem dropPending_untouched {d : Daemon} {conn : Conn} {deadline : Nat}
    (waiting : d.pending = some (conn, deadline)) (why : Departure) :
    Untouched conn.id d (d.dropPending why) ∧ (d.dropPending why).pending = none := by
  unfold dropPending
  rw [waiting]
  exact ⟨leave_untouched why (.of_quiet (.refl _)), rfl⟩

theorem rejectPending_untouched {d : Daemon} {conn : Conn} {deadline : Nat}
    (waiting : d.pending = some (conn, deadline)) (code : ErrorCode) (message : String) :
    Untouched conn.id d (d.rejectPending code message) ∧
      (d.rejectPending code message).pending = none := by
  unfold rejectPending
  rw [waiting]
  exact ⟨leave_untouched .refused (closeWith_farewell conn code message d.world), rfl⟩

theorem Greets.first {bytes : Bytes} {hello : Hello} (h : Greets bytes hello) :
    ∃ rest, bytes = (Frame.hello hello).wire ++ rest ∧
      nextFrame bytes = .ok (some ((Frame.hello hello).raw, rest)) := by
  obtain ⟨-, ⟨-, small⟩, rest, rfl⟩ := h
  exact ⟨rest, rfl, (nextFrame_eq_some ..).2 ⟨small, rfl⟩⟩

theorem greets_iff {bytes rest : Bytes} {ty : FrameType} {payload : Bytes}
    (first : nextFrame bytes = .ok (some ((ty, payload), rest))) (hello : Hello) :
    Greets bytes hello ↔ hello.protocol = protocolVersion ∧ Frame.decode ty payload = .ok (.hello hello) := by
  constructor
  · intro h
    obtain ⟨rest', -, also⟩ := h.first
    rw [first] at also
    cases also
    exact ⟨h.1, (decode_eq_ok ..).2 ⟨rfl, h.2.1.1, rfl, h.2.1.2⟩⟩
  · rintro ⟨current, decodes⟩
    obtain ⟨rfl, good, rfl, small⟩ := (decode_eq_ok ..).1 decodes
    obtain ⟨-, front⟩ := (nextFrame_eq_some ..).1 first
    exact ⟨current, ⟨good, small⟩, rest, front.symm⟩

def filledPending (d : Daemon) (conn conn' : Conn) (deadline : Nat) : Daemon :=
  { d with pending := some (conn', deadline), world := (conn.fill readBufLen d.world).2.2 }

/-- `read_pending` up to its decision. -/
inductive Decision (d : Daemon) (conn : Conn) (deadline : Nat) : Daemon → Prop
  | lost {d' : Daemon} (untouched : Untouched conn.id d d')
      (plain : ∀ bytes ∈ d.heard, ∀ hello, ¬ Greets bytes hello)
      (gone : (∃ bytes ∈ d.heard, nextFrame bytes ≠ .ok none) → d'.pending = none) :
      Decision d conn deadline d'
  | greets {bytes : Bytes} {conn' : Conn} (hello : Hello) (read : bytes ∈ d.heard)
      (greets : Greets bytes hello) (behind : bytes = (Frame.hello hello).wire ++ conn'.unread)
      (same : conn'.id = conn.id)
      (untouched : Untouched conn.id d (d.filledPending conn conn' deadline)) :
      Decision d conn deadline ((d.filledPending conn conn' deadline).takeOver hello)

theorem readPending_decision {d : Daemon} {conn : Conn} {deadline : Nat}
    (waiting : d.pending = some (conn, deadline)) : Decision d conn deadline d.readPending := by
  obtain ⟨same, -, events, trace, fine⟩ := fill_heard conn readBufLen d.world
  have read : d.heard = match conn.fill readBufLen d.world with
      | (.error _, _, _) => none
      | (.ok (), conn, _) => some conn.unread := by
    unfold heard
    rw [waiting]
  have filled : ∀ conn' : Conn, Untouched conn.id d (d.filledPending conn conn' deadline) :=
    fun _ => ⟨rfl, events, trace, fun e inside => (fine e inside).1⟩
  have won : ∀ (conn' : Conn) bytes hello, bytes ∈ d.heard → Greets bytes hello →
      bytes = (Frame.hello hello).wire ++ conn'.unread → conn'.id = conn.id →
      Decision d conn deadline ((d.filledPending conn conn' deadline).takeOver hello) :=
    fun conn' _ hello read greets behind same =>
      .greets hello read greets behind same (filled conn')
  unfold filledPending at filled won
  unfold readPending
  rw [waiting]
  dsimp only
  generalize conn.fill readBufLen d.world = result at same read filled won
  obtain ⟨_ | _, conn₁, world⟩ := result
  · dsimp only at same read filled ⊢
    obtain ⟨dropped, gone⟩ := dropPending_untouched (d := { d with
      pending := some (conn₁, deadline), world }) rfl .failed
    rw [same] at dropped
    exact .lost ((filled conn₁).trans dropped) (by simp [read]) fun _ => gone
  · dsimp only at same read filled ⊢
    have refused : ∀ (conn' : Conn) code message, conn'.id = conn.id →
        (∀ hello, ¬ Greets conn₁.unread hello) →
        Decision d conn deadline (({ d with pending := some (conn', deadline), world } :
          Daemon).rejectPending code message) := by
      intro conn' code message id plain
      obtain ⟨rejected, gone⟩ := rejectPending_untouched (d := { d with
        pending := some (conn', deadline), world }) rfl code message
      rw [id] at rejected
      exact .lost ((filled conn').trans rejected) (by simpa [read] using plain) fun _ => gone
    have whole : ∀ hello, Greets conn₁.unread hello → nextFrame conn₁.unread ≠ .ok none := by
      intro hello greets none_whole
      obtain ⟨rest, -, first⟩ := greets.first
      rw [first] at none_whole
      cases none_whole
    split
    · rename_i take
      obtain ⟨first, -⟩ := Conn.takeFrame_none take
      have plain : ∀ bytes ∈ d.heard, ∀ hello, ¬ Greets bytes hello := by
        simp only [read, Option.mem_some_iff, forall_eq']
        exact fun hello greets => whole hello greets first
      have short : ¬ ∃ bytes ∈ d.heard, nextFrame bytes ≠ .ok none := by simp [read, first]
      split
      · obtain ⟨dropped, gone⟩ := dropPending_untouched (d := { d with
          pending := some (conn₁, deadline), world }) rfl .probe
        rw [same] at dropped
        exact .lost ((filled conn₁).trans dropped) plain fun _ => gone
      · exact .lost (filled conn₁) plain fun no => (short no).elim
    · rename_i err take
      obtain ⟨first, -⟩ := Conn.takeFrame_error take
      refine refused _ _ _ same fun hello greets => ?_
      obtain ⟨rest, -, also⟩ := greets.first
      rw [first] at also
      cases also
    · rename_i ty payload conn₂ take
      obtain ⟨valid, front, consumed⟩ := Conn.takeFrame_some take
      have first := (nextFrame_eq_some ..).2 ⟨valid, front⟩
      have same' : conn₂.id = conn.id := by rw [consumed, Conn.consume_id, same]
      split
      · rename_i other
        refine refused _ _ _ same' fun hello greets => other ?_
        exact ((decode_eq_ok ..).1 ((greets_iff first hello).1 greets).2).1.symm
      · split
        · rename_i hello decodes
          split
          · rename_i outdated
            refine refused _ _ _ same' fun hello' greets => outdated ?_
            obtain ⟨current, also⟩ := (greets_iff first hello').1 greets
            rw [decodes] at also
            cases also
            exact current
          · rename_i current
            have greets := (greets_iff first hello).2 ⟨not_not.1 current, decodes⟩
            refine won conn₂ _ hello (by simp [read]) greets ?_ same'
            obtain ⟨rest, split, also⟩ := greets.first
            rw [first] at also
            cases also
            exact split
        · rename_i undecoded
          refine refused _ _ _ same' fun hello greets => ?_
          exact undecoded hello ((greets_iff first hello).1 greets).2

/-! ## The decision -/

def seat (d : Daemon) (conn : Conn) (hello : Hello) : Daemon :=
  { d with
    client := some (.greeting conn), pending := none
    world := d.world.log (.attached conn.id hello) }

/-- A current `Hello` is in hand, and the incumbent has been read a last time. -/
structure Drained (p : Daemon) (conn conn' : Conn) (deadline : Nat) (hello : Hello) (s : Daemon) :
    Prop where
  greets : ∃ bytes ∈ p.heard, Greets bytes hello ∧ bytes = (Frame.hello hello).wire ++ conn'.unread
  same : conn'.id = conn.id
  untouched : Untouched conn.id p (p.filledPending conn conn' deadline)
  read : s = (p.filledPending conn conn' deadline).finalDrain
  drains : ∀ client, p.client = some client →
    Drains client (p.filledPending conn conn' deadline) s
  pending : s.pending = some (conn', deadline)
  stays : Stays p s

inductive Decides (p : Daemon) (conn : Conn) (deadline : Nat) : Daemon → Prop
  | loses {r : Daemon} (untouched : Untouched conn.id p r)
      (plain : ∀ bytes ∈ p.heard, ∀ hello, ¬ Greets bytes hello)
      (gone : (∃ bytes ∈ p.heard, nextFrame bytes ≠ .ok none) → r.pending = none) :
      Decides p conn deadline r
  | yields {conn' : Conn} {hello : Hello} {s r : Daemon}
      (drained : Drained p conn conn' deadline hello s) (asks : hello.ifDetached)
      (occupied : s.client.isSome) (untouched : Untouched conn.id s r) (gone : r.pending = none) :
      Decides p conn deadline r
  | wins {conn' : Conn} {hello : Hello} {s r : Daemon}
      (drained : Drained p conn conn' deadline hello s)
      (free : ¬ (hello.ifDetached ∧ s.client.isSome))
      (evicted : ClientWork s s.evict) (vacated : s.evict.client = none)
      (seated : r = ((s.evict.seat conn' hello).onHello hello).readClient)
      (alone : ∀ client, r.client = some client → client.conn.id = conn.id) :
      Decides p conn deadline r

theorem Untouched.client {conn : Nat} {d d' : Daemon} (h : Untouched conn d d') :
    d'.client = d.client := by
  rw [h.rest]

theorem Untouched.stays {conn : Nat} {d d' : Daemon} (h : Untouched conn d d') : Stays d d' := by
  obtain ⟨events, trace, fine⟩ := h.trace
  refine .of_standing trace (fun e inside => ?_) (by rw [h.client])
  have kind := fine e inside
  cases e <;> first | rfl | cases kind

theorem promote_seat {d : Daemon} {conn : Conn} {deadline : Nat}
    (waiting : d.pending = some (conn, deadline)) (hello : Hello) :
    d.promote hello = ((d.evict.seat conn hello).onHello hello).readClient := by
  unfold promote
  dsimp only
  rw [d.evict_work.pending.trans waiting]
  rfl

theorem seat_alone (d : Daemon) (conn : Conn) (hello : Hello) (running : d.stop = none) :
    ∀ client, ((d.seat conn hello).onHello hello).readClient.client = some client →
      client.conn.id = conn.id := by
  have greeted : (d.seat conn hello).GreetedBy hello := by
    intro client here
    cases here
    exact ⟨rfl, latestGreeting_attached ..⟩
  have moves : Moves (· ≠ .attach) _ _ := (onHello_moves (d.seat conn hello) hello running greeted).trans
    (readClient_moves _)
  intro client here
  obtain ⟨seated, was, same⟩ := moves.stays.same client here
  cases was
  exact same.symm

theorem finalDrain_drained {p : Daemon} {conn conn' : Conn} {deadline : Nat} {bytes : Bytes}
    {hello : Hello} (quiescent : p.Quiescent) (read : bytes ∈ p.heard)
    (greets : Greets bytes hello) (behind : bytes = (Frame.hello hello).wire ++ conn'.unread)
    (same : conn'.id = conn.id)
    (untouched : Untouched conn.id p (p.filledPending conn conn' deadline)) :
    Drained p conn conn' deadline hello (p.filledPending conn conn' deadline).finalDrain := by
  have drains : ∀ client, p.client = some client → Drains client
      (p.filledPending conn conn' deadline) (p.filledPending conn conn' deadline).finalDrain := by
    intro client here
    have occupied : (p.filledPending conn conn' deadline).client.isSome := by
      rw [untouched.client, here]
      rfl
    unfold finalDrain doIf
    rw [if_pos occupied]
    exact readClient_drains here quiescent
  have work : ClientWork _ (p.filledPending conn conn' deadline).finalDrain :=
    doIf_work (readClient_work _)
  have moves : Moves (· ≠ .attach) _ (p.filledPending conn conn' deadline).finalDrain :=
    Moves.doIf .refl _ _ fun _ => readClient_moves _
  exact ⟨⟨bytes, read, greets, behind⟩, same, untouched, rfl, drains, work.pending,
    untouched.stays.trans moves.stays⟩

theorem readPending_decides {p : Daemon} {conn : Conn} {deadline : Nat}
    (waiting : p.pending = some (conn, deadline)) (running : p.stop = none)
    (quiescent : p.Quiescent) : Decides p conn deadline p.readPending := by
  have decision := readPending_decision waiting
  generalize p.readPending = r at decision
  cases decision with
  | lost untouched plain gone => exact .loses untouched plain gone
  | @greets bytes conn' hello read greets behind same untouched =>
      have drained := finalDrain_drained quiescent read greets behind same untouched
      have still : (p.filledPending conn conn' deadline).finalDrain.stop = none :=
        (doIf_work (readClient_work _)).stop.trans running
      unfold takeOver
      dsimp only
      generalize (p.filledPending conn conn' deadline).finalDrain = s at drained still
      split
      · rename_i refused
        rw [Bool.and_eq_true] at refused
        obtain ⟨rejected, gone⟩ := rejectPending_untouched drained.pending .alreadyAttached
          "another client is already attached"
        rw [same] at rejected
        exact .yields drained refused.1 refused.2 rejected gone
      · rename_i free
        rw [promote_seat drained.pending]
        refine .wins drained (fun both => free (by rw [both.1, both.2]; rfl)) s.evict_work
          (evict_client s) rfl ?_
        intro client here
        exact (seat_alone s.evict conn' hello (s.evict_work.stop.trans still) client here).trans same

def ReadsPending (d p : Daemon) : Prop :=
  ∃ q ready, d.polled = some (q, ready) ∧ p = (q.takeSignals ready).readSession ready ∧
    p.stop = none ∧ (ready .pending).readable

theorem readPending_of_vacant {p : Daemon} (vacant : p.pending = none) : p.readPending = p := by
  unfold readPending
  rw [vacant]

theorem Reachable.pass_around {requested : Nat} {d q : Daemon} {ready : Source → PollFlags}
    (h : Reachable requested d) (polled : d.polled = some (q, ready)) :
    Stays d ((q.takeSignals ready).readSession ready) ∧
      Stays (((q.takeSignals ready).readSession ready).greeted ready) (q.pollOnce ready) := by
  obtain ⟨asked, sound⟩ := @Reachable.polled_sound (· ≠ .attach) _ _ _ _ h polled
  have read : Moves (· ≠ .attach) d ((q.takeSignals ready).readSession ready) :=
    (asked.trans (takeSignals_moves q ready)).trans (readSession_moves _ ready)
  have arrived : Moves (· ≠ .attach) (((q.takeSignals ready).readSession ready).greeted ready)
      (q.serviced ready) :=
    (takeArrivals_moves _ sound.session).trans (serviceAgent_moves _ ready)
  have settled := (arrived.trans (settled_moves _)).trans (pumpOutput_moves (by simp) _)
  exact ⟨read.stays, Moves.stays (settled.trans (writeClient_moves _))⟩

theorem Reachable.pass_decides {requested : Nat} {d p : Daemon} (h : Reachable requested d)
    (reads : d.ReadsPending p) : Stays d p ∧
      (∀ conn deadline, p.pending = some (conn, deadline) → Decides p conn deadline p.readPending) ∧
      ∃ d', d.pass = .ok d' ∧ Stays p.readPending d' := by
  obtain ⟨q, ready, polled, rfl, running, readable⟩ := reads
  obtain ⟨before, behind⟩ := h.pass_around polled
  unfold greeted at behind
  rw [running, readable] at behind
  refine ⟨before, fun conn deadline waiting => ?_, _, (pass_polled ..).2 ⟨q, ready, polled, rfl⟩, behind⟩
  exact readPending_decides waiting running (readSession_quiescent _ ready)

theorem Reachable.pass_stays {requested : Nat} {d d' : Daemon} (h : Reachable requested d)
    (next : d.pass = .ok d') (nobody : ∀ p, d.ReadsPending p → p.pending = none) : Stays d d' := by
  obtain ⟨q, ready, polled, rfl⟩ := (pass_polled ..).1 next
  obtain ⟨before, behind⟩ := h.pass_around polled
  have idle : ((q.takeSignals ready).readSession ready).greeted ready =
      (q.takeSignals ready).readSession ready := by
    unfold greeted
    split
    · rename_i both
      rw [Bool.and_eq_true, Option.isNone_iff_eq_none] at both
      exact readPending_of_vacant (nobody _ ⟨q, ready, polled, rfl, both.1, both.2⟩)
    · rfl
  rw [idle] at behind
  exact before.trans behind

/-- Wherever a pass reads the pending connection, a greeting that loses touches nothing but the pending
slot, one that yields costs the incumbent nothing but that its buffer is read, and one that wins takes
the session after what the incumbent had sent was handled up to where its connection ends. Nobody is
attached in any other way, and never two at once. -/
theorem Reachable.takeover {requested : Nat} {d : Daemon} (h : Reachable requested d) :
    (∀ p, d.ReadsPending p → Stays d p ∧
      (∀ conn deadline, p.pending = some (conn, deadline) → Decides p conn deadline p.readPending) ∧
      ∃ d', d.pass = .ok d' ∧ Stays p.readPending d') ∧
    (∀ d', d.pass = .ok d' → (∀ p, d.ReadsPending p → p.pending = none) → Stays d d') ∧
    (∀ d', d.pass = .error d' → Stays d d' ∧ Stays d d'.shutdown) ∧
    ∀ before between after c c' hello hello', d.world.trace =
      (before ++ [.attached c hello] ++ between) ++ .attached c' hello' :: after →
        ∃ why, .left c why ∈ between := by
  refine ⟨fun p reads => h.pass_decides reads, fun d' next nobody => h.pass_stays next nobody,
    fun d' next => ?_, ?_⟩
  · have returns : Moves (· ≠ .attach) d d' := pass_returns next
    have shut : Moves (· ≠ .attach) d' d'.shutdown := shutdown_moves (by simp) d'
    exact ⟨returns.stays, Moves.stays (returns.trans shut)⟩
  · intro before between after c c' hello hello' trace
    have lawful := (Occurs.running h).lawful
    rw [trace] at lawful
    exact lawful.attached_alone

end Daemon

/-! ## A takeover of a client that has just left -/

/-- A second client greets, and the final drain of the first reads its `Detach`, and a `Ping` behind. -/
def contested : Daemon :=
  Daemon.start { buf := [], capacity := 4, base := 0 }
    (greetingScript ++ [idle, pollsReady .listener, { accept := .ok ⟨true, true⟩ }, idle] ++
      [idle, idle, pollsReady .pending,
        { read := .ok (Frame.hello { sampleHello with ifDetached := true }).wire },
        { read := .ok (Frame.detach.wire ++ Frame.ping.wire) }]) 0

theorem contested_reachable (n : Nat) : Daemon.Reachable 4 (contested.passes n) :=
  .passes (.start _ 0 rfl) n

/-- The `Ping` is read in the final drain and never handled, with room in the input all along. -/
theorem takeover_leaves_frames :
    Daemon.Reachable 4 (contested.passes 4) ∧
    (wireFramer.parse (receivedOn 0 (contested.passes 4).world.trace)).frames =
      [(Frame.hello sampleHello).raw, Frame.detach.raw, Frame.ping.raw] ∧
    handledOn 0 (contested.passes 4).world.trace = [.detach] ∧
    (contested.passes 4).pendingInput = [] ∧ (contested.passes 4).inApplied = 0 ∧
    (latestGreeting (contested.passes 4).world.trace).map Prod.fst = some 1 := by
  refine ⟨contested_reachable 4, ?_⟩
  decide +kernel

theorem takeover_contested : ∃ p conn deadline, p.pending = some (conn, deadline) ∧
    Daemon.Stays (contested.passes 3) p ∧ Daemon.Decides p conn deadline p.readPending ∧
      Daemon.Stays p.readPending (contested.passes 4) := by
  have reads : (contested.passes 3).polled.any fun r =>
      ((r.1.takeSignals r.2).readSession r.2).stop.isNone && (r.2 .pending).readable &&
        ((r.1.takeSignals r.2).readSession r.2).pending.isSome := by decide +kernel
  obtain ⟨⟨q, ready⟩, polled, both⟩ := (Option.any_eq_true ..).1 reads
  simp only [Bool.and_eq_true, Option.isNone_iff_eq_none] at both
  obtain ⟨⟨running, readable⟩, waits⟩ := both
  obtain ⟨⟨conn, deadline⟩, waiting⟩ := Option.isSome_iff_exists.1 waits
  obtain ⟨before, decides, d', next, behind⟩ :=
    (contested_reachable 3).takeover.1 _ ⟨q, ready, polled, rfl, running, readable⟩
  have four : (contested.passes 3).pass = .ok (contested.passes 4) := rfl
  rw [four] at next
  cases next
  exact ⟨_, conn, deadline, waiting, before, decides conn deadline waiting, behind⟩

end Nomux
