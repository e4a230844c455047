import Nomux.Daemon.Runs

/-!
# What a move leaves behind

Most moves leave the size on record and the standing of the client as they are, and write nothing to
the trace but routine events. The few that do more are told apart here.
-/

namespace Nomux
open Wire World

/-- A frame that may tell its client of a gap. -/
def Wire.Frame.tellsOfGap : Frame → Bool
  | .gap _ | .helloOk _ => true
  | _ => false

/-- Everything but a client attached, a size set or refused, a repaint queued and a notice sent. -/
def Event.isRoutine : Event → Bool
  | .attached .. | .resized _ | .resizeRefused _ | .repaintQueued => false
  | .sent _ frame => !frame.tellsOfGap
  | _ => true

/-- What the terminal and the connections give rise to as long as nobody comes or goes, and nobody
looks to the agent socket. -/
def Event.isPlain : Event → Bool
  | .sent _ frame => !frame.tellsOfGap && frame.channel.isNone
  | .received .. | .endOfFile _ | .applied .. | .wrote .. | .output _ | .terminalClosed _
  | .masterWrote _ | .masterFailed | .waited _ | .outcome .. => true
  | _ => false

def Attached.standing (client : Attached) : Nat × Bool × Bool :=
  (client.conn.id, client.repaintCtrlL, client.repaintDue)

structure Routine (d d' : Daemon) : Prop where
  trace : ∃ events, d'.world.trace = d.world.trace ++ events ∧ ∀ e ∈ events, e.isRoutine
  applied : d'.appliedWin = d.appliedWin
  standing : d'.client.map Attached.standing = d.client.map Attached.standing

/-- The agent slot is as it was and the connections are who they were. -/
structure Kept (d d' : Daemon) : Prop where
  agent : d'.agent = d.agent
  client : d'.client.map (·.conn.id) = d.client.map (·.conn.id)
  pending : d'.pending.map (·.1.id) = d.pending.map (·.1.id)
  pty : d.pty.isSome → d'.pty.isSome
  stop : d.stop.isSome → d'.stop.isSome

theorem Kept.trans {a b c : Daemon} (ab : Kept a b) (bc : Kept b c) : Kept a c where
  agent := bc.agent.trans ab.agent
  client := bc.client.trans ab.client
  pending := bc.pending.trans ab.pending
  pty := bc.pty ∘ ab.pty
  stop := bc.stop ∘ ab.stop

structure Plain (d d' : Daemon) : Prop where
  world : Only Event.isPlain d.world d'.world
  kept : Kept d d'
  applied : d'.appliedWin = d.appliedWin
  standing : d'.client.map Attached.standing = d.client.map Attached.standing

namespace Plain

variable {a b c : Daemon}

theorem refl (d : Daemon) : Plain d d :=
  ⟨(Quiet.refl _).only, ⟨rfl, rfl, rfl, id, id⟩, rfl, rfl⟩

theorem trans (ab : Plain a b) (bc : Plain b c) : Plain a c where
  world := ab.world.trans bc.world
  kept := ab.kept.trans bc.kept
  applied := bc.applied.trans ab.applied
  standing := bc.standing.trans ab.standing

theorem routine (h : Plain a b) : Routine a b := by
  obtain ⟨events, plain, trace⟩ := h.world.trace
  refine ⟨⟨events, trace, fun e inside => ?_⟩, h.applied, h.standing⟩
  have kind := plain e inside
  cases e with
  | sent conn frame => exact (Bool.and_eq_true_iff.1 kind).1
  | _ => first | rfl | cases kind

theorem of_world (quiet : Quiet a.world b.world) (kept : Kept a b)
    (applied : b.appliedWin = a.appliedWin)
    (standing : b.client.map Attached.standing = a.client.map Attached.standing) : Plain a b :=
  ⟨quiet.only, kept, applied, standing⟩

theorem of_event {w : World} (quiet : Quiet a.world w) {e : Event} (fine : e.isPlain)
    (world : b.world = w.log e) (kept : Kept a b) (applied : b.appliedWin = a.appliedWin)
    (standing : b.client.map Attached.standing = a.client.map Attached.standing) : Plain a b := by
  refine ⟨?_, kept, applied, standing⟩
  rw [world]
  exact quiet.only.log fine

end Plain

namespace Routine

variable {a b c : Daemon}

theorem trans (ab : Routine a b) (bc : Routine b c) : Routine a c := by
  obtain ⟨es, first, fine⟩ := ab.trace
  obtain ⟨fs, second, fine'⟩ := bc.trace
  refine ⟨⟨es ++ fs, ?_, ?_⟩, bc.applied.trans ab.applied, bc.standing.trans ab.standing⟩
  · rw [second, first, List.append_assoc]
  · intro e inside
    rcases List.mem_append.1 inside with early | late
    · exact fine e early
    · exact fine' e late

theorem of_world (quiet : Quiet a.world b.world) (applied : b.appliedWin = a.appliedWin)
    (standing : b.client.map Attached.standing = a.client.map Attached.standing) : Routine a b :=
  ⟨⟨[], by simp [quiet.trace], by simp⟩, applied, standing⟩

theorem of_only (only : Only Event.isAgent a.world b.world) (applied : b.appliedWin = a.appliedWin)
    (standing : b.client.map Attached.standing = a.client.map Attached.standing) : Routine a b := by
  obtain ⟨events, agent, trace⟩ := only.trace
  refine ⟨⟨events, trace, ?_⟩, applied, standing⟩
  intro e inside
  have kind := agent e inside
  cases e <;> first | rfl | cases kind

theorem of_event {w : World} (quiet : Quiet a.world w) {e : Event} (fine : e.isRoutine)
    (world : b.world = w.log e) (applied : b.appliedWin = a.appliedWin)
    (standing : b.client.map Attached.standing = a.client.map Attached.standing) : Routine a b := by
  refine ⟨⟨[e], ?_, ?_⟩, applied, standing⟩
  · rw [world, World.log, quiet.trace]
  · intro e' inside
    rw [List.mem_singleton.1 inside]
    exact fine

end Routine

namespace Daemon

variable {may : Special → Prop}

/-! ## Frames queued -/

theorem sent_standing {d : Daemon} {client client' : Attached} (attached : d.client = some client)
    (frame : Frame) (conn : client'.conn = (client.conn.send frame d.world).2.1)
    (same : (client'.repaintCtrlL, client'.repaintDue) = (client.repaintCtrlL, client.repaintDue)) :
    (some client').map Attached.standing = d.client.map Attached.standing := by
  rw [attached]
  refine congrArg some (Prod.ext ?_ same)
  rcases client.conn.send_cases frame d.world with sent | failed
  · rw [Attached.standing, conn, sent]
    rfl
  · rw [Attached.standing, conn, failed]
    rfl

theorem sent_routine {d : Daemon} {client client' : Attached} (attached : d.client = some client)
    {frame : Frame} (plain : frame.tellsOfGap = false)
    (conn : client'.conn = (client.conn.send frame d.world).2.1)
    (same : (client'.repaintCtrlL, client'.repaintDue) = (client.repaintCtrlL, client.repaintDue)) :
    Routine d { d with
      client := some client', world := (client.conn.send frame d.world).2.2 } := by
  have standing := sent_standing attached frame conn same
  rcases client.conn.send_cases frame d.world with sent | failed
  · refine .of_event (e := .sent client.conn.id frame) (.refl _) ?_ ?_ rfl standing
    · rw [Event.isRoutine, plain]
      rfl
    · rw [sent]
  · refine .of_world ?_ rfl standing
    rw [failed]
    exact .refl _

theorem sent_only {kind : Event → Bool} (conn : Conn) {frame : Frame}
    (fine : kind (.sent conn.id frame)) (w : World) : Only kind w (conn.send frame w).2.2 := by
  rcases conn.send_cases frame w with sent | failed
  · rw [sent]
    exact (Quiet.refl w).only.log fine
  · rw [failed]
    exact (Quiet.refl w).only

theorem sent_id (conn : Conn) (frame : Frame) (w : World) : (conn.send frame w).2.1.id = conn.id := by
  rcases conn.send_cases frame w with sent | failed
  · rw [sent]
    rfl
  · rw [failed]

theorem sent_plain {d : Daemon} {client client' : Attached} (attached : d.client = some client)
    {frame : Frame} (fine : (Event.sent client.conn.id frame).isPlain)
    (conn : client'.conn = (client.conn.send frame d.world).2.1)
    (same : (client'.repaintCtrlL, client'.repaintDue) = (client.repaintCtrlL, client.repaintDue)) :
    Plain d { d with
      client := some client', world := (client.conn.send frame d.world).2.2 } where
  world := sent_only client.conn fine d.world
  kept := by
    refine ⟨rfl, ?_, rfl, id, id⟩
    show some client'.conn.id = _
    rw [attached, conn, sent_id]
    rfl
  applied := rfl
  standing := sent_standing attached frame conn same

theorem tellClient_plain (d : Daemon) {frame : Frame} (fine : ∀ conn, (Event.sent conn frame).isPlain) :
    Plain d (d.tellClient frame) := by
  unfold tellClient
  split
  · exact .of_world (.refl _) ⟨rfl, rfl, rfl, id, id⟩ rfl rfl
  · rename_i client attached
    exact sent_plain attached (fine _) rfl rfl

theorem tellClient_routine (d : Daemon) {frame : Frame} (plain : frame.tellsOfGap = false) :
    Routine d (d.tellClient frame) := by
  unfold tellClient
  split
  · exact .of_world (.refl _) rfl rfl
  · rename_i client attached
    exact sent_routine attached plain rfl rfl

/-! ## The agent socket -/

theorem closeAgentChannel_routine (d : Daemon) : Routine d d.closeAgentChannel := by
  unfold closeAgentChannel
  split
  · exact .of_world (.refl _) rfl rfl
  · rename_i agent _
    have only := agent.forget_only d.world
    split
    · rename_i eq
      rw [eq] at only
      exact .of_only only rfl rfl
    · rename_i eq
      rw [eq] at only
      exact .trans (.of_only (b := { d with agent := some _, world := _ }) only rfl rfl)
        (tellClient_routine _ rfl)

theorem handleForAgent_routine (d : Daemon) {frame : Frame} (forAgent : frame.isForAgent) :
    Routine d (d.handleFrame frame) := by
  cases frame with
  | agentData generation data =>
      unfold handleFrame
      dsimp only
      split
      · exact .of_world (.refl _) rfl rfl
      · split
        · exact .of_world (.refl _) rfl rfl
        · exact .trans (.of_world (b := { d with agent := some _ }) (.refl _) rfl rfl)
            (closeAgentChannel_routine _)
  | agentClose generation =>
      unfold handleFrame
      dsimp only
      split
      · exact .of_world (.refl _) rfl rfl
      · rename_i agent _
        exact .of_only (agent.closeFromClient_only generation d.world) rfl rfl
  | _ => cases forAgent

theorem acceptAgent_routine (d : Daemon) : Routine d d.acceptAgent := by
  unfold acceptAgent
  dsimp only
  split
  · exact .of_world (.refl _) rfl rfl
  · rename_i agent _
    have only := agent.accept_only d.client.isSome d.world
    split
    · rename_i eq
      rw [eq] at only
      exact .trans (.of_only (b := { d with agent := some _, world := _ }) only rfl rfl)
        (tellClient_routine _ rfl)
    · rename_i eq
      rw [eq] at only
      exact .of_only (only.trans (World.clock_quiet _).only) rfl rfl
    · rename_i eq
      rw [eq] at only
      exact .of_only only rfl rfl

theorem readAgentChannel_routine (d : Daemon) (events : PollFlags) :
    Routine d (d.readAgentChannel events) := by
  unfold readAgentChannel
  split
  · exact .of_world (.refl _) rfl rfl
  · split
    · exact .of_world (.refl _) rfl rfl
    · rename_i agent _
      have only := agent.read_only readBufLen d.world
      dsimp only
      split
      · rename_i bytes agent' w eq
        rw [eq] at only
        have read : Routine d { d with agent := some agent', world := w } := .of_only only rfl rfl
        split
        · rename_i generation client _ attached
          exact read.trans (@sent_routine { d with agent := some agent', world := w } _
            { client with conn := _ } attached _ rfl rfl rfl)
        · exact read
      · rename_i eq
        rw [eq] at only
        exact .trans (.of_only (b := { d with agent := some _, world := _ }) only rfl rfl)
          (closeAgentChannel_routine _)
      · rename_i eq
        rw [eq] at only
        exact .trans (.of_only (b := { d with agent := some _, world := _ }) only rfl rfl)
          (closeAgentChannel_routine _)
      · rename_i eq
        rw [eq] at only
        exact .of_only only rfl rfl

theorem serviceAgentChannel_routine (d : Daemon) (events : PollFlags) :
    Routine d (d.serviceAgentChannel events) := by
  unfold serviceAgentChannel
  split
  · exact .of_world (.refl _) rfl rfl
  · rename_i agent _
    have only := agent.flush_only d.world
    split
    · split
      · rename_i eq
        rw [eq] at only
        exact .trans (.of_only (b := { d with agent := some _, world := _ }) only rfl rfl)
          (readAgentChannel_routine _ events)
      · rename_i agent' w eq
        rw [eq] at only
        exact .of_only (only.trans (agent'.forget_only w)) rfl rfl
      · rename_i eq
        rw [eq] at only
        exact .trans (.of_only (b := { d with agent := some _, world := _ }) only rfl rfl)
          (closeAgentChannel_routine _)
    · exact readAgentChannel_routine d events

theorem expireAgent_routine (d : Daemon) (now : Nat) : Routine d (d.expireAgent now) := by
  unfold expireAgent
  split
  · exact .of_world (.refl _) rfl rfl
  · rename_i agent _
    have only := agent.closeIfIdle_only now d.world
    split
    · rename_i eq
      rw [eq] at only
      exact .trans (.of_only (b := { d with agent := some _, world := _ }) only rfl rfl)
        (tellClient_routine _ rfl)
    · rename_i eq
      rw [eq] at only
      exact .of_only only rfl rfl

/-! ## The terminal -/

theorem writePty_plain (d : Daemon) : Plain d d.writePty := by
  have quiet := d.world.drainTo_quiet d.pendingInput
  unfold writePty
  split
  · exact .of_world (.refl _) ⟨rfl, rfl, rfl, id, id⟩ rfl rfl
  · dsimp only
    split
    · exact .of_event quiet (e := .masterFailed) rfl rfl ⟨rfl, rfl, rfl, id, id⟩ rfl rfl
    · exact .of_event quiet (e := .masterWrote _) rfl rfl ⟨rfl, rfl, rfl, id, id⟩ rfl rfl

theorem onTerminalClosed_plain (d : Daemon) : Plain d d.onTerminalClosed := by
  unfold onTerminalClosed
  split
  · exact .of_world (.refl _) ⟨rfl, rfl, rfl, id, id⟩ rfl rfl
  · exact .of_event d.world.clock_quiet (e := .terminalClosed _) rfl rfl ⟨rfl, rfl, rfl, id, id⟩ rfl rfl

theorem observe_plain (d : Daemon) : Plain d d.observe.2 := by
  unfold observe
  split
  · split
    · exact .of_world (.refl _) ⟨rfl, rfl, rfl, id, id⟩ rfl rfl
    · rename_i pty _
      have asked : ∃ answer w, Quiet d.world w ∧ ((pty.tryOutcome d.world).2.2 = d.world ∨
          (pty.tryOutcome d.world).2.2 = w.log (.waited answer)) := by
        rcases pty.tryOutcome_cases d.world with ⟨-, eq⟩ | ⟨w, answer, -, quiet, eq⟩
        · exact ⟨.ok none, d.world, .refl _, .inl (by rw [eq])⟩
        · refine ⟨answer, w, quiet, .inr ?_⟩
          rcases answer with err | _ | status
          · rw [eq]
          · rw [eq]
          · rw [eq]
      obtain ⟨answer, w, quiet, world⟩ := asked
      have waited : ∀ pty' w', (w' = d.world ∨ w' = w.log (.waited answer)) →
          Plain d { d with pty := some pty', world := w' } := by
        intro pty' w' world
        rcases world with rfl | rfl
        · exact .of_world (.refl _) ⟨rfl, rfl, rfl, fun _ => rfl, id⟩ rfl rfl
        · exact .of_event quiet (e := .waited answer) rfl rfl ⟨rfl, rfl, rfl, fun _ => rfl, id⟩ rfl rfl
      split
      · rename_i eq
        rw [eq] at world
        exact waited _ _ world
      · rename_i eq
        rw [eq] at world
        dsimp only
        split
        · exact (waited _ _ world).trans
            (.of_event (.refl _) (e := .outcome (0, .unknown) .waitFailed) rfl rfl ⟨rfl, rfl, rfl, id, id⟩ rfl rfl)
        · exact waited _ _ world
  · exact .of_world (.refl _) ⟨rfl, rfl, rfl, id, id⟩ rfl rfl

theorem collectOutcome_plain (d : Daemon) : Plain d d.collectOutcome := by
  have observed := d.observe_plain
  unfold collectOutcome
  generalize d.observe = result at observed
  obtain ⟨outcome, d'⟩ := result
  have spent : Plain d { d' with childSignalled := false } :=
    observed.trans (.of_world (.refl _) ⟨rfl, rfl, rfl, id, id⟩ rfl rfl)
  dsimp only
  split
  · exact spent
  · split
    · exact spent.trans (.of_event (.refl _) (e := .outcome _ .reported) rfl rfl ⟨rfl, rfl, rfl, id, id⟩ rfl rfl)
    · split
      · exact spent
      · split
        · exact spent.trans (.of_event d'.world.clock_quiet (e := .outcome _ (.graceElapsed _))
            rfl rfl ⟨rfl, rfl, rfl, id, id⟩ rfl rfl)
        · exact spent.trans (.of_world d'.world.clock_quiet ⟨rfl, rfl, rfl, id, id⟩ rfl rfl)

/-! ## The connection -/

theorem fill_only (c : Conn) (chunkLen : Nat) (w : World) :
    Only Event.isPlain w (c.fill chunkLen w).2.2 ∧ (c.fill chunkLen w).2.1.id = c.id := by
  obtain ⟨result, w', quiet, same | ended | ⟨bytes, -, -, grown⟩⟩ := c.fill_cases chunkLen w
  · rw [same]
    exact ⟨quiet.only, rfl⟩
  · rw [ended]
    exact ⟨quiet.only.log rfl, rfl⟩
  · rw [grown]
    exact ⟨quiet.only.log rfl, rfl⟩

theorem filled_plain {d : Daemon} {client : Attached} (attached : d.client = some client) :
    Plain d { d with
      client := some { client with conn := (client.conn.fill readBufLen d.world).2.1 }
      world := (client.conn.fill readBufLen d.world).2.2 } := by
  obtain ⟨said, same⟩ := fill_only client.conn readBufLen d.world
  refine ⟨said, ⟨rfl, ?_, rfl, id, id⟩, rfl, ?_⟩
  · rw [attached]
    exact congrArg some same
  · rw [attached]
    exact congrArg some (Prod.ext same rfl)

theorem takeFrame_id (c : Conn) : c.takeFrame.2.id = c.id := by
  rw [Conn.takeFrame_eq]
  split <;> rfl

theorem taken_id {c conn : Conn} {answer : Except ProtoError (Option (FrameType × Bytes))}
    (taken : c.takeFrame = (answer, conn)) : conn.id = c.id := by
  have id := takeFrame_id c
  rwa [taken] at id

theorem taken_standing {d : Daemon} {client : Attached} {conn : Conn}
    {answer : Except ProtoError (Option (FrameType × Bytes))} (attached : d.client = some client)
    (taken : client.conn.takeFrame = (answer, conn)) :
    (some { client with conn }).map Attached.standing = d.client.map Attached.standing := by
  rw [attached]
  exact congrArg some (Prod.ext (taken_id taken) rfl)

theorem flushed_plain {d : Daemon} {client : Attached} (attached : d.client = some client) :
    Plain d { d with
      client := some { client with conn := (client.conn.flushSome d.world).2.1 }
      world := (client.conn.flushSome d.world).2.2 } := by
  obtain ⟨bytes, trace, same⟩ := client.conn.flushSome_trace d.world
  have next := (flushSome_farewell client.conn d.world).nextConn
  refine ⟨⟨⟨_, by simp [Event.isPlain], trace⟩, next⟩, ⟨rfl, ?_, rfl, id, id⟩, rfl, ?_⟩
  · rw [attached]
    exact congrArg some same
  · rw [attached]
    exact congrArg some (Prod.ext same rfl)

theorem exit_plain {d : Daemon} {client : Attached} (attached : d.client = some client) :
    Plain d { d with
      client := some (sendExit d.ring d.terminalEnd client d.world).1
      world := (sendExit d.ring d.terminalEnd client d.world).2 } := by
  have unsent : Plain d { d with client := some client } := by rw [← attached]; exact .refl d
  unfold sendExit
  split
  · split
    · exact unsent
    · have waited : Plain d { d with world := d.world.clock.2 } :=
        .of_world d.world.clock_quiet ⟨rfl, rfl, rfl, id, id⟩ rfl rfl
      exact waited.trans (sent_plain (d := { d with world := d.world.clock.2 }) attached rfl rfl rfl)
  · exact unsent

/-! ## Every move -/

structure Vacates (d d' : Daemon) (client : Attached) : Prop where
  attached : d.client = some client
  trace : ∃ events, d'.world.trace = d.world.trace ++ events ∧ (∀ e ∈ events, e.isRoutine) ∧
    ∃ why, .left client.conn.id why ∈ events
  applied : d'.appliedWin = d.appliedWin
  gone : d'.client = none

theorem farewell_routine {conn : Nat} {e : Event} (last : e.isFarewell conn) : e.isRoutine := by
  cases e with
  | sent conn frame =>
      cases frame with
      | error => rfl
      | _ => cases last
  | wrote => rfl
  | _ => cases last

theorem depart_vacates {d : Daemon} {client : Attached} {world : World} (why : Departure)
    (attached : d.client = some client) (farewell : Farewell client.conn.id d.world world) :
    Vacates d (({ d with client := none, world := world.log (.left client.conn.id why) } :
      Daemon).onDetached) client := by
  obtain ⟨words, said, fine⟩ := farewell.said
  have detached : ∀ d : Daemon, d.client = none → Routine d d.onDetached := by
    intro d gone
    have ticked : Routine d { d with world := d.world.clock.2, lastDetach := d.world.clock.1 } :=
      .of_world d.world.clock_quiet rfl rfl
    unfold onDetached
    dsimp only
    split
    · exact ticked
    · rename_i agent _
      split
      · exact ticked
      · rename_i generation _
        exact ticked.trans (.of_only (agent.closeFromClient_only generation _) rfl rfl)
  have left := detached { d with client := none, world := world.log (.left client.conn.id why) } rfl
  obtain ⟨asides, trace, routine⟩ := left.trace
  refine ⟨attached, ⟨words ++ [.left client.conn.id why] ++ asides, ?_, ?_, why, by simp⟩,
    left.applied, ?_⟩
  · rw [trace, World.log, said, List.append_assoc, List.append_assoc, List.append_assoc]
  · intro e inside
    rcases List.mem_append.1 inside with early | late
    · rcases List.mem_append.1 early with word | last
      · exact farewell_routine (fine e word)
      · rw [List.mem_singleton.1 last]
        rfl
    · exact routine e late
  · exact onDetached_client _

/-- The moves told apart by what they do to the size on record and to the client's standing. -/
inductive Effect (may : Special → Prop) (d : Daemon) : Daemon → Prop
  | routine {d' : Daemon} (same : Routine d d') : Effect may d d'
  | depart {d' : Daemon} {client : Attached} (vacates : Vacates d d' client) : Effect may d d'
  | attach {conn : Conn} {deadline : Nat} (hello : Hello) (waiting : d.pending = some (conn, deadline))
      (vacant : d.client = none) (allowed : may .attach) :
      Effect may d { d with
        client := some (.greeting conn), pending := none
        world := d.world.log (.attached conn.id hello) }
  | hello (hello : Hello) : Effect may d { d with win := hello.win, appliedWin := none }
  | spawn {agent : Option Agent} {world : World} (quiet : Quiet d.world world)
      (reset : d.appliedWin = none) :
      Effect may d { d with agent, pty := some {}, world := world.log (.resized d.win) }
  | greet (hello : Hello) (greeted : d.GreetedBy hello) (present : d.pty.isSome) :
      Effect may d (d.greet hello)
  | applyWin : Effect may d d.applyWin
  | gap {client : Attached} (attached : d.client = some client)
      (behind : client.sentThrough < d.ring.base) :
      Effect may d { d with
        client := some { client with
          conn := (client.conn.send (.gap (UInt64.ofNat d.ring.base)) d.world).2.1
          sentThrough := d.ring.base, repaintDue := true }
        world := (client.conn.send (.gap (UInt64.ofNat d.ring.base)) d.world).2.2 }
  | repaint (allowed : may .repaint) : Effect may d d.repaintIfDue

theorem Move.effect {d d' : Daemon} (move : Move may d d') : Effect may d d' := by
  cases move with
  | quiet _ _ _ _ quiet => exact .routine (.of_world quiet rfl rfl)
  | tell frame reply =>
      refine .routine (tellClient_routine d ?_)
      cases frame <;> first | rfl | cases reply
  | depart why attached farewell => exact .depart (depart_vacates why attached farewell)
  | fillClient attached => exact .routine (filled_plain attached).routine
  | @take client conn ty payload frame attached room whole =>
      exact .routine (.of_event (.refl _) (e := .handled conn.id frame) rfl rfl rfl
        (taken_standing attached whole))
  | @takeForAgent client conn ty payload frame attached room whole decodes forAgent =>
      have noted : Routine d (d.taken client conn frame) :=
        .of_event (.refl _) (e := .handled conn.id frame) rfl rfl rfl
          (taken_standing attached whole)
      exact .routine (noted.trans (handleForAgent_routine _ forAgent))
  | takeBad attached whole =>
      exact .routine (.of_world (.refl _) rfl (taken_standing attached whole))
  | @applied offset data kept =>
      exact .routine (.of_event (.refl _) (e := .applied offset data kept) rfl rfl rfl rfl)
  | resize => exact .routine (.of_world (.refl _) rfl rfl)
  | @accept world _ quiet =>
      exact .routine ⟨⟨[.accepted world.nextConn], congrArg (· ++ _) quiet.trace,
        by simp [Event.isRoutine]⟩, rfl, rfl⟩
  | @fillPending conn =>
      have filled : Plain d { d with world := (conn.fill readBufLen d.world).2.2 } :=
        ⟨(fill_only conn readBufLen d.world).1, ⟨rfl, rfl, rfl, id, id⟩, rfl, rfl⟩
      exact .routine ⟨filled.routine.trace, rfl, rfl⟩
  | takePending => exact .routine (.of_world (.refl _) rfl rfl)
  | @leave conn _ world why waiting farewell =>
      obtain ⟨words, said, fine⟩ := farewell.said
      refine .routine ⟨⟨words ++ [.left conn.id why], ?_, ?_⟩, rfl, rfl⟩
      · show world.trace ++ _ = _
        rw [said, List.append_assoc]
      · intro e inside
        rcases List.mem_append.1 inside with word | last
        · exact farewell_routine (fine e word)
        · rw [List.mem_singleton.1 last]
          rfl
  | attach hello waiting vacant allowed => exact .attach hello waiting vacant allowed
  | hello hello => exact .hello hello
  | spawn _ _ _ quiet reset => exact .spawn quiet reset
  | cannotSpawn _ _ _ _ quiet => exact .routine (.of_world quiet rfl rfl)
  | greet hello greeted present => exact .greet hello greeted present
  | output quiet => exact .routine (.of_event quiet (e := .output _) rfl rfl rfl rfl)
  | closed => exact .routine (onTerminalClosed_plain d).routine
  | writePty => exact .routine (writePty_plain d).routine
  | applyWin => exact .applyWin
  | collect => exact .routine (collectOutcome_plain d).routine
  | gap attached _ behind => exact .gap attached behind
  | chunk attached => exact .routine (sent_routine attached rfl rfl rfl)
  | exit attached => exact .routine (exit_plain attached).routine
  | repaint allowed => exact .repaint allowed
  | flush attached => exact .routine (flushed_plain attached).routine
  | acceptAgent => exact .routine (acceptAgent_routine d)
  | serviceAgent events => exact .routine (serviceAgentChannel_routine d events)
  | expireAgent now => exact .routine (expireAgent_routine d now)
  | shutDown => exact .routine (.of_world (.refl _) rfl rfl)

end Daemon
end Nomux
