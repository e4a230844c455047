import Nomux.Daemon.Size

/-!
# Repaints owed for gaps

A client that has been told of a gap is owed a repaint until it has been queued the whole ring, and
gets one for all the gaps it was told of since the last.
-/

namespace Nomux
open Wire World

/-! ## Gaps told -/

/-- The gaps one connection has been told of, and the offset the latest client asked for. -/
structure GapCount where
  asked : Option UInt64 := none
  gaps : Nat := 0

def GapCount.step (conn : Nat) (n : GapCount) : Event → GapCount
  | .attached _ hello => { n with asked := some hello.outOffset }
  | .sent c (.gap _) => if c = conn then { n with gaps := n.gaps + 1 } else n
  | .sent c (.helloOk ok) =>
      if c = conn ∧ n.asked.any ok.gap then { n with gaps := n.gaps + 1 } else n
  | _ => n

def gapCount (conn : Nat) (trace : List Event) : GapCount := trace.foldl (GapCount.step conn) {}

/-- In a `Gap`, or by a `HelloOk` that resumes somewhere else than where the client asked to. -/
def gapsOn (conn : Nat) (trace : List Event) : Nat := (gapCount conn trace).gaps

theorem gapCount_snoc (conn : Nat) (trace : List Event) (e : Event) :
    gapCount conn (trace ++ [e]) = (gapCount conn trace).step conn e := by
  rw [gapCount, List.foldl_append]
  rfl

theorem gapCount_append {conn : Nat} {events : List Event}
    (still : ∀ e ∈ events, ∀ n : GapCount, n.step conn e = n) (trace : List Event) :
    gapCount conn (trace ++ events) = gapCount conn trace := by
  induction events using List.reverseRecOn with
  | nil => rw [List.append_nil]
  | append_singleton events e ih =>
      rw [← List.append_assoc, gapCount_snoc, still e (by simp)]
      exact ih fun e' inside => still e' (List.mem_append_left _ inside)

theorem gapCount_routine {conn : Nat} {events : List Event} (fine : ∀ e ∈ events, e.isRoutine)
    (trace : List Event) : gapCount conn (trace ++ events) = gapCount conn trace := by
  apply gapCount_append
  intro e inside n
  have kind := fine e inside
  cases e with
  | attached => cases kind
  | sent c frame =>
      cases frame with
      | gap | helloOk => cases kind
      | _ => rfl
  | _ => rfl

theorem asked_eq (conn : Nat) (trace : List Event) :
    (gapCount conn trace).asked = (latestGreeting trace).map (·.2.outOffset) := by
  induction trace using List.reverseRecOn with
  | nil => rfl
  | append_singleton trace e ih =>
      rw [gapCount_snoc]
      cases e with
      | attached c hello =>
          rw [latestGreeting_attached]
          rfl
      | sent c frame =>
          have same : latestGreeting (trace ++ [.sent c frame]) = latestGreeting trace := by
            apply History.latest_append_of_none
            intro e inside
            rw [List.mem_singleton.1 inside]
            rfl
          rw [same, ← ih]
          cases frame with
          | gap | helloOk =>
              unfold GapCount.step
              dsimp only
              split <;> rfl
          | _ => rfl
      | _ =>
          rw [latestGreeting, History.latest_append_of_none]
          · exact ih
          · intro e inside
            rw [List.mem_singleton.1 inside]
            rfl

/-- The size in a call of `TIOCSWINSZ`, whether it was taken or not. -/
def Event.sizeAsked : Event → Option WinSize
  | .resized win | .resizeRefused win => some win
  | _ => none

def Event.isRepaint (e : Event) : Bool :=
  match e with
  | .repaintQueued => true
  | e => e.sizeAsked.isSome

theorem sized_repaints (win : WinSize) (taken : Bool) : (Pty.sized win taken).isRepaint := by
  cases taken <;> rfl

theorem gapCount_sized (conn : Nat) (trace : List Event) (win : WinSize) (taken : Bool) :
    gapCount conn (trace ++ [Pty.sized win taken]) = gapCount conn trace := by
  rw [gapCount_snoc]
  cases taken <;> rfl

namespace Daemon

/-! ## What is owed -/

def owes (conn : Nat) (d : Daemon) : Bool :=
  d.client.any fun client => client.conn.id = conn && client.repaintDue

def caughtUp (conn : Nat) (d : Daemon) : Bool :=
  d.client.any fun client => client.conn.id = conn && d.ring.end ≤ client.sentThrough

/-- Whether the client wants a form feed that the queue towards the terminal has no room for. -/
def repaintWaits (d : Daemon) : Bool := d.client.any (·.repaintCtrlL) && d.inputIsSaturated

/-- Whether `repaint_if_due` issues a repaint to the connection here. -/
def repaints (conn : Nat) (d : Daemon) : Bool :=
  d.owes conn && d.caughtUp conn && d.terminalClosedAt.isNone && !d.repaintWaits

theorem owes_congr {d d' : Daemon} (conn : Nat)
    (standing : d'.client.map Attached.standing = d.client.map Attached.standing) :
    d'.owes conn = d.owes conn := by
  have of_standing : ∀ d : Daemon, d.owes conn =
      (d.client.map Attached.standing).any fun s => s.1 = conn && s.2.2 := by
    intro d
    unfold owes
    cases d.client with
    | none => rfl
    | some client => rfl
  rw [of_standing, of_standing, standing]

theorem owes_of_vacant {d : Daemon} (conn : Nat) (vacant : d.client = none) :
    d.owes conn = false := by
  unfold owes
  rw [vacant]
  rfl

theorem greet_owes {d : Daemon} {hello : Hello} (greeted : d.GreetedBy hello) (conn : Nat) :
    d.owes conn = false ∧
      ((d.greet hello).owes conn).toNat + gapsOn conn d.world.trace ≤
        gapsOn conn (d.greet hello).world.trace := by
  have asked := asked_eq conn d.world.trace
  unfold greet tellClient
  dsimp only
  cases attached : d.client with
  | none =>
      refine ⟨owes_of_vacant conn attached, ?_⟩
      dsimp only
      rw [owes_of_vacant conn attached]
      exact Nat.le_of_eq (Nat.zero_add _)
  | some client =>
      obtain ⟨fresh, latest⟩ := greeted client attached
      rw [latest] at asked
      refine ⟨by simp [owes, attached, fresh], ?_⟩
      dsimp only
      rw [Conn.send_eq _ (encodable_helloOk _)]
      unfold gapsOn owes
      simp only [World.log, gapCount_snoc, Option.any_some, Conn.queue_id]
      unfold GapCount.step
      dsimp only
      rw [asked]
      by_cases here : client.conn.id = conn
      · cases gap : HelloOk.gap _ hello.outOffset with
        | true => simp [here, gap]; omega
        | false => simp [here, gap]
      · simp [here]

theorem gapsOn_send {conn : Nat} (c : Conn) {frame : Frame} (encodes : frame.Encodable) (w : World) :
    gapCount conn (c.send frame w).2.2.trace = (gapCount conn w.trace).step conn (.sent c.id frame) := by
  rw [Conn.send_eq _ encodes]
  exact gapCount_snoc ..

theorem applyWin_client (d : Daemon) : d.applyWin.client = d.client := by
  obtain ⟨world, appliedWin, shape⟩ := d.applyWin_shape
  rw [shape]

theorem applyWin_told (d : Daemon) : d.applyWin.world.trace = d.world.trace ∨
    d.appliedWin ≠ some d.win ∧
      ∃ taken, d.applyWin.world.trace = d.world.trace ++ [Pty.sized d.win taken] := by
  unfold applyWin
  split
  · exact .inl rfl
  · rename_i unknown
    split
    · exact .inl rfl
    · exact .inr ⟨unknown, _, Pty.resize_trace d.win d.world⟩

theorem Move.owes_le {d d' : Daemon} (move : Move (· ≠ .repaint) d d') (conn : Nat) :
    (d'.owes conn).toNat + gapsOn conn d.world.trace ≤
      (d.owes conn).toNat + gapsOn conn d'.world.trace := by
  rcases move.effect with same | vacates | ⟨hello, waiting, vacant, allowed⟩ | hello |
    ⟨quiet, reset⟩ | ⟨hello, greeted, present⟩ | _ | @⟨client, attached, behind⟩ | allowed
  · obtain ⟨events, trace, fine⟩ := same.trace
    rw [owes_congr conn same.standing, gapsOn, gapsOn, trace, gapCount_routine fine]
  · obtain ⟨events, trace, fine, -⟩ := vacates.trace
    rw [owes_of_vacant conn vacates.gone, gapsOn, gapsOn, trace, gapCount_routine fine]
    exact Nat.add_le_add_right (Nat.zero_le _) _
  · rw [owes_of_vacant conn vacant]
    unfold gapsOn
    rw [World.log, gapCount_snoc]
    simp [owes, Attached.greeting, GapCount.step]
  · exact Nat.le_refl _
  · unfold gapsOn
    rw [World.log, gapCount_snoc, quiet.trace]
    exact Nat.le_refl _
  · rw [(greet_owes greeted conn).1, Bool.toNat_false, Nat.zero_add]
    exact (greet_owes greeted conn).2
  · have still : gapCount conn d.applyWin.world.trace = gapCount conn d.world.trace := by
      rcases d.applyWin_told with same | ⟨-, taken, trace⟩
      · rw [same]
      · rw [trace, gapCount_sized]
    rw [owes_congr conn (congrArg _ d.applyWin_client), gapsOn, gapsOn, still]
  · unfold gapsOn
    dsimp only
    rw [gapsOn_send _ (encodable_gap _)]
    have same : (client.conn.send (.gap (UInt64.ofNat d.ring.base)) d.world).2.1.id = client.conn.id := by
      rw [Conn.send_eq _ (encodable_gap _)]
      rfl
    by_cases here : client.conn.id = conn
    · simp [owes, same, here, attached, GapCount.step]
      omega
    · simp [owes, same, here, attached, GapCount.step]
  · exact (allowed rfl).elim

theorem Moves.owes_le {d d' : Daemon} (moves : Moves (· ≠ .repaint) d d') (conn : Nat) :
    (d'.owes conn).toNat + gapsOn conn d.world.trace ≤
      (d.owes conn).toNat + gapsOn conn d'.world.trace := by
  induction moves with
  | refl => exact Nat.le_refl _
  | tail _ last ih =>
      have step := last.owes_le conn
      omega

inductive Issues (d d' : Daemon) : Prop
  | formFeed {client : Attached} (attached : d.client = some client)
      (paints : d.repaints client.conn.id) (wants : client.repaintCtrlL) (room : ¬ d.inputIsSaturated)
      (input : d'.pendingInput = d.pendingInput ++ [0x0c])
      (trace : d'.world.trace = d.world.trace ++ [.repaintQueued])
  | nudge {client : Attached} {taken : Bool} {calls : List Event} (attached : d.client = some client)
      (paints : d.repaints client.conn.id) (resizes : client.repaintCtrlL = false)
      (present : d.pty.isSome) (input : d'.pendingInput = d.pendingInput)
      (nudge : Pty.Nudge d.win taken calls) (trace : d'.world.trace = d.world.trace ++ calls)
  | nothing (quiet : ∀ conn, d.repaints conn → d.pty = none)
      (input : d'.pendingInput = d.pendingInput) (trace : d'.world.trace = d.world.trace)

structure RepaintEffect (d d' : Daemon) : Prop where
  debt : ∀ conn, d'.owes conn =
    (d.owes conn && !(d.caughtUp conn && (d.terminalClosedAt.isSome || !d.repaintWaits)))
  gaps : ∀ conn, gapsOn conn d'.world.trace = gapsOn conn d.world.trace
  inApplied : d'.inApplied = d.inApplied
  issues : Issues d d'

theorem repaints_eq_false {d : Daemon} {conn : Nat}
    (quiet : d.owes conn → (d.caughtUp conn && (d.terminalClosedAt.isSome || !d.repaintWaits)) = false) :
    d.repaints conn = false := by
  rw [Bool.eq_false_iff]
  intro paints
  simp only [repaints, Bool.and_eq_true, Bool.not_eq_true', Option.isNone_iff_eq_none] at paints
  obtain ⟨⟨⟨owed, caught⟩, -⟩, room⟩ := paints
  have no := quiet owed
  simp [caught, room] at no

theorem RepaintEffect.of_same {d d' : Daemon} (client : d'.client = d.client)
    (quiet : ∀ conn, d.owes conn →
      (d.caughtUp conn && (d.terminalClosedAt.isSome || !d.repaintWaits)) = false)
    (world : d'.world = d.world) (inApplied : d'.inApplied = d.inApplied)
    (input : d'.pendingInput = d.pendingInput) : RepaintEffect d d' := by
  refine ⟨fun conn => ?_, fun conn => by rw [world], inApplied, .nothing ?_ input (by rw [world])⟩
  · rw [owes_congr conn (congrArg _ client)]
    cases owed : d.owes conn with
    | false => rfl
    | true => rw [quiet conn owed]; rfl
  · intro conn paints
    rw [repaints_eq_false (quiet conn)] at paints
    cases paints

theorem RepaintEffect.discharged {d d' : Daemon} {client : Attached} (attached : d.client = some client)
    (whole : d.ring.end ≤ client.sentThrough)
    (discharges : d.terminalClosedAt.isSome || !d.repaintWaits)
    (after : d'.client = some { client with repaintDue := false })
    (gaps : ∀ conn, gapsOn conn d'.world.trace = gapsOn conn d.world.trace)
    (inApplied : d'.inApplied = d.inApplied) (issues : Issues d d') : RepaintEffect d d' := by
  refine ⟨fun conn => ?_, gaps, inApplied, issues⟩
  rw [discharges, Bool.and_true]
  have settled : d'.owes conn = false := by simp [owes, after]
  rw [settled]
  by_cases here : client.conn.id = conn
  · simp [caughtUp, attached, here, whole]
  · simp [owes, attached, here]

theorem gapsOn_asides {conn : Nat} {trace events : List Event} (asides : ∀ e ∈ events, e.isAside) :
    gapsOn conn (trace ++ events) = gapsOn conn trace := by
  unfold gapsOn
  rw [gapCount_append]
  intro e inside n
  have kind := asides e inside
  cases e <;> first | rfl | cases kind

theorem repaintIfDue_effect (d : Daemon) : RepaintEffect d d.repaintIfDue := by
  by_cases ready : d.client.any fun client => client.repaintDue && d.ring.end ≤ client.sentThrough
  · obtain ⟨client, attached, due⟩ := (Option.any_eq_true ..).1 ready
    simp only [Bool.and_eq_true, decide_eq_true_eq] at due
    obtain ⟨due, whole⟩ := due
    obtain ⟨calls, nudge, trace⟩ := Pty.nudgeRepaint_trace d.win d.world
    obtain ⟨asides, fine, told⟩ := (Pty.nudgeRepaint_aside d.win d.world).trace
    have paints : d.repaints client.conn.id = (d.terminalClosedAt.isNone && !d.repaintWaits) := by
      simp [repaints, owes, caughtUp, attached, due, whole]
    have cleared : d.client.map (fun client => { client with repaintDue := false }) =
        some { client with repaintDue := false } := by rw [attached]; rfl
    have cases := d.repaint_cases
    unfold repaintIfDue
    rw [if_pos ready]
    generalize d.repaint = result at cases
    cases cases with
    | closed closed =>
        refine .discharged attached whole (by simp [closed]) cleared (fun conn => rfl) rfl
          (.nothing ?_ rfl rfl)
        intro conn paints
        rw [repaints, Option.isNone_eq_false_iff.2 closed] at paints
        simp at paints
    | full running formFeed full =>
        refine .of_same rfl ?_ rfl rfl rfl
        intro conn owed
        simp [repaintWaits, formFeed, full, running]
    | formFeed running formFeed room =>
        have waits : d.repaintWaits = false := by
          rw [repaintWaits, Bool.eq_false_iff.2 room, Bool.and_false]
        have wants : client.repaintCtrlL := by simpa [attached] using formFeed
        refine .discharged attached whole (by simp [waits]) cleared (fun conn => ?_) rfl
          (.formFeed attached ?_ wants room rfl rfl)
        · unfold gapsOn
          rw [World.log, gapCount_snoc]
          rfl
        · simp [paints, running, waits]
    | absent running resizes absent =>
        have wants : client.repaintCtrlL = false := by simpa [attached] using resizes
        refine .discharged attached whole ?_ cleared (fun conn => rfl) rfl
          (.nothing (fun _ _ => absent) rfl rfl)
        simp [repaintWaits, attached, wants]
    | nudged running resizes present | refused running resizes present =>
        have wants : client.repaintCtrlL = false := by simpa [attached] using resizes
        have waits : d.repaintWaits = false := by simp [repaintWaits, attached, wants]
        refine .discharged attached whole (by simp [waits]) cleared (fun conn => ?_) rfl
          (.nudge attached ?_ wants present rfl nudge trace)
        · dsimp only
          rw [told]
          exact gapsOn_asides fine
        · simp [paints, running, waits]
  · have same : d.repaintIfDue = d := by
      unfold repaintIfDue
      rw [if_neg ready]
    rw [same]
    refine .of_same rfl ?_ rfl rfl rfl
    intro conn owed
    obtain ⟨client, attached, due⟩ := (Option.any_eq_true ..).1 owed
    rw [Bool.and_eq_true] at due
    simp [attached, due.2] at ready
    simp [caughtUp, attached, ready]

/-! ## Repaints in the trace -/

/-- Whether `repaint_if_due` queues a form feed here, or calls `TIOCSWINSZ`. -/
def issues (d : Daemon) : Bool :=
  (d.repaintIfDue.world.trace.drop d.world.trace.length).any Event.isRepaint

theorem Nudge.repaints {win : WinSize} {taken : Bool} {calls : List Event}
    (nudge : Pty.Nudge win taken calls) : calls.any Event.isRepaint := by
  cases nudge <;> simp [sized_repaints]

/-! ## The terminal is there to be repainted -/

theorem Move.terminal {d d' : Daemon} (move : Move (· ≠ .shutDown) d d') :
    (d.pty.isSome → d'.pty.isSome) ∧ (d'.ring = d.ring ∨ d.pty.isSome) := by
  have of_work : ∀ {d d' : Daemon}, ClientWork d d' →
      (d.pty.isSome → d'.pty.isSome) ∧ (d'.ring = d.ring ∨ d.pty.isSome) := by
    intro d d' work
    refine ⟨fun present => ?_, .inl work.ring⟩
    rw [work.pty]
    exact present
  cases move with
  | tell frame => exact of_work (tellClient_work d frame)
  | depart => exact of_work (.trans ⟨_, _, _, _, _, _, _, rfl⟩ (onDetached_work _))
  | takeForAgent => exact of_work (.trans ⟨_, _, _, _, _, _, _, rfl⟩ (handleFrame_work _ _))
  | greet hello =>
      apply of_work
      unfold Daemon.greet
      dsimp only
      split
      · exact .refl d
      · exact .trans ⟨_, _, _, _, _, _, _, rfl⟩ (tellClient_work _ _)
  | output _ present => exact ⟨id, .inr present⟩
  | closed =>
      obtain ⟨world, closedAt, shape⟩ := d.onTerminalClosed_shape
      rw [shape]
      exact ⟨id, .inl rfl⟩
  | writePty =>
      obtain ⟨world, left, -, shape⟩ := d.writePty_shape
      rw [shape]
      exact ⟨id, .inl rfl⟩
  | applyWin =>
      obtain ⟨world, appliedWin, shape⟩ := d.applyWin_shape
      rw [shape]
      exact ⟨id, .inl rfl⟩
  | collect =>
      obtain ⟨world, pty, childSignalled, outcome, kept, shape⟩ := d.collectOutcome_shape
      rw [shape]
      exact ⟨kept, .inl rfl⟩
  | repaint =>
      have cases := d.repaint_cases
      unfold Daemon.repaintIfDue
      split
      · generalize d.repaint = result at cases
        cases cases <;> exact ⟨id, .inl rfl⟩
      · exact ⟨id, .inl rfl⟩
  | acceptAgent =>
      unfold Daemon.acceptAgent
      dsimp only
      split
      · exact ⟨id, .inl rfl⟩
      · split
        · exact of_work (.trans ⟨_, _, _, _, _, _, _, rfl⟩ (tellClient_work _ _))
        · exact ⟨id, .inl rfl⟩
        · exact ⟨id, .inl rfl⟩
  | serviceAgent events => exact of_work (serviceAgentChannel_work d events)
  | expireAgent now =>
      apply of_work
      unfold Daemon.expireAgent
      split
      · exact .refl d
      · split
        · exact .trans ⟨_, _, _, _, _, _, _, rfl⟩ (tellClient_work _ _)
        · exact ⟨_, _, _, _, _, _, _, rfl⟩
  | shutDown allowed => exact (allowed rfl).elim
  | spawn => exact ⟨fun _ => rfl, .inl rfl⟩
  | _ => exact ⟨id, .inl rfl⟩

/-- There is a terminal wherever there is output, and wherever a repaint is owed. -/
structure Terminal (d : Daemon) : Prop where
  printed : 0 < d.ring.end → d.pty.isSome
  owed : ∀ conn, d.owes conn → d.pty.isSome

theorem Terminal.move {d d' : Daemon} (h : d.Terminal) (move : Move (· ≠ .shutDown) d d') :
    d'.Terminal := by
  obtain ⟨stays, ring⟩ := move.terminal
  have printed : 0 < d'.ring.end → d'.pty.isSome := by
    intro some
    rcases ring with same | present
    · exact stays (h.printed (same ▸ some))
    · exact stays present
  refine ⟨printed, fun conn owed => ?_⟩
  rcases move.effect with same | vacates | ⟨hello, waiting, vacant, allowed⟩ | hello |
    ⟨quiet, reset⟩ | ⟨hello, greeted, present⟩ | _ | @⟨client, attached, behind⟩ | allowed
  · exact stays (h.owed conn ((owes_congr conn same.standing).symm.trans owed))
  · rw [owes_of_vacant conn vacates.gone] at owed
    cases owed
  · simp [owes, Attached.greeting] at owed
  · exact stays (h.owed conn owed)
  · rfl
  · exact stays present
  · exact stays (h.owed conn ((owes_congr conn (congrArg _ d.applyWin_client)).symm.trans owed))
  · refine printed (Nat.lt_of_lt_of_le ?_ (Nat.le_add_right ..))
    exact Nat.lt_of_le_of_lt (Nat.zero_le _) behind
  · rw [d.repaintIfDue_effect.debt conn, Bool.and_eq_true] at owed
    exact stays (h.owed conn owed.1)

theorem Reachable.terminal {requested : Nat} {d : Daemon} (h : Reachable requested d) :
    d.Terminal := by
  obtain ⟨ring, script, now, reserved, moves⟩ : ∃ ring script now, _ ∧ Moves (· ≠ .shutDown) _ d :=
    h.moves (by simp) (by simp)
  refine moves.invariant (fun _ _ => Terminal.move) ⟨fun some => ?_, fun conn owed => ?_⟩
  · have nothing := (Ring.holds_tryNew reserved).end_eq
    simp [Daemon.start, nothing] at some
  · simp [owes, Daemon.start] at owed

/-- A run of passes, with the state in which each came to its repaint. -/
inductive Passes : Daemon → List Daemon → Daemon → Prop
  | nil (d : Daemon) : Passes d [] d
  | cons {d p m d' : Daemon} {ps : List Daemon} (pumps : d.beforePump = some p)
      (next : d.pass = .ok m) (rest : Passes m ps d') : Passes d (p.pumped :: ps) d'

theorem Passes.split {d d' : Daemon} {before behind : List Daemon}
    (h : Passes d (before ++ behind) d') : ∃ m, Passes d before m ∧ Passes m behind d' := by
  induction before generalizing d with
  | nil => exact ⟨d, .nil d, h⟩
  | cons p before ih =>
      cases h with
      | cons pumps next rest =>
          obtain ⟨m, first, second⟩ := ih rest
          exact ⟨m, .cons pumps next first, second⟩

theorem Passes.reachable {requested : Nat} {d d' : Daemon} {ps : List Daemon} (h : Passes d ps d')
    (start : Reachable requested d) : Reachable requested d' := by
  induction h with
  | nil => exact start
  | cons pumps next rest ih => exact ih (.pass start next)

theorem repaints_le (conn : Nat) (p : Daemon) : (p.repaints conn).toNat +
    (p.repaintIfDue.owes conn).toNat ≤ (p.owes conn).toNat := by
  rw [p.repaintIfDue_effect.debt conn, repaints]
  cases p.owes conn with
  | false => exact Nat.le_refl _
  | true =>
      cases p.caughtUp conn with
      | false => exact Nat.le_refl _
      | true =>
          cases p.terminalClosedAt with
          | some closedAt => exact Nat.zero_le _
          | none => cases p.repaintWaits <;> exact Nat.le_refl _

theorem painted_owes (conn : Nat) (p : Daemon) :
    (p.repaints conn).toNat + (p.repaintIfDue.writeClient.owes conn).toNat +
        gapsOn conn p.world.trace ≤
      (p.owes conn).toNat + gapsOn conn p.repaintIfDue.writeClient.world.trace := by
  have painted := p.repaints_le conn
  have told := p.repaintIfDue_effect.gaps conn
  have written : Moves (· ≠ .repaint) p.repaintIfDue p.repaintIfDue.writeClient := writeClient_moves _
  have left := written.owes_le conn
  omega

theorem Passes.terminal {requested : Nat} {d d' : Daemon} {ps : List Daemon} (h : Passes d ps d')
    (start : Reachable requested d) : ∀ p ∈ ps, p.Terminal := by
  induction h with
  | nil => simp
  | @cons d p m d' ps pumps next rest ih =>
      rw [List.forall_mem_cons]
      refine ⟨?_, ih (.pass start next)⟩
      have moves : Moves (· ≠ .shutDown) d p.pumped :=
        ((start.beforePump_arrives pumps).moves (by simp)).trans (pumped_moves p)
      exact moves.invariant (fun _ _ => Terminal.move) start.terminal

theorem pass_pumped {d p d' : Daemon} (pumps : d.beforePump = some p) (next : d.pass = .ok d') :
    d' = p.pumped.repaintIfDue.writeClient := by
  obtain ⟨p', pumps', same⟩ := (pass_eq ..).1 next
  rw [pumps] at pumps'
  cases pumps'
  rw [same, pumpOutput_eq]

theorem Reachable.pumped_moves {requested : Nat} {d p : Daemon} (h : Reachable requested d)
    (pumps : d.beforePump = some p) : Moves (· ≠ .repaint) d p.pumped :=
  ((h.beforePump_arrives pumps).moves (by simp)).trans (Daemon.pumped_moves p)

theorem Reachable.pass_owes {requested : Nat} {d p d' : Daemon} (h : Reachable requested d)
    (pumps : d.beforePump = some p) (next : d.pass = .ok d') (conn : Nat) :
    d' = p.pumped.repaintIfDue.writeClient ∧
      (p.pumped.owes conn).toNat + gapsOn conn d.world.trace ≤
        (d.owes conn).toNat + gapsOn conn p.pumped.world.trace :=
  ⟨pass_pumped pumps next, (h.pumped_moves pumps).owes_le conn⟩

/-- Every repaint is paid for by a gap, and what is owed at the end was told of too. -/
theorem Passes.repaints_le {requested : Nat} {d d' : Daemon} {ps : List Daemon} (h : Passes d ps d')
    (start : Reachable requested d) (conn : Nat) :
    ps.countP (repaints conn) + (d'.owes conn).toNat + gapsOn conn d.world.trace ≤
      (d.owes conn).toNat + gapsOn conn d'.world.trace := by
  induction h with
  | nil => simp
  | @cons d p m d' ps pumps next rest ih =>
      have behind := ih (.pass start next)
      obtain ⟨same, before⟩ := start.pass_owes pumps next conn
      have painted := p.pumped.painted_owes conn
      rw [← same] at painted
      rw [List.countP_cons]
      cases paints : p.pumped.repaints conn with
      | false =>
          simp only [paints, Bool.toNat_false, Bool.false_eq_true, if_false] at painted ⊢
          omega
      | true =>
          simp only [paints, Bool.toNat_true, if_true] at painted ⊢
          omega

end Daemon

end Nomux
