import Nomux.Daemon.Effects
import Nomux.Daemon.Output

/-!
# The size on record

`applied_win` is to be the size the daemon last gave the terminal. A repaint by resizing gives it the
size the client last asked for without recording it, which is another where the second read of the pass
has moved it.
-/

namespace Nomux
open Wire World

def Event.size : Event → Option WinSize
  | .resized win => some win
  | _ => none

def lastSize (trace : List Event) : Option WinSize := History.latest Event.size trace

theorem lastSize_resized (trace : List Event) (win : WinSize) :
    lastSize (trace ++ [.resized win]) = some win :=
  History.latest_snoc (rfl : Event.size (.resized win) = _) trace

theorem lastSize_snoc {e : Event} (other : e.size = none) (trace : List Event) :
    lastSize (trace ++ [e]) = lastSize trace := by
  apply History.latest_append_of_none
  intro e' inside
  rw [List.mem_singleton.1 inside]
  exact other

theorem lastSize_send (c : Conn) (frame : Frame) (w : World) :
    lastSize (c.send frame w).2.2.trace = lastSize w.trace := by
  rcases c.send_cases frame w with sent | failed
  · rw [sent]
    exact lastSize_snoc rfl _
  · rw [failed]

theorem lastSize_routine {trace events : List Event} (fine : ∀ e ∈ events, e.isRoutine) :
    lastSize (trace ++ events) = lastSize trace := by
  apply History.latest_append_of_none
  intro e inside
  have kind := fine e inside
  cases e with
  | resized => cases kind
  | _ => rfl

namespace Pty

theorem resize_size (win : WinSize) (w : World) :
    lastSize (resize win w).2.trace =
      if (resize win w).1 then some win else lastSize w.trace := by
  rw [resize_trace]
  cases (resize win w).1 with
  | true => exact lastSize_resized ..
  | false => exact lastSize_snoc rfl _

theorem nudgeRepaint_size {win : WinSize} {w : World} (taken : (nudgeRepaint win w).1) :
    lastSize (nudgeRepaint win w).2.trace = some win := by
  have last : ∀ w, (resize win w).1 → lastSize (resize win w).2.trace = some win := by
    intro w taken
    rw [resize_size, if_pos taken]
  unfold nudgeRepaint at taken ⊢
  split
  · rename_i wide
    rw [if_pos wide] at taken
    split
    · rename_i eq
      rw [eq] at taken
      exact last _ taken
    · rename_i eq
      rw [eq] at taken
      cases taken
  · rename_i narrow
    rw [if_neg narrow] at taken
    exact last _ taken

end Pty

namespace Daemon

def Truthful (d : Daemon) : Prop := ∀ win, d.appliedWin = some win → lastSize d.world.trace = some win

theorem truthful_of_unknown {d : Daemon} (unknown : d.appliedWin = none) : d.Truthful := by
  intro win known
  simp [unknown] at known

theorem truthful_congr {d d' : Daemon} (applied : d'.appliedWin = d.appliedWin)
    (size : lastSize d'.world.trace = lastSize d.world.trace) : d'.Truthful ↔ d.Truthful := by
  unfold Truthful
  rw [applied, size]

theorem Truthful.of_same {d d' : Daemon} (h : d.Truthful) (applied : d'.appliedWin = d.appliedWin)
    (size : lastSize d'.world.trace = lastSize d.world.trace) : d'.Truthful :=
  (truthful_congr applied size).2 h

theorem applyWin_truthful {d : Daemon} (h : d.Truthful) : d.applyWin.Truthful := by
  have sized := Pty.resize_size d.win d.world
  unfold applyWin
  split
  · exact h
  · split
    · exact h
    · intro win known
      dsimp only at known ⊢
      split at known
      · rename_i taken
        rw [sized, if_pos taken]
        exact known
      · cases known

theorem greet_frame (d : Daemon) (hello : Hello) : (d.greet hello).appliedWin = d.appliedWin ∧
    lastSize (d.greet hello).world.trace = lastSize d.world.trace := by
  unfold greet tellClient
  dsimp only
  split
  · exact ⟨rfl, rfl⟩
  · rename_i client _
    refine ⟨rfl, ?_⟩
    dsimp only
    rw [lastSize_send]
    exact lastSize_snoc rfl _

/-- Every move but a repaint keeps the record truthful. -/
theorem Truthful.move {d d' : Daemon} (h : d.Truthful) (move : Move (· ≠ .repaint) d d') :
    d'.Truthful := by
  rcases move.effect with same | vacates | ⟨hello, waiting, vacant, allowed⟩ | hello |
    ⟨quiet, reset⟩ | ⟨hello, greeted, present⟩ | _ | ⟨attached, behind⟩ | allowed
  · obtain ⟨events, trace, fine⟩ := same.trace
    exact h.of_same same.applied (by rw [trace, lastSize_routine fine])
  · obtain ⟨events, trace, fine, -⟩ := vacates.trace
    exact h.of_same vacates.applied (by rw [trace, lastSize_routine fine])
  · exact h.of_same rfl (lastSize_snoc rfl _)
  · exact truthful_of_unknown rfl
  · exact truthful_of_unknown reset
  · obtain ⟨applied, size⟩ := greet_frame d hello
    exact h.of_same applied size
  · exact applyWin_truthful h
  · exact h.of_same rfl (lastSize_send ..)
  · exact (allowed rfl).elim

/-! ## The repaint by resizing -/

/-- The pump is about to repaint by resizing, and the terminal will take both sizes. -/
def Nudges (d : Daemon) : Prop :=
  (d.client.any fun client => client.repaintDue && d.ring.end ≤ client.sentThrough) ∧
    d.terminalClosedAt = none ∧ ¬ d.client.any (·.repaintCtrlL) ∧ d.pty.isSome ∧
    (Pty.nudgeRepaint d.win d.world).1

theorem repaintIfDue_of_nudges {d : Daemon} (nudges : d.Nudges) :
    d.repaintIfDue.appliedWin = d.appliedWin ∧ lastSize d.repaintIfDue.world.trace = some d.win := by
  obtain ⟨due, running, resizes, present, taken⟩ := nudges
  have sized := Pty.nudgeRepaint_size taken
  have cases := d.repaint_cases
  unfold repaintIfDue
  rw [if_pos due]
  generalize d.repaint = result at cases
  cases cases with
  | closed closed => simp [running] at closed
  | full _ formFeed | formFeed _ formFeed => exact (resizes formFeed).elim
  | absent _ _ absent => simp [absent] at present
  | nudged => exact ⟨rfl, sized⟩
  | refused _ _ _ refused => simp [refused] at taken

theorem repaintIfDue_of_not_nudges {d : Daemon} (quiet : ¬ d.Nudges) :
    d.repaintIfDue.appliedWin = none ∨ (d.repaintIfDue.appliedWin = d.appliedWin ∧
      lastSize d.repaintIfDue.world.trace = lastSize d.world.trace) := by
  unfold repaintIfDue
  split
  · rename_i due
    have cases := d.repaint_cases
    generalize d.repaint = result at cases
    cases cases with
    | closed | full | absent => exact .inr ⟨rfl, rfl⟩
    | formFeed => exact .inr ⟨rfl, lastSize_snoc rfl _⟩
    | nudged running resizes present taken =>
        exact (quiet ⟨due, running, resizes, present, taken⟩).elim
    | refused => exact .inl rfl
  · exact .inr ⟨rfl, rfl⟩

instance (d : Daemon) : Decidable d.Nudges := inferInstanceAs (Decidable (_ ∧ _ ∧ _ ∧ _ ∧ _))

theorem Truthful.repaintIfDue_iff {d : Daemon} (h : d.Truthful) :
    d.repaintIfDue.Truthful ↔ (d.Nudges → ∀ win, d.appliedWin = some win → win = d.win) := by
  by_cases nudges : d.Nudges
  · obtain ⟨applied, size⟩ := repaintIfDue_of_nudges nudges
    unfold Truthful
    rw [applied, size]
    constructor
    · intro truthful _ win known
      exact (Option.some.inj (truthful win known)).symm
    · intro agrees win known
      rw [agrees nudges win known]
  · refine ⟨fun _ no => (nudges no).elim, fun _ => ?_⟩
    rcases repaintIfDue_of_not_nudges nudges with unknown | ⟨applied, size⟩
    · exact truthful_of_unknown unknown
    · exact h.of_same applied size

theorem writeClient_size (d : Daemon) : d.writeClient.appliedWin = d.appliedWin ∧
    lastSize d.writeClient.world.trace = lastSize d.world.trace := by
  have dropped : ∀ (d : Daemon) why, (d.dropClient why).appliedWin = d.appliedWin ∧
      lastSize (d.dropClient why).world.trace = lastSize d.world.trace := by
    intro d why
    unfold dropClient
    split
    · exact ⟨rfl, rfl⟩
    · rename_i client attached
      have vacates := depart_vacates why attached (flushSome_farewell client.conn d.world)
      obtain ⟨-, -, same⟩ := Conn.flushSome_trace client.conn d.world
      obtain ⟨events, trace, fine, -⟩ := vacates.trace
      dsimp only
      rw [same]
      exact ⟨vacates.applied, by rw [trace, lastSize_routine fine]⟩
  unfold writeClient
  split
  · exact ⟨rfl, rfl⟩
  · rename_i client attached
    have flushed := (flushed_plain attached).routine
    obtain ⟨events, trace, fine⟩ := flushed.trace
    have size : lastSize (client.conn.flushSome d.world).2.2.trace = lastSize d.world.trace := by
      rw [trace, lastSize_routine fine]
    dsimp only
    split
    · exact ⟨(dropped ..).1, (dropped ..).2.trans size⟩
    · split
      · exact ⟨(dropped ..).1, (dropped ..).2.trans size⟩
      · split
        · exact ⟨(dropped ..).1, (dropped ..).2.trans size⟩
        · exact ⟨rfl, size⟩

/-! ## Runs -/

/-- `apply_win` is to leave the size asked for on record: it is there, or the terminal takes it. -/
def Recording (q : Daemon) : Prop := q.appliedWin = some q.win ∨ (Pty.resize q.win q.world).1

instance (q : Daemon) : Decidable q.Recording := inferInstanceAs (Decidable (_ ∨ _))

/-- If the pump of the coming pass repaints by resizing, the size asked for is still the one that
`apply_win` was to record. -/
def PassAgrees (d : Daemon) : Prop :=
  ∀ q, d.beforeApply = some q → q.Recording → q.settled.pumped.Nudges → q.settled.win = q.win

instance (d : Daemon) : Decidable d.PassAgrees :=
  inferInstanceAs (Decidable (∀ q ∈ d.beforeApply,
    q.Recording → q.settled.pumped.Nudges → q.settled.win = q.win))

/-! ### What of the pass the condition reads -/

theorem pumped_shape (d : Daemon) : ∃ client world, d.pumped = { d with client, world } := by
  unfold pumped
  split
  · exact ⟨_, _, rfl⟩
  · exact ⟨_, _, rfl⟩

theorem collectOutcome_record (d : Daemon) : d.collectOutcome.appliedWin = d.appliedWin ∧
    d.collectOutcome.win = d.win ∧ (d.pty = none → d.collectOutcome.pty = none) := by
  obtain ⟨world, pty, childSignalled, outcome, -, shape⟩ := d.collectOutcome_shape
  refine ⟨by rw [shape], by rw [shape], fun gone => ?_⟩
  have still : d.observe.2.pty = none := by
    unfold observe
    rw [gone]
    split <;> exact gone
  unfold collectOutcome
  dsimp only
  split
  · exact still
  · split
    · exact still
    · split
      · exact still
      · split <;> exact still

theorem settled_record (q : Daemon) : q.settled.pumped.appliedWin = q.applyWin.appliedWin ∧
    q.settled.pumped.win = q.settled.win ∧
      (q.pty = none → q.settled.pumped.pty = none) := by
  obtain ⟨client, pumped, same⟩ := q.settled.pumped_shape
  obtain ⟨wrote, left, -, written⟩ := q.applyWin.writePty_shape
  obtain ⟨_, _, _, _, _, _, _, work⟩ := @doIf_work _ q.applyWin.writePty.inputBacklog _
    (readClient_work q.applyWin.writePty)
  have applied : q.applyWin.pty = q.pty := by
    obtain ⟨_, _, shape⟩ := q.applyWin_shape
    rw [shape]
  obtain ⟨record, -, gone⟩ := collectOutcome_record
    (q.applyWin.writePty.doIf q.applyWin.writePty.inputBacklog readClient)
  rw [same]
  refine ⟨?_, rfl, fun absent => gone ?_⟩
  · refine record.trans ?_
    rw [work, written]
  · rw [work, written]
    exact applied.trans absent

theorem applyWin_record {q : Daemon} (present : q.pty.isSome) (win : WinSize) :
    q.applyWin.appliedWin = some win ↔ q.Recording ∧ win = q.win := by
  unfold applyWin Recording
  split
  · rename_i known
    rw [known, Option.some.injEq]
    exact ⟨fun same => ⟨.inl rfl, same.symm⟩, fun both => both.2.symm⟩
  · rename_i unknown
    obtain ⟨pty, here⟩ := Option.isSome_iff_exists.1 present
    rw [here]
    dsimp only
    cases (Pty.resize q.win q.world).1 with
    | true => simp [eq_comm]
    | false => simp [unknown]

theorem nudged_agrees {q : Daemon} :
    (q.settled.pumped.Nudges → ∀ win, q.settled.pumped.appliedWin = some win →
        win = q.settled.pumped.win) ↔
      (q.Recording → q.settled.pumped.Nudges → q.settled.win = q.win) := by
  obtain ⟨applied, win, gone⟩ := q.settled_record
  rw [applied, win]
  have present : q.settled.pumped.Nudges → q.pty.isSome := by
    intro nudges
    rw [Option.isSome_iff_ne_none]
    intro absent
    have there := nudges.2.2.2.1
    rw [gone absent] at there
    cases there
  constructor
  · intro agrees records nudges
    exact (agrees nudges q.win ((applyWin_record (present nudges) _).2 ⟨records, rfl⟩)).symm
  · intro still nudges win known
    obtain ⟨records, rfl⟩ := (applyWin_record (present nudges) win).1 known
    exact (still records nudges).symm

/-- The states between the passes of a run in which every pass so far agreed. -/
inductive Agreeing (capacity : Nat) : Daemon → Prop
  | start {ring : Ring} (script : List Answer) (now : Nat)
      (reserved : Ring.tryNew true capacity = some ring) : Agreeing capacity (start ring script now)
  | pass {d d' : Daemon} (before : Agreeing capacity d) (agrees : d.PassAgrees)
      (next : d.pass = .ok d') : Agreeing capacity d'

theorem Agreeing.reachable {requested : Nat} {d : Daemon} (h : Agreeing requested d) :
    Reachable requested d := by
  induction h with
  | start script now reserved => exact .start script now reserved
  | pass _ _ next ih => exact .pass ih next

theorem Reachable.pass_truthful {requested : Nat} {d d' : Daemon} (h : Reachable requested d)
    (truthful : d.Truthful) (next : d.pass = .ok d') : d'.Truthful ↔ d.PassAgrees := by
  obtain ⟨p, pumps, same⟩ := (pass_eq ..).1 next
  have moves : Moves (· ≠ .repaint) d p.pumped :=
    ((h.beforePump_arrives pumps).moves (by simp)).trans (pumped_moves p)
  have before : p.pumped.Truthful := moves.invariant (fun _ _ => Truthful.move) truthful
  obtain ⟨applied, size⟩ := p.pumpOutput.writeClient_size
  rw [same, truthful_congr applied size, pumpOutput_eq, before.repaintIfDue_iff]
  obtain ⟨q, applies, rfl⟩ := Option.map_eq_some_iff.1 pumps
  rw [nudged_agrees]
  constructor
  · intro agrees q' applies'
    rw [applies] at applies'
    cases applies'
    exact agrees
  · exact fun agrees => agrees q applies

theorem Agreeing.truthful {requested : Nat} {d : Daemon} (h : Agreeing requested d) :
    d.Truthful := by
  induction h with
  | start => exact truthful_of_unknown rfl
  | pass before agrees next ih => exact (before.reachable.pass_truthful ih next).2 agrees

theorem Truthful.applyWin_size {d : Daemon} (h : d.Truthful) (present : d.pty.isSome)
    (taken : d.appliedWin ≠ some d.win → (Pty.resize d.win d.world).1) :
    lastSize d.applyWin.world.trace = some d.win := by
  have sized := Pty.resize_size d.win d.world
  unfold applyWin
  split
  · rename_i known
    exact h _ known
  · rename_i unknown
    split
    · rename_i gone
      simp [gone] at present
    · dsimp only
      rw [sized, if_pos (taken unknown)]

/-- As long as no repaint by resizing finds the size asked for moved since it was recorded, the record is
truthful at every moment but the repaint, and a pass that first breaks with that leaves it untruthful. -/
theorem Agreeing.appliedWin_truthful {requested : Nat} {d : Daemon} (h : Agreeing requested d) :
    (∀ q, Moves (· ≠ .repaint) d q → q.Truthful ∧
      (q.pty.isSome → (q.appliedWin ≠ some q.win → (Pty.resize q.win q.world).1) →
        lastSize q.applyWin.world.trace = some q.win)) ∧
      ∀ d', d.pass = .ok d' → (d'.Truthful ↔ d.PassAgrees) := by
  refine ⟨?_, fun d' next => h.reachable.pass_truthful h.truthful next⟩
  intro q moves
  have truthful : q.Truthful := moves.invariant (fun _ _ => Truthful.move) h.truthful
  exact ⟨truthful, truthful.applyWin_size⟩

end Daemon

/-! ## A resize read behind the size applied -/

def tall : WinSize := { sampleHello.win with rows := 50 }

/-- A client whose `Hello` has the head of a `Resize` behind it. The rest of that arrives while the
terminal overruns the ring, and a `Resize` back to the size of the `Hello` in the pass after. -/
def resizing : Daemon :=
  Daemon.start { buf := [], capacity := 4, base := 0 }
    (List.replicate 3 idle ++ [pollsReady .listener, { accept := .ok ⟨true, true⟩ }, idle] ++
      List.replicate 4 idle ++ [pollsReady .pending,
        { read := .ok ((Frame.hello sampleHello).wire ++ (Frame.resize tall).wire.take 4) }] ++
      List.replicate 5 idle ++ [idle, pollsReady .pty, { read := .ok [1, 2, 3, 4, 5, 6] }, idle,
        { read := .ok ((Frame.resize tall).wire.drop 4) }] ++
      List.replicate 7 idle ++ [pollsReady .client,
        { read := .ok (Frame.resize sampleHello.win).wire }]) 0

theorem resizing_reachable (n : Nat) : Daemon.Reachable 4 (resizing.passes n) :=
  .passes (.start _ 0 rfl) n

/-- After the pass that overran, the record and the terminal differ, and the pass behind it leaves the
terminal at a size the client did not ask for last. -/
theorem appliedWin_untruthful_resizing :
    (Daemon.Reachable 4 (resizing.passes 3) ∧
      (resizing.passes 3).appliedWin = some sampleHello.win ∧
      lastSize (resizing.passes 3).world.trace = some tall) ∧
    Daemon.Reachable 4 (resizing.passes 4) ∧
      (resizing.passes 4).pty.isSome ∧ (resizing.passes 4).win = sampleHello.win ∧
      (resizing.passes 4).appliedWin = some (resizing.passes 4).win ∧
      lastSize (resizing.passes 4).world.trace = some tall := by
  refine ⟨⟨resizing_reachable 3, ?_, ?_⟩, resizing_reachable 4, ?_⟩ <;> decide +kernel

theorem overrunning_agreeing : Daemon.Agreeing 4 overrun := by
  have start : Daemon.Agreeing 4 overrunning := .start _ 0 rfl
  have accepted : Daemon.Agreeing 4 (overrunning.passes 1) := .pass start (by decide +kernel) rfl
  have greeted : Daemon.Agreeing 4 (overrunning.passes 2) := .pass accepted (by decide +kernel) rfl
  exact .pass greeted (by decide +kernel) rfl

theorem appliedWin_truthful_overrun : lastSize overrun.applyWin.world.trace = some overrun.win :=
  ((overrunning_agreeing.appliedWin_truthful).1 _ .refl).2 (by decide +kernel) (by decide +kernel)

end Nomux
