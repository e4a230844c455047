import Nomux.Daemon.RunSound
import Nomux.Daemon.Decode
import Nomux.Daemon.Output
import Mathlib.Data.List.ReduceOption

/-!
# No lost wakeup

At the end of a pass every obligation that is left has something to wake it: a descriptor in the next
poll set or a deadline. What the second half of `poll_once` settles, in its order, carries that.
-/

namespace Nomux
open Wire World

/-! ## What reading settles -/

theorem takeFrame_eq_none {c : Conn} (h : nextFrame c.unread = .ok none) :
    c.takeFrame.1 = .ok none := by
  rw [Conn.takeFrame_eq, h]

theorem takeFrame_congr {c c' : Conn} (h : c'.unread = c.unread) :
    c'.takeFrame.1 = c.takeFrame.1 := by
  rw [Conn.takeFrame_eq, Conn.takeFrame_eq, h]
  split <;> rfl

namespace Daemon

/-- Nothing can be decoded from the client but for the saturated input. -/
def Decoded (d : Daemon) : Prop :=
  ∀ client, d.client = some client → client.conn.takeFrame.1 ≠ .ok none → d.inputIsSaturated

theorem decodeFrames_decoded (d : Daemon) : d.decodeFrames.Decoded := by
  intro client attached more
  rcases d.decodeFrames_cases with (saturated | gone) | ⟨_, client', frames, -, here, -, parsed, -⟩
  · exact saturated
  · simp [gone] at attached
  · cases attached.symm.trans here
    have stop := congrArg wireFramer.next (congrArg Framer.Parsed.rest parsed)
    rw [Framer.next_rest, parsed] at stop
    exact (more (takeFrame_eq_none stop.symm)).elim

theorem readClient_decoded (d : Daemon) : d.readClient.Decoded := by
  unfold readClient
  split
  · rename_i gone
    intro client attached
    simp [gone] at attached
  · split
    · exact decodeFrames_decoded d
    · split
      · intro client attached
        simp [dropClient_client] at attached
      · exact decodeFrames_decoded _

theorem backlog_decoded (d : Daemon) : (d.doIf d.inputBacklog readClient).Decoded := by
  unfold doIf
  split
  · exact readClient_decoded d
  · rename_i idle
    intro client attached more
    by_contra unsaturated
    rw [Bool.not_eq_true] at unsaturated
    have empty : client.conn.buffered = 0 := by
      simpa [inputBacklog, unsaturated, attached] using idle
    rw [← Conn.length_unread, List.length_eq_zero_iff] at empty
    exact more (takeFrame_eq_none (by rw [empty]; rfl))

/-! ## What the pump settles -/

theorem collectOutcome_frame (d : Daemon) :
    d.collectOutcome.client = d.client ∧ d.collectOutcome.pendingInput = d.pendingInput := by
  have observed : d.observe.2.client = d.client ∧ d.observe.2.pendingInput = d.pendingInput := by
    unfold observe
    split
    · split
      · exact ⟨rfl, rfl⟩
      · split
        · exact ⟨rfl, rfl⟩
        · dsimp only
          split <;> exact ⟨rfl, rfl⟩
    · exact ⟨rfl, rfl⟩
  unfold collectOutcome
  dsimp only
  split
  · exact observed
  · split
    · exact observed
    · split
      · exact observed
      · split <;> exact observed

theorem sendChunks_unread (parts : List Bytes) (offset : Nat) (c : Conn) (w : World) :
    (Conn.sendChunks parts offset c w).2.1.unread = c.unread := by
  induction parts generalizing offset c w with
  | nil => rfl
  | cons part parts ih =>
      have sent := c.send_reading (.output (UInt64.ofNat offset) part) w
      rw [Conn.sendChunks]
      split
      · rfl
      · split
        · rename_i eq
          rw [eq] at sent
          exact sent.2.1
        · rename_i eq
          rw [eq] at sent
          exact (ih ..).trans sent.2.1

theorem sendParts_unread (parts : List Bytes) (a : Attached) (w : World) :
    (sendParts parts a w).1.conn.unread = a.conn.unread := by
  induction parts generalizing a w with
  | nil => rfl
  | cons part parts ih =>
      have sent := sendChunks_unread (History.chunks maxOutputData part) a.sentThrough a.conn w
      rw [sendParts]
      split
      · exact ih ..
      · dsimp only
        split
        · exact sent
        · exact (ih ..).trans sent

theorem replay_unread (ring : Ring) (a : Attached) (w : World) :
    (replay ring a w).1.conn.unread = a.conn.unread := by
  have gap : (reportGap ring a w).1.conn.unread = a.conn.unread := by
    unfold reportGap
    split
    · exact (a.conn.send_reading (.gap (UInt64.ofNat ring.base)) w).2.1
    · rfl
  unfold replay
  split
  · exact (sendParts_unread ..).trans gap
  · rfl

theorem sendExit_spec (ring : Ring) (terminalEnd : Option (Nat × (Int32 × ExitKind))) (a : Attached)
    (w : World) :
    (sendExit ring terminalEnd a w).1.conn.unread = a.conn.unread ∧
    (terminalEnd.isSome → ring.end ≤ (sendExit ring terminalEnd a w).1.sentThrough →
      (sendExit ring terminalEnd a w).1.terminalEndSent) := by
  unfold sendExit
  split
  · split
    · exact ⟨rfl, fun no => by cases no⟩
    · exact ⟨(a.conn.send_reading _ _).2.1, fun _ _ => rfl⟩
  · rename_i nothing
    refine ⟨rfl, fun _ whole => ?_⟩
    simpa [whole] using nothing

/-- What a repaint leaves as it was, and why it may not have been made. -/
structure Repainted (d d' : Daemon) : Prop where
  client : d'.client = d.client
  ring : d'.ring = d.ring
  terminalClosedAt : d'.terminalClosedAt = d.terminalClosedAt
  outcome : d'.outcome = d.outcome
  saturated : d.inputIsSaturated → d'.inputIsSaturated

theorem repaint_spec (d : Daemon) :
    Repainted d d.repaint.2 ∧ (d.repaint.1 = false → d.repaint.2.inputIsSaturated) := by
  have same : Repainted d d := ⟨rfl, rfl, rfl, rfl, id⟩
  unfold repaint
  split
  · exact ⟨same, fun no => by cases no⟩
  · split
    · split
      · rename_i saturated
        exact ⟨same, fun _ => saturated⟩
      · refine ⟨⟨rfl, rfl, rfl, rfl, fun full => ?_⟩, fun no => by cases no⟩
        simp only [inputIsSaturated, List.length_append, decide_eq_true_eq] at full ⊢
        omega
    · split
      · exact ⟨same, fun no => by cases no⟩
      · split
        · exact ⟨⟨rfl, rfl, rfl, rfl, id⟩, fun no => by cases no⟩
        · exact ⟨⟨rfl, rfl, rfl, rfl, id⟩, fun no => by cases no⟩

/-! ## What is left at the end of a pass -/

structure Settled (d : Daemon) : Prop where
  decoded : d.Decoded
  told : ∀ client, d.client = some client → d.terminalEnd.isSome →
    d.ring.end ≤ client.sentThrough → client.terminalEndSent
  painted : ∀ client, d.client = some client → client.repaintDue →
    d.ring.end ≤ client.sentThrough → d.inputIsSaturated

/-- The state but for what the client's queue and the deadlines hold. -/
structure Lasts (d d' : Daemon) : Prop where
  client : ∀ client', d'.client = some client' → ∃ client, d.client = some client ∧
    client'.conn.unread = client.conn.unread ∧ client'.sentThrough = client.sentThrough ∧
    client'.terminalEndSent = client.terminalEndSent ∧ client'.repaintDue = client.repaintDue
  pendingInput : d'.client.isSome → d'.pendingInput = d.pendingInput
  ring : d'.ring = d.ring
  terminalClosedAt : d'.terminalClosedAt = d.terminalClosedAt
  outcome : d'.outcome = d.outcome

theorem Settled.lasts {d d' : Daemon} (h : d.Settled) (lasts : Lasts d d') : d'.Settled := by
  have saturated : d'.client.isSome → d'.inputIsSaturated = d.inputIsSaturated := fun attached => by
    simp only [inputIsSaturated, lasts.pendingInput attached]
  have ended : d'.terminalEnd = d.terminalEnd := by
    simp only [terminalEnd, lasts.terminalClosedAt, lasts.outcome]
  refine ⟨fun client' attached more => ?_, fun client' attached finished whole => ?_,
    fun client' attached due whole => ?_⟩
  · obtain ⟨client, here, unread, -⟩ := lasts.client client' attached
    rw [saturated (by simp [attached])]
    rw [takeFrame_congr unread] at more
    exact h.decoded client here more
  · obtain ⟨client, here, -, through, sent, -⟩ := lasts.client client' attached
    rw [ended] at finished
    rw [lasts.ring, through] at whole
    rw [sent]
    exact h.told client here finished whole
  · obtain ⟨client, here, -, through, -, same⟩ := lasts.client client' attached
    rw [saturated (by simp [attached])]
    rw [lasts.ring, through] at whole
    rw [same] at due
    exact h.painted client here due whole

theorem repaintIfDue_settled {d : Daemon} (decoded : d.Decoded)
    (told : ∀ client, d.client = some client → d.terminalEnd.isSome →
      d.ring.end ≤ client.sentThrough → client.terminalEndSent) : d.repaintIfDue.Settled := by
  unfold repaintIfDue
  split
  · obtain ⟨same, undone⟩ := d.repaint_spec
    cases painted : d.repaint with
    | mk done d' =>
        rw [painted] at same undone
        dsimp only at same undone
        have ended : d'.terminalEnd = d.terminalEnd := by
          simp only [terminalEnd, same.terminalClosedAt, same.outcome]
        cases done with
        | true =>
            refine ⟨fun client' attached more => ?_, fun client' attached finished whole => ?_,
              fun client' attached due => ?_⟩
            · obtain ⟨client, here, rfl⟩ := Option.map_eq_some_iff.1 attached
              exact same.saturated (decoded client (same.client ▸ here) more)
            · obtain ⟨client, here, rfl⟩ := Option.map_eq_some_iff.1 attached
              exact told client (same.client ▸ here) (ended ▸ finished) (same.ring ▸ whole)
            · obtain ⟨client, here, rfl⟩ := Option.map_eq_some_iff.1 attached
              cases due
        | false =>
            refine ⟨fun client here more => undone rfl, fun client here finished whole => ?_,
              fun client here due whole => undone rfl⟩
            exact told client (same.client ▸ here) (ended ▸ finished) (same.ring ▸ whole)
  · rename_i notDue
    refine ⟨decoded, told, fun client here due whole => ?_⟩
    simp [here, due, whole] at notDue

theorem pumpOutput_settled {d : Daemon} (decoded : d.Decoded) : d.pumpOutput.Settled := by
  unfold pumpOutput
  split
  · rename_i gone
    refine ⟨decoded, fun client here => ?_, fun client here => ?_⟩
    · simp [gone] at here
    · simp [gone] at here
  · rename_i client attached
    dsimp only
    have replayed := replay_unread d.ring client d.world
    obtain ⟨unread, told⟩ := sendExit_spec d.ring d.terminalEnd (replay d.ring client d.world).1
      (replay d.ring client d.world).2
    apply repaintIfDue_settled
    · intro client' here more
      cases here
      rw [takeFrame_congr (unread.trans replayed)] at more
      exact decoded client attached more
    · intro client' here finished whole
      cases here
      exact told finished whole

theorem flushSome_unread (c : Conn) (w : World) : (c.flushSome w).2.1.unread = c.unread := by
  unfold Conn.flushSome
  dsimp only
  split <;> rfl

theorem writeClient_lasts (d : Daemon) : Lasts d d.writeClient := by
  have gone : ∀ d' : Daemon, ClientWork d d' → d'.client = none → Lasts d d' := fun d' work none =>
    ⟨fun client' no => by simp [none] at no, fun no => by simp [none] at no, work.ring,
      work.terminalClosedAt, work.outcome⟩
  unfold writeClient
  split
  · rename_i none
    exact gone d (.refl d) none
  · rename_i client attached
    have unread := flushSome_unread client.conn d.world
    dsimp only
    have moved : ClientWork d { d with
      client := some { client with conn := (client.conn.flushSome d.world).2.1 }
      world := (client.conn.flushSome d.world).2.2 } := ⟨_, _, _, _, _, _, _, rfl⟩
    have kept : Lasts d { d with
        client := some { client with conn := (client.conn.flushSome d.world).2.1 }
        world := (client.conn.flushSome d.world).2.2 } := by
      refine ⟨fun client' here => ?_, fun _ => rfl, rfl, rfl, rfl⟩
      cases here
      exact ⟨client, attached, unread, rfl, rfl, rfl⟩
    split
    · exact gone _ (moved.trans (dropClient_work _ .failed)) (dropClient_client ..)
    · split
      · exact gone _ (moved.trans (dropClient_work _ .abandoned)) (dropClient_client ..)
      · split
        · exact gone _ (moved.trans (dropClient_work _ .finished)) (dropClient_client ..)
        · exact kept

theorem settlePass_settled (d : Daemon) : d.settlePass.Settled := by
  have read := d.applyWin.writePty.backlog_decoded
  obtain ⟨client, pendingInput⟩ := collectOutcome_frame
    (d.applyWin.writePty.doIf d.applyWin.writePty.inputBacklog readClient)
  refine Settled.lasts (pumpOutput_settled fun client' attached more => ?_) (writeClient_lasts _)
  rw [client] at attached
  have saturated := read client' attached more
  simpa only [inputIsSaturated, pendingInput] using saturated

/-! ## What happens before the next poll -/

theorem Lasts.refl (d : Daemon) : Lasts d d :=
  ⟨fun client here => ⟨client, here, rfl, rfl, rfl, rfl⟩, fun _ => rfl, rfl, rfl, rfl⟩

theorem Lasts.of_client {d d' : Daemon} (client : d'.client = d.client)
    (pendingInput : d'.pendingInput = d.pendingInput) (ring : d'.ring = d.ring)
    (terminalClosedAt : d'.terminalClosedAt = d.terminalClosedAt)
    (outcome : d'.outcome = d.outcome) : Lasts d d' :=
  ⟨fun client' here => ⟨client', client ▸ here, rfl, rfl, rfl, rfl⟩, fun _ => pendingInput, ring,
    terminalClosedAt, outcome⟩

theorem tellClient_lasts (d : Daemon) (f : Frame) : Lasts d (d.tellClient f) := by
  unfold tellClient
  split
  · exact .refl d
  · rename_i client attached
    refine ⟨fun client' here => ?_, fun _ => rfl, rfl, rfl, rfl⟩
    cases here
    exact ⟨client, attached, (client.conn.send_reading f d.world).2.1, rfl, rfl, rfl⟩

theorem Lasts.trans {a b c : Daemon} (ab : Lasts a b) (bc : Lasts b c) : Lasts a c where
  client last here := by
    obtain ⟨middle, between, unread, through, sent, due⟩ := bc.client last here
    obtain ⟨first, there, unread', through', sent', due'⟩ := ab.client middle between
    exact ⟨first, there, unread.trans unread', through.trans through', sent.trans sent',
      due.trans due'⟩
  pendingInput here := by
    obtain ⟨last, attached⟩ := Option.isSome_iff_exists.1 here
    obtain ⟨middle, between, -⟩ := bc.client last attached
    exact (bc.pendingInput here).trans (ab.pendingInput (by simp [between]))
  ring := bc.ring.trans ab.ring
  terminalClosedAt := bc.terminalClosedAt.trans ab.terminalClosedAt
  outcome := bc.outcome.trans ab.outcome

theorem Lasts.behind {a b c : Daemon} (bc : Lasts b c) (ab : Lasts a b) : Lasts a c := ab.trans bc

theorem dropPending_lasts (d : Daemon) (why : Departure) : Lasts d (d.dropPending why) := by
  unfold dropPending
  split
  · exact .refl d
  · exact .of_client rfl rfl rfl rfl rfl

theorem expireAgent_lasts (d : Daemon) (now : Nat) : Lasts d (d.expireAgent now) := by
  unfold expireAgent
  split
  · exact .refl d
  · split
    · exact (tellClient_lasts _ _).behind (.of_client rfl rfl rfl rfl rfl)
    · exact .of_client rfl rfl rfl rfl rfl

theorem expire_lasts (d : Daemon) : Lasts d d.expire := by
  have clock : Lasts d { d with
      world := d.world.clock.2
      acceptRetry := d.acceptRetry.filter (d.world.clock.1 < ·)
      agentAcceptRetry := d.agentAcceptRetry.filter (d.world.clock.1 < ·) } :=
    .of_client rfl rfl rfl rfl rfl
  rw [expire_eq]
  apply (expireAgent_lasts _ _).behind
  split
  · exact clock.trans (dropPending_lasts _ .expired)
  · exact clock

theorem stopReason_lasts (d : Daemon) : Lasts d d.stopReason.2 := by
  unfold stopReason
  split
  · exact .refl d
  · split
    · exact .refl d
    · exact .of_client rfl rfl rfl rfl rfl

/-! ## Deadlines -/

theorem le_clock (w : World) : w.now ≤ w.clock.1 := by
  change w.now ≤ w.draw.2.now
  unfold World.draw
  split
  · exact Nat.le_refl _
  · exact Nat.le_add_right ..

theorem pollTimeout_le (d : Daemon) {deadline : Nat}
    (due : deadline ∈ d.deadlines (d.resizeDeadline d.untilDetached.2).1) :
    d.pollTimeout.1 ≤ deadline - d.pollTimeout.2.world.now ∧
      (d.resizeDeadline d.untilDetached.2).2.now ≤ d.pollTimeout.2.world.now := by
  unfold pollTimeout
  dsimp only
  split
  · rename_i nothing
    rw [List.min?_eq_none_iff] at nothing
    simp [nothing] at due
  · rename_i first found
    have least := (List.min?_eq_some_iff.1 found).2 deadline due
    refine ⟨?_, le_clock _⟩
    dsimp only
    change min _ (first - (World.clock _).2.now) ≤ deadline - (World.clock _).2.now
    omega

theorem mem_deadlines {d : Daemon} {resize : Option Nat} {deadline : Nat}
    (h : d.outcomeDeadline = some deadline ∨ resize = some deadline) :
    deadline ∈ d.deadlines resize := by
  rw [deadlines, List.reduceOption_mem_iff]
  rcases h with outcome | size
  · simp [outcome]
  · simp [size]

/-- Every obligation has a descriptor that is watched for it, or a deadline. -/
structure Awake (d : Daemon) : Prop where
  frames : ∀ client, d.client = some client → client.conn.takeFrame.1 ≠ .ok none →
    d.inputIsSaturated ∧ d.terminalClosedAt = none ∧
      ∃ flags, d.watchFor .pty = some flags ∧ flags.output
  output : ∀ client, d.client = some client →
    0 < client.conn.queued ∨ client.sentThrough < d.ring.end →
      ∃ flags, d.watchFor .client = some flags ∧ flags.output
  exit : ∀ client closedAt, d.client = some client → d.terminalClosedAt = some closedAt →
    client.terminalEndSent = false → client.sentThrough < d.ring.end ∨
      (d.outcome = none ∧
        d.pollTimeout.1 ≤ closedAt + outcomeGrace - d.pollTimeout.2.world.now)
  input : d.pendingInput ≠ [] → d.terminalClosedAt = none →
    ∃ flags, d.watchFor .pty = some flags ∧ flags.output
  repaint : ∀ client, d.client = some client → client.repaintDue →
    d.ring.end ≤ client.sentThrough → d.inputIsSaturated
  resize : d.client.isSome → d.terminalClosedAt = none → d.appliedWin ≠ some d.win →
    d.pollTimeout.1 ≤ resizeRetry

end Daemon

theorem Sound.open_of_input {origin : Origin} {stage : Stage} {d : Daemon}
    (h : Sound origin stage d) (waiting : d.pendingInput ≠ []) :
    d.terminalClosedAt = none ∧ d.pty.isSome := by
  refine ⟨?_, h.2.queued waiting⟩
  by_contra closed
  have dropped := h.1.lawful.input.dropped
  rw [← h.2.terminalClosedAt, ← h.2.pendingInput] at dropped
  exact waiting (dropped (Option.isSome_iff_ne_none.2 closed))

theorem Sound.watches_pty {origin : Origin} {stage : Stage} {d : Daemon}
    (h : Sound origin stage d) (waiting : d.pendingInput ≠ []) :
    ∃ flags, d.watchFor .pty = some flags ∧ flags.output := by
  obtain ⟨«open», terminal⟩ := h.open_of_input waiting
  exact ⟨_, if_pos (by simp [«open», terminal]), by simpa using waiting⟩

theorem Daemon.Settled.awake {origin : Origin} {d : Daemon} (h : d.Settled)
    (sound : Sound origin .greeted d) : d.Awake where
  frames client attached more := by
    have saturated := h.decoded client attached more
    have waiting : d.pendingInput ≠ [] := fun empty => by
      simp [Daemon.inputIsSaturated, empty, maxPendingInput] at saturated
    exact ⟨saturated, (sound.open_of_input waiting).1, sound.watches_pty waiting⟩
  output client attached owed := by
    refine ⟨_, by rw [Daemon.watchFor, attached]; rfl, ?_⟩
    simpa using owed
  exit client closedAt attached closed untold := by
    by_cases owed : client.sentThrough < d.ring.end
    · exact .inl owed
    · have undecided : d.outcome = none := by
        by_contra decided
        obtain ⟨o, ho⟩ := Option.ne_none_iff_exists'.1 decided
        have told := h.told client attached (by simp [Daemon.terminalEnd, closed, ho])
          (Nat.not_lt.1 owed)
        simp [told] at untold
      refine .inr ⟨undecided, (d.pollTimeout_le (mem_deadlines (.inl ?_))).1⟩
      simp [Daemon.outcomeDeadline, undecided, closed]
  input waiting _ := sound.watches_pty waiting
  repaint client attached due whole := h.painted client attached due whole
  resize attached «open» differs := by
    have terminal : d.pty.isSome := sound.2.served rfl attached
    have owed : d.resizeIsOwed := by simp [Daemon.resizeIsOwed, attached, «open», terminal, differs]
    have size : d.resizeDeadline d.untilDetached.2 =
        (some (d.untilDetached.2.clock.1 + resizeRetry), d.untilDetached.2.clock.2) := if_pos owed
    obtain ⟨bound, later⟩ := d.pollTimeout_le (mem_deadlines (.inr (congrArg Prod.fst size)))
    rw [size] at later
    change d.untilDetached.2.clock.1 ≤ _ at later
    omega

/-- At the end of a pass, and again when the next poll set is made, nothing that is still to be done
has been left without a wakeup. -/
theorem Daemon.Reachable.no_lost_wakeup {requested : Nat} {d₀ d : Daemon}
    (before : Reachable requested d₀) (next : d₀.pass = .ok d) :
    d.Awake ∧ d.stopReason.2.expire.Awake := by
  have sound := (before.pass next).sound
  have settled : d.Settled := by
    unfold Daemon.pass at next
    split at next
    · cases next
    · split at next
      · cases next
      · cases next
        exact settlePass_settled _
  exact ⟨settled.awake sound, ((settled.lasts (stopReason_lasts d)).lasts (expire_lasts _)).awake
    sound.stopReason.expire⟩

theorem no_lost_wakeup_overrun : overrun.Awake ∧ overrun.stopReason.2.expire.Awake :=
  (overrunning_reachable 2).no_lost_wakeup rfl

end Nomux
