import Nomux.Daemon.GreetSound

/-!
# Soundness of the terminal and the pump

What the terminal says, what it is told, the outcome of its child, and the output queued to the
client.
-/

namespace Nomux
open Wire World

variable {origin : Origin} {stage stage' : Stage}

/-! ## The terminal -/

theorem Sound.onTerminalClosed {d : Daemon} (h : Sound origin stage d) (terminal : d.pty.isSome)
    (running : d.terminalClosedAt = none) : Sound origin stage d.onTerminalClosed := by
  unfold Daemon.onTerminalClosed
  rw [running]
  have moved := h.world d.world.clock_quiet.aside
  have «open» := moved.2.terminalClosedAt
  simp only [Daemon.view, running] at «open»
  exact moved.log (e := .terminalClosed d.world.clock.1) «open».symm rfl
    { moved.2 with
      client := fun a ha => (moved.2.client a ha).of_same rfl rfl rfl
      pending := fun c due hc => (moved.2.pending c due hc).of_same rfl rfl
      pendingInput := rfl
      terminalClosedAt := rfl
      queued := fun _ => terminal
      closed := fun _ => terminal }

theorem Sound.readPty {d : Daemon} (h : Sound origin .greeted d)
    (running : d.terminalClosedAt = none) : Sound origin .greeted d.readPty := by
  have quiet := (d.world.readOrEof_quiet readBufLen).aside
  unfold Daemon.readPty
  split
  · exact h
  · rename_i pty terminal
    split
    · rename_i bytes w eq
      rw [eq] at quiet
      have moved := h.world quiet
      have «open» := moved.2.terminalClosedAt
      simp only [Daemon.view, running] at «open»
      exact moved.log (e := .output bytes) «open».symm rfl
        { moved.2 with
          client := fun a ha => (moved.2.client a ha).of_same rfl rfl rfl
          pending := fun c due hc => (moved.2.pending c due hc).of_same rfl rfl
          ring := moved.2.ring.push bytes }
    · rename_i w eq
      rw [eq] at quiet
      exact (h.world quiet).onTerminalClosed (by simp [terminal]) running
    · rename_i w eq
      rw [eq] at quiet
      exact h.world quiet
    · rename_i w eq
      rw [eq] at quiet
      exact ((h.world quiet).reject .internal "terminal read failed" (by simp) (by decide)
        fun no => by cases no).move (.refl _) rfl

theorem Sound.writePty {d : Daemon} (h : Sound origin stage d) : Sound origin stage d.writePty := by
  have quiet := (d.world.drainTo_quiet d.pendingInput).aside
  have whole := d.world.drainTo_split d.pendingInput
  unfold Daemon.writePty
  split
  · exact h
  · rename_i pty terminal
    generalize d.world.drainTo d.pendingInput = result at quiet whole
    obtain ⟨drained, w⟩ := result
    dsimp only at quiet whole ⊢
    have moved := h.world quiet
    have queue := moved.2.pendingInput
    simp only [Daemon.view] at queue
    split
    · exact moved.log (e := .masterFailed) trivial rfl
        { moved.2 with
          client := fun a ha => (moved.2.client a ha).of_same rfl rfl rfl
          pending := fun c due hc => (moved.2.pending c due hc).of_same rfl rfl
          pendingInput := rfl
          queued := fun no => (no rfl).elim }
    · refine moved.log (e := .masterWrote drained.written) ?_ rfl
        { moved.2 with
          client := fun a ha => (moved.2.client a ha).of_same rfl rfl rfl
          pending := fun c due hc => (moved.2.pending c due hc).of_same rfl rfl
          pendingInput := ?_
          queued := fun _ => by simp [Daemon.view, terminal] }
      · change _ <+: Session.pendingInput _
        rw [← queue, ← whole]
        exact List.prefix_append ..
      · change _ = List.drop _ (Session.pendingInput _)
        rw [← queue, ← whole, List.drop_left]
        rfl

theorem Sound.applyWin {d : Daemon} (h : Sound origin stage d) : Sound origin stage d.applyWin := by
  unfold Daemon.applyWin
  split
  · exact h
  · split
    · exact h
    · exact h.move (Pty.resize_aside d.win d.world) rfl

theorem Sound.repaint {d : Daemon} (h : Sound origin stage d) (terminal : d.pty.isSome) :
    Sound origin stage d.repaint.2 := by
  have nudged := Pty.nudgeRepaint_aside d.win d.world
  unfold Daemon.repaint
  split
  · exact h
  · rename_i running
    have «open» := h.2.terminalClosedAt
    simp only [Daemon.view] at «open»
    split
    · split
      · exact h
      · exact h.log (e := .repaintQueued) (by rw [Session.Legal, ← «open»]; simpa using running) rfl
          { h.2 with
            client := fun a ha => (h.2.client a ha).of_same rfl rfl rfl
            pending := fun c due hc => (h.2.pending c due hc).of_same rfl rfl
            pendingInput := congrArg (· ++ _) h.2.pendingInput
            queued := fun _ => terminal }
    · split
      · exact h
      · split
        · rename_i eq
          rw [eq] at nudged
          exact h.move nudged rfl
        · rename_i eq
          rw [eq] at nudged
          exact h.move nudged rfl

/-! ## The outcome -/

theorem Sound.settle {d : Daemon} {o : Int32 × ExitKind} {settled : Settled}
    (h : Sound origin stage d) (legal : (session origin.capacity d.world.trace).Settles o settled)
    (observed : d.pty.any (·.observed) ∨ o = (0, .unknown)) :
    Sound origin stage (d.settle o settled) :=
  h.log (e := .outcome o settled) legal rfl
    { h.2 with
      client := fun a ha => (h.2.client a ha).of_same rfl rfl rfl
      pending := fun c due hc => (h.2.pending c due hc).of_same rfl rfl
      outcome := rfl
      settled := fun p hp => by cases hp; exact observed }

theorem Sound.waited {d : Daemon} {w : World} {pty pty' : Pty} (h : Sound origin stage d)
    (answer : Except Errno (Option WaitStatus)) (quiet : Quiet d.world w) (terminal : d.pty = some pty)
    (observed : pty.observed → pty'.observed) :
    Sound origin stage { d with pty := some pty', world := w.log (.waited answer) } := by
  have moved := h.world quiet.aside
  refine moved.log (e := .waited answer) trivial rfl
    { moved.2 with
      client := fun a ha => (moved.2.client a ha).of_same rfl rfl rfl
      pending := fun c due hc => (moved.2.pending c due hc).of_same rfl rfl
      served := fun _ _ => rfl
      queued := fun _ => rfl
      closed := fun _ => rfl
      settled := fun o ho => ?_ }
  rcases h.2.settled o ho with seen | unknown
  · exact .inl (observed (by simpa [Daemon.view, terminal] using seen))
  · exact .inr unknown

theorem Pty.tryOutcome_cases (p : Pty) (w : World) :
    (p.observed ∧ p.tryOutcome w = (.ok none, p, w)) ∨
    ∃ w', ∃ answer : Except Errno (Option WaitStatus), p.observed = false ∧ Quiet w w' ∧
      p.tryOutcome w = match answer with
        | .error err => (.error err, p, w'.log (.waited (.error err)))
        | .ok none => (.ok none, p, w'.log (.waited (.ok none)))
        | .ok (some status) =>
            (.ok (some status.outcome), { p with observed := true },
              w'.log (.waited (.ok (some status)))) := by
  unfold Pty.tryOutcome
  split
  · rename_i observed
    exact .inl ⟨observed, rfl⟩
  · rename_i unobserved
    refine .inr ⟨(w.retry (·.waitid)).2, (w.retry (·.waitid)).1, by simpa using unobserved,
      w.retry_quiet _, ?_⟩
    generalize w.retry (·.waitid) = result
    obtain ⟨answer, w'⟩ := result
    rcases answer with err | _ | status <;> rfl

theorem Sound.observe {d : Daemon} (h : Sound origin stage d) :
    Sound origin stage d.observe.2 ∧
      ∀ o, d.observe.1 = some o → d.observe.2.pty.any (·.observed) ∧
        ∃ status, (session origin.capacity d.observe.2.world.trace).waited = some (.ok (some status)) ∧
          o = status.outcome := by
  unfold Daemon.observe
  split
  · split
    · exact ⟨h, fun o no => by cases no⟩
    · rename_i pty terminal
      rcases pty.tryOutcome_cases d.world with ⟨-, eq⟩ | ⟨w, answer, unobserved, quiet, eq⟩
      · rw [eq]
        have same : ({ d with pty := some pty } : Daemon) = d := by rw [← terminal]
        exact ⟨same.symm ▸ h, fun o no => by cases no⟩
      · rcases answer with err | _ | status
        · rw [eq]
          have waited := h.waited (.error err) quiet terminal id
          have same := waited.2.outcome
          have closed := waited.2.terminalClosedAt
          simp only [Daemon.view] at same closed
          dsimp only
          split
          · rename_i ended
            refine ⟨waited.settle ⟨?_, rfl, closed ▸ ended, err, ?_⟩ (.inr rfl),
              fun o no => by cases no⟩
            · rw [← same]
              cases outcome : d.outcome with
              | none => exact .inl rfl
              | some o =>
                  rcases h.2.settled o outcome with seen | unknown
                  · simp [Daemon.view, terminal, unobserved] at seen
                  · exact .inr (congrArg some unknown)
            · simp only [World.log, session_snoc]
              rfl
          · exact ⟨waited, fun o no => by cases no⟩
        · rw [eq]
          exact ⟨h.waited _ quiet terminal id, fun o no => by cases no⟩
        · rw [eq]
          refine ⟨h.waited _ quiet terminal fun _ => rfl, fun o some => ?_⟩
          cases some
          refine ⟨rfl, status, ?_, rfl⟩
          simp only [World.log, session_snoc]
          rfl
  · exact ⟨h, fun o no => by cases no⟩

theorem Sound.collectOutcome {d : Daemon} (h : Sound origin stage d) :
    Sound origin stage d.collectOutcome := by
  obtain ⟨observed, reported⟩ := h.observe
  unfold Daemon.collectOutcome
  generalize d.observe = result at observed reported
  obtain ⟨outcome, d'⟩ := result
  dsimp only at observed reported ⊢
  have spent : Sound origin stage { d' with childSignalled := false } :=
    observed.move (.refl _) rfl
  have same := spent.2.outcome
  have closed := spent.2.terminalClosedAt
  simp only [Daemon.view] at same closed
  split
  · exact spent
  · rename_i unsettled
    have unset : d'.outcome = none := by simpa using unsettled
    rw [unset] at same
    split
    · rename_i o
      obtain ⟨seen, status, waited, rfl⟩ := reported o rfl
      exact spent.settle ⟨same.symm, status, waited, rfl⟩ (.inl seen)
    · split
      · exact spent
      · rename_i closedAt ended
        have moved := spent.world d'.world.clock_quiet.aside
        have same' := moved.2.outcome
        have closed' := moved.2.terminalClosedAt
        simp only [Daemon.view] at same' closed'
        split
        · rename_i elapsed
          refine moved.settle ⟨?_, rfl, closedAt, ?_, ?_⟩ (.inr rfl)
          · rw [← same', unset]
          · rw [← closed', ended]
          · have grace : 0 < outcomeGrace := by decide
            omega
        · exact moved

/-! ## The pump -/

theorem encodable_gap (n : UInt64) : (Frame.gap n).Encodable :=
  ⟨trivial, by simp [Frame.payload, Frame.encodePayload, maxPayload]⟩

theorem encodable_output (offset : UInt64) {data : Bytes} (short : data.length ≤ maxOutputData) :
    (Frame.output offset data).Encodable := by
  refine ⟨trivial, ?_⟩
  simp only [Frame.payload, Frame.encodePayload, List.nil_append, List.length_append, length_put64]
  simp only [maxOutputData, maxPayload] at short ⊢
  omega

theorem encodable_exit {status : Int32} {kind : ExitKind} {secs : UInt32}
    (known : kind = .unknown → status = 0) : (Frame.exit status kind secs).Encodable := by
  refine ⟨fun bad => bad.2 (known bad.1), ?_⟩
  simp [Frame.payload, Frame.encodePayload, maxPayload]

def Daemon.pumping (d : Daemon) (client : Attached) (w : World) : Daemon :=
  { d with client := some client, world := w }

def outputAt (origin : Origin) (w : World) : Bytes := (session origin.capacity w.trace).output

theorem outputAt_sent (w : World) (c : Nat) (f : Frame) :
    outputAt origin (w.log (.sent c f)) = outputAt origin w := by
  rw [outputAt, World.log, session_snoc]
  rfl

theorem Sound.sendChunk {d : Daemon} {a : Attached} {w : World} {data rest : Bytes}
    (h : Sound origin .greeted (d.pumping a w)) (nonempty : data ≠ [])
    (front : (outputAt origin w).drop a.sentThrough = data ++ rest) :
    Sound origin .greeted (d.pumping
      { a with
        conn := a.conn.queue (.output (UInt64.ofNat a.sentThrough) data)
        sentThrough := a.sentThrough + data.length }
      (w.log (.sent a.conn.id (.output (UInt64.ofNat a.sentThrough) data)))) := by
  have serves := h.2.client a rfl
  refine h.queue .greeted _ _ _ rfl
    ⟨serves.attached, serves.stage, congrArg UInt64.ofNat serves.sentThrough, nonempty, ?_⟩
    (congrArg (· + data.length) serves.sentThrough) (Bool.or_false _).symm
    (serves.stage.append rfl _) fun _ => h.2.served rfl rfl
  rw [← serves.sentThrough]
  exact ⟨rest, front.symm⟩

theorem Sound.sendChunks {d : Daemon} {a : Attached} (parts : List Bytes) (rest : Bytes) {c : Conn}
    {offset : Nat} {w : World}
    (h : Sound origin .greeted (d.pumping { a with conn := c, sentThrough := offset } w))
    (pieces : ∀ part ∈ parts, part ≠ [] ∧ part.length ≤ maxOutputData)
    (front : (outputAt origin w).drop offset = parts.flatten ++ rest) :
    Sound origin .greeted (d.pumping
      { a with
        conn := (Conn.sendChunks parts offset c w).2.1
        sentThrough := (Conn.sendChunks parts offset c w).1 }
      (Conn.sendChunks parts offset c w).2.2) ∧
    outputAt origin (Conn.sendChunks parts offset c w).2.2 = outputAt origin w := by
  induction parts generalizing c offset w with
  | nil => exact ⟨h, rfl⟩
  | cons part parts ih =>
      obtain ⟨nonempty, short⟩ := pieces part (by simp)
      rw [Conn.sendChunks]
      split
      · exact ⟨h, rfl⟩
      · rw [Conn.send_eq _ (encodable_output _ short)]
        rw [List.flatten_cons, List.append_assoc] at front
        have next := h.sendChunk nonempty front
        have remaining : (outputAt origin w).drop (offset + part.length) =
            parts.flatten ++ rest := by
          rw [← List.drop_drop, front, List.drop_left]
        rw [← outputAt_sent w c.id (.output (UInt64.ofNat offset) part)] at remaining
        obtain ⟨sound, same⟩ := ih next (fun p hp => pieces p (by simp [hp])) remaining
        exact ⟨sound, same.trans (outputAt_sent ..)⟩

theorem Sound.sendOutput {d : Daemon} {a : Attached} {w : World} {data rest : Bytes}
    (h : Sound origin .greeted (d.pumping a w))
    (front : (outputAt origin w).drop a.sentThrough = data ++ rest) :
    Sound origin .greeted (d.pumping
      { a with
        conn := (a.conn.sendOutput a.sentThrough data w).2.1
        sentThrough := (a.conn.sendOutput a.sentThrough data w).1 }
      (a.conn.sendOutput a.sentThrough data w).2.2) ∧
    outputAt origin (a.conn.sendOutput a.sentThrough data w).2.2 = outputAt origin w := by
  have pos : 0 < maxOutputData := by decide
  refine Sound.sendChunks _ rest h (fun part hp => History.mem_chunks pos hp) ?_
  rwa [History.flatten_chunks pos]

theorem Sound.sendParts {d : Daemon} (parts : List Bytes) (rest : Bytes) {a : Attached} {w : World}
    (h : Sound origin .greeted (d.pumping a w))
    (front : (outputAt origin w).drop a.sentThrough = parts.flatten ++ rest) :
    Sound origin .greeted
      (d.pumping (Daemon.sendParts parts a w).1 (Daemon.sendParts parts a w).2) := by
  induction parts generalizing a w with
  | nil => exact h
  | cons part parts ih =>
      rw [List.flatten_cons, List.append_assoc] at front
      rw [Daemon.sendParts]
      split
      · rename_i empty
        rw [List.isEmpty_iff.1 empty] at front
        exact ih h front
      · obtain ⟨sound, same⟩ := h.sendOutput front
        dsimp only
        split
        · exact sound
        · rename_i whole
          refine ih sound ?_
          rw [same, not_not.1 whole, ← List.drop_drop, front, List.drop_left]

theorem Sound.reportGap {d : Daemon} {a : Attached} {w : World}
    (h : Sound origin .greeted (d.pumping a w)) :
    Sound origin .greeted
      (d.pumping (Daemon.reportGap d.ring a w).1 (Daemon.reportGap d.ring a w).2) ∧
    outputAt origin (Daemon.reportGap d.ring a w).2 = outputAt origin w ∧
    d.ring.base ≤ (Daemon.reportGap d.ring a w).1.sentThrough := by
  unfold Daemon.reportGap
  split
  · rename_i behind
    have serves := h.2.client a rfl
    have base := h.2.base_eq
    simp only [Daemon.view, Daemon.pumping] at base
    rw [Conn.send_eq _ (encodable_gap _)]
    refine ⟨h.queue .greeted _ _ _ rfl ⟨serves.attached, serves.stage, ?_, congrArg _ base⟩ base
      (Bool.or_false _).symm (serves.stage.append rfl _) fun _ => h.2.served rfl rfl,
      outputAt_sent .., Nat.le_refl _⟩
    rw [← serves.sentThrough]
    exact base ▸ behind
  · rename_i level
    exact ⟨h, rfl, Nat.not_lt.1 level⟩

theorem Sound.replay {d : Daemon} {a : Attached} {w : World}
    (h : Sound origin .greeted (d.pumping a w)) :
    Sound origin .greeted
      (d.pumping (Daemon.replay d.ring a w).1 (Daemon.replay d.ring a w).2) := by
  unfold Daemon.replay
  split
  · obtain ⟨gapped, same, level⟩ := h.reportGap
    generalize Daemon.reportGap d.ring a w = result at gapped same level
    obtain ⟨a', w'⟩ := result
    dsimp only at gapped same level ⊢
    have drawn : Sound origin .greeted (d.pumping a' w'.draw.2) :=
      gapped.world w'.draw_quiet.aside
    refine drawn.sendParts _ [] ?_
    have ring := drawn.2.ring
    simp only [Daemon.view, Daemon.pumping] at ring
    have slices := ring.slicesFrom w'.draw.1.wrap a'.sentThrough
    rw [Nat.max_eq_left level] at slices
    simp only [List.flatten_cons, List.flatten_nil, List.append_nil]
    exact slices.symm
  · exact h

theorem Sound.sendExit {d : Daemon} {a : Attached} {w : World}
    (h : Sound origin .greeted (d.pumping a w)) :
    Sound origin .greeted (d.pumping (Daemon.sendExit d.ring d.terminalEnd a w).1
      (Daemon.sendExit d.ring d.terminalEnd a w).2) := by
  unfold Daemon.sendExit
  split
  · rename_i due
    split
    · exact h
    · rename_i closedAt status kind ending
      have moved : Sound origin .greeted (d.pumping a w.clock.2) := h.world w.clock_quiet.aside
      have serves := moved.2.client a rfl
      have closed := moved.2.terminalClosedAt
      have outcome := moved.2.outcome
      have «end» := moved.2.end_eq
      have within := moved.1.lawful.transcript.within a.conn.id
      simp only [Daemon.view, Daemon.pumping] at closed outcome «end»
      simp only [Bool.and_eq_true, Bool.not_eq_true', decide_eq_true_eq] at due
      obtain ⟨unsent, whole⟩ := due
      unfold Daemon.terminalEnd at ending
      split at ending
      · rename_i at_ o closed_ outcome_
        cases ending
        rw [outcome_] at outcome
        rw [closed_] at closed
        have known : kind = .unknown → status = 0 := fun unknown =>
          congrArg Prod.fst ((moved.1.lawful.verdict).unknown _ outcome.symm unknown).1
        dsimp only
        rw [Conn.send_eq _ (encodable_exit known)]
        refine moved.queue .greeted _ _ _ rfl ⟨serves.attached, serves.stage, ?_, ?_, outcome.symm, ?_⟩
          serves.sentThrough (Bool.or_true _).symm (serves.stage.append rfl _)
          fun _ => moved.2.served rfl rfl
        · rw [← serves.terminalEndSent]
          exact unsent
        · change Option.isSome (session origin.capacity w.clock.2.trace).terminalClosedAt
          rw [← closed]
          rfl
        · have through := serves.sentThrough
          simp only [Daemon.pumping] at through within
          simp only [Daemon.pumping]
          omega
      · cases ending
  · exact h

theorem Sound.repaintIfDue {d : Daemon} (h : Sound origin .greeted d) :
    Sound origin .greeted d.repaintIfDue := by
  unfold Daemon.repaintIfDue
  split
  · rename_i due
    have served : d.client.isSome := by
      cases client : d.client with
      | none => simp [client] at due
      | some a => rfl
    have repainted := h.repaint (h.2.served rfl served)
    split
    · rename_i d' eq
      rw [eq] at repainted
      refine ⟨repainted.1, { repainted.2 with
        client := fun a ha => ?_, vacant := fun none => ?_, served := fun greeted some => ?_ }⟩
      · obtain ⟨b, client, rfl⟩ := Option.map_eq_some_iff.1 ha
        have serves := repainted.2.client b client
        exact ⟨serves.attached, serves.linked, serves.sentThrough, serves.terminalEndSent,
          serves.stage⟩
      · exact repainted.2.vacant (Option.map_eq_none_iff.1 none)
      · exact repainted.2.served greeted (by simpa [Daemon.view] using some)
    · rename_i d' eq
      rw [eq] at repainted
      exact repainted
  · exact h

theorem Sound.pumpOutput {d : Daemon} (h : Sound origin .greeted d) :
    Sound origin .greeted d.pumpOutput := by
  unfold Daemon.pumpOutput
  split
  · exact h
  · rename_i a client
    have pumping : Sound origin .greeted (d.pumping a d.world) := by
      rw [Daemon.pumping, ← client]
      exact h
    exact Sound.repaintIfDue pumping.replay.sendExit

theorem Sound.writeClient {d : Daemon} (h : Sound origin .greeted d) :
    Sound origin .greeted d.writeClient := by
  unfold Daemon.writeClient
  split
  · exact h
  · rename_i a client
    have serves := h.2.client a client
    obtain ⟨result, tx, pos, w, bytes, flush, quiet, bound, split⟩ :=
      a.conn.flushSome_cases d.world serves.linked.carries.bound
    have wrote := h.wrote client quiet bound split
    rw [flush]
    dsimp only
    split
    · exact wrote.dropClient fun no => by cases no
    · split
      · exact wrote.dropClient fun no => by cases no
      · split
        · rename_i finished
          simp only [Bool.and_eq_true, decide_eq_true_eq] at finished
          obtain ⟨⟨exit, eof⟩, empty⟩ := finished
          refine wrote.dropClient fun _ b hb => ?_
          cases hb
          exact ⟨exit, eof, List.length_eq_zero_iff.1 ((Conn.length_unsent _).trans empty)⟩
        · exact wrote

end Nomux
