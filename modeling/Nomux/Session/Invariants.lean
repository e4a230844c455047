import Nomux.Session.Basic

/-!
# Invariants of a session

What every lawful trace keeps: which connections there are, how far each has been sent the output,
and where the input is.
-/

namespace Nomux
open Wire
namespace Session

@[simp] theorem update_self (s : Session) (c : Nat) (change : Link → Link) :
    (s.update c change).links c = change (s.links c) := by simp [update]

theorem update_of_ne (s : Session) {c b : Nat} (change : Link → Link) (ne : b ≠ c) :
    (s.update c change).links b = s.links b := by simp [update, ne]

@[simp] theorem update_id (s : Session) (c : Nat) : s.update c id = s := by simp [update]

theorem update_update (s : Session) (c : Nat) (f g : Link → Link) :
    (s.update c f).update c g = s.update c (g ∘ f) := by simp [update]

@[simp] theorem queued_sent (s : Session) (f : Frame) (l : Link) :
    (s.queued f l).sent = l.sent ++ [f] := rfl
@[simp] theorem queued_eof (s : Session) (f : Frame) (l : Link) : (s.queued f l).eof = l.eof := rfl
@[simp] theorem queued_exitSent (s : Session) (f : Frame) (l : Link) :
    (s.queued f l).exitSent = (l.exitSent || f.isExit) := by simp [Link.exitSent]

theorem Sendable.open {s : Session} {c : Nat} {f : Frame} (h : s.Sendable c f) : s.Open c := by
  cases f with
  | error => exact h.1
  | hello | input | resize | detach | ping => exact h.elim
  | pong | agentOpen | agentData | agentClose => exact .inr h.1
  | helloOk | output | gap | inputAck | exit => exact .inr h.1

/-! ## Connections -/

structure Identified (s : Session) : Prop where
  fresh : ∀ c, s.accepted ≤ c → s.links c = {}
  known : ∀ c, s.Open c → c < s.accepted
  apart : ∀ c, s.pending = some c → s.attached ≠ some c
  live : ∀ c, s.Open c → (s.links c).ended = false

theorem identified_start (capacity : Nat) : ({ capacity } : Session).Identified where
  fresh _ _ := rfl
  known c h := by simp [Open] at h
  apart c h := by simp at h
  live c h := by simp [Open] at h

theorem Identified.update {s : Session} (h : s.Identified) {c : Nat} (isOpen : s.Open c)
    (change : Link → Link) (live : (change (s.links c)).ended = (s.links c).ended) :
    (s.update c change).Identified where
  fresh b le := by
    have known : c < s.accepted := h.known c isOpen
    have later : s.accepted ≤ b := le
    rw [update_of_ne s change (by omega)]
    exact h.fresh b le
  known := h.known
  apart := h.apart
  live b hb := by
    by_cases same : b = c
    · rw [same, update_self, live]
      exact h.live c isOpen
    · rw [update_of_ne s change same]
      exact h.live b hb

theorem Identified.step {s : Session} {e : Event} (h : s.Identified) (legal : s.Legal e) :
    (s.step e).Identified := by
  cases e with
  | accepted c =>
      obtain ⟨rfl, free⟩ := legal
      refine ⟨fun b le => h.fresh b (Nat.le_of_succ_le le), ?_, ?_, ?_⟩
      · rintro b (new | old)
        · cases new
          exact Nat.lt_succ_self _
        · exact Nat.lt_succ_of_lt (h.known b (.inr old))
      · intro b new old
        cases new
        exact Nat.lt_irrefl _ (h.known _ (.inr old))
      · rintro b (new | old)
        · cases new
          exact congrArg Link.ended (h.fresh _ (Nat.le_refl _))
        · exact h.live b (.inr old)
  | attached c hello =>
      obtain ⟨waiting, free, -⟩ := legal
      refine ⟨h.fresh, ?_, fun b no => (by cases no), ?_⟩
      · rintro b (no | new)
        · cases no
        · cases new
          exact h.known c (.inl waiting)
      · rintro b (no | new)
        · cases no
        · cases new
          exact h.live c (.inl waiting)
  | left c why =>
      have still : ∀ b, (s.step (.left c why)).Open b → b ≠ c ∧ s.Open b := by
        rintro b (waiting | client)
        · simp only [Session.step] at waiting
          split at waiting
          · cases waiting
          · exact ⟨fun same => by simp_all, .inl waiting⟩
        · simp only [Session.step] at client
          split at client
          · cases client
          · exact ⟨fun same => by simp_all, .inr client⟩
      refine ⟨?_, fun b hb => h.known b (still b hb).2, ?_, ?_⟩
      · intro b le
        have known := h.known c legal.1
        have later : s.accepted ≤ b := le
        change (s.update c Link.over).links b = {}
        rw [update_of_ne s _ (by omega)]
        exact h.fresh b le
      · intro b waiting client
        simp only [Session.step] at waiting client
        split at waiting
        · cases waiting
        · split at client
          · cases client
          · exact h.apart b waiting client
      · intro b hb
        obtain ⟨ne, old⟩ := still b hb
        change ((s.update c Link.over).links b).ended = false
        rw [update_of_ne s _ ne]
        exact h.live b old
  | endOfFile c => exact h.update legal Link.atEof rfl
  | resumed c n => exact h.update (.inr legal.1) (Link.resumed n) rfl
  | sent c f => exact h.update (Sendable.open legal) (s.queued f) rfl
  | wrote c bytes => exact h.update legal.1 (Link.took bytes) rfl
  | _ => exact ⟨h.fresh, h.known, h.apart, h.live⟩

/-! ## Output -/

structure Transcript (s : Session) : Prop where
  within : ∀ c, (s.links c).sentThrough ≤ s.output.length
  complete : ∀ c, (s.links c).exitSent →
    s.terminalClosedAt.isSome ∧ (s.links c).sentThrough = s.output.length

theorem base_le (s : Session) : s.base ≤ s.output.length := History.base_le ..

theorem resumeFrom_bounds (s : Session) (outOffset : UInt64) :
    s.base ≤ s.resumeFrom outOffset ∧ s.resumeFrom outOffset ≤ s.output.length := by
  have := s.base_le
  unfold resumeFrom
  split <;> omega

theorem Transcript.update {s : Session} (h : s.Transcript) {c : Nat} (change : Link → Link)
    (within : (change (s.links c)).sentThrough ≤ s.output.length)
    (complete : (change (s.links c)).exitSent →
      s.terminalClosedAt.isSome ∧ (change (s.links c)).sentThrough = s.output.length) :
    (s.update c change).Transcript where
  within b := by
    by_cases same : b = c
    · rw [same, update_self]
      exact within
    · rw [update_of_ne s change same]
      exact h.within b
  complete b := by
    by_cases same : b = c
    · rw [same, update_self]
      exact complete
    · rw [update_of_ne s change same]
      exact h.complete b

theorem Transcript.queued {s : Session} (h : s.Transcript) {c : Nat} {f : Frame}
    (legal : s.Sendable c f) :
    (s.queued f (s.links c)).sentThrough ≤ s.output.length ∧
      ((s.queued f (s.links c)).exitSent → s.terminalClosedAt.isSome ∧
        (s.queued f (s.links c)).sentThrough = s.output.length) := by
  have within := h.within c
  have complete := h.complete c
  rw [queued_exitSent]
  cases f with
  | output offset data =>
      obtain ⟨-, -, -, nonempty, front⟩ := legal
      have room := front.length_le
      have pos := List.length_pos_of_ne_nil nonempty
      rw [List.length_drop] at room
      refine ⟨by simp only [Session.queued]; omega, fun sent => ?_⟩
      have done := (complete (by simpa [Frame.isExit] using sent)).2
      omega
  | gap newBase =>
      obtain ⟨-, -, behind, -⟩ := legal
      have le := s.base_le
      refine ⟨le, fun sent => ?_⟩
      have done := (complete (by simpa [Frame.isExit] using sent)).2
      omega
  | exit status kind secs =>
      obtain ⟨-, -, -, closed, -, whole⟩ := legal
      exact ⟨within, fun _ => ⟨closed, whole⟩⟩
  | _ => exact ⟨within, fun sent => complete (by simpa [Frame.isExit] using sent)⟩

theorem Transcript.step {s : Session} {e : Event} (h : s.Transcript) (legal : s.Legal e) :
    (s.step e).Transcript := by
  cases e with
  | output bytes =>
      have running : s.terminalClosedAt = none := legal
      refine ⟨fun c => ?_, fun c sent => ?_⟩
      · change _ ≤ (s.output ++ bytes).length
        rw [List.length_append]
        exact Nat.le_add_right_of_le (h.within c)
      · have closed := (h.complete c sent).1
        rw [running] at closed
        cases closed
  | terminalClosed now => exact ⟨h.within, fun c sent => ⟨rfl, (h.complete c sent).2⟩⟩
  | resumed c n =>
      obtain ⟨-, none, hello, -, rfl⟩ := legal
      refine h.update (c := c) (Link.resumed _) (s.resumeFrom_bounds _).2 fun sent => ?_
      simp [Link.exitSent, Link.resumed, none] at sent
  | sent c f => exact h.update (s.queued f) (h.queued legal).1 (h.queued legal).2
  | endOfFile c => exact h.update (c := c) Link.atEof (h.within c) (h.complete c)
  | wrote c bytes => exact h.update (c := c) (Link.took bytes) (h.within c) (h.complete c)
  | left c why =>
      have ended := h.update (c := c) Link.over (h.within c) (h.complete c)
      exact ⟨ended.within, ended.complete⟩
  | _ => exact ⟨h.within, h.complete⟩

theorem transcript_start (capacity : Nat) : ({ capacity } : Session).Transcript where
  within _ := Nat.le_refl _
  complete c sent := by simp [Link.exitSent] at sent

/-! ## Input -/

structure Input (s : Session) : Prop where
  dropped : s.terminalClosedAt.isSome → s.pendingInput = []
  carried : s.writeFailed = false → s.written <+: s.enqueued
  kept : s.writeFailed = false → s.terminalClosedAt = none → s.written ++ s.pendingInput = s.enqueued

theorem input_start (capacity : Nat) : ({ capacity } : Session).Input := by
  constructor <;> simp

theorem Input.append {s t : Session} (h : s.Input) (more : Bytes)
    (closed : s.terminalClosedAt.isSome → more = []) (sameClosed : t.terminalClosedAt = s.terminalClosedAt)
    (sameFailed : t.writeFailed = s.writeFailed) (sameWritten : t.written = s.written)
    (enqueued : t.enqueued = s.enqueued ++ more) (pending : t.pendingInput = s.pendingInput ++ more) :
    t.Input where
  dropped now := by
    rw [sameClosed] at now
    rw [pending, h.dropped now, closed now]
    rfl
  carried sound := by
    rw [sameFailed] at sound
    rw [sameWritten, enqueued]
    exact (h.carried sound).trans (List.prefix_append ..)
  kept sound running := by
    rw [sameFailed] at sound
    rw [sameClosed] at running
    rw [sameWritten, enqueued, pending, ← List.append_assoc, h.kept sound running]

theorem Input.step {s : Session} {e : Event} (h : s.Input) (legal : s.Legal e) :
    (s.step e).Input := by
  cases e with
  | applied offset data kept =>
      obtain ⟨-, -, -, rfl⟩ := legal
      refine h.append _ ?_ rfl rfl rfl rfl rfl
      intro closed
      rw [Option.isNone_eq_false_iff.2 closed]
      rfl
  | repaintQueued =>
      have running : s.terminalClosedAt = none := legal
      exact h.append [0x0c] (by simp [running]) rfl rfl rfl rfl rfl
  | terminalClosed now =>
      exact ⟨fun _ => rfl, h.carried, fun _ running => by cases running⟩
  | masterWrote bytes =>
      obtain ⟨rest, split⟩ : bytes <+: s.pendingInput := legal
      have left : s.pendingInput.drop bytes.length = rest := by rw [← split, List.drop_left]
      refine ⟨?_, ?_, ?_⟩
      · intro closed
        change s.pendingInput.drop _ = []
        rw [h.dropped closed, List.drop_nil]
      · intro sound
        change s.written ++ bytes <+: s.enqueued
        cases running : s.terminalClosedAt with
        | none =>
            rw [← h.kept sound running, ← split, ← List.append_assoc]
            exact List.prefix_append ..
        | some now =>
            rw [h.dropped (by simp [running])] at split
            rw [(List.append_eq_nil_iff.1 split).1, List.append_nil]
            exact h.carried sound
      · intro sound running
        change s.written ++ bytes ++ s.pendingInput.drop bytes.length = s.enqueued
        rw [left, List.append_assoc, split]
        exact h.kept sound running
  | masterFailed => exact ⟨fun _ => rfl, fun sound => (by cases sound), fun sound => by cases sound⟩
  | _ => exact ⟨h.dropped, h.carried, h.kept⟩

/-! ## The outcome -/

/-- An unknown outcome is only ever settled on once the terminal has closed. -/
structure Verdict (s : Session) : Prop where
  unknown : ∀ o, s.outcome = some o → o.2 = .unknown →
    o = (0, .unknown) ∧ s.terminalClosedAt.isSome

theorem outcome_ne_unknown (status : WaitStatus) : status.outcome.2 ≠ .unknown := by
  unfold WaitStatus.outcome
  split <;> simp

theorem verdict_start (capacity : Nat) : ({ capacity } : Session).Verdict where
  unknown o no := by cases no

theorem Verdict.step {s : Session} {e : Event} (h : s.Verdict) (legal : s.Legal e) :
    (s.step e).Verdict := by
  cases e with
  | outcome o settled =>
      refine ⟨fun p same unknown => ?_⟩
      cases same
      cases settled with
      | reported =>
          obtain ⟨-, status, -, rfl⟩ := legal
          exact (outcome_ne_unknown status unknown).elim
      | waitFailed => exact ⟨legal.2.1, legal.2.2.1⟩
      | graceElapsed now =>
          obtain ⟨-, same, closedAt, closed, -⟩ := legal
          exact ⟨same, Option.isSome_iff_exists.2 ⟨closedAt, closed⟩⟩
  | terminalClosed now => exact ⟨fun o ho unknown => ⟨(h.unknown o ho unknown).1, rfl⟩⟩
  | _ => exact ⟨h.unknown⟩

end Session

theorem Lawful.verdict {capacity : Nat} {t : List Event} (h : Lawful capacity t) :
    (session capacity t).Verdict :=
  h.invariant (Session.verdict_start capacity) fun _ _ => Session.Verdict.step

theorem Lawful.identified {capacity : Nat} {t : List Event} (h : Lawful capacity t) :
    (session capacity t).Identified :=
  h.invariant (Session.identified_start capacity) fun _ _ => Session.Identified.step

theorem Lawful.transcript {capacity : Nat} {t : List Event} (h : Lawful capacity t) :
    (session capacity t).Transcript :=
  h.invariant (Session.transcript_start capacity) fun _ _ => Session.Transcript.step

theorem Lawful.input {capacity : Nat} {t : List Event} (h : Lawful capacity t) :
    (session capacity t).Input :=
  h.invariant (Session.input_start capacity) fun _ _ => Session.Input.step

end Nomux
