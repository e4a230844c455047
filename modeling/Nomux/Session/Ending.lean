import Nomux.Session.Cursor
import Nomux.Session.Applied

/-!
# How a session ends

The `Exit` of a connection, the outcome it carries, and what had happened before either.
-/

namespace Nomux
open Wire History

def streamOf (fs : List Frame) : Bytes :=
  if fs = [] then [] else serverPreamble ++ fs.flatMap Frame.wire

/-! ## Where the session's facts come from -/

/-- Byte `i` of the output has been queued to a connection, or a `Gap` that went on from before it said
that it was gone. -/
def Covered (requested : Nat) (t : List Event) (c i : Nat) : Prop :=
  (∃ before place data after, t = before ++ .sent c (.output (UInt64.ofNat place) data) :: after ∧
    place ≤ i ∧ i < place + data.length ∧ data = slice (outputOf before) place data.length) ∨
  ∃ before after,
    t = before ++ .sent c (.gap (UInt64.ofNat (ringOf requested before).base)) :: after ∧
      i < (ringOf requested before).base ∧
      ((outputOf before).length < 2 ^ 64 → cursor (sentTo c before) ≤ i)

theorem Covered.snoc {requested c i : Nat} {t : List Event} (h : Covered requested t c i)
    (e : Event) : Covered requested (t ++ [e]) c i := by
  rcases h with ⟨before, place, data, after, rfl, rest⟩ | ⟨before, after, rfl, rest⟩
  · exact .inl ⟨before, place, data, after ++ [e], by simp, rest⟩
  · exact .inr ⟨before, after ++ [e], by simp, rest⟩

/-- A greeted connection has been told all there is between its resume point and its cursor. -/
def Covers (requested : Nat) (t : List Event) (c : Nat) : Prop :=
  Started (sentTo c t) → ∃ ok resume, .helloOk ok ∈ sentTo c t ∧
    ok.resumeFrom = UInt64.ofNat resume ∧
    ∀ i, resume ≤ i → i < ((session (max requested 1) t).links c).sentThrough →
      Covered requested t c i

theorem ringOf_base (requested : Nat) (t : List Event) :
    (ringOf requested t).base = (session (max requested 1) t).base := by
  obtain ⟨holds, capacity⟩ := ringOf_holds requested t
  rw [holds.base_eq, capacity, ← (session_records (max requested 1) t).output, Session.base,
    session_capacity]

theorem Covers.idle {requested c : Nat} {t : List Event} {e : Event} (h : Covers requested t c)
    (sent : sentTo c [e] = [])
    (through : Started (sentTo c t) → ((session (max requested 1) (t ++ [e])).links c).sentThrough =
      ((session (max requested 1) t).links c).sentThrough) : Covers requested (t ++ [e]) c := by
  intro started
  rw [sentTo_snoc, sent, List.append_nil] at started ⊢
  obtain ⟨ok, resume, inside, place, told⟩ := h started
  rw [through started]
  exact ⟨ok, resume, inside, place, fun i low high => (told i low high).snoc e⟩

theorem Covers.sent {requested c : Nat} {t : List Event} {f : Frame} (h : Covers requested t c)
    (lawful : Lawful (max requested 1) t) (legal : (session (max requested 1) t).Sendable c f) :
    Covers requested (t ++ [.sent c f]) c := by
  intro started
  have through : ((session (max requested 1) (t ++ [.sent c f])).links c).sentThrough =
      ((session (max requested 1) t).queued f
        ((session (max requested 1) t).links c)).sentThrough := by
    rw [session_snoc, Session.step, Session.update_self]
  rw [sentTo_snoc, sentTo_sent] at started ⊢
  rw [through]
  -- what was told before stays told; only an `Output` or a `Gap` has more to tell
  have goesOn : Started (sentTo c t) →
      (∀ i, ((session (max requested 1) t).links c).sentThrough ≤ i →
        i < ((session (max requested 1) t).queued f
          ((session (max requested 1) t).links c)).sentThrough →
        Covered requested (t ++ [.sent c f]) c i) →
      ∃ ok resume, .helloOk ok ∈ sentTo c t ++ [f] ∧ ok.resumeFrom = UInt64.ofNat resume ∧
        ∀ i, resume ≤ i → i < ((session (max requested 1) t).queued f
          ((session (max requested 1) t).links c)).sentThrough →
          Covered requested (t ++ [.sent c f]) c i := by
    intro already more
    obtain ⟨ok, resume, inside, place, told⟩ := h already
    refine ⟨ok, resume, List.mem_append_left _ inside, place, fun i low high => ?_⟩
    by_cases old : i < ((session (max requested 1) t).links c).sentThrough
    · exact (told i low old).snoc _
    · exact more i (Nat.not_lt.1 old) high
  have front : Started (sentTo c t) ∨ sentTo c t = [] ∧ ∃ ok, f = .helloOk ok :=
    (started_snoc started).symm
  cases f with
  | helloOk ok =>
      obtain ⟨-, -, -, -, resume, -⟩ := legal
      exact ⟨ok, _, by simp, resume, fun i low high => absurd high (Nat.not_lt.2 low)⟩
  | output offset data =>
      obtain ⟨-, greeted, rfl, -, rest, split⟩ := legal
      have already := greeted.started
      rw [session_sent] at already
      refine goesOn already fun i low high => .inl ⟨t, _, data, [], rfl, low, high, ?_⟩
      rw [← (session_records (max requested 1) t).output]
      exact (prefix_slice split.symm rfl).symm
  | gap newBase =>
      obtain ⟨-, greeted, -, rfl⟩ := legal
      have already := greeted.started
      rw [session_sent] at already
      refine goesOn already fun i low high => .inr ⟨t, [], ?_, ?_, fun small => ?_⟩
      · rw [ringOf_base]
      · rw [ringOf_base]
        exact high
      · rw [lawful.cursor_eq small already]
        exact low
  | _ =>
      rcases front with already | ⟨-, ok, no⟩
      · exact goesOn already fun i low high => absurd high (Nat.not_lt.2 low)
      · cases no

theorem session_stream (capacity : Nat) (t : List Event) (c : Nat) :
    ((session capacity t).links c).stream = streamOf (sentTo c t) := by
  rw [Link.stream, streamOf, session_sent]

theorem Session.output_step {s : Session} {e : Event} (legal : s.Legal e)
    (closed : s.terminalClosedAt.isSome) :
    (s.step e).output = s.output ∧ (s.step e).terminalClosedAt.isSome := by
  cases e with
  | output bytes =>
      have running : s.terminalClosedAt = none := legal
      simp [running] at closed
  | terminalClosed now => exact ⟨rfl, rfl⟩
  | _ => exact ⟨rfl, closed⟩

theorem Lawful.silent {capacity : Nat} {before after : List Event}
    (h : Lawful capacity (before ++ after)) (closed : Closed before) : outputOf after = [] := by
  rw [closed_iff capacity] at closed
  have same := (h.persists
    (fun s => s.output = (session capacity before).output ∧ s.terminalClosedAt.isSome)
    (fun s e legal same => by
      obtain ⟨kept, still⟩ := Session.output_step legal same.2
      exact ⟨kept.trans same.1, still⟩) ⟨rfl, closed⟩).1
  rw [(session_records capacity _).output, (session_records capacity _).output, outputOf_append]
    at same
  simpa using same

/-- What an `Exit` finds. -/
structure Session.Ends (s : Session) (c : Nat) (o : Int32 × ExitKind) : Prop where
  greeted : (s.links c).Greeted
  first : (s.links c).exitSent = false
  closed : s.terminalClosedAt.isSome
  outcome : s.outcome = some o
  whole : (s.links c).sentThrough = s.output.length

theorem Lawful.ends {capacity : Nat} {before after : List Event} {c : Nat} {status : Int32}
    {kind : ExitKind} {secs : UInt32}
    (h : Lawful capacity (before ++ .sent c (.exit status kind secs) :: after)) :
    (session capacity before).Ends c (status, kind) := by
  obtain ⟨-, greeted, first, closed, outcome, whole⟩ := h.moment
  exact ⟨greeted, first, closed, outcome, whole⟩

end Nomux
