import Nomux.Session.Records

/-!
# The output cursor

The frames queued to a connection tell by themselves how far into the output it has come: from the
resume point of its `HelloOk`, on by the length of each `Output`, and to the new base of each `Gap`.
A client that follows them puts the output together again, but for the holes it was told of.
-/

namespace Nomux
open Wire History

def Wire.Frame.advance (cursor : Nat) : Frame → Nat
  | .helloOk ok => ok.resumeFrom.toNat
  | .output _ data => cursor + data.length
  | .gap newBase => newBase.toNat
  | _ => cursor

def cursor (fs : List Frame) : Nat := fs.foldl Frame.advance 0

@[simp] theorem cursor_snoc (fs : List Frame) (f : Frame) :
    cursor (fs ++ [f]) = f.advance (cursor fs) := by simp [cursor]

def Started (fs : List Frame) : Prop := ∃ ok body, fs = .helloOk ok :: body

theorem Link.Greeted.started {l : Link} (h : l.Greeted) : Started l.sent := by
  obtain ⟨ok, body, sent, -⟩ := h
  exact ⟨ok, body, sent⟩

theorem started_snoc {fs : List Frame} {f : Frame} (h : Started (fs ++ [f])) :
    (fs = [] ∧ ∃ ok, f = .helloOk ok) ∨ Started fs := by
  obtain ⟨ok, body, eq⟩ := h
  cases fs with
  | nil => exact .inl ⟨rfl, ok, (List.cons.inj eq).1⟩
  | cons first rest => exact .inr ⟨ok, rest, by rw [(List.cons.inj eq).1]⟩

theorem toNat_ofNat {n : Nat} (small : n < 2 ^ 64) : (UInt64.ofNat n).toNat = n :=
  UInt64.toNat_ofNat_of_lt' small

def Link.Tracked (l : Link) : Prop := Started l.sent → cursor l.sent = l.sentThrough

namespace Session

def Tracked (s : Session) : Prop := s.output.length < 2 ^ 64 → ∀ c, (s.links c).Tracked

theorem Tracked.update {s t : Session} {c : Nat} {change : Link → Link} (h : s.Tracked)
    (output : t.output = s.output) (links : t.links = (s.update c change).links)
    (changed : s.output.length < 2 ^ 64 → (s.links c).Tracked → (change (s.links c)).Tracked) :
    t.Tracked := by
  intro small b
  rw [output] at small
  rw [links]
  by_cases same : b = c
  · rw [same, update_self]
    exact changed small (h small c)
  · rw [update_of_ne s change same]
    exact h small b

theorem Tracked.queued {s : Session} {c : Nat} {f : Frame} (legal : s.Sendable c f)
    (small : s.output.length < 2 ^ 64) (h : (s.links c).Tracked) :
    (s.queued f (s.links c)).Tracked := by
  intro started
  rw [queued_sent] at started ⊢
  rw [cursor_snoc]
  cases f with
  | helloOk ok =>
      obtain ⟨-, -, -, within, resume, -⟩ := legal
      rw [Frame.advance, resume, toNat_ofNat (by omega)]
      rfl
  | output offset data =>
      rw [Frame.advance, h legal.2.1.started]
      rfl
  | gap newBase =>
      obtain ⟨-, -, -, rfl⟩ := legal
      have := s.base_le
      rw [Frame.advance, toNat_ofNat (by omega)]
      rfl
  | error code message =>
      rcases started_snoc started with ⟨-, ok, no⟩ | before
      · cases no
      · exact h before
  | inputAck | exit => exact h legal.2.1.started
  | pong | agentOpen | agentData | agentClose => exact h legal.2.started
  | hello | input | resize | detach | ping => exact legal.elim

theorem Tracked.step {s : Session} {e : Event} (h : s.Tracked) (legal : s.Legal e) :
    (s.step e).Tracked := by
  cases e with
  | output bytes =>
      intro small c
      refine h ?_ c
      simp only [Session.step, List.length_append] at small
      omega
  | sent c f => exact h.update rfl rfl (Tracked.queued legal)
  | resumed c n =>
      refine h.update (c := c) rfl rfl fun _ _ started => ?_
      obtain ⟨ok, body, no⟩ := started
      cases legal.2.1.symm.trans no
  | endOfFile c | wrote c bytes | left c why =>
      exact h.update (c := c) rfl rfl fun _ tracked => tracked
  | _ => exact h

end Session

theorem Lawful.tracked {capacity : Nat} {t : List Event} (h : Lawful capacity t) :
    (session capacity t).Tracked :=
  h.invariant (fun _ c started => by obtain ⟨ok, body, no⟩ := started; cases no)
    fun _ _ => Session.Tracked.step

theorem Lawful.cursor_eq {capacity : Nat} {t : List Event} {c : Nat} (h : Lawful capacity t)
    (small : (outputOf t).length < 2 ^ 64) (started : Started (sentTo c t)) :
    cursor (sentTo c t) = ((session capacity t).links c).sentThrough := by
  rw [← session_sent capacity] at started ⊢
  rw [← (session_records capacity t).output] at small
  exact h.tracked small c started

def ringOf (requested : Nat) (t : List Event) : Ring :=
  t.foldl (fun ring e => match e with
    | .output bytes => ring.push bytes
    | _ => ring) { buf := [], capacity := max requested 1, base := 0 }

theorem ringOf_holds (requested : Nat) (t : List Event) :
    (ringOf requested t).Holds (outputOf t) ∧ (ringOf requested t).capacity = max requested 1 := by
  induction t using List.reverseRecOn with
  | nil => exact ⟨Ring.holds_tryNew (show Ring.tryNew true requested = some _ from rfl), rfl⟩
  | append_singleton t e ih =>
      simp only [ringOf, List.foldl_append, List.foldl_cons, List.foldl_nil] at ih ⊢
      rw [outputOf_append]
      cases e with
      | output bytes => exact ⟨by simpa [outputOf] using ih.1.push bytes, ih.2⟩
      | _ => exact ⟨by simpa [outputOf] using ih.1, ih.2⟩

/-- A frame goes on from where the frames before it left the cursor. -/
def Wire.Frame.Continues (ring : Ring) (output : Bytes) (before : List Frame) : Frame → Prop
  | .helloOk ok =>
      before = [] ∧ ring.base ≤ ok.resumeFrom.toNat ∧ ok.resumeFrom.toNat ≤ ring.end
  | .output offset data =>
      Started before ∧ offset.toNat = cursor before ∧
        cursor before + data.length ≤ output.length ∧ data = slice output (cursor before) data.length
  | .gap newBase => Started before ∧ cursor before < newBase.toNat ∧ newBase.toNat = ring.base
  | _ => True

theorem Lawful.continues {requested : Nat} {t before after : List Event} {c : Nat} {f : Frame}
    (h : Lawful (max requested 1) t) (small : (outputOf t).length < 2 ^ 64)
    (split : t = before ++ .sent c f :: after) :
    f.Continues (ringOf requested before) (outputOf before) (sentTo c before) := by
  subst split
  have earlier : Lawful (max requested 1) before := h.of_append
  have short : (outputOf before).length < 2 ^ 64 :=
    lt_of_le_of_lt (prefix_outputOf (List.prefix_append ..)).length_le small
  have legal := h.moment
  have output := (session_records (max requested 1) before).output
  have sent := session_sent (max requested 1) before c
  obtain ⟨holds, capacity⟩ := ringOf_holds requested before
  have base : (ringOf requested before).base = (session (max requested 1) before).base := by
    rw [holds.base_eq, capacity, ← output, Session.base, session_capacity]
  have base_le := (session (max requested 1) before).base_le
  rw [output] at base_le
  cases f with
  | helloOk ok =>
      obtain ⟨-, none, low, high, resume, -⟩ := legal
      rw [output] at high
      rw [sent] at none
      rw [Frame.Continues, resume, toNat_ofNat (by omega), holds.end_eq, base]
      exact ⟨none, low, high⟩
  | output offset data =>
      obtain ⟨-, greeted, place, -, front⟩ := legal
      have started := greeted.started
      rw [sent] at started
      have here := earlier.cursor_eq short started
      rw [← here] at place front
      rw [output] at front
      have within := earlier.transcript.within c
      rw [← here, output] at within
      have room := front.length_le
      rw [List.length_drop] at room
      obtain ⟨rest, split⟩ := front
      refine ⟨started, ?_, by omega, (prefix_slice split.symm rfl).symm⟩
      rw [place, toNat_ofNat (by omega)]
  | gap newBase =>
      obtain ⟨-, greeted, behind, moved⟩ := legal
      have started := greeted.started
      rw [sent] at started
      rw [← earlier.cursor_eq short started] at behind
      rw [Frame.Continues, moved, toNat_ofNat (by omega), base]
      exact ⟨started, behind, rfl⟩
  | _ => trivial

end Nomux
