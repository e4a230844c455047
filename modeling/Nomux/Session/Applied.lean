import Nomux.Session.Records

/-!
# Input is applied once

Where every `Input` handled says the truth about one stream of bytes, what has been appended to the
terminal's queue is that stream up to `in_applied`, whatever the frames overlapped or repeated.
-/

namespace Nomux
open Wire History

/-- An `Input` that carries the bytes of `stream` at its offset. -/
def Wire.Frame.TruthfulAbout (stream : Bytes) : Frame → Prop
  | .input offset data =>
      offset.toNat + data.length ≤ stream.length ∧ data = slice stream offset.toNat data.length
  | _ => True

def Honest (stream : Bytes) (t : List Event) : Prop :=
  ∀ c f, .handled c f ∈ t → f.TruthfulAbout stream

def Closed (t : List Event) : Prop := ∃ now, .terminalClosed now ∈ t

theorem closed_iff (capacity : Nat) (t : List Event) :
    Closed t ↔ (session capacity t).terminalClosedAt.isSome := by
  rw [(session_records capacity t).closed, List.any_eq_true]
  constructor
  · rintro ⟨now, inside⟩
    exact ⟨_, inside, rfl⟩
  · rintro ⟨e, inside, closes⟩
    cases e with
    | terminalClosed now => exact ⟨now, inside⟩
    | _ => cases closes

def MasterFailed (t : List Event) : Prop := .masterFailed ∈ t

theorem masterFailed_iff (capacity : Nat) (t : List Event) :
    MasterFailed t ↔ (session capacity t).writeFailed := by
  rw [(session_records capacity t).writeFailed, List.any_eq_true]
  constructor
  · intro inside
    exact ⟨_, inside, rfl⟩
  · rintro ⟨e, inside, fails⟩
    cases e with
    | masterFailed => exact inside
    | _ => cases fails

theorem saturatingAdd_le (a b : Nat) : saturatingAdd a b < 2 ^ 64 := by
  unfold saturatingAdd
  omega

theorem saturatingAdd_eq {a b : Nat} (small : a + b < 2 ^ 64) : saturatingAdd a b = a + b := by
  unfold saturatingAdd
  omega

namespace Session

/-- The session has taken `stream` in, up to `in_applied` and no further. -/
structure Exact (stream : Bytes) (s : Session) : Prop where
  handling : ∀ f, s.handling = some f → f.TruthfulAbout stream
  within : s.inApplied ≤ stream.length
  appended : s.terminalClosedAt = none → s.appended = stream.take s.inApplied

theorem Exact.step {stream : Bytes} {s : Session} {e : Event} (h : s.Exact stream)
    (small : stream.length < 2 ^ 64) (legal : s.Legal e)
    (honest : ∀ c f, e = .handled c f → f.TruthfulAbout stream) : (s.step e).Exact stream := by
  cases e with
  | handled c f => exact ⟨fun g same => by cases same; exact honest c f rfl, h.within, h.appended⟩
  | applied offset data kept =>
      obtain ⟨handling, behind, ahead, rfl⟩ := legal
      obtain ⟨inside, same⟩ := h.handling _ handling
      have reach := saturatingAdd_eq (a := offset.toNat) (b := data.length) (by omega)
      rw [reach] at ahead
      refine ⟨h.handling, ?_, fun running => ?_⟩
      · change saturatingAdd _ _ ≤ _
        omega
      · change s.appended ++ _ = stream.take (saturatingAdd _ _)
        have running : s.terminalClosedAt = none := running
        obtain ⟨skipped, hskipped⟩ := Nat.exists_eq_add_of_le behind
        rw [h.appended running, running, Option.isNone_none, if_pos rfl, reach, same,
          length_slice_of_le inside]
        have rest : offset.toNat + data.length = s.inApplied + (data.length - skipped) := by omega
        rw [rest, take_succ_slice, hskipped, Nat.add_sub_cancel_left, slice, slice, List.drop_take,
          List.drop_drop]
  | terminalClosed now => exact ⟨h.handling, h.within, fun no => by cases no⟩
  | _ => exact ⟨h.handling, h.within, h.appended⟩

theorem inApplied_le_step {s : Session} {e : Event} (legal : s.Legal e) :
    s.inApplied ≤ (s.step e).inApplied := by
  cases e with
  | applied offset data kept => exact legal.2.2.1.le
  | _ => exact Nat.le_refl _

theorem appended_step {s : Session} {e : Event} (legal : s.Legal e)
    (closed : s.terminalClosedAt.isSome) :
    (s.step e).appended = s.appended ∧ (s.step e).terminalClosedAt.isSome := by
  cases e with
  | applied offset data kept =>
      obtain ⟨-, -, -, rfl⟩ := legal
      refine ⟨?_, closed⟩
      change s.appended ++ _ = s.appended
      rw [Option.isNone_eq_false_iff.2 closed]
      simp
  | terminalClosed now => exact ⟨rfl, rfl⟩
  | _ => exact ⟨rfl, closed⟩

end Session

theorem Lawful.exact {capacity : Nat} {stream : Bytes} {t : List Event} (h : Lawful capacity t)
    (small : stream.length < 2 ^ 64) (honest : Honest stream t) :
    (session capacity t).Exact stream := by
  induction h using Lawful.induction with
  | nil => exact ⟨fun f no => (by cases no), Nat.zero_le _, fun _ => rfl⟩
  | snoc t e before legal ih =>
      rw [session_snoc]
      refine (ih fun c f inside => honest c f (by simp [inside])).step small legal ?_
      rintro c f rfl
      exact honest c f (by simp)

structure AppliedOnce (stream : Bytes) (t : List Event) : Prop where
  grows : ∀ before after, t = before ++ after → inAppliedOf before ≤ inAppliedOf t
  exact : ∀ before after, t = before ++ after → ¬ Closed before →
    appendedOf before = stream.take (inAppliedOf before)
  frozen : ∀ before after, t = before ++ after → Closed before → appendedOf t = appendedOf before
  advances : ∀ before offset data kept after, t = before ++ .applied offset data kept :: after →
    inAppliedOf before < inAppliedOf (before ++ [.applied offset data kept]) ∧
      (Closed before → kept = [])
  written : ¬ MasterFailed t → writtenOf t <+: enqueuedOf t
  acked : ∀ before c through after, t = before ++ .sent c (.inputAck through) :: after →
    through.toNat = inAppliedOf before
  greeted : ∀ before c ok after, t = before ++ .sent c (.helloOk ok) :: after →
    ok.inApplied.toNat = inAppliedOf before

theorem inAppliedOf_lt (t : List Event) : inAppliedOf t < 2 ^ 64 := by
  induction t using List.reverseRecOn with
  | nil => decide
  | append_singleton t e ih =>
      rw [inAppliedOf_snoc]
      split
      · exact saturatingAdd_le ..
      · exact ih

theorem Lawful.inAppliedOf_le {capacity : Nat} {before after : List Event}
    (h : Lawful capacity (before ++ after)) : inAppliedOf before ≤ inAppliedOf (before ++ after) := by
  rw [← (session_records capacity _).inApplied, ← (session_records capacity _).inApplied]
  exact h.persists (fun s => (session capacity before).inApplied ≤ s.inApplied)
    (fun s e legal le => le.trans (Session.inApplied_le_step legal)) (Nat.le_refl _)

theorem Lawful.appliedOnce {capacity : Nat} {stream : Bytes} {t : List Event}
    (h : Lawful capacity t) (small : stream.length < 2 ^ 64) (honest : Honest stream t) :
    AppliedOnce stream t where
  grows before after split := by
    subst split
    exact h.inAppliedOf_le
  exact before after split running := by
    subst split
    have exact := Lawful.exact h.of_append small fun c f inside =>
      honest c f (List.mem_append_left _ inside)
    rw [closed_iff capacity, Bool.not_eq_true, Option.isSome_eq_false_iff, Option.isNone_iff_eq_none]
      at running
    rw [← (session_records capacity _).appended, ← (session_records capacity _).inApplied]
    exact exact.appended running
  frozen before after split closed := by
    subst split
    rw [closed_iff capacity] at closed
    rw [← (session_records capacity _).appended, ← (session_records capacity _).appended]
    refine (h.persists
      (fun s => s.appended = (session capacity before).appended ∧ s.terminalClosedAt.isSome)
      (fun s e legal same => ?_) ⟨rfl, closed⟩).1
    obtain ⟨kept, still⟩ := Session.appended_step legal same.2
    exact ⟨kept.trans same.1, still⟩
  advances before offset data kept after split := by
    subst split
    obtain ⟨-, -, ahead, rfl⟩ := h.moment
    rw [inAppliedOf_snoc]
    refine ⟨(session_records capacity before).inApplied ▸ ahead, fun closed => ?_⟩
    rw [closed_iff capacity] at closed
    rw [Option.isNone_eq_false_iff.2 closed]
    rfl
  written sound := by
    rw [masterFailed_iff capacity, Bool.not_eq_true] at sound
    rw [← (session_records capacity t).written, ← (session_records capacity t).enqueued]
    exact h.input.carried sound
  acked before c through after split := by
    subst split
    obtain ⟨-, -, rfl⟩ := h.moment
    rw [(session_records capacity before).inApplied]
    exact UInt64.toNat_ofNat_of_lt' (inAppliedOf_lt before)
  greeted before c ok after split := by
    subst split
    obtain ⟨-, -, -, -, -, carried⟩ := h.moment
    rw [carried, (session_records capacity before).inApplied]
    exact UInt64.toNat_ofNat_of_lt' (inAppliedOf_lt before)

end Nomux
