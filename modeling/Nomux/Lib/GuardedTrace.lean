import Mathlib.Tactic

/-!
# Traces of guarded events

A state that events change, and for each state the events that are legal in it. A trace is lawful
where every event was legal at its moment. Invariants go by induction on lawful traces, and what a
lawful trace says at a moment is what the guard of that event says.
-/

structure Guarded (σ ε : Type) where
  init : σ
  step : σ → ε → σ
  Legal : σ → ε → Prop

namespace Guarded

variable {σ ε : Type} (G : Guarded σ ε)

def state (t : List ε) : σ := t.foldl G.step G.init

@[simp] theorem state_snoc (t : List ε) (e : ε) : G.state (t ++ [e]) = G.step (G.state t) e := by
  simp [state]

inductive Lawful : List ε → Prop
  | nil : Lawful []
  | snoc {t : List ε} {e : ε} (before : Lawful t) (legal : G.Legal (G.state t) e) : Lawful (t ++ [e])

/-- The last event of a kind without which something does not come to hold. -/
theorem latest {P : σ → Prop} {E : ε → Prop} (frame : ∀ s e, ¬ E e → P (G.step s e) → P s)
    (start : ¬ P G.init) {t : List ε} (holds : P (G.state t)) :
    ∃ before e after, t = before ++ e :: after ∧ E e ∧ P (G.step (G.state before) e) ∧
      ∀ f ∈ after, ¬ E f := by
  induction t using List.reverseRecOn with
  | nil => exact absurd holds start
  | append_singleton t e ih =>
      rw [state_snoc] at holds
      by_cases kind : E e
      · exact ⟨t, e, [], rfl, kind, holds, by simp⟩
      · obtain ⟨before, e', after, rfl, kind', held, last⟩ := ih (frame _ e kind holds)
        refine ⟨before, e', after ++ [e], by simp, kind', held, fun f later => ?_⟩
        rcases List.mem_append.1 later with earlier | new
        · exact last f earlier
        · rw [List.mem_singleton.1 new]
          exact kind

variable {G}

theorem Lawful.legal_last {t : List ε} {e : ε} (h : G.Lawful (t ++ [e])) :
    G.Lawful t ∧ G.Legal (G.state t) e := by
  generalize eq : t ++ [e] = u at h
  cases h with
  | nil => simp at eq
  | snoc before legal =>
      obtain ⟨rfl, same⟩ := List.append_inj' eq rfl
      cases same
      exact ⟨before, legal⟩

theorem Lawful.of_append {t u : List ε} (h : G.Lawful (t ++ u)) : G.Lawful t := by
  induction u using List.reverseRecOn with
  | nil => simpa using h
  | append_singleton u e ih =>
      rw [← List.append_assoc] at h
      exact ih h.legal_last.1

/-- What was legal at a moment of a lawful trace. -/
theorem Lawful.moment {before after : List ε} {e : ε} (h : G.Lawful (before ++ e :: after)) :
    G.Legal (G.state before) e := by
  have upto : G.Lawful (before ++ [e]) := by
    apply Lawful.of_append (u := after)
    simpa using h
  exact upto.legal_last.2

/-- The invariant rule. -/
theorem Lawful.invariant {Inv : σ → Prop} {t : List ε} (h : G.Lawful t) (start : Inv G.init)
    (step : ∀ s e, Inv s → G.Legal s e → Inv (G.step s e)) : Inv (G.state t) := by
  induction h with
  | nil => exact start
  | snoc before legal ih =>
      rw [state_snoc]
      exact step _ _ ih legal

/-- What holds at a moment and is never lost holds at every later one. -/
theorem Lawful.persists {P : σ → Prop} {before after : List ε} (h : G.Lawful (before ++ after))
    (step : ∀ s e, G.Legal s e → P s → P (G.step s e)) (held : P (G.state before)) :
    P (G.state (before ++ after)) := by
  induction after using List.reverseRecOn with
  | nil => simpa using held
  | append_singleton after e ih =>
      rw [← List.append_assoc] at h ⊢
      obtain ⟨upto, legal⟩ := h.legal_last
      rw [state_snoc]
      exact step _ _ legal (ih upto)

end Guarded
