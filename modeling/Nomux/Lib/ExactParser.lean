import Mathlib.Tactic

/-!
# Exact parsers

A parser is exact for a printer when it accepts precisely the printed form of the values it may
return, and leaves what follows. Exactness is stated as an equivalence, so one fact about a parser
is both its round trip and the canonicity of what it accepts.
-/

abbrev ExactParser (ε β : Type) := StateT (List β) (Except ε)

namespace ExactParser

variable {ε β α γ : Type}

/-- `p` accepts exactly the printed forms of the values `accepts` allows. -/
def Exact (p : ExactParser ε β α) (print : α → List β) (accepts : α → Prop) : Prop :=
  ∀ input a rest, p.run input = .ok (a, rest) ↔ accepts a ∧ input = print a ++ rest

theorem bind_eq_ok (p : ExactParser ε β α) (f : α → ExactParser ε β γ) (input : List β)
    (r : γ × List β) :
    (p >>= f).run input = .ok r ↔
      ∃ a rest, p.run input = .ok (a, rest) ∧ (f a).run rest = .ok r := by
  rw [StateT.run_bind]
  cases h : p.run input with
  | error e => simp [bind, Except.bind]
  | ok ar =>
      obtain ⟨a, rest⟩ := ar
      simp only [bind, Except.bind, Except.ok.injEq, Prod.mk.injEq]
      exact ⟨fun hf => ⟨a, rest, ⟨rfl, rfl⟩, hf⟩, by rintro ⟨_, _, ⟨rfl, rfl⟩, hf⟩; exact hf⟩

theorem pure_eq_ok (a : α) (input : List β) (r : α × List β) :
    (pure a : ExactParser ε β α).run input = .ok r ↔ (a, input) = r := by
  rw [StateT.run_pure]
  exact ⟨Except.ok.inj, congrArg Except.ok⟩

theorem throw_ne_ok (e : ε) (input : List β) (r : α × List β) :
    (throw e : ExactParser ε β α).run input ≠ .ok r := by
  intro h
  cases h

theorem Exact.map {p : ExactParser ε β α} {print : α → List β} {accepts : α → Prop}
    (h : Exact p print accepts) (g : α → γ) (back : γ → α)
    (left : ∀ a, accepts a → back (g a) = a) (right : ∀ c, g (back c) = c) :
    Exact (do let a ← p; pure (g a)) (fun c => print (back c)) (fun c => accepts (back c)) := by
  intro input c rest
  simp only [bind_eq_ok, pure_eq_ok, Prod.mk.injEq]
  constructor
  · rintro ⟨a, r, hp, rfl, rfl⟩
    obtain ⟨ha, hin⟩ := (h _ _ _).1 hp
    rw [left a ha]
    exact ⟨ha, hin⟩
  · rintro ⟨ha, hin⟩
    exact ⟨back c, rest, (h _ _ _).2 ⟨ha, hin⟩, right c, rfl⟩

end ExactParser
