import Mathlib.Tactic

/-!
# Runs with errors and a state

How a run of a sequence in `EStateM` splits into the runs of its parts.
-/

namespace ErrorState

variable {ε σ α β : Type} {x : EStateM ε σ α} {f : α → EStateM ε σ β} {s s' : σ}

theorem bind_ok {b : β} : (x >>= f).run s = .ok b s' ↔
    ∃ a t, x.run s = .ok a t ∧ (f a).run t = .ok b s' := by
  change EStateM.bind x f s = _ ↔ _
  unfold EStateM.bind EStateM.run
  cases first : x s with
  | ok a t => simp
  | error e t => simp

theorem bind_error {e : ε} : (x >>= f).run s = .error e s' ↔
    x.run s = .error e s' ∨ ∃ a t, x.run s = .ok a t ∧ (f a).run t = .error e s' := by
  change EStateM.bind x f s = _ ↔ _
  unfold EStateM.bind EStateM.run
  cases first : x s with
  | ok a t => simp
  | error e t => simp

theorem pure_ok {a b : α} : (pure a : EStateM ε σ α).run s = .ok b s' ↔ a = b ∧ s = s' := by
  change EStateM.Result.ok a s = EStateM.Result.ok b s' ↔ _
  rw [EStateM.Result.ok.injEq]

theorem pure_error {a : α} {e : ε} : (pure a : EStateM ε σ α).run s ≠ .error e s' := nofun

theorem throw_ok {e : ε} {a : α} : (throw e : EStateM ε σ α).run s ≠ .ok a s' := nofun

theorem throw_error {e e' : ε} :
    (throw e : EStateM ε σ α).run s = .error e' s' ↔ e = e' ∧ s = s' := by
  change EStateM.Result.error e s = EStateM.Result.error e' s' ↔ _
  rw [EStateM.Result.error.injEq]

variable {γ : Type} {part : σ → γ}

/-- Whether it fails or not, the run leaves a part of the state alone. -/
structure Keeps (part : σ → γ) (x : EStateM ε σ α) : Prop where
  ok : ∀ {s s' a}, x.run s = .ok a s' → part s' = part s
  error : ∀ {s s' e}, x.run s = .error e s' → part s' = part s

theorem keeps_pure (a : α) : Keeps part (pure a : EStateM ε σ α) where
  ok run := by rw [(pure_ok.1 run).2]
  error run := absurd run pure_error

theorem keeps_throw (e : ε) : Keeps part (throw e : EStateM ε σ α) where
  ok run := absurd run throw_ok
  error run := by rw [(throw_error.1 run).2]

theorem Keeps.bind (first : Keeps part x) (second : ∀ a, Keeps part (f a)) : Keeps part (x >>= f) where
  ok run := by
    obtain ⟨a, t, before, after⟩ := bind_ok.1 run
    rw [(second a).ok after, first.ok before]
  error run := by
    rcases bind_error.1 run with failed | ⟨a, t, before, after⟩
    · exact first.error failed
    · rw [(second a).error after, first.ok before]

end ErrorState
