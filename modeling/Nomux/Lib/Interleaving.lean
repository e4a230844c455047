import Nomux.Lib.GuardedTrace
import Nomux.Lib.Program
import Mathlib.Logic.Relation

/-!
# A program in a world that moves

Between any two calls of a program the world it runs in may move. A call is made only while the world
lets the program go on, and is answered by the world it finds. What the program keeps to becomes what
its history says, and what the moves keep relates the worlds of that history.
-/

namespace Interleaving
open Program

variable {Call : Type} {Reply : Call → Type} {α World : Type}

/-- A call with its answer, and the world it was made in. -/
abbrev Event (World : Type) {Call : Type} (Reply : Call → Type) := World × Σ c, Reply c

structure System (World : Type) {Call : Type} (Reply : Call → Type) (α : Type) where
  world : World
  left : Program Reply α
  history : List (Event World Reply) := []

/-- How a world moves, when it lets the program go on, and what it answers. -/
structure Rules (World : Type) {Call : Type} (Reply : Call → Type) where
  Moves : World → World → Prop
  Runs : World → Prop
  Answers : World → (c : Call) → Reply c → Prop

variable (rules : Rules World Reply)

inductive Step : System World Reply α → System World Reply α → Prop
  | elsewhere (s : System World Reply α) {world : World} (moves : rules.Moves s.world world) :
      Step s { s with world }
  | call (s : System World Reply α) {c : Call} {rest : Reply c → Program Reply α}
      (next : s.left = .call c rest) (runs : rules.Runs s.world) (reply : Reply c)
      (answers : rules.Answers s.world c reply) :
      Step s { s with left := rest reply, history := s.history ++ [(s.world, ⟨c, reply⟩)] }

def Reachable (start s : System World Reply α) : Prop := Relation.ReflTransGen (Step rules) start s

section

variable {Role : Type} (role : Role) (after : Role → (c : Call) → Reply c → Role)
  (Allows : Role → Call → Prop)

/-- The events of a history, each allowed to the role the ones before it led to. -/
def evidence : Guarded Role (Event World Reply) where
  init := role
  step role e := after role e.2.1 e.2.2
  Legal role e := Allows role e.2.1 ∧ rules.Runs e.1 ∧ rules.Answers e.1 e.2.1 e.2.2

structure Sound (Later : World → World → Prop) (first : World) (post : Role → α → Prop)
    (s : System World Reply α) : Prop where
  follows : s.left.Follows after Allows ((evidence rules role after Allows).state s.history) post
  lawful : (evidence rules role after Allows).Lawful s.history
  later : (s.history.map (·.1)).Pairwise Later
  now : ∀ e ∈ s.history, Later e.1 s.world
  since : Later first s.world
  from_first : ∀ e ∈ s.history, Later first e.1

variable {rules role after Allows} {Later : World → World → Prop} {first : World}
  {post : Role → α → Prop}

theorem Sound.step (refl : ∀ w, Later w w) (trans : ∀ {w w' w''}, Later w w' → Later w' w'' → Later w w'')
    (moves : ∀ {w w'}, rules.Moves w w' → Later w w') {s s' : System World Reply α}
    (h : Sound rules role after Allows Later first post s) (step : Step rules s s') :
    Sound rules role after Allows Later first post s' := by
  cases step with
  | elsewhere moved =>
      exact { h with
        now := fun e past => trans (h.now e past) (moves moved)
        since := trans h.since (moves moved) }
  | call next runs reply answers =>
      have follows := h.follows
      rw [next] at follows
      constructor
      · rw [Guarded.state_snoc]
        exact follows.2 reply
      · exact .snoc h.lawful ⟨follows.1, runs, answers⟩
      · rw [List.map_append, List.pairwise_append]
        constructor
        · exact h.later
        · constructor
          · exact List.pairwise_singleton _ _
          · intro w past w' now
            obtain ⟨e, member, rfl⟩ := List.mem_map.1 past
            rw [List.map_singleton, List.mem_singleton] at now
            rw [now]
            exact h.now e member
      · intro e member
        rcases List.mem_append.1 member with past | now
        · exact h.now e past
        · rw [List.mem_singleton.1 now]
          exact refl _
      · exact h.since
      · intro e member
        rcases List.mem_append.1 member with past | now
        · exact h.from_first e past
        · rw [List.mem_singleton.1 now]
          exact h.since

theorem Reachable.sound (refl : ∀ w, Later w w)
    (trans : ∀ {w w' w''}, Later w w' → Later w' w'' → Later w w'')
    (moves : ∀ {w w'}, rules.Moves w w' → Later w w') {program : Program Reply α}
    (follows : program.Follows after Allows role post) {s : System World Reply α}
    (h : Reachable rules { world := first, left := program } s) :
    Sound rules role after Allows Later first post s := by
  induction h with
  | refl =>
      constructor
      · exact follows
      · exact .nil
      · exact .nil
      · simp
      · exact refl _
      · simp
  | tail _ step ih => exact ih.step refl trans moves step

end

/-- A run in a world that does not move. -/
theorem reachable_of_runs {rules : Rules World Reply} {program left : Program Reply α}
    {trace : List (Σ c, Reply c)} {world : World} (run : Program.Runs program trace left)
    (runs : rules.Runs world) (answers : ∀ e ∈ trace, rules.Answers world e.1 e.2)
    (history : List (Event World Reply)) :
    Reachable rules { world, left := program, history }
      { world, left, history := history ++ trace.map fun e => (world, e) } := by
  induction run generalizing history with
  | stop =>
      rw [List.map_nil, List.append_nil]
      exact .refl
  | @call c reply rest trace left run ih =>
      have first : Step rules { world, left := .call c rest, history }
          { world, left := rest reply, history := history ++ [(world, ⟨c, reply⟩)] } :=
        .call _ rfl runs reply (answers ⟨c, reply⟩ List.mem_cons_self)
      have later := ih (fun e member => answers e (List.mem_cons_of_mem _ member))
        (history ++ [(world, ⟨c, reply⟩)])
      rw [List.append_assoc] at later
      exact .head first later

end Interleaving
