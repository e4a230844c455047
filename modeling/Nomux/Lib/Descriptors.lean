import Mathlib.Tactic

/-!
# Descriptor tables

What a process has open, by number, with the flag that closes it at an `execve`. A table is as long as
the process may have descriptors.
-/

structure Descriptor (α : Type) where
  object : α
  cloexec : Bool
  deriving DecidableEq

namespace Descriptor

abbrev Table (α : Type) := List (Option (Descriptor α))

namespace Table

variable {α : Type}

def held (t : Table α) (fd : Nat) : Option (Descriptor α) := t[fd]?.join

def lowest (t : Table α) (least : Nat) : Option Nat :=
  (List.range t.length).find? fun n => least ≤ n && (t.held n).isNone

def close (t : Table α) (fd : Nat) : Table α := t.set fd none

/-- `dup2`: what `fd` has open is open at `slot` as well, and stays there across an `execve`. -/
def dup2 (t : Table α) (fd slot : Nat) : Table α :=
  t.set slot ((t.held fd).map fun d => { d with cloexec := false })

def clearCloexec (t : Table α) (fd : Nat) : Table α := t.dup2 fd fd

def exec (t : Table α) : Table α := t.map fun entry => entry.filter fun d => !d.cloexec

def has [DecidableEq α] (t : Table α) (object : α) : Bool :=
  t.any fun entry => entry.any fun d => d.object = object

theorem held_of_le {t : Table α} {fd : Nat} (beyond : t.length ≤ fd) : t.held fd = none := by
  rw [held, List.getElem?_eq_none beyond]
  rfl

theorem lt_of_held {t : Table α} {fd : Nat} {d : Descriptor α} (open' : t.held fd = some d) :
    fd < t.length := by
  by_contra beyond
  rw [held_of_le (Nat.le_of_not_lt beyond)] at open'
  cases open'

theorem ext {t t' : Table α} (length : t.length = t'.length) (same : ∀ fd, t.held fd = t'.held fd) :
    t = t' := by
  apply List.ext_getElem length
  intro fd bound bound'
  have both := same fd
  rwa [held, held, List.getElem?_eq_getElem bound, List.getElem?_eq_getElem bound', Option.join_some,
    Option.join_some] at both

theorem held_set (t : Table α) (fd other : Nat) (entry : Option (Descriptor α)) :
    held (t.set fd entry) other = if fd = other ∧ fd < t.length then entry else t.held other := by
  rw [held, held, List.getElem?_set]
  by_cases same : fd = other
  · subst same
    rw [if_pos rfl]
    by_cases bound : fd < t.length
    · rw [if_pos bound, if_pos ⟨rfl, bound⟩]
      rfl
    · rw [if_neg bound, if_neg fun both => bound both.2, List.getElem?_eq_none (Nat.le_of_not_lt bound)]
  · rw [if_neg same, if_neg fun both => same both.1]

theorem held_set_self {t : Table α} {fd : Nat} (bound : fd < t.length) (entry : Option (Descriptor α)) :
    held (t.set fd entry) fd = entry := by
  rw [held_set, if_pos ⟨rfl, bound⟩]

theorem held_set_of_ne (t : Table α) {fd other : Nat} (apart : other ≠ fd)
    (entry : Option (Descriptor α)) : held (t.set fd entry) other = t.held other := by
  rw [held_set, if_neg fun both => apart both.1.symm]

theorem length_close (t : Table α) (fd : Nat) : (t.close fd).length = t.length := List.length_set

theorem held_close (t : Table α) (fd other : Nat) :
    (t.close fd).held other = if other = fd then none else t.held other := by
  by_cases same : other = fd
  · subst same
    rw [if_pos rfl, close, held_set]
    split
    · rfl
    · next beyond => exact held_of_le (by omega)
  · rw [if_neg same, close, held_set_of_ne t same]

theorem held_exec (t : Table α) (fd : Nat) : t.exec.held fd = (t.held fd).filter fun d => !d.cloexec := by
  rw [held, held, exec, List.getElem?_map]
  cases t[fd]? <;> rfl

theorem lowest_eq_some {t : Table α} {least n : Nat} (found : t.lowest least = some n) :
    least ≤ n ∧ n < t.length ∧ t.held n = none := by
  have free := List.find?_some found
  have inside := List.mem_of_find?_eq_some found
  rw [Bool.and_eq_true, decide_eq_true_eq, Option.isNone_iff_eq_none] at free
  exact ⟨free.1, List.mem_range.1 inside, free.2⟩

variable [DecidableEq α]

theorem has_eq_true {t : Table α} {object : α} :
    t.has object = true ↔ ∃ fd d, t.held fd = some d ∧ d.object = object := by
  rw [has, List.any_eq_true]
  constructor
  · rintro ⟨entry, inside, holds⟩
    obtain ⟨fd, bound, rfl⟩ := List.getElem_of_mem inside
    obtain ⟨d, same, holds⟩ := (Option.any_eq_true _ _).1 holds
    refine ⟨fd, d, ?_, of_decide_eq_true holds⟩
    rw [held, List.getElem?_eq_getElem bound, Option.join_some]
    exact same
  · rintro ⟨fd, d, open', rfl⟩
    have bound := lt_of_held open'
    rw [held, List.getElem?_eq_getElem bound, Option.join_some] at open'
    refine ⟨t[fd], List.getElem_mem bound, ?_⟩
    rw [open']
    exact decide_eq_true rfl

theorem has_eq_false {t : Table α} {object : α} :
    t.has object = false ↔ ∀ fd d, t.held fd = some d → d.object ≠ object := by
  rw [← Bool.not_eq_true, has_eq_true]
  push Not
  rfl

end Table

end Descriptor
