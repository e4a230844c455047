import Mathlib.Tactic

/-!
# Decimal numbers in ASCII

What is printed is read back. The printer takes one round for each digit at most.
-/

namespace Decimal

def printWithin : Nat → Nat → List UInt8
  | 0, _ => []
  | rounds + 1, n =>
      (if n < 10 then [] else printWithin rounds (n / 10)) ++ [UInt8.ofNat (0x30 + n % 10)]

def print (n : Nat) : List UInt8 := printWithin (n + 1) n

def digit (b : UInt8) : Option Nat :=
  if 0x30 ≤ b.toNat ∧ b.toNat ≤ 0x39 then some (b.toNat - 0x30) else none

def readFrom : List UInt8 → Nat → Option Nat
  | [], acc => some acc
  | b :: rest, acc => (digit b).bind fun d => readFrom rest (10 * acc + d)

/-- One digit at least, and nothing but digits. -/
def read : List UInt8 → Option Nat
  | [] => none
  | b :: rest => readFrom (b :: rest) 0

theorem toNat_digit (d : Nat) (small : d < 10) : (UInt8.ofNat (0x30 + d)).toNat = 0x30 + d := by
  rw [UInt8.toNat_ofNat']
  exact Nat.mod_eq_of_lt (by omega)

theorem digit_ofNat (d : Nat) (small : d < 10) : digit (UInt8.ofNat (0x30 + d)) = some d := by
  unfold digit
  rw [toNat_digit d small, if_pos (by omega), Nat.add_sub_cancel_left]

theorem readFrom_append (s t : List UInt8) (acc : Nat) :
    readFrom (s ++ t) acc = (readFrom s acc).bind (readFrom t) := by
  induction s generalizing acc with
  | nil => rfl
  | cons b s ih =>
      rw [List.cons_append, readFrom, readFrom, Option.bind_assoc]
      apply Option.bind_congr
      intro d _
      exact ih _

theorem readFrom_printWithin (rounds n : Nat) (enough : n < rounds) :
    readFrom (printWithin rounds n) 0 = some n := by
  induction rounds generalizing n with
  | zero => omega
  | succ rounds ih =>
      have last : n % 10 < 10 := Nat.mod_lt _ (by decide)
      have front : readFrom (if n < 10 then [] else printWithin rounds (n / 10)) 0 = some (n / 10) := by
        split
        · rename_i small
          rw [Nat.div_eq_of_lt small]
          rfl
        · exact ih _ (by omega)
      rw [printWithin, readFrom_append, front, Option.bind_some, readFrom, digit_ofNat _ last,
        Option.bind_some, readFrom]
      congr 1
      omega

theorem print_ne_nil (n : Nat) : print n ≠ [] := by
  unfold print printWithin
  simp

theorem read_print (n : Nat) : read (print n) = some n := by
  have whole := readFrom_printWithin (n + 1) n (Nat.lt_succ_self n)
  change readFrom (print n) 0 = some n at whole
  cases printed : print n with
  | nil => exact (print_ne_nil n printed).elim
  | cons b rest =>
      rw [printed] at whole
      exact whole

theorem printWithin_digits (rounds n : Nat) :
    ∀ b ∈ printWithin rounds n, 0x30 ≤ b.toNat ∧ b.toNat ≤ 0x39 := by
  induction rounds generalizing n with
  | zero => simp [printWithin]
  | succ rounds ih =>
      have last : n % 10 < 10 := Nat.mod_lt _ (by decide)
      intro b inside
      rw [printWithin, List.mem_append, List.mem_singleton] at inside
      rcases inside with front | rfl
      · split at front
        · cases front
        · exact ih _ b front
      · rw [toNat_digit _ last]
        omega

theorem print_digits (n : Nat) : ∀ b ∈ print n, 0x30 ≤ b.toNat ∧ b.toNat ≤ 0x39 :=
  printWithin_digits _ n

theorem length_printWithin (rounds : Nat) {n digits : Nat} (small : n < 10 ^ (digits + 1)) :
    (printWithin rounds n).length ≤ digits + 1 := by
  induction rounds generalizing n digits with
  | zero => exact Nat.zero_le _
  | succ rounds ih =>
      rw [printWithin, List.length_append, List.length_singleton, Nat.add_le_add_iff_right]
      split
      · exact Nat.zero_le _
      · next more =>
          cases digits with
          | zero => omega
          | succ digits => exact ih (by omega)

theorem length_print {n digits : Nat} (small : n < 10 ^ (digits + 1)) : (print n).length ≤ digits + 1 :=
  length_printWithin _ small

end Decimal
