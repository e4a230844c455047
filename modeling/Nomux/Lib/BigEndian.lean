import Mathlib.Tactic

/-!
# Fixed-width big-endian words

`bytes n v` writes the low `n` bytes of `v`, most significant first, and `value` reads a list of
bytes back. The two are inverse on words of the width: what `bytes` writes is what `value` reads,
and every list of `n` bytes is written by the number it reads as.
-/

namespace BigEndian

def bytes : Nat → Nat → List UInt8
  | 0, _ => []
  | n + 1, v => UInt8.ofNat (v / 256 ^ n) :: bytes n v

def value : List UInt8 → Nat
  | [] => 0
  | b :: bs => b.toNat * 256 ^ bs.length + value bs

@[simp] theorem length_bytes (n v : Nat) : (bytes n v).length = n := by
  induction n with
  | zero => rfl
  | succ n ih => simp [bytes, ih]

theorem value_lt (bs : List UInt8) : value bs < 256 ^ bs.length := by
  induction bs with
  | nil => simp [value]
  | cons b bs ih =>
      have hb : b.toNat + 1 ≤ 256 := b.toNat_lt
      calc
        value (b :: bs) < b.toNat * 256 ^ bs.length + 256 ^ bs.length := by
          simpa [value] using ih
        _ = (b.toNat + 1) * 256 ^ bs.length := by ring
        _ ≤ 256 * 256 ^ bs.length := Nat.mul_le_mul_right _ hb
        _ = 256 ^ (b :: bs).length := by rw [List.length_cons, pow_succ]; ring

/-- Bytes above the width are not written. -/
theorem bytes_add_mul (n v k : Nat) : bytes n (v + k * 256 ^ n) = bytes n v := by
  induction n generalizing k with
  | zero => rfl
  | succ n ih =>
      have split : v + k * 256 ^ (n + 1) = v + k * 256 * 256 ^ n := by rw [pow_succ]; ring
      have high : (v + k * 256 * 256 ^ n) / 256 ^ n = v / 256 ^ n + k * 256 :=
        Nat.add_mul_div_right _ _ (by positivity)
      rw [split, bytes, bytes, ih, high]
      congr 1
      apply UInt8.toNat_inj.mp
      simp

@[simp] theorem bytes_value (bs : List UInt8) : bytes bs.length (value bs) = bs := by
  induction bs with
  | nil => rfl
  | cons b bs ih =>
      have head : (b.toNat * 256 ^ bs.length + value bs) / 256 ^ bs.length = b.toNat := by
        rw [Nat.add_comm, Nat.add_mul_div_right _ _ (by positivity),
          Nat.div_eq_of_lt (value_lt bs), Nat.zero_add]
      rw [List.length_cons, value, bytes, head, Nat.add_comm, bytes_add_mul, ih]
      simp

theorem value_bytes {n v : Nat} (h : v < 256 ^ n) : value (bytes n v) = v := by
  induction n generalizing v with
  | zero => simp [bytes, value] at h ⊢; omega
  | succ n ih =>
      have low : v % 256 ^ n < 256 ^ n := Nat.mod_lt _ (by positivity)
      have tail : bytes n v = bytes n (v % 256 ^ n) := by
        conv_lhs => rw [← Nat.mod_add_div v (256 ^ n), Nat.mul_comm, bytes_add_mul]
      have top : v / 256 ^ n < 256 := by
        apply Nat.div_lt_of_lt_mul
        rwa [pow_succ] at h
      have lead : (UInt8.ofNat (v / 256 ^ n)).toNat = v / 256 ^ n :=
        (UInt8.toNat_ofNat' ..).trans (Nat.mod_eq_of_lt top)
      rw [bytes, value, length_bytes, tail, ih low, lead, Nat.mul_comm]
      exact Nat.div_add_mod v (256 ^ n)

end BigEndian
