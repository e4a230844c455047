import Mathlib.Tactic

/-!
# Lossy decoding

Bytes as text, each maximal piece of what is not UTF-8 replaced by U+FFFD. What was encoded is decoded
as it was.
-/

namespace Lossy

def decodeChar (bytes : List UInt8) : Option Char :=
  ByteArray.utf8DecodeChar? ⟨bytes.toArray⟩ 0

def isContinuation (byte : UInt8) : Bool := 0x80 ≤ byte && byte ≤ 0xbf

/-- Whether two bytes can start a character of three or four. -/
def startsLong (first second : UInt8) : Bool :=
  if first = 0xe0 then 0xa0 ≤ second && second ≤ 0xbf
  else if first = 0xed then 0x80 ≤ second && second ≤ 0x9f
  else if 0xe1 ≤ first && first ≤ 0xef then isContinuation second
  else if first = 0xf0 then 0x90 ≤ second && second ≤ 0xbf
  else if 0xf1 ≤ first && first ≤ 0xf3 then isContinuation second
  else if first = 0xf4 then 0x80 ≤ second && second ≤ 0x8f
  else false

/-- How much one replacement stands for, at bytes that do not start with a character. -/
def invalidLen : List UInt8 → Nat
  | first :: second :: rest =>
      if startsLong first second then
        if 0xf0 ≤ first && rest.head?.any isContinuation then 3 else 2
      else 1
  | _ => 1

/-- Every round takes a byte, so one round for each is enough. -/
def rounds : Nat → List UInt8 → List Char
  | 0, _ => []
  | _ + 1, [] => []
  | n + 1, byte :: bytes =>
      match decodeChar (byte :: bytes) with
      | some ch => ch :: rounds n ((byte :: bytes).drop ch.utf8Size)
      | none => Char.ofNat 0xfffd :: rounds n ((byte :: bytes).drop (invalidLen (byte :: bytes)))

def decode (bytes : List UInt8) : List Char := rounds bytes.length bytes

theorem decodeChar_encode (ch : Char) (rest : List UInt8) :
    decodeChar (String.utf8EncodeChar ch ++ rest) = some ch := by
  have split : (⟨(String.utf8EncodeChar ch ++ rest).toArray⟩ : ByteArray) =
      (String.utf8EncodeChar ch).toByteArray ++ ⟨rest.toArray⟩ := by
    apply ByteArray.ext
    simp
  unfold decodeChar
  rw [split]
  exact ByteArray.utf8DecodeChar?_utf8EncodeChar_append

theorem rounds_encode (text : List Char) {n : Nat}
    (enough : (text.flatMap String.utf8EncodeChar).length ≤ n) :
    rounds n (text.flatMap String.utf8EncodeChar) = text := by
  induction text generalizing n with
  | nil => cases n <;> rfl
  | cons ch text ih =>
      have size := String.length_utf8EncodeChar ch
      have positive := ch.utf8Size_pos
      rw [List.flatMap_cons] at enough ⊢
      rw [List.length_append] at enough
      have some_bytes : String.utf8EncodeChar ch ++ text.flatMap String.utf8EncodeChar ≠ [] := by
        rw [← List.length_pos_iff, List.length_append]
        omega
      obtain ⟨m, rfl⟩ : ∃ m, n = m + 1 := ⟨n - 1, by omega⟩
      obtain ⟨byte, bytes, whole⟩ := List.exists_cons_of_ne_nil some_bytes
      have decoded := decodeChar_encode ch (text.flatMap String.utf8EncodeChar)
      rw [whole] at decoded ⊢
      rw [rounds, decoded]
      dsimp only
      rw [← whole, ← size, List.drop_left, ih (by omega)]

theorem decode_encode (text : List Char) : decode (text.flatMap String.utf8EncodeChar) = text :=
  rounds_encode text le_rfl

end Lossy
