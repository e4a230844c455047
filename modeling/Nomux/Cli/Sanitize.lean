import Nomux.Wire.Fields

/-!
# Labels

`sanitize.rs`, as far as labels go: the filter over text that somebody else chose, and the bound that
a label is cut to.
-/

namespace Nomux
open Wire

def maxLabelLen : Nat := 256

def isControl (ch : Char) : Bool := ch.toNat < 0x20 || (0x7f ≤ ch.toNat && ch.toNat ≤ 0x9f)

def isWhitespace (ch : Char) : Bool :=
  let n := ch.toNat
  (0x9 ≤ n && n ≤ 0xd) || n = 0x20 || n = 0x85 || n = 0xa0 || n = 0x1680 ||
    (0x2000 ≤ n && n ≤ 0x200a) || n = 0x2028 || n = 0x2029 || n = 0x202f || n = 0x205f || n = 0x3000

def deceptiveRanges : List (Nat × Nat) :=
  [(0xad, 0xad), (0x34f, 0x34f), (0x61c, 0x61c), (0x115f, 0x1160), (0x17b4, 0x17b5),
    (0x180b, 0x180f), (0x200b, 0x200b), (0x200e, 0x200e), (0x200f, 0x200f), (0x2028, 0x202e),
    (0x2060, 0x206f), (0x2800, 0x2800), (0x3164, 0x3164), (0xfe00, 0xfe0f), (0xfeff, 0xfeff),
    (0xffa0, 0xffa0), (0xfff0, 0xfff8), (0x1bca0, 0x1bca3), (0x1d173, 0x1d17a), (0xe0000, 0xe0fff)]

def isDeceptive (ch : Char) : Bool :=
  isControl ch || deceptiveRanges.any fun range => range.1 ≤ ch.toNat && ch.toNat ≤ range.2

def sanitizeText (text : List Char) : List Char := text.filter (!isDeceptive ·)

def trimEnd (text : List Char) : List Char := (text.reverse.dropWhile isWhitespace).reverse

def trim (text : List Char) : List Char := trimEnd (text.dropWhile isWhitespace)

/-- `text[..text.floor_char_boundary(budget)]`. -/
def cutTo : Nat → List Char → List Char
  | _, [] => []
  | budget, ch :: rest =>
      if ch.utf8Size ≤ budget then ch :: cutTo (budget - ch.utf8Size) rest else []

def sanitizeLabel (label : String) : String :=
  String.ofList (trimEnd (cutTo maxLabelLen (trim (sanitizeText label.toList))))

theorem trimEnd_sublist (text : List Char) : (trimEnd text).Sublist text := by
  have front := List.reverse_sublist.2 (List.dropWhile_sublist isWhitespace (l := text.reverse))
  rwa [List.reverse_reverse] at front

theorem cutTo_front (budget : Nat) (text : List Char) : cutTo budget text <+: text := by
  induction text generalizing budget with
  | nil => exact List.prefix_rfl
  | cons ch rest ih =>
      rw [cutTo]
      split
      · exact List.cons_prefix_cons.2 ⟨rfl, ih _⟩
      · exact List.nil_prefix

theorem cutTo_size (budget : Nat) (text : List Char) :
    ((cutTo budget text).map Char.utf8Size).sum ≤ budget := by
  induction text generalizing budget with
  | nil => exact Nat.zero_le _
  | cons ch rest ih =>
      rw [cutTo]
      split
      · have rest := ih (budget - ch.utf8Size)
        rw [List.map_cons, List.sum_cons]
        omega
      · exact Nat.zero_le _

theorem sanitizeLabel_sublist (label : String) :
    (sanitizeLabel label).toList.Sublist (sanitizeText label.toList) := by
  unfold sanitizeLabel trim
  rw [String.toList_ofList]
  exact (trimEnd_sublist _).trans ((cutTo_front ..).sublist.trans
    ((trimEnd_sublist _).trans (List.dropWhile_sublist _)))

theorem sanitizeLabel_plain (label : String) :
    ∀ ch ∈ (sanitizeLabel label).toList, isDeceptive ch = false := by
  intro ch inside
  have kept := (sanitizeLabel_sublist label).subset inside
  simpa using (List.mem_filter.1 kept).2

theorem utf8_eq (s : String) : utf8 s = s.toList.flatMap String.utf8EncodeChar := by
  unfold utf8
  rw [← String.utf8Encode_toList, List.utf8Encode]
  simp

theorem length_utf8 (s : String) : (utf8 s).length = (s.toList.map Char.utf8Size).sum := by
  rw [utf8_eq, List.length_flatMap]
  simp

theorem ofNat_ne_zero {n : Nat} (pos : 0 < n) (small : n < 256) : UInt8.ofNat n ≠ 0 := by
  intro zero
  have value := congrArg UInt8.toNat zero
  rw [UInt8.toNat_ofNat', Nat.mod_eq_of_lt small] at value
  exact pos.ne' value

theorem nul_of_utf8EncodeChar {ch : Char} (inside : 0 ∈ String.utf8EncodeChar ch) : ch.toNat = 0 := by
  have other : ∀ k m, 0 < m → k + m < 256 → (0 : UInt8) ≠ UInt8.ofNat (k + m) :=
    fun k m pos small => (ofNat_ne_zero (by omega) small).symm
  unfold String.utf8EncodeChar at inside
  dsimp only at inside
  split at inside
  · rename_i small
    have ascii : ch.toNat ≤ 0x7f := small
    rw [List.mem_singleton] at inside
    by_contra positive
    exact ofNat_ne_zero (Nat.pos_of_ne_zero positive) (by omega) inside.symm
  · exfalso
    split at inside
    · simp only [List.mem_cons, List.not_mem_nil, or_false] at inside
      rcases inside with no | no
      all_goals exact other _ _ (by decide) (by omega) no
    · split at inside
      · simp only [List.mem_cons, List.not_mem_nil, or_false] at inside
        rcases inside with no | no | no
        all_goals exact other _ _ (by decide) (by omega) no
      · simp only [List.mem_cons, List.not_mem_nil, or_false] at inside
        rcases inside with no | no | no | no
        all_goals exact other _ _ (by decide) (by omega) no

theorem sanitizeLabel_no_nul (label : String) : 0 ∉ utf8 (sanitizeLabel label) := by
  rw [utf8_eq, List.mem_flatMap]
  rintro ⟨ch, inside, nul⟩
  have plain := sanitizeLabel_plain label ch inside
  simp [isDeceptive, isControl, nul_of_utf8EncodeChar nul] at plain

theorem sanitizeLabel_short (label : String) : (utf8 (sanitizeLabel label)).length ≤ maxLabelLen := by
  have front : (sanitizeLabel label).toList.Sublist (cutTo maxLabelLen (trim (sanitizeText label.toList))) := by
    unfold sanitizeLabel
    rw [String.toList_ofList]
    exact trimEnd_sublist _
  rw [length_utf8]
  exact (front.map Char.utf8Size).sum_le_sum (by simp) |>.trans (cutTo_size ..)

example : sanitizeLabel "  two\nlines " = "twolines" := by decide +kernel

end Nomux
