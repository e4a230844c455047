import Nomux.Cli.Sanitize
import Nomux.Lib.Lossy

/-!
# Labels on disk

What a relay hands its daemon, what the daemon writes to `<id>.label`, and what `list` reads of it.
-/

namespace Nomux
open Wire

/-- What a label can be shown as. -/
structure Shown (label : String) : Prop where
  short : (utf8 label).length ≤ maxLabelLen
  plain : ∀ ch ∈ label.toList, isDeceptive ch = false
  starts : ∀ ch, label.toList.head? = some ch → isWhitespace ch = false
  ends : ∀ ch, label.toList.getLast? = some ch → isWhitespace ch = false

theorem head?_dropWhile {text : List Char} {ch : Char}
    (first : (text.dropWhile isWhitespace).head? = some ch) : isWhitespace ch = false := by
  have := List.head?_dropWhile_not isWhitespace text
  rw [first] at this
  simpa using this

theorem trimEnd_front (text : List Char) : trimEnd text <+: text := by
  have front := List.dropWhile_suffix isWhitespace (l := text.reverse)
  rw [← List.reverse_prefix, List.reverse_reverse] at front
  exact front

theorem trimEnd_ends {text : List Char} {ch : Char} (last : (trimEnd text).getLast? = some ch) :
    isWhitespace ch = false := by
  rw [trimEnd, List.getLast?_reverse] at last
  exact head?_dropWhile last

theorem trimEnd_of_ends {text : List Char} (ends : ∀ ch, text.getLast? = some ch → isWhitespace ch = false) :
    trimEnd text = text := by
  unfold trimEnd
  cases reversed : text.reverse with
  | nil => rw [List.dropWhile_nil, List.reverse_nil, List.reverse_eq_nil_iff.1 reversed]
  | cons ch rest =>
      have last : text.getLast? = some ch := by
        rw [← List.head?_reverse, reversed]
        rfl
      rw [List.dropWhile_cons_of_neg (by simp [ends ch last]), ← reversed, List.reverse_reverse]

theorem dropWhile_of_starts {text : List Char}
    (starts : ∀ ch, text.head? = some ch → isWhitespace ch = false) :
    text.dropWhile isWhitespace = text := by
  cases text with
  | nil => rfl
  | cons ch rest => exact List.dropWhile_cons_of_neg (by simp [starts ch rfl])

theorem cutTo_of_short {budget : Nat} {text : List Char}
    (short : (text.map Char.utf8Size).sum ≤ budget) : cutTo budget text = text := by
  induction text generalizing budget with
  | nil => rfl
  | cons ch rest ih =>
      rw [List.map_cons, List.sum_cons] at short
      rw [cutTo, if_pos (by omega), ih (by omega)]

theorem head?_of_front {front text : List Char} {ch : Char} (h : front <+: text)
    (first : front.head? = some ch) : text.head? = some ch := by
  obtain ⟨behind, rfl⟩ := h
  rw [List.head?_append, first]
  rfl

theorem sanitizeLabel_shown (label : String) : Shown (sanitizeLabel label) := by
  refine ⟨sanitizeLabel_short label, sanitizeLabel_plain label, fun ch first => ?_, fun ch last => ?_⟩
  · unfold sanitizeLabel at first
    rw [String.toList_ofList] at first
    -- every later cut keeps the start that the first trim left
    have front : trimEnd (cutTo maxLabelLen (trim (sanitizeText label.toList))) <+:
        (sanitizeText label.toList).dropWhile isWhitespace :=
      (trimEnd_front _).trans ((cutTo_front ..).trans (trimEnd_front _))
    exact head?_dropWhile (head?_of_front front first)
  · unfold sanitizeLabel at last
    rw [String.toList_ofList] at last
    exact trimEnd_ends last

theorem sanitizeLabel_of_shown {label : String} (h : Shown label) : sanitizeLabel label = label := by
  have filtered : sanitizeText label.toList = label.toList := by
    apply List.filter_eq_self.2
    intro ch inside
    rw [h.plain ch inside]
    rfl
  have short := h.short
  rw [length_utf8] at short
  unfold sanitizeLabel trim
  rw [filtered, dropWhile_of_starts h.starts, trimEnd_of_ends h.ends, cutTo_of_short short,
    trimEnd_of_ends h.ends, String.ofList_toList]

/-- The label that a daemon's command line is given. -/
def spawnLabel (label : Option String) : Option String :=
  (label.map sanitizeLabel).filter (!·.isEmpty)

/-- `write_label`: what is in `<id>.label` behind it, where it does not fail. -/
def writeLabel (label : String) : Option Bytes :=
  let label := sanitizeLabel label
  if label.isEmpty then none else some (utf8 label)

/-- What a daemon leaves there, which has cleared the name before. -/
def publishLabel (label : Option String) : Option Bytes := label.bind writeLabel

/-- The loop of `read_prefix` over the content of a file. The kernel is free to answer a `read` with
less than there is, but not with nothing. -/
def readLoop (len : Nat) (content : Bytes) (short : Nat → Nat) : (rounds : Nat) → Bytes → Bytes
  | 0, filled => filled
  | rounds + 1, filled =>
      if filled.length < len then
        let chunk := (content.drop filled.length).take (min (len - filled.length) (short rounds + 1))
        if chunk = [] then filled else readLoop len content short rounds (filled ++ chunk)
      else filled

/-- Every round fills a byte, so one round for each, and one that finds the end, is enough. -/
def readPrefix (len : Nat) (content : Bytes) (short : Nat → Nat) : Bytes :=
  readLoop len content short (len + 1) []

def fromUtf8Lossy (bytes : Bytes) : String := String.ofList (Lossy.decode bytes)

/-- A file that is not there, or not to be read, is an empty label. -/
def readLabel (file : Option Bytes) (short : Nat → Nat) : String :=
  sanitizeLabel (fromUtf8Lossy ((file.map fun content => readPrefix maxLabelLen content short).getD []))

theorem readLoop_eq {len : Nat} {content : Bytes} (short : Nat → Nat) {rounds : Nat} {filled : Bytes}
    (front : filled <+: content) (within : filled.length ≤ len)
    (enough : len < rounds + filled.length) :
    readLoop len content short rounds filled = content.take len := by
  induction rounds generalizing filled with
  | zero => omega
  | succ rounds ih =>
      obtain ⟨rest, rfl⟩ := front
      rw [readLoop]
      by_cases room : filled.length < len
      · rw [if_pos room, List.drop_left]
        dsimp only
        by_cases ended : rest.take (min (len - filled.length) (short rounds + 1)) = []
        · have empty : rest = [] := by
            rcases List.take_eq_nil_iff.1 ended with none | empty
            · omega
            · exact empty
          rw [if_pos ended, empty, List.append_nil, List.take_of_length_le within]
        · rw [if_neg ended]
          have some_bytes := List.length_pos_iff.2 ended
          have size := List.length_take_le (min (len - filled.length) (short rounds + 1)) rest
          apply ih
          · exact (List.prefix_append_right_inj filled).2 (List.take_prefix ..)
          · rw [List.length_append]
            omega
          · rw [List.length_append]
            omega
      · have full : filled.length = len := by omega
        rw [if_neg room, ← full, List.take_left]

theorem readPrefix_eq (len : Nat) (content : Bytes) (short : Nat → Nat) :
    readPrefix len content short = content.take len :=
  readLoop_eq short List.nil_prefix (Nat.zero_le _) (Nat.lt_succ_self _)

theorem fromUtf8Lossy_utf8 (text : String) : fromUtf8Lossy (utf8 text) = text := by
  rw [fromUtf8Lossy, utf8_eq, Lossy.decode_encode, String.ofList_toList]

theorem readLabel_publishLabel (label : String) (short : Nat → Nat) :
    readLabel (publishLabel (spawnLabel (some label))) short = sanitizeLabel label := by
  have again := sanitizeLabel_of_shown (sanitizeLabel_shown label)
  have fits := sanitizeLabel_short label
  cases empty : (sanitizeLabel label).isEmpty with
  | true =>
      have nothing : spawnLabel (some label) = none := by
        rw [spawnLabel, Option.map_some, Option.filter_some, empty]
        rfl
      rw [nothing, String.isEmpty_iff.1 empty]
      show sanitizeLabel (fromUtf8Lossy []) = ""
      decide +kernel
  | false =>
      have kept : spawnLabel (some label) = some (sanitizeLabel label) := by
        rw [spawnLabel, Option.map_some, Option.filter_some, empty]
        rfl
      have written : writeLabel (sanitizeLabel label) = some (utf8 (sanitizeLabel label)) := by
        rw [writeLabel, again, empty]
        rfl
      rw [kept, publishLabel, Option.bind_some, written, readLabel, Option.map_some, Option.getD_some,
        readPrefix_eq, List.take_of_length_le fits, fromUtf8Lossy_utf8, again]

theorem label_survives :
    (∀ label, Shown (sanitizeLabel label) ∧ sanitizeLabel (sanitizeLabel label) = sanitizeLabel label) ∧
    (∀ label short, readLabel (publishLabel (spawnLabel (some label))) short = sanitizeLabel label) ∧
    ∀ file short, Shown (readLabel file short) :=
  ⟨fun label => ⟨sanitizeLabel_shown label, sanitizeLabel_of_shown (sanitizeLabel_shown label)⟩,
    readLabel_publishLabel, fun _ _ => sanitizeLabel_shown _⟩

end Nomux
