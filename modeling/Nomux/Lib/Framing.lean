import Mathlib.Tactic

/-!
# Streams of self-delimiting frames

A `Framer` reads one frame off the front of a buffer, asks for more, or reports that no frame can
ever start there. `parse` is the reading of a whole buffer at once. Because a frame is recognised by
its own bytes alone, reading a stream in pieces finds the frames of the one-shot reading: whatever
has been taken off is a list of whole frames, and `parse` of the stream is that list followed by
`parse` of what is left.
-/

structure Framer (ε β φ : Type) where
  next : List β → Except ε (Option (φ × List β))
  bytes : φ → List β
  Valid : φ → Prop
  next_eq_some : ∀ s f r, next s = .ok (some (f, r)) ↔ Valid f ∧ s = bytes f ++ r
  bytes_ne_nil : ∀ f, bytes f ≠ []

namespace Framer

variable {ε β φ : Type} (F : Framer ε β φ)

@[ext] structure Parsed (ε β φ : Type) where
  frames : List φ
  rest : List β
  error : Option ε
  deriving DecidableEq

def Parsed.prepend (p : Parsed ε β φ) (fs : List φ) : Parsed ε β φ :=
  { p with frames := fs ++ p.frames }

@[simp] theorem prepend_frames (p : Parsed ε β φ) (fs : List φ) :
    (p.prepend fs).frames = fs ++ p.frames := rfl
@[simp] theorem prepend_rest (p : Parsed ε β φ) (fs : List φ) : (p.prepend fs).rest = p.rest := rfl
@[simp] theorem prepend_error (p : Parsed ε β φ) (fs : List φ) :
    (p.prepend fs).error = p.error := rfl
@[simp] theorem prepend_nil (p : Parsed ε β φ) : p.prepend [] = p := rfl
@[simp] theorem prepend_prepend (p : Parsed ε β φ) (fs gs : List φ) :
    (p.prepend gs).prepend fs = p.prepend (fs ++ gs) := by simp [Parsed.prepend]

/-- Every frame has a byte of its own, so as many steps as there are bytes are enough. -/
def parseWithin : Nat → List β → Parsed ε β φ
  | 0, s => ⟨[], s, none⟩
  | n + 1, s =>
      match F.next s with
      | .error e => ⟨[], s, some e⟩
      | .ok none => ⟨[], s, none⟩
      | .ok (some (f, r)) => (parseWithin n r).prepend [f]

def parse (s : List β) : Parsed ε β φ := F.parseWithin (s.length + 1) s

variable {F}

theorem next_shorter {s r : List β} {f : φ} (h : F.next s = .ok (some (f, r))) :
    r.length < s.length := by
  obtain ⟨-, rfl⟩ := (F.next_eq_some s f r).1 h
  have := List.length_pos_of_ne_nil (F.bytes_ne_nil f)
  rw [List.length_append]
  omega

theorem parseWithin_enough (n m : Nat) (s : List β) (hn : s.length < n) (hm : s.length < m) :
    F.parseWithin n s = F.parseWithin m s := by
  induction n generalizing m s with
  | zero => omega
  | succ n ih =>
      cases m with
      | zero => omega
      | succ m =>
          cases h : F.next s with
          | error e => simp only [parseWithin, h]
          | ok o =>
              cases o with
              | none => simp only [parseWithin, h]
              | some fr =>
                  have shorter := next_shorter h
                  simp only [parseWithin, h]
                  rw [ih m fr.2 (by omega) (by omega)]

theorem parse_of_error {s : List β} {e : ε} (h : F.next s = .error e) :
    F.parse s = ⟨[], s, some e⟩ := by
  simp only [parse, parseWithin, h]

theorem parse_of_none {s : List β} (h : F.next s = .ok none) : F.parse s = ⟨[], s, none⟩ := by
  simp only [parse, parseWithin, h]

theorem parse_of_some {s r : List β} {f : φ} (h : F.next s = .ok (some (f, r))) :
    F.parse s = (F.parse r).prepend [f] := by
  have shorter := next_shorter h
  have step : F.parse s = (F.parseWithin s.length r).prepend [f] := by
    simp only [parse, parseWithin, h]
  rw [step, parseWithin_enough s.length (r.length + 1) r (by omega) (by omega), parse]

theorem parse_bytes_append {f : φ} (hf : F.Valid f) (s : List β) :
    F.parse (F.bytes f ++ s) = (F.parse s).prepend [f] :=
  parse_of_some ((F.next_eq_some ..).2 ⟨hf, rfl⟩)

theorem parse_flatMap_append {fs : List φ} (hfs : ∀ f ∈ fs, F.Valid f) (s : List β) :
    F.parse (fs.flatMap F.bytes ++ s) = (F.parse s).prepend fs := by
  induction fs with
  | nil => simp
  | cons f fs ih =>
      rw [List.flatMap_cons, List.append_assoc, parse_bytes_append (hfs f (by simp)),
        ih (fun g hg => hfs g (by simp [hg])), prepend_prepend]
      rfl

theorem parse_flatMap {fs : List φ} (hfs : ∀ f ∈ fs, F.Valid f) (empty : F.next [] = .ok none) :
    F.parse (fs.flatMap F.bytes) = ⟨fs, [], none⟩ := by
  have h := parse_flatMap_append hfs []
  rw [List.append_nil, parse_of_none empty] at h
  rw [h, Parsed.prepend, List.append_nil]

theorem parse_split (s : List β) :
    (∀ f ∈ (F.parse s).frames, F.Valid f) ∧
      s = (F.parse s).frames.flatMap F.bytes ++ (F.parse s).rest := by
  induction n : s.length using Nat.strong_induction_on generalizing s with
  | h n ih =>
      cases h : F.next s with
      | error e => simp [parse_of_error h]
      | ok o =>
          cases o with
          | none => simp [parse_of_none h]
          | some fr =>
              obtain ⟨f, r⟩ := fr
              obtain ⟨hf, rfl⟩ := (F.next_eq_some ..).1 h
              obtain ⟨valid, split⟩ := ih r.length (n ▸ next_shorter h) r rfl
              rw [parse_of_some h]
              refine ⟨?_, ?_⟩
              · simpa using ⟨hf, valid⟩
              · simpa using split

/-- The reading stops where `next` has no frame to give. -/
theorem next_rest (s : List β) :
    F.next (F.parse s).rest = match (F.parse s).error with
      | some e => .error e
      | none => .ok none := by
  induction n : s.length using Nat.strong_induction_on generalizing s with
  | h n ih =>
      cases h : F.next s with
      | error e => simp [parse_of_error h, h]
      | ok o =>
          cases o with
          | none => simp [parse_of_none h, h]
          | some fr =>
              obtain ⟨f, r⟩ := fr
              rw [parse_of_some h]
              exact ih r.length (n ▸ next_shorter h) r rfl

end Framer
