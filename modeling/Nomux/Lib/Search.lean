import Mathlib.Tactic

/-!
# Searching lists

The first mark in a list, and the place of a value in an ascending one.
-/

namespace Search

variable {α : Type}

section

variable [BEq α] [LawfulBEq α] {mark : α}

theorem findIdx?_append {front : List α} (absent : mark ∉ front) (back : List α) :
    (front ++ mark :: back).findIdx? (· == mark) = some front.length := by
  rw [List.findIdx?_append, List.findIdx?_eq_none_iff.2]
  · simp [List.findIdx?_cons]
  · intro value member
    apply beq_false_of_ne
    intro same
    exact absent (same ▸ member)

theorem of_findIdx? {whole : List α} {i : Nat} (found : whole.findIdx? (· == mark) = some i) :
    mark ∉ whole.take i ∧ whole = whole.take i ++ mark :: whole.drop (i + 1) := by
  obtain ⟨within, hit, before⟩ := List.findIdx?_eq_some_iff_getElem.1 found
  constructor
  · intro member
    obtain ⟨j, bound, same⟩ := List.mem_iff_getElem.1 member
    rw [List.getElem_take] at same
    apply before j (by simp at bound; omega)
    rw [same]
    exact beq_self_eq_true mark
  · have at_mark : whole[i] = mark := by simpa using hit
    rw [← at_mark, List.getElem_cons_drop, List.take_append_drop]

end

section

variable (below : α → α → Prop) [DecidableRel below]

/-- Where a value is in an ascending list, or else where it belongs. -/
def place (known : List α) (value : α) : Nat := known.findIdx fun other => !decide (below other value)

variable {below}

theorem insertIdx_place (known : List α) (value : α) :
    known.insertIdx (place below known value) value =
      known.takeWhile (fun other => below other value) ++
        value :: known.dropWhile (fun other => below other value) := by
  unfold place
  induction known with
  | nil => rfl
  | cons other known ih =>
      by_cases before : below other value
      · simp [List.findIdx_cons, before, ih]
      · simp [List.findIdx_cons, before]

theorem getElem?_place (known : List α) (value : α) :
    known[place below known value]? = (known.dropWhile fun other => below other value).head? := by
  unfold place
  induction known with
  | nil => rfl
  | cons other known ih =>
      by_cases before : below other value
      · simp [List.findIdx_cons, before, ih]
      · simp [List.findIdx_cons, before]

theorem mem_insertIdx_place {known : List α} {value other : α} :
    other ∈ known.insertIdx (place below known value) value ↔ other = value ∨ other ∈ known :=
  List.mem_insertIdx List.findIdx_le_length

theorem ascending_insertIdx (trans : ∀ {a b c : α}, below a b → below b c → below a c)
    (connected : ∀ {a b : α}, ¬ below a b → a ≠ b → below b a) {known : List α} {value : α}
    (ascending : known.Pairwise below) (absent : known[place below known value]? ≠ some value) :
    (known.insertIdx (place below known value) value).Pairwise below := by
  rw [insertIdx_place]
  rw [← List.takeWhile_append_dropWhile (p := fun other => below other value) (l := known),
    List.pairwise_append] at ascending
  obtain ⟨front, back, across⟩ := ascending
  have before : ∀ other ∈ known.takeWhile (fun other => below other value), below other value := by
    intro other member
    simpa using List.all_eq_true.1 List.all_takeWhile other member
  have after : ∀ other ∈ known.dropWhile (fun other => below other value), below value other := by
    rw [getElem?_place] at absent
    cases rest : known.dropWhile (fun other => below other value) with
    | nil => simp
    | cons first rest' =>
        rw [rest] at absent back
        have first_not : ¬ below first value := by
          have := List.head?_dropWhile_not (fun other => below other value) known
          rw [rest] at this
          simpa using this
        have above : below value first := connected first_not (by simpa using absent)
        intro other member
        rcases List.mem_cons.1 member with rfl | later
        · exact above
        · exact trans above (List.rel_of_pairwise_cons back later)
  rw [List.pairwise_append, List.pairwise_cons]
  constructor
  · exact front
  · constructor
    · exact ⟨after, back⟩
    · intro a member b other
      rcases List.mem_cons.1 other with rfl | later
      · exact before a member
      · exact across a member b later

end

end Search
