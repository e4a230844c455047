import Mathlib.Tactic

/-!
# Pieces of a history

`slice h i n` is the `n` items of a history from position `i`, and `tail h c` the last `c` items,
which start at position `base h c`. A window of capacity `c` over a growing history holds `tail`.
-/

namespace History

variable {α : Type}

def slice (h : List α) (i n : Nat) : List α := (h.drop i).take n

/-- Position of the oldest item a window of capacity `c` still holds. -/
def base (h : List α) (c : Nat) : Nat := h.length - min h.length c

def tail (h : List α) (c : Nat) : List α := h.drop (base h c)

@[simp] theorem length_slice (h : List α) (i n : Nat) :
    (slice h i n).length = min n (h.length - i) := by simp [slice]

theorem length_slice_of_le {h : List α} {i n : Nat} (le : i + n ≤ h.length) :
    (slice h i n).length = n := by
  rw [length_slice]
  omega

theorem slice_append {h : List α} {i n : Nat} (le : i + n ≤ h.length) (more : List α) :
    slice (h ++ more) i n = slice h i n := by
  unfold slice
  rw [List.drop_append_of_le_length (by omega), List.take_append_of_le_length (by simp; omega)]

theorem prefix_slice {h : List α} {i n : Nat} {d rest : List α} (split : h.drop i = d ++ rest)
    (len : d.length = n) : slice h i n = d := by
  rw [slice, split, ← len, List.take_left]

theorem take_succ_slice (h : List α) (i n : Nat) : h.take (i + n) = h.take i ++ slice h i n := by
  unfold slice
  rw [List.take_add]

theorem base_le (h : List α) (c : Nat) : base h c ≤ h.length := Nat.sub_le ..

theorem length_tail (h : List α) (c : Nat) : (tail h c).length = min h.length c := by
  rw [tail, List.length_drop, base]
  omega

def chunksWithin (n : Nat) : Nat → List α → List (List α)
  | 0, _ => []
  | fuel + 1, data => if data.isEmpty then [] else data.take n :: chunksWithin n fuel (data.drop n)

/-- `data` cut into pieces of `n`, the last one shorter. -/
def chunks (n : Nat) (data : List α) : List (List α) := chunksWithin n data.length data

theorem flatten_chunksWithin {n : Nat} (pos : 0 < n) (fuel : Nat) (data : List α)
    (enough : data.length ≤ fuel) : (chunksWithin n fuel data).flatten = data := by
  induction fuel generalizing data with
  | zero => simp [chunksWithin, List.length_eq_zero_iff.1 (Nat.le_zero.1 enough)]
  | succ fuel ih =>
      cases data with
      | nil => rfl
      | cons a data =>
          have shorter : ((a :: data).drop n).length ≤ fuel := by
            simp only [List.length_drop, List.length_cons] at enough ⊢
            omega
          simp [chunksWithin, ih _ shorter]

theorem flatten_chunks {n : Nat} (pos : 0 < n) (data : List α) : (chunks n data).flatten = data :=
  flatten_chunksWithin pos _ data (Nat.le_refl _)

theorem mem_chunksWithin {n : Nat} (pos : 0 < n) (fuel : Nat) (data part : List α)
    (h : part ∈ chunksWithin n fuel data) : part ≠ [] ∧ part.length ≤ n := by
  induction fuel generalizing data with
  | zero => simp [chunksWithin] at h
  | succ fuel ih =>
      cases data with
      | nil => simp [chunksWithin] at h
      | cons a data =>
          simp only [chunksWithin, List.isEmpty_cons, Bool.false_eq_true, if_false,
            List.mem_cons] at h
          rcases h with rfl | later
          · cases n with
            | zero => omega
            | succ n => simp
          · exact ih _ later

theorem mem_chunks {n : Nat} (pos : 0 < n) {data part : List α} (h : part ∈ chunks n data) :
    part ≠ [] ∧ part.length ≤ n := mem_chunksWithin pos _ data part h

variable {β : Type}

def latest (pick : α → Option β) (h : List α) : Option β := h.reverse.findSome? pick

theorem latest_append (pick : α → Option β) (h more : List α) :
    latest pick (h ++ more) = (latest pick more).or (latest pick h) := by
  rw [latest, List.reverse_append, List.findSome?_append]
  rfl

theorem latest_append_of_none {pick : α → Option β} {more : List α}
    (other : ∀ a ∈ more, pick a = none) (h : List α) : latest pick (h ++ more) = latest pick h := by
  have nothing : latest pick more = none := by
    apply List.findSome?_eq_none_iff.2
    intro a inside
    exact other a (List.mem_reverse.1 inside)
  rw [latest_append, nothing, Option.none_or]

theorem latest_snoc {pick : α → Option β} {a : α} {b : β} (picked : pick a = some b) (h : List α) :
    latest pick (h ++ [a]) = some b := by
  rw [latest_append]
  simp [latest, picked]

end History
