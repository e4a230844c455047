import Nomux.Wire.Basic
import Nomux.Lib.History

/-!
# The output ring

`ring.rs`: a window over the tail of the output stream, addressed by absolute offset. The deque is
its contents; where its two halves meet is the allocator's business, so `slicesFrom` takes that
place as an argument and nothing below depends on it.
-/

namespace Nomux
open History

structure Ring where
  buf : Bytes
  capacity : Nat
  base : Nat
  deriving DecidableEq

namespace Ring

/-- `try_new`; `reserved` is whether the allocator granted the reservation. -/
def tryNew (reserved : Bool) (capacity : Nat) : Option Ring :=
  if reserved then some { buf := [], capacity := max capacity 1, base := 0 } else none

def «end» (r : Ring) : Nat := r.base + r.buf.length

def push (r : Ring) (data : Bytes) : Ring :=
  let overflow := r.buf.length + data.length - r.capacity
  let fromBuf := min overflow r.buf.length
  { r with
    base := r.base + overflow
    buf := r.buf.drop fromBuf ++ data.drop (overflow - fromBuf) }

def slicesFrom (r : Ring) (wrap start : Nat) : Bytes × Bytes :=
  let skip := start - r.base
  let front := r.buf.take wrap
  let back := r.buf.drop wrap
  (front.drop skip, back.drop (skip - front.length))

/-- The ring is the window of its capacity over the history `h`. -/
structure Holds (r : Ring) (h : Bytes) : Prop where
  capacity_pos : 0 < r.capacity
  base_eq : r.base = History.base h r.capacity
  buf_eq : r.buf = History.tail h r.capacity

theorem Holds.end_eq {r : Ring} {h : Bytes} (holds : r.Holds h) : r.end = h.length := by
  rw [Ring.end, holds.base_eq, holds.buf_eq, length_tail, History.base]
  omega

theorem holds_tryNew {reserved : Bool} {capacity : Nat} {r : Ring}
    (h : tryNew reserved capacity = some r) : r.Holds [] := by
  unfold tryNew at h
  split at h
  · cases h
    exact ⟨Nat.lt_of_lt_of_le Nat.one_pos (Nat.le_max_right ..), by simp [History.base],
      by simp [History.tail]⟩
  · cases h

@[simp] theorem push_capacity (r : Ring) (data : Bytes) : (r.push data).capacity = r.capacity := rfl

theorem push_buf (r : Ring) (data : Bytes) :
    (r.push data).buf = (r.buf ++ data).drop (r.buf.length + data.length - r.capacity) := by
  simp only [push, List.drop_append]
  congr 1
  · by_cases le : r.buf.length + data.length - r.capacity ≤ r.buf.length
    · rw [Nat.min_eq_left le]
    · rw [Nat.min_eq_right (by omega), List.drop_of_length_le (Nat.le_refl _),
        List.drop_of_length_le (by omega)]
  · congr 1
    omega

/-- Pushing moves the window to the longer history, however the eviction splits. -/
theorem Holds.push {r : Ring} {h : Bytes} (holds : r.Holds h) (data : Bytes) :
    (r.push data).Holds (h ++ data) := by
  have len : r.buf.length = min h.length r.capacity := by rw [holds.buf_eq, length_tail]
  refine ⟨holds.capacity_pos, ?_, ?_⟩
  · change r.base + (r.buf.length + data.length - r.capacity) = _
    rw [holds.base_eq, len, push_capacity, History.base, History.base, List.length_append]
    omega
  · have window : r.buf ++ data = (h ++ data).drop (History.base h r.capacity) := by
      rw [List.drop_append_of_le_length (base_le ..), holds.buf_eq, History.tail]
    rw [push_buf, window, List.drop_drop, len, push_capacity, History.tail]
    congr 1
    simp only [History.base, List.length_append]
    omega

theorem slicesFrom_append (r : Ring) (wrap start : Nat) :
    (r.slicesFrom wrap start).1 ++ (r.slicesFrom wrap start).2 = r.buf.drop (start - r.base) := by
  conv_rhs => rw [← List.take_append_drop wrap r.buf, List.drop_append]
  rfl

theorem Holds.slicesFrom {r : Ring} {h : Bytes} (holds : r.Holds h) (wrap start : Nat) :
    (r.slicesFrom wrap start).1 ++ (r.slicesFrom wrap start).2 = h.drop (max start r.base) := by
  rw [slicesFrom_append, holds.buf_eq, History.tail, List.drop_drop, ← holds.base_eq]
  congr 1
  omega

theorem Holds.pushes {r : Ring} {h : Bytes} (holds : r.Holds h) (pushes : List Bytes) :
    (pushes.foldl Ring.push r).Holds (h ++ pushes.flatten) ∧
      (pushes.foldl Ring.push r).capacity = r.capacity := by
  induction pushes generalizing r h with
  | nil => simpa using holds
  | cons data pushes ih =>
      obtain ⟨later, capacity⟩ := ih (holds.push data)
      rw [List.foldl_cons, List.flatten_cons, ← List.append_assoc]
      exact ⟨later, capacity⟩

/-- After any pushes the ring is the window of its capacity over all that was pushed. -/
theorem refines_window {reserved : Bool} {requested : Nat} {new : Ring}
    (made : tryNew reserved requested = some new) (pushes : List Bytes) :
    let r := pushes.foldl Ring.push new
    let T := pushes.flatten
    let kept := min T.length (max requested 1)
    r.end = T.length ∧ r.base = T.length - kept ∧ r.buf = T.drop (T.length - kept) ∧
      ∀ wrap start, (r.slicesFrom wrap start).1 ++ (r.slicesFrom wrap start).2 =
        T.drop (max start r.base) := by
  intro r T kept
  obtain ⟨holds, same⟩ := (holds_tryNew made).pushes pushes
  have capacity : r.capacity = max requested 1 := by
    rw [same]
    unfold tryNew at made
    split at made
    · cases made
      rfl
    · cases made
  rw [List.nil_append] at holds
  have base : r.base = T.length - kept := by
    rw [holds.base_eq, History.base, capacity]
  refine ⟨holds.end_eq, base, ?_, holds.slicesFrom⟩
  rw [holds.buf_eq, History.tail, ← holds.base_eq, base]

theorem refines_window_evicting :
    (([[1, 2], [], [3, 4, 5]] : List Bytes).foldl Ring.push ⟨[], 3, 0⟩).end = 5 :=
  (refines_window (show tryNew true 3 = some ⟨[], 3, 0⟩ from rfl) [[1, 2], [], [3, 4, 5]]).1

end Ring
end Nomux
