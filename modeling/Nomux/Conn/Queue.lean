import Nomux.Conn.Receive

/-!
# What a connection carries

The bytes written to the socket and those still queued are the preamble, once, and the frames queued,
whole and in order. Short writes, compactions and failed encodes leave that as it is.
-/

namespace Nomux
open Wire World

def Wire.Frame.Encodable (f : Frame) : Prop := f.WellFormed ∧ f.payload.length ≤ maxPayload

namespace Conn

structure Carries (c : Conn) (wrote : Bytes) (frames : List Frame) : Prop where
  bound : c.txPos ≤ c.tx.length
  split : wrote ++ c.unsent =
    if c.preambleQueued then serverPreamble ++ frames.flatMap Frame.wire else []
  fresh : c.preambleQueued = false → frames = []

def queue (c : Conn) (frame : Frame) : Conn :=
  { c with
    tx := (if c.preambleQueued then c.tx else c.tx ++ serverPreamble) ++ frame.wire
    preambleQueued := true }

@[simp] theorem queue_id (c : Conn) (f : Frame) : (c.queue f).id = c.id := rfl

theorem send_eq (c : Conn) {f : Frame} (h : f.Encodable) (w : World) :
    c.send f w = (true, c.queue f, w.log (.sent c.id f)) := by
  simp only [send, queue, encode_wire h.1 h.2]

/-- A failed encode queues at most the preamble. -/
theorem send_cases (c : Conn) (f : Frame) (w : World) :
    c.send f w = (true, c.queue f, w.log (.sent c.id f)) ∨
    c.send f w = (false, { c with
      tx := if c.preambleQueued then c.tx else c.tx ++ serverPreamble
      preambleQueued := true }, w) := by
  unfold send queue
  cases enc : f.encode (if c.preambleQueued then c.tx else c.tx ++ serverPreamble) with
  | mk result after =>
      cases result with
      | error e => exact .inr (by simp only [enc, encode_of_not_ok enc])
      | ok u => exact .inl (by simp only [enc, encode_eq_ok enc])

theorem Carries.preamble {c : Conn} {wrote : Bytes} {frames : List Frame}
    (h : c.Carries wrote frames) :
    ({ c with
      tx := if c.preambleQueued then c.tx else c.tx ++ serverPreamble
      preambleQueued := true } : Conn).Carries wrote frames := by
  have split := h.split
  cases queued : c.preambleQueued with
  | true =>
      refine ⟨h.bound, ?_, fun no => by cases no⟩
      simpa [queued, unsent] using split
  | false =>
      have bound := h.bound
      rw [queued] at split
      refine ⟨?_, ?_, fun no => by cases no⟩
      · simp only [Bool.false_eq_true, if_false, List.length_append]
        omega
      · obtain ⟨rfl, rest⟩ := List.append_eq_nil_iff.1 split
        simp only [unsent] at rest
        simp [unsent, List.drop_append_of_le_length bound, rest, h.fresh queued]

theorem Carries.queue {c : Conn} {wrote : Bytes} {frames : List Frame}
    (h : c.Carries wrote frames) (f : Frame) : (c.queue f).Carries wrote (frames ++ [f]) := by
  have ready := h.preamble
  have bound := ready.bound
  have split := ready.split
  refine ⟨?_, ?_, fun no => by cases no⟩
  · simp only [Conn.queue, List.length_append] at bound ⊢
    omega
  · simp only [unsent] at split
    simp only [Conn.queue, unsent, List.drop_append_of_le_length bound]
    rw [← List.append_assoc, split]
    simp

def writing (c : Conn) (tx : Bytes) (txPos : Nat) : Conn := { c with tx, txPos }

@[simp] theorem writing_id (c : Conn) (tx : Bytes) (pos : Nat) : (c.writing tx pos).id = c.id := rfl

theorem writeLoop_spec (len : Nat) (script : List Answer) (pos : Nat) (w : World)
    (le : pos ≤ len) :
    pos ≤ (writeLoop len script pos w).2.1 ∧ (writeLoop len script pos w).2.1 ≤ len ∧
      Quiet w (writeLoop len script pos w).2.2 := by
  induction script generalizing pos w with
  | nil => exact ⟨Nat.le_refl _, le, rfl, rfl⟩
  | cons answer rest ih =>
      rw [writeLoop]
      split
      · exact ⟨Nat.le_refl _, le, rfl, rfl⟩
      · dsimp only
        split
        · exact ⟨Nat.le_refl _, le, rfl, rfl⟩
        · rename_i n _ _
          obtain ⟨low, high, quiet⟩ := ih (pos + min n (len - pos))
            { w with script := rest, now := w.now + answer.elapsed } (by omega)
          exact ⟨by omega, high, quiet.trace, quiet.nextConn⟩
        · exact ⟨Nat.le_refl _, le, rfl, rfl⟩
        · obtain ⟨low, high, quiet⟩ := ih pos
            { w with script := rest, now := w.now + answer.elapsed } le
          exact ⟨low, high, quiet.trace, quiet.nextConn⟩
        · exact ⟨Nat.le_refl _, le, rfl, rfl⟩

theorem finalLoop_spec (len deadline : Nat) (script : List Answer) (pos : Nat) (w : World)
    (le : pos ≤ len) :
    pos ≤ (finalLoop len deadline script pos w).1 ∧ (finalLoop len deadline script pos w).1 ≤ len ∧
      Quiet w (finalLoop len deadline script pos w).2 := by
  induction script generalizing pos w with
  | nil => exact ⟨Nat.le_refl _, le, rfl, rfl⟩
  | cons answer rest ih =>
      rw [finalLoop]
      split
      · exact ⟨Nat.le_refl _, le, rfl, rfl⟩
      · dsimp only
        split
        · exact ⟨Nat.le_refl _, le, rfl, rfl⟩
        · split
          · exact ⟨Nat.le_refl _, le, rfl, rfl⟩
          · split
            · exact ⟨Nat.le_refl _, le, rfl, rfl⟩
            · rename_i n _ _
              obtain ⟨low, high, quiet⟩ := ih (pos + min n (len - pos))
                { w with script := rest, now := w.now + answer.elapsed } (by omega)
              exact ⟨by omega, high, quiet.trace, quiet.nextConn⟩
            · obtain ⟨low, high, quiet⟩ := ih pos
                { w with script := rest, now := w.now + answer.elapsed } le
              exact ⟨low, high, quiet.trace, quiet.nextConn⟩
            · exact ⟨Nat.le_refl _, le, rfl, rfl⟩

theorem unsent_advance (c : Conn) {pos : Nat} (low : c.txPos ≤ pos) :
    c.unsent.take (pos - c.txPos) ++ c.tx.drop pos = c.unsent := by
  have rest : c.tx.drop pos = c.unsent.drop (pos - c.txPos) := by
    rw [unsent, List.drop_drop]
    congr 1
    omega
  rw [rest, List.take_append_drop]

theorem flushSome_cases (c : Conn) (w : World) (bound : c.txPos ≤ c.tx.length) :
    ∃ result tx pos w' bytes,
      c.flushSome w = (result, c.writing tx pos, w'.log (.wrote c.id bytes)) ∧ Quiet w w' ∧
      pos ≤ tx.length ∧ bytes ++ tx.drop pos = c.unsent := by
  obtain ⟨low, high, quiet⟩ := writeLoop_spec c.tx.length w.script c.txPos w bound
  unfold flushSome
  cases loop : writeLoop c.tx.length w.script c.txPos w with
  | mk failed stop =>
      obtain ⟨pos, w'⟩ := stop
      simp only [loop] at low high quiet
      cases failed with
      | true => exact ⟨_, c.tx, pos, w', _, rfl, quiet, high, c.unsent_advance low⟩
      | false =>
          refine ⟨_, (compact c.tx pos).1, (compact c.tx pos).2, w', _, rfl, quiet,
            compact_le high, ?_⟩
          rw [drop_compact]
          exact c.unsent_advance low

theorem writeLoop_trace (len : Nat) (script : List Answer) (pos : Nat) (w : World) :
    (writeLoop len script pos w).2.2.trace = w.trace := by
  induction script generalizing pos w with
  | nil => rfl
  | cons answer rest ih =>
      rw [writeLoop]
      split
      · rfl
      · dsimp only
        split <;> first | rfl | exact ih ..

theorem flushSome_trace (c : Conn) (w : World) :
    ∃ bytes, (c.flushSome w).2.2.trace = w.trace ++ [.wrote c.id bytes] ∧
      (c.flushSome w).2.1.id = c.id := by
  have trace := writeLoop_trace c.tx.length w.script c.txPos w
  unfold flushSome
  generalize writeLoop c.tx.length w.script c.txPos w = result at trace
  obtain ⟨failed, pos, w'⟩ := result
  dsimp only at trace ⊢
  split <;> exact ⟨_, congrArg (· ++ [_]) trace, rfl⟩

theorem Carries.writing {c : Conn} {wrote bytes tx : Bytes} {pos : Nat} {frames : List Frame}
    (h : c.Carries wrote frames) (bound : pos ≤ tx.length)
    (split : bytes ++ tx.drop pos = c.unsent) :
    (c.writing tx pos).Carries (wrote ++ bytes) frames := by
  refine ⟨bound, ?_, h.fresh⟩
  have whole := h.split
  rw [← split, ← List.append_assoc] at whole
  exact whole

theorem flushFinal_cases (c : Conn) (w : World) (bound : c.txPos ≤ c.tx.length) :
    ∃ w', Quiet w w' ∧
      (c.flushFinal w = w' ∨
        ∃ bytes, bytes <+: c.unsent ∧ c.flushFinal w = w'.log (.wrote c.id bytes)) := by
  have draw := w.draw_quiet
  unfold flushFinal
  cases drawn : w.draw with
  | mk answer w₁ =>
      simp only [drawn] at draw
      dsimp only
      split
      · exact ⟨w₁, draw, .inl rfl⟩
      · obtain ⟨-, -, quiet⟩ := finalLoop_spec c.tx.length (w₁.now + finalFlushTimeout) w₁.script
          c.txPos w₁ bound
        exact ⟨_, draw.trans quiet, .inr ⟨_, List.take_prefix .., rfl⟩⟩

end Conn
end Nomux
