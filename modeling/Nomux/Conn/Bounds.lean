import Nomux.Conn.Queue

/-!
# How much a connection can hold

The receive buffer is capped where it is filled and kept short by compaction. The send queue grows by
a frame at a time, and output goes to it only while it has room.
-/

namespace Nomux
open Wire World

namespace Conn

structure Bounded (c : Conn) : Prop where
  ratio : c.rxPos = 0 ∨ 2 * c.rxPos < c.rx.length
  cap : c.buffered ≤ maxPendingRead
  fresh : c.preambleQueued = false → c.queued = 0

/-- Compaction keeps the whole buffer within twice the cap. -/
theorem Bounded.rx_lt {c : Conn} (h : c.Bounded) : c.rx.length < 2 * maxPendingRead := by
  have pos : 0 < maxPendingRead := by decide
  have cap := h.cap
  unfold buffered at cap
  rcases h.ratio with zero | compacted
  · omega
  · omega

theorem bounded_fresh (id : Nat) : ({ id } : Conn).Bounded :=
  ⟨.inl rfl, Nat.zero_le _, fun _ => rfl⟩

theorem Bounded.of_rx {c c' : Conn} (h : c.Bounded) (rx : c'.rx = c.rx)
    (rxPos : c'.rxPos = c.rxPos) (fresh : c'.preambleQueued = false → c'.queued = 0) :
    c'.Bounded := by
  obtain ⟨ratio, cap, -⟩ := h
  unfold buffered at cap
  refine ⟨?_, ?_, fresh⟩
  · rwa [rx, rxPos]
  · rwa [buffered, rx, rxPos]

theorem compact_short (buf : Bytes) (pos : Nat) :
    (compact buf pos).1.length - (compact buf pos).2 = buf.length - pos := by
  rw [← List.length_drop, ← List.length_drop, drop_compact]

theorem le_writeLoop (len : Nat) (script : List Answer) (pos : Nat) (w : World) :
    pos ≤ (writeLoop len script pos w).2.1 := by
  induction script generalizing pos w with
  | nil => exact Nat.le_refl _
  | cons answer rest ih =>
      rw [writeLoop]
      split
      · exact Nat.le_refl _
      · dsimp only
        split
        · exact Nat.le_refl _
        · exact (Nat.le_add_right ..).trans (ih ..)
        · exact Nat.le_refl _
        · exact ih ..
        · exact Nat.le_refl _

theorem flushSome_queued (c : Conn) (w : World) : (c.flushSome w).2.1.queued ≤ c.queued := by
  have further := le_writeLoop c.tx.length w.script c.txPos w
  unfold flushSome
  generalize writeLoop c.tx.length w.script c.txPos w = result at further
  obtain ⟨failed, pos, w'⟩ := result
  dsimp only at further ⊢
  split
  · exact Nat.sub_le_sub_left further _
  · exact (compact_short c.tx pos).le.trans (Nat.sub_le_sub_left further _)

theorem Bounded.fill {c : Conn} (h : c.Bounded) (chunkLen : Nat) (w : World) :
    (c.fill chunkLen w).2.1.Bounded := by
  obtain ⟨result, w', -, same | ended | ⟨bytes, -, short, grown⟩⟩ := c.fill_cases chunkLen w
  · rw [same]
    exact h
  · rw [ended]
    exact h.of_rx rfl rfl h.fresh
  · rw [grown]
    obtain ⟨ratio, cap, fresh⟩ := h
    have room : bytes.length ≤ maxPendingRead - c.buffered := short.trans (Nat.min_le_right ..)
    unfold buffered at cap room
    refine ⟨?_, ?_, fresh⟩
    · dsimp only
      rw [List.length_append]
      rcases ratio with zero | compacted
      · exact .inl zero
      · exact .inr (by omega)
    · simp only [buffered, List.length_append]
      omega

theorem Bounded.takeFrame {c : Conn} (h : c.Bounded) : c.takeFrame.2.Bounded := by
  have consumed : ∀ n, (c.consume n).Bounded := by
    intro n
    have fewer : (c.consume n).buffered ≤ c.buffered := by
      rw [← length_unread, ← length_unread, unread_consume, List.length_drop]
      exact Nat.sub_le ..
    refine ⟨?_, fewer.trans h.cap, h.fresh⟩
    unfold consume compact
    split
    · exact .inl rfl
    · split
      · exact .inl rfl
      · rename_i apart
        exact .inr (by dsimp only; omega)
  rw [takeFrame_eq]
  split
  · exact h
  · exact h
  · exact consumed _

theorem Bounded.send {c : Conn} (h : c.Bounded) (f : Frame) (w : World) :
    (c.send f w).2.1.Bounded := by
  rcases c.send_cases f w with queued | failed
  · rw [queued]
    exact h.of_rx rfl rfl fun no => (nomatch no)
  · rw [failed]
    exact h.of_rx rfl rfl fun no => (nomatch no)

theorem Bounded.flushSome {c : Conn} (h : c.Bounded) (w : World) :
    (c.flushSome w).2.1.Bounded := by
  have fewer := c.flushSome_queued w
  refine h.of_rx ?_ ?_ fun unqueued => ?_
  · unfold Conn.flushSome
    dsimp only
    split <;> rfl
  · unfold Conn.flushSome
    dsimp only
    split <;> rfl
  · have same : (c.flushSome w).2.1.preambleQueued = c.preambleQueued := by
      unfold Conn.flushSome
      dsimp only
      split <;> rfl
    rw [h.fresh (same.symm.trans unqueued)] at fewer
    exact Nat.eq_zero_of_le_zero fewer

theorem Bounded.send_queued {c : Conn} (h : c.Bounded) (f : Frame) (w : World) :
    (c.send f w).2.1.queued ≤ max c.queued serverPreamble.length + f.wire.length := by
  have preamble : ((if c.preambleQueued then c.tx else c.tx ++ serverPreamble) : Bytes).length -
      c.txPos ≤ max c.queued serverPreamble.length := by
    cases ready : c.preambleQueued with
    | true => exact Nat.le_max_left ..
    | false =>
        have empty := h.fresh ready
        unfold queued at empty
        refine le_max_of_le_right ?_
        show (c.tx ++ serverPreamble).length - c.txPos ≤ _
        rw [List.length_append]
        omega
  rcases c.send_cases f w with sent | failed
  · rw [sent]
    simp only [queued, Conn.queue, List.length_append] at preamble ⊢
    omega
  · rw [failed]
    simp only [queued] at preamble ⊢
    omega

/-- The most a queue with room can grow to by one chunk of output. -/
def maxAfterOutput : Nat := maxPendingWrite - 1 + headerLen + maxPayload

theorem length_wire_output (offset : UInt64) (data : Bytes) :
    (Frame.output offset data).wire.length = headerLen + (8 + data.length) := by
  simp [Frame.wire, Frame.payload, Frame.encodePayload, headerLen]

theorem length_wire_gap (offset : UInt64) : (Frame.gap offset).wire.length = 12 := by
  simp [Frame.wire, Frame.payload, Frame.encodePayload, headerLen]

theorem length_wire_exit (status : Int32) (kind : ExitKind) (secs : UInt32) :
    (Frame.exit status kind secs).wire.length = 13 := by
  simp [Frame.wire, Frame.payload, Frame.encodePayload, headerLen]

theorem Bounded.sendChunks_queued (parts : List Bytes)
    (fits : ∀ part ∈ parts, part.length ≤ maxOutputData) (offset : Nat) {c : Conn}
    (h : c.Bounded) (w : World) :
    (sendChunks parts offset c w).2.1.Bounded ∧
      (sendChunks parts offset c w).2.1.queued ≤ max c.queued maxAfterOutput := by
  induction parts generalizing offset c w with
  | nil => exact ⟨h, Nat.le_max_left ..⟩
  | cons part parts ih =>
      have short := fits part (List.mem_cons_self ..)
      have sent := h.send (.output (UInt64.ofNat offset) part) w
      have cost := h.send_queued (.output (UInt64.ofNat offset) part) w
      rw [length_wire_output] at cost
      rw [sendChunks]
      split
      · exact ⟨h, Nat.le_max_left ..⟩
      · rename_i room
        have grown : (c.send (.output (UInt64.ofNat offset) part) w).2.1.queued ≤ maxAfterOutput := by
          apply cost.trans
          simp only [maxAfterOutput, maxPendingWrite, maxOutputData, maxPayload, headerLen,
            serverPreamble, List.length_cons, List.length_nil] at *
          omega
        split
        · rename_i eq
          rw [eq] at sent grown
          exact ⟨sent, le_max_of_le_right grown⟩
        · rename_i eq
          rw [eq] at sent grown
          obtain ⟨bounded, more⟩ := ih (fun part inside => fits part (List.mem_cons_of_mem _ inside))
            (offset + part.length) sent _
          refine ⟨bounded, more.trans ?_⟩
          exact max_le (le_max_of_le_right grown) (Nat.le_max_right ..)

/-- Where `fill` declines to read, there is a frame to take or an error to answer. -/
theorem takeFrame_of_full {c : Conn} (full : maxPendingRead ≤ c.buffered) :
    c.takeFrame.1 ≠ .ok none := by
  rw [← length_unread] at full
  intro starved
  have none : nextFrame c.unread = .ok none := by
    rw [takeFrame_eq] at starved
    split at starved
    · cases starved
    · assumption
    · cases starved
  unfold nextFrame at none
  split at none
  · rename_i b b1 b2 b3 rest eq
    split at none
    · cases none
    · rename_i ty len dec
      split at none
      · cases none
      · rename_i short
        have small := decodeHeader_len_le dec
        rw [eq] at full
        simp only [List.length_cons, maxPendingRead, maxPayload] at full small
        omega
  · rename_i short
    rcases unread : c.unread with - | ⟨b, - | ⟨b1, - | ⟨b2, - | ⟨b3, rest⟩⟩⟩⟩
    case cons.cons.cons.cons => exact short b b1 b2 b3 rest unread
    all_goals simp [unread, maxPendingRead] at full

end Conn

end Nomux
