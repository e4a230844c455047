import Nomux.Conn.Basic
import Nomux.Wire.Stream

/-!
# Reassembly of the received stream

Whatever `fill` appends and `take_frame` removes, the bytes received are the frames taken followed by
what is still unread. The frames taken and those still to be had are therefore the frames of the
one-shot reading of the received bytes.
-/

namespace Nomux
open Wire World

theorem drop_compact (buf : Bytes) (pos : Nat) :
    (compact buf pos).1.drop (compact buf pos).2 = buf.drop pos := by
  unfold compact
  split
  · rename_i h
    simp [h]
  · split <;> simp

theorem compact_le {buf : Bytes} {pos : Nat} (h : pos ≤ buf.length) :
    (compact buf pos).2 ≤ (compact buf pos).1.length := by
  unfold compact
  split
  · exact Nat.le_refl _
  · split
    · exact Nat.zero_le _
    · exact h

namespace Conn

theorem length_unread (c : Conn) : c.unread.length = c.buffered := List.length_drop

theorem length_unsent (c : Conn) : c.unsent.length = c.queued := List.length_drop

def consume (c : Conn) (n : Nat) : Conn :=
  { c with rx := (compact c.rx (c.rxPos + n)).1, rxPos := (compact c.rx (c.rxPos + n)).2 }

@[simp] theorem consume_id (c : Conn) (n : Nat) : (c.consume n).id = c.id := rfl

theorem unread_consume (c : Conn) (n : Nat) : (c.consume n).unread = c.unread.drop n := by
  simp only [consume, unread, drop_compact, List.drop_drop]

theorem takeFrame_eq (c : Conn) :
    c.takeFrame = match nextFrame c.unread with
      | .error e => (.error e, c)
      | .ok none => (.ok none, c)
      | .ok (some (r, _)) => (.ok (some r), c.consume (RawFrame.bytes r).length) := by
  unfold takeFrame nextFrame
  generalize c.unread = available
  match available with
  | b :: b1 :: b2 :: b3 :: rest =>
      cases dec : decodeHeader (b, b1, b2, b3) with
      | error e => simp only [dec]
      | ok header =>
          obtain ⟨ty, len⟩ := header
          by_cases enough : len.toNat ≤ rest.length
          · have width : (RawFrame.bytes (ty, rest.take len.toNat)).length =
                headerLen + len.toNat := by
              rw [RawFrame.length_bytes, List.length_take, Nat.min_eq_left enough]
            simp only [dec, if_pos enough, consume, width]
          · simp only [dec, if_neg enough]
  | [] | [_] | [_, _] | [_, _, _] => rfl

theorem takeFrame_some {c c' : Conn} {r : RawFrame} (h : c.takeFrame = (.ok (some r), c')) :
    RawFrame.Valid r ∧ c.unread = RawFrame.bytes r ++ c'.unread ∧
      c' = c.consume (RawFrame.bytes r).length := by
  rw [takeFrame_eq] at h
  split at h
  · cases h
  · cases h
  · rename_i r' rest next
    cases h
    obtain ⟨valid, split⟩ := (nextFrame_eq_some ..).1 next
    refine ⟨valid, ?_, rfl⟩
    rw [unread_consume, split, List.drop_left]

theorem takeFrame_none {c c' : Conn} (h : c.takeFrame = (.ok none, c')) :
    nextFrame c.unread = .ok none ∧ c' = c := by
  rw [takeFrame_eq] at h
  split at h <;> cases h
  rename_i next
  exact ⟨next, rfl⟩

theorem takeFrame_error {c c' : Conn} {e : ProtoError} (h : c.takeFrame = (.error e, c')) :
    nextFrame c.unread = .error e ∧ c' = c := by
  rw [takeFrame_eq] at h
  split at h <;> cases h
  rename_i next
  exact ⟨next, rfl⟩

end Conn

def receivedOn (id : Nat) (trace : List Event) : Bytes :=
  trace.flatMap fun
    | .received c bytes => if c = id then bytes else []
    | _ => []

inductive Service where
  | fill (chunkLen : Nat)
  | takeFrame

structure Receiving where
  conn : Conn
  world : World
  taken : List RawFrame := []

namespace Receiving

def received (s : Receiving) : Bytes := receivedOn s.conn.id s.world.trace

def step (s : Receiving) : Service → Receiving
  | .fill chunkLen =>
      match s.conn.fill chunkLen s.world with
      | (_, conn, world) => { s with conn, world }
  | .takeFrame =>
      match s.conn.takeFrame with
      | (.ok (some r), conn) => { s with conn, taken := s.taken ++ [r] }
      | (_, conn) => { s with conn }

def run (s : Receiving) (services : List Service) : Receiving := services.foldl step s

structure Accounts (s : Receiving) : Prop where
  valid : ∀ r ∈ s.taken, RawFrame.Valid r
  bound : s.conn.rxPos ≤ s.conn.rx.length
  split : s.received = s.taken.flatMap RawFrame.bytes ++ s.conn.unread

end Receiving

theorem receivedOn_append (id : Nat) (t u : List Event) :
    receivedOn id (t ++ u) = receivedOn id t ++ receivedOn id u := List.flatMap_append

theorem Conn.fill_cases (c : Conn) (chunkLen : Nat) (w : World) :
    ∃ result w', Quiet w w' ∧
      (c.fill chunkLen w = (result, c, w') ∨
        c.fill chunkLen w = (.ok (), { c with eof := true }, w'.log (.endOfFile c.id)) ∨
        ∃ bytes, bytes ≠ [] ∧ bytes.length ≤ min chunkLen (maxPendingRead - c.buffered) ∧
          c.fill chunkLen w =
            (.ok (), { c with rx := c.rx ++ bytes }, w'.log (.received c.id bytes))) := by
  unfold Conn.fill
  split
  · exact ⟨.ok (), w, .refl w, .inl rfl⟩
  · split
    · exact ⟨.ok (), w, .refl w, .inl rfl⟩
    · have quiet := w.read_quiet (min chunkLen (maxPendingRead - c.buffered))
      have short : ∀ bytes w', w.read (min chunkLen (maxPendingRead - c.buffered)) = (.ok bytes, w') →
          bytes.length ≤ min chunkLen (maxPendingRead - c.buffered) := by
        intro bytes w' h
        exact w.read_length h
      split
      · rename_i w' h
        exact ⟨.ok (), w', by simpa [h] using quiet, .inr (.inl rfl)⟩
      · rename_i bytes w' nonempty h
        exact ⟨.ok (), w', by simpa [h] using quiet,
          .inr (.inr ⟨bytes, fun nil => nonempty (nil ▸ rfl), short _ _ h, rfl⟩)⟩
      · rename_i w' h
        exact ⟨.ok (), w', by simpa [h] using quiet, .inl rfl⟩
      · rename_i err w' _ h
        exact ⟨.error err, w', by simpa [h] using quiet, .inl rfl⟩

namespace Receiving

theorem Accounts.fill {s : Receiving} (h : s.Accounts) (chunkLen : Nat) :
    (s.step (.fill chunkLen)).Accounts := by
  obtain ⟨result, w, quiet, idle | eof | ⟨bytes, -, -, more⟩⟩ := s.conn.fill_cases chunkLen s.world
  · refine ⟨by simpa [step, idle] using h.valid, by simpa [step, idle] using h.bound, ?_⟩
    simpa [step, idle, received, quiet.trace] using h.split
  · refine ⟨by simpa [step, eof] using h.valid, by simpa [step, eof] using h.bound, ?_⟩
    simpa [step, eof, received, quiet.trace, log, receivedOn_append, receivedOn, Conn.unread]
      using h.split
  · refine ⟨by simpa [step, more] using h.valid, ?_, ?_⟩
    · have := h.bound
      simp only [step, more, List.length_append]
      omega
    · have whole := h.split
      simp only [received, Conn.unread] at whole
      simp only [step, more, received, log, receivedOn_append, quiet.trace, whole, Conn.unread,
        List.drop_append_of_le_length h.bound]
      simp [receivedOn]

theorem Accounts.takeFrame {s : Receiving} (h : s.Accounts) : (s.step .takeFrame).Accounts := by
  cases take : s.conn.takeFrame with
  | mk result conn =>
      rcases result with e | _ | r
      · obtain ⟨-, rfl⟩ := Conn.takeFrame_error take
        simpa only [step, take] using h
      · obtain ⟨-, rfl⟩ := Conn.takeFrame_none take
        simpa only [step, take] using h
      · obtain ⟨valid, front, rfl⟩ := Conn.takeFrame_some take
        have enough := congrArg List.length front
        rw [Conn.length_unread, List.length_append] at enough
        refine ⟨?_, ?_, ?_⟩
        · simp only [step, take, List.mem_append, List.mem_singleton]
          rintro r' (old | rfl)
          · exact h.valid r' old
          · exact valid
        · have := h.bound
          simp only [step, take]
          refine compact_le ?_
          simp only [Conn.buffered] at enough
          omega
        · have whole := h.split
          rw [front] at whole
          simp only [step, take, List.flatMap_append, List.flatMap_cons, List.flatMap_nil,
            List.append_nil, List.append_assoc]
          simpa only [received, Conn.consume_id] using whole

theorem Accounts.run {s : Receiving} (h : s.Accounts) (services : List Service) :
    (s.run services).Accounts := by
  induction services generalizing s with
  | nil => exact h
  | cons service services ih =>
      cases service with
      | fill chunkLen => exact ih (h.fill chunkLen)
      | takeFrame => exact ih h.takeFrame

theorem Accounts.parse {s : Receiving} (h : s.Accounts) :
    wireFramer.parse s.received = (wireFramer.parse s.conn.unread).prepend s.taken := by
  rw [h.split]
  exact Framer.parse_flatMap_append h.valid _

theorem run_stuck {s : Receiving} (h : s.step .takeFrame = s) (n : Nat) :
    s.run (.replicate n .takeFrame) = s := by
  induction n with
  | zero => rfl
  | succ n ih =>
      rw [run, List.replicate_succ, List.foldl_cons, h]
      exact ih

/-- Decoding alone takes the frames of the unread bytes, all of them if it goes on for long enough. -/
theorem drain (s : Receiving) (n : Nat) (enough : s.conn.buffered < n) :
    (s.run (.replicate n .takeFrame)).taken =
      s.taken ++ (wireFramer.parse s.conn.unread).frames := by
  induction n generalizing s with
  | zero => omega
  | succ n ih =>
      cases take : s.conn.takeFrame with
      | mk result conn =>
          rcases result with e | _ | r
          · obtain ⟨stop, rfl⟩ := Conn.takeFrame_error take
            rw [run_stuck (by simp only [step, take]), Framer.parse_of_error (F := wireFramer) stop,
              List.append_nil]
          · obtain ⟨stop, rfl⟩ := Conn.takeFrame_none take
            rw [run_stuck (by simp only [step, take]), Framer.parse_of_none (F := wireFramer) stop,
              List.append_nil]
          · obtain ⟨valid, front, -⟩ := Conn.takeFrame_some take
            have shorter := congrArg List.length front
            rw [List.length_append, Conn.length_unread, Conn.length_unread,
              RawFrame.length_bytes, headerLen] at shorter
            have rest := ih { s with conn, taken := s.taken ++ [r] } (by simp only; omega)
            have first : s.run (.replicate (n + 1) .takeFrame) =
                ({ s with conn, taken := s.taken ++ [r] } : Receiving).run
                  (.replicate n .takeFrame) := by
              rw [run, List.replicate_succ, List.foldl_cons]
              simp only [step, take]
              rfl
            rw [first, rest, front, parse_raw_append valid]
            simp

end Receiving
end Nomux
