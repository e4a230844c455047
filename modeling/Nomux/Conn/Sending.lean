import Nomux.Conn.Queue
import Nomux.Session.Records

/-!
# Runs of sends and flushes

A connection that is sent any frames, those that fail to encode among them, and flushed into a socket
that takes as little as it likes. Its trace says what was queued and what the socket took.
-/

namespace Nomux
open Wire World

inductive Errand where
  | send (frame : Frame)
  | flush

structure Sending where
  conn : Conn
  world : World

namespace Sending

def frames (s : Sending) : List Frame := sentTo s.conn.id s.world.trace

def wrote (s : Sending) : Bytes := wroteTo s.conn.id s.world.trace

def step (s : Sending) : Errand → Sending
  | .send frame =>
      match s.conn.send frame s.world with
      | (_, conn, world) => { conn, world }
  | .flush =>
      match s.conn.flushSome s.world with
      | (_, conn, world) => { conn, world }

def run (s : Sending) (errands : List Errand) : Sending := errands.foldl step s

/-- What was written and what is queued is the preamble, once, and the frames. -/
def Carries (s : Sending) : Prop := s.conn.Carries s.wrote s.frames

theorem Carries.step {s : Sending} (h : s.Carries) (errand : Errand) : (s.step errand).Carries := by
  cases errand with
  | send frame =>
      rcases s.conn.send_cases frame s.world with queued | failed
      · have more := Conn.Carries.queue h frame
        simp only [Carries, Sending.step, queued, frames, wrote, World.log, sentTo_snoc, Conn.queue_id,
          sentTo_sent, wroteTo, List.flatMap_append] at more ⊢
        simpa using more
      · simp only [Carries, Sending.step, failed]
        exact Conn.Carries.preamble h
  | flush =>
      obtain ⟨result, tx, pos, w, bytes, flushed, quiet, bound, split⟩ :=
        s.conn.flushSome_cases s.world h.bound
      have moved := Conn.Carries.writing h bound split
      simp only [Carries, Sending.step, flushed, frames, wrote, World.log, quiet.trace, sentTo_snoc,
        Conn.writing_id, wroteTo, List.flatMap_append] at moved ⊢
      simpa [sentTo] using moved

theorem Carries.run {s : Sending} (h : s.Carries) (errands : List Errand) :
    (s.run errands).Carries := by
  induction errands generalizing s with
  | nil => exact h
  | cons errand errands ih => exact ih (h.step errand)

def stream (s : Sending) : Bytes :=
  if s.conn.preambleQueued then serverPreamble ++ s.frames.flatMap Frame.wire else []

theorem Carries.final {s : Sending} (h : s.Carries) :
    wroteTo s.conn.id (s.conn.flushFinal s.world).trace <+: s.stream := by
  have whole : s.wrote ++ s.conn.unsent = s.stream := h.split
  obtain ⟨w, quiet, none | ⟨bytes, front, some⟩⟩ := s.conn.flushFinal_cases s.world h.bound
  · rw [none, quiet.trace, ← whole]
    exact List.prefix_append ..
  · rw [some, World.log, quiet.trace, wroteTo, List.flatMap_append, ← wroteTo, ← whole]
    simpa [wrote] using front

theorem carries_fresh {id : Nat} {w : World} (unsent : sentTo id w.trace = [])
    (unwritten : wroteTo id w.trace = []) : Sending.Carries ⟨{ id }, w⟩ := by
  refine ⟨Nat.le_refl _, ?_, fun _ => unsent⟩
  simp [wrote, unwritten, Conn.unsent]

end Sending
end Nomux
