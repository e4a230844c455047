import Nomux.Daemon.Output
import Nomux.Session.Responses
import Nomux.Conn.Sending

/-!
# Every response stream is well formed

The session's guarantee for its connections, at the daemon: what the sockets took and what the two
queues still hold.
-/

namespace Nomux
open Wire World

theorem Linked.whole {c : Conn} {capacity : Nat} {t : List Event}
    (h : Linked c ((session capacity t).links c.id)) :
    wroteTo c.id t ++ c.unsent = streamOf (sentTo c.id t) := by
  rw [← session_wrote capacity, ← session_stream capacity]
  exact h.stream

/-- Of every connection the socket has taken a front part of whole frames in a permitted order, and
of the two that are open the queue holds the rest. A single connection keeps to that whatever is sent
on it, encodable or not. -/
theorem Daemon.Occurs.responses_well_formed {requested : Nat} {d : Daemon} (h : Occurs requested d) :
    WellFormedStreams d.world.trace ∧
    (∀ client, d.client = some client → wroteTo client.conn.id d.world.trace ++ client.conn.unsent =
      streamOf (sentTo client.conn.id d.world.trace)) ∧
    (∀ conn deadline, d.pending = some (conn, deadline) →
      wroteTo conn.id d.world.trace ++ conn.unsent = streamOf (sentTo conn.id d.world.trace)) ∧
    ∀ id (w : World) errands, sentTo id w.trace = [] → wroteTo id w.trace = [] →
      let s := Sending.run ⟨{ id }, w⟩ errands
      s.wrote ++ s.conn.unsent = s.stream ∧
        wroteTo s.conn.id (s.conn.flushFinal s.world).trace <+: s.stream := by
  obtain ⟨pty, sound⟩ := h.sound
  refine ⟨h.lawful.wellFormedStreams, fun client attached => ?_, fun conn deadline waiting => ?_,
    fun id w errands unsent unwritten => ?_⟩
  · exact (sound.2.client client attached).linked.whole
  · exact (sound.2.pending conn deadline waiting).linked.whole
  · have carries := (Sending.carries_fresh unsent unwritten).run errands
    exact ⟨carries.split, carries.final⟩

theorem responses_well_formed_overrun :
    Responses [.helloOk ⟨0, 0, false⟩, .gap 2, .output 2 [3, 4, 5, 6]] := by
  have sent : sentTo 0 overrun.world.trace =
      [.helloOk ⟨0, 0, false⟩, .gap 2, .output 2 [3, 4, 5, 6]] := by decide +kernel
  rw [← sent]
  exact overrun_occurs.responses_well_formed.1.responses 0 _ [] (List.append_nil _).symm

end Nomux
