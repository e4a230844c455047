import Nomux.Daemon.RunSound
import Nomux.Session.Copy

/-!
# No output is lost unless a gap is reported

The session's guarantee for its output, at the daemon: the frames each connection is sent, the ring
behind them and `sent_through`.
-/

namespace Nomux
open Wire World

theorem Ring.Holds.unique {r s : Ring} {h : Bytes} (left : r.Holds h) (right : s.Holds h)
    (capacity : r.capacity = s.capacity) : r = s := by
  obtain ⟨buf, cap, base⟩ := r
  obtain ⟨buf', cap', base'⟩ := s
  have sameBuf := left.buf_eq.trans (capacity ▸ right.buf_eq.symm)
  have sameBase := left.base_eq.trans (capacity ▸ right.base_eq.symm)
  simp only at capacity sameBuf sameBase
  rw [capacity, sameBuf, sameBase]

theorem Sound.ring_eq {requested : Nat} {stage : Stage} {d : Daemon}
    (h : Sound (.start requested) stage d) : d.ring = ringOf requested d.world.trace := by
  have ring := h.2.ring
  have capacity := h.2.capacity
  obtain ⟨holds, same⟩ := ringOf_holds requested d.world.trace
  rw [(session_records ..).output] at ring
  rw [session_capacity] at capacity
  exact ring.unique holds (capacity.trans same.symm)

theorem Sound.sentThrough_eq {requested : Nat} {d : Daemon} {client : Attached}
    (h : Sound (.start requested) .greeted d) (small : (outputOf d.world.trace).length < 2 ^ 64)
    (attached : d.client = some client) :
    client.sentThrough = cursor (sentTo client.conn.id d.world.trace) := by
  have serves := h.2.client client attached
  have started := Link.Greeted.started serves.stage
  rw [session_sent] at started
  rw [serves.sentThrough, h.1.lawful.cursor_eq small started]

/-- Every frame goes on where those before it on its connection left the output cursor; the ring holds
the end of what was read; `sent_through` is the cursor; and whoever follows the frames has the
output, but for the holes that were announced. -/
theorem Daemon.Occurs.output_contiguous {requested : Nat} {d : Daemon} (h : Occurs requested d)
    (small : (outputOf d.world.trace).length < 2 ^ 64) :
    (∀ before c f after, d.world.trace = before ++ .sent c f :: after →
      f.Continues (ringOf requested before) (outputOf before) (sentTo c before)) ∧
    d.ring = ringOf requested d.world.trace ∧
    (∀ client, d.client = some client →
      client.sentThrough = cursor (sentTo client.conn.id d.world.trace)) ∧
    ∀ copy, Reassembled d.world.trace copy → copy.Faithful d.world.trace := by
  obtain ⟨pty, sound⟩ := h.sound
  refine ⟨fun before c f after split => ?_, sound.ring_eq, fun client attached => ?_,
    fun copy reassembled => reassembled.faithful h.lawful small⟩
  · exact h.lawful.continues small split
  · exact sound.sentThrough_eq small attached

/-- A call that is made for its time alone. -/
def idle : Answer := {}

/-- The poll that finds one source ready for reading. -/
def pollsReady (source : Source) : Answer :=
  { poll := .ok fun s => if s = source then { input := true } else {} }

def sampleHello : Hello :=
  { protocol := protocolVersion, agentForward := false, repaintCtrlL := false, ifDetached := false
    outOffset := 0, win := ⟨24, 80, 0, 0⟩, term := "" }

/-- A client is accepted and greets. -/
def greetingScript : List Answer :=
  List.replicate 3 idle ++ [pollsReady .listener, { accept := .ok ⟨true, true⟩ }, idle] ++
  List.replicate 4 idle ++ [pollsReady .pending, { read := .ok (Frame.hello sampleHello).wire },
    idle, idle, idle, { write := .ok 64 }]

/-- The terminal then prints six bytes, of which the ring can hold four. -/
def overrunning : Daemon :=
  Daemon.start { buf := [], capacity := 4, base := 0 }
    (greetingScript ++ [idle, pollsReady .pty, { read := .ok [1, 2, 3, 4, 5, 6] }]) 0

def overrun : Daemon := overrunning.passes 3

theorem overrunning_reachable (n : Nat) : Daemon.Reachable 4 (overrunning.passes n) :=
  .passes (.start _ 0 rfl) n

theorem overrun_occurs : Daemon.Occurs 4 overrun := .running (overrunning_reachable 3)

example : sentTo 0 overrun.world.trace =
    [.helloOk ⟨0, 0, false⟩, .gap 2, .output 2 [3, 4, 5, 6]] := by decide +kernel

theorem output_contiguous_overrun :
    Copy.Faithful overrun.world.trace [none, none, some 3, some 4, some 5, some 6] :=
  have greeted : overrun.world.trace[2]? = some (.attached 0 sampleHello) := rfl
  (overrun_occurs.output_contiguous (by decide +kernel)).2.2.2 _
    (.attached .empty (List.mem_of_getElem? greeted) rfl List.prefix_rfl)

end Nomux
