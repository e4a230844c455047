import Nomux.Daemon.Pass
import Nomux.Conn.Queue

/-!
# What the client's functions leave alone

Everything done for or on behalf of the attached client changes the client, the agent slot, the input
and the size asked for. The terminal, the ring and the pending connection stay as they are.
-/

namespace Nomux
open Wire World

/-- A change confined to what clients have a say in. -/
def ClientWork (d d' : Daemon) : Prop :=
  ∃ world client agent inApplied pendingInput win lastDetach,
    d' = { d with world, client, agent, inApplied, pendingInput, win, lastDetach }

namespace ClientWork

variable {a b c : Daemon}

theorem refl (d : Daemon) : ClientWork d d := ⟨_, _, _, _, _, _, _, rfl⟩

theorem trans (ab : ClientWork a b) (bc : ClientWork b c) : ClientWork a c := by
  obtain ⟨_, _, _, _, _, _, _, rfl⟩ := ab
  obtain ⟨_, _, _, _, _, _, _, rfl⟩ := bc
  exact ⟨_, _, _, _, _, _, _, rfl⟩

theorem stop (h : ClientWork a b) : b.stop = a.stop := by
  obtain ⟨_, _, _, _, _, _, _, rfl⟩ := h
  rfl

theorem ring (h : ClientWork a b) : b.ring = a.ring := by
  obtain ⟨_, _, _, _, _, _, _, rfl⟩ := h
  rfl

theorem pty (h : ClientWork a b) : b.pty = a.pty := by
  obtain ⟨_, _, _, _, _, _, _, rfl⟩ := h
  rfl

theorem pending (h : ClientWork a b) : b.pending = a.pending := by
  obtain ⟨_, _, _, _, _, _, _, rfl⟩ := h
  rfl

theorem terminalClosedAt (h : ClientWork a b) : b.terminalClosedAt = a.terminalClosedAt := by
  obtain ⟨_, _, _, _, _, _, _, rfl⟩ := h
  rfl

theorem outcome (h : ClientWork a b) : b.outcome = a.outcome := by
  obtain ⟨_, _, _, _, _, _, _, rfl⟩ := h
  rfl

end ClientWork

namespace Daemon

theorem tellClient_work (d : Daemon) (f : Frame) : ClientWork d (d.tellClient f) := by
  unfold tellClient
  split <;> exact ⟨_, _, _, _, _, _, _, rfl⟩

theorem closeAgentChannel_work (d : Daemon) : ClientWork d d.closeAgentChannel := by
  unfold closeAgentChannel
  split
  · exact .refl d
  · split
    · exact ⟨_, _, _, _, _, _, _, rfl⟩
    · exact .trans ⟨_, _, _, _, _, _, _, rfl⟩ (tellClient_work _ _)

theorem onDetached_work (d : Daemon) : ClientWork d d.onDetached := by
  unfold onDetached
  dsimp only
  split
  · exact ⟨_, _, _, _, _, _, _, rfl⟩
  · split <;> exact ⟨_, _, _, _, _, _, _, rfl⟩

theorem dropClient_work (d : Daemon) (why : Departure) : ClientWork d (d.dropClient why) := by
  unfold dropClient
  split
  · exact .refl d
  · exact .trans ⟨_, _, _, _, _, _, _, rfl⟩ (onDetached_work _)

theorem reject_work (d : Daemon) (code : ErrorCode) (message : String) :
    ClientWork d (d.reject code message) :=
  (tellClient_work ..).trans (dropClient_work ..)

theorem evict_work (d : Daemon) : ClientWork d d.evict := by
  unfold evict
  split
  · exact .refl d
  · exact .trans ⟨_, _, _, _, _, _, _, rfl⟩ (onDetached_work _)

theorem onDetached_frame (d : Daemon) :
    d.onDetached.inApplied = d.inApplied ∧ d.onDetached.pendingInput = d.pendingInput ∧
      Aside d.world d.onDetached.world := by
  have clock := d.world.clock_quiet.aside
  unfold onDetached
  dsimp only
  split
  · exact ⟨rfl, rfl, clock⟩
  · split
    · exact ⟨rfl, rfl, clock⟩
    · rename_i agent _ _ generation _
      exact ⟨rfl, rfl, clock.trans (agent.closeFromClient_aside generation _)⟩

theorem onInput_work (d : Daemon) (offset : UInt64) (data : Bytes) :
    ClientWork d (d.onInput offset data) := by
  unfold onInput
  dsimp only
  split
  · exact reject_work ..
  · split
    · exact .trans ⟨_, _, _, _, _, _, _, rfl⟩ (tellClient_work _ _)
    · exact tellClient_work ..

theorem handleFrame_work (d : Daemon) (f : Frame) : ClientWork d (d.handleFrame f) := by
  cases f with
  | input offset data => exact onInput_work ..
  | resize win => exact ⟨_, _, _, _, _, _, _, rfl⟩
  | ping => exact tellClient_work d .pong
  | detach => exact dropClient_work d .detached
  | agentData generation data =>
      simp only [handleFrame]
      split
      · exact .refl d
      · split
        · exact ⟨_, _, _, _, _, _, _, rfl⟩
        · exact .trans ⟨_, _, _, _, _, _, _, rfl⟩ (closeAgentChannel_work _)
  | agentClose generation =>
      simp only [handleFrame]
      split
      · exact .refl d
      · exact ⟨_, _, _, _, _, _, _, rfl⟩
  | hello | helloOk | inputAck | output | gap | exit | pong | error | agentOpen =>
      exact reject_work ..

theorem noteFrame_work (d : Daemon) (conn : Nat) (f : Frame) : ClientWork d (d.noteFrame conn f) :=
  ⟨_, _, _, _, _, _, _, rfl⟩

theorem decodeLoop_work (rounds : Nat) (d : Daemon) : ClientWork d (decodeLoop rounds d).2 := by
  induction rounds generalizing d with
  | zero => exact .refl d
  | succ rounds ih =>
      rw [decodeLoop]
      split
      · exact .refl d
      · split
        · exact .refl d
        · split
          · exact .refl d
          · exact reject_work ..
          · rename_i a _ _ ty payload conn _
            have took : ClientWork d { d with client := some { a with conn } } :=
              ⟨_, _, _, _, _, _, _, rfl⟩
            cases Frame.decode ty payload with
            | error err => exact took.trans (reject_work _ .protocol "unparseable frame payload")
            | ok frame =>
                exact ((took.trans (noteFrame_work ..)).trans (handleFrame_work ..)).trans (ih _)

theorem refuseTruncated_work (d : Daemon) : ClientWork d d.refuseTruncated := by
  unfold refuseTruncated
  split
  · exact reject_work ..
  · exact .refl d

theorem decodeFrames_work (d : Daemon) : ClientWork d d.decodeFrames := by
  have looped := decodeLoop_work ((d.client.elim 0 fun client => client.conn.buffered) + 1) d
  unfold decodeFrames
  split
  · rename_i eq
    rw [eq] at looped
    exact looped.trans (refuseTruncated_work _)
  · rename_i eq
    rw [eq] at looped
    exact looped

theorem readClient_work (d : Daemon) : ClientWork d d.readClient := by
  unfold readClient
  split
  · exact .refl d
  · split
    · exact decodeFrames_work d
    · split
      · exact .trans ⟨_, _, _, _, _, _, _, rfl⟩ (dropClient_work _ _)
      · exact .trans ⟨_, _, _, _, _, _, _, rfl⟩ (decodeFrames_work _)

theorem readAgentChannel_work (d : Daemon) (events : PollFlags) :
    ClientWork d (d.readAgentChannel events) := by
  unfold readAgentChannel
  split
  · exact .refl d
  · split
    · exact .refl d
    · dsimp only
      split
      · split <;> exact ⟨_, _, _, _, _, _, _, rfl⟩
      · exact .trans ⟨_, _, _, _, _, _, _, rfl⟩ (closeAgentChannel_work _)
      · exact .trans ⟨_, _, _, _, _, _, _, rfl⟩ (closeAgentChannel_work _)
      · exact ⟨_, _, _, _, _, _, _, rfl⟩

theorem serviceAgentChannel_work (d : Daemon) (events : PollFlags) :
    ClientWork d (d.serviceAgentChannel events) := by
  unfold serviceAgentChannel
  split
  · exact .refl d
  · split
    · split
      · exact .trans ⟨_, _, _, _, _, _, _, rfl⟩ (readAgentChannel_work _ _)
      · exact ⟨_, _, _, _, _, _, _, rfl⟩
      · exact .trans ⟨_, _, _, _, _, _, _, rfl⟩ (closeAgentChannel_work _)
    · exact readAgentChannel_work ..

theorem doIf_work {d : Daemon} {cond : Bool} {f : Daemon → Daemon} (h : ClientWork d (f d)) :
    ClientWork d (d.doIf cond f) := by
  unfold doIf
  split
  · exact h
  · exact .refl d

theorem onDetached_client (d : Daemon) : d.onDetached.client = d.client := by
  unfold onDetached
  dsimp only
  split
  · rfl
  · split <;> rfl

theorem evict_client (d : Daemon) : d.evict.client = none := by
  unfold evict
  split
  · assumption
  · rw [onDetached_client]

theorem dropClient_client (d : Daemon) (why : Departure) : (d.dropClient why).client = none := by
  unfold dropClient
  split
  · assumption
  · rw [onDetached_client]

theorem reject_client (d : Daemon) (code : ErrorCode) (message : String) :
    (d.reject code message).client = none := dropClient_client ..

end Daemon
end Nomux
