import Nomux.Daemon.Output
import Nomux.Session.Applied

/-!
# Input is applied exactly once

The session's guarantee for its input, at the daemon: `in_applied` and the terminal's queue are what
the trace tells, an `Input` that skips ahead ends its connection and changes nothing else, and behind
the terminal's end input is still counted.
-/

namespace Nomux
open Wire World

theorem Daemon.tellClient_frame (d : Daemon) (f : Frame) :
    (d.tellClient f).inApplied = d.inApplied ∧ (d.tellClient f).pendingInput = d.pendingInput := by
  unfold Daemon.tellClient
  split <;> exact ⟨rfl, rfl⟩

/-- The connection was refused, and nothing else came of it. -/
structure Refused (code : ErrorCode) (client : Attached) (d d' : Daemon) : Prop where
  inApplied : d'.inApplied = d.inApplied
  pendingInput : d'.pendingInput = d.pendingInput
  gone : d'.client = none
  told : ∃ message bytes asides, (∀ e ∈ asides, Event.isAside e) ∧
    d'.world.trace = d.world.trace ++
      [.sent client.conn.id (.error code message), .wrote client.conn.id bytes,
        .left client.conn.id .refused] ++ asides

theorem Daemon.reject_refused {d : Daemon} {client : Attached} (attached : d.client = some client)
    (code : ErrorCode) {message : String} (short : (utf8 message).length ≤ maxPayload - 2) :
    Refused code client d (d.reject code message) := by
  have encodable : (Frame.error code message).Encodable := encodable_error short
  have sent := client.conn.send_eq encodable d.world
  obtain ⟨bytes, trace, same⟩ := (client.conn.queue (.error code message)).flushSome_trace
    (d.world.log (.sent client.conn.id (.error code message)))
  simp only [Daemon.reject, Daemon.tellClient, attached, sent, Daemon.dropClient]
  generalize (client.conn.queue (.error code message)).flushSome
    (d.world.log (.sent client.conn.id (.error code message))) = flushed at trace same
  obtain ⟨result, conn, w⟩ := flushed
  dsimp only at trace same ⊢
  rw [same, Conn.queue_id]
  generalize before : ({ d with
    client := none, world := w.log (.left client.conn.id .refused) } : Daemon) = left
  obtain ⟨inApplied, pendingInput, ⟨asides, quiet, more⟩, -⟩ := left.onDetached_frame
  refine ⟨inApplied.trans (by rw [← before]), pendingInput.trans (by rw [← before]), ?_,
    message, bytes, asides, quiet, ?_⟩
  · rw [onDetached_client, ← before]
  · rw [more, ← before]
    simp [World.log, trace]

theorem Daemon.handleFrame_skipped {d : Daemon} {client : Attached} {offset : UInt64} (data : Bytes)
    (attached : d.client = some client) (skips : d.inApplied < offset.toNat) :
    Refused .inputGap client d (d.handleFrame (.input offset data)) := by
  simp only [Daemon.handleFrame, Daemon.onInput, if_pos skips]
  exact Daemon.reject_refused attached .inputGap (by decide)

theorem Daemon.handleFrame_closed {d : Daemon} {offset : UInt64} (data : Bytes)
    (closed : d.terminalClosedAt.isSome) (reaches : offset.toNat ≤ d.inApplied) :
    (d.handleFrame (.input offset data)).inApplied =
        max d.inApplied (saturatingAdd offset.toNat data.length) ∧
      (d.handleFrame (.input offset data)).pendingInput = d.pendingInput := by
  simp only [Daemon.handleFrame, Daemon.onInput, if_neg (Nat.not_lt.2 reaches),
    Option.isNone_eq_false_iff.2 closed, (tellClient_frame ..).1, (tellClient_frame ..).2]
  split
  · rename_i ahead
    exact ⟨(Nat.max_eq_right ahead.le).symm, by simp⟩
  · rename_i behind
    exact ⟨(Nat.max_eq_left (Nat.not_lt.1 behind)).symm, rfl⟩

theorem Sound.inApplied_eq {requested : Nat} {stage : Stage} {d : Daemon}
    (h : Sound (.start requested) stage d) : d.inApplied = inAppliedOf d.world.trace :=
  h.2.inApplied.trans (session_records ..).inApplied

theorem Sound.closed_iff {origin : Origin} {stage : Stage} {d : Daemon}
    (h : Sound origin stage d) : Closed d.world.trace ↔ d.terminalClosedAt.isSome := by
  rw [Nomux.closed_iff origin.capacity, ← h.2.terminalClosedAt]
  rfl

/-- Whatever the clients of a session overlap or repeat, each byte of their stream is applied once
and in order, and every acknowledgement says how far. -/
theorem Daemon.Occurs.input_applied_once {requested : Nat} {d : Daemon} {stream : Bytes}
    (h : Occurs requested d) (small : stream.length < 2 ^ 64)
    (honest : Honest stream d.world.trace) :
    AppliedOnce stream d.world.trace ∧
    d.inApplied = inAppliedOf d.world.trace ∧
    (∀ d', Reachable requested d → d.pass = .ok d' → d.inApplied ≤ d'.inApplied) ∧
    (¬ Closed d.world.trace → ¬ MasterFailed d.world.trace →
      writtenOf d.world.trace ++ d.pendingInput = enqueuedOf d.world.trace) ∧
    (Closed d.world.trace → d.pendingInput = []) ∧
    (∀ (moment : Daemon) client offset data, moment.client = some client → moment.inApplied < offset.toNat →
      Refused .inputGap client moment (moment.handleFrame (.input offset data))) ∧
    ∀ (moment : Daemon) offset data, moment.terminalClosedAt.isSome → offset.toNat ≤ moment.inApplied →
      (moment.handleFrame (.input offset data)).inApplied =
          max moment.inApplied (saturatingAdd offset.toNat data.length) ∧
        (moment.handleFrame (.input offset data)).pendingInput = moment.pendingInput := by
  obtain ⟨pty, sound⟩ := h.sound
  have records := session_records (max requested 1) d.world.trace
  have pendingInput : d.pendingInput =
      (session (max requested 1) d.world.trace).pendingInput := sound.2.pendingInput
  refine ⟨h.lawful.appliedOnce small honest, sound.inApplied_eq, fun d' running next => ?_,
    fun opened unfailed => ?_, fun closed => ?_, fun _ _ _ data attached skips =>
      Daemon.handleFrame_skipped data attached skips, fun _ _ data closed reaches =>
      Daemon.handleFrame_closed data closed reaches⟩
  · have later := running.pass next
    obtain ⟨more, longer⟩ := running.pass_trace next
    rw [running.sound.inApplied_eq, later.sound.inApplied_eq]
    rw [← longer]
    exact Lawful.inAppliedOf_le (longer ▸ later.sound.1.lawful)
  · rw [closed_iff (max requested 1), Bool.not_eq_true, Option.isSome_eq_false_iff,
      Option.isNone_iff_eq_none] at opened
    rw [masterFailed_iff (max requested 1), Bool.not_eq_true] at unfailed
    rw [pendingInput, ← records.written, ← records.enqueued]
    exact h.lawful.input.kept unfailed opened
  · rw [closed_iff (max requested 1)] at closed
    rw [pendingInput]
    exact h.lawful.input.dropped closed

/-- A client types two bytes, of which the terminal takes one, and comes back over a new connection
without having heard of the second. -/
def retyped : Daemon :=
  Daemon.passes 5 (Daemon.start { buf := [], capacity := 4, base := 0 }
    (greetingScript ++ [idle, pollsReady .client, { read := .ok (Frame.input 0 [104, 105]).wire },
        { write := .ok 1 }, { write := .ok 64 }] ++
      [idle, pollsReady .listener, { accept := .ok ⟨true, true⟩ }, idle, { write := .ok 1 }] ++
      [idle, idle, pollsReady .pending, { read := .ok (Frame.hello sampleHello).wire }, idle, idle,
        { write := .ok 64 }, idle, { read := .ok (Frame.input 1 [105, 33]).wire }, idle,
        { write := .ok 64 }, { write := .ok 64 }]) 0)

def Event.isHandled : Event → Bool
  | .handled .. => true
  | _ => false

theorem input_applied_once_retyped :
    AppliedOnce [104, 105, 33] retyped.world.trace ∧
    writtenOf retyped.world.trace ++ retyped.pendingInput = enqueuedOf retyped.world.trace ∧
    writtenOf retyped.world.trace = [104, 105, 33] := by
  have occurs : Daemon.Occurs 4 retyped := .running (.passes (.start _ 0 rfl) 5)
  have handled : retyped.world.trace.filter Event.isHandled =
      [.handled 0 (.input 0 [104, 105]), .handled 1 (.input 1 [105, 33])] := rfl
  have honest : Honest [104, 105, 33] retyped.world.trace := by
    intro c f inside
    have only : .handled c f ∈ retyped.world.trace.filter Event.isHandled :=
      List.mem_filter.2 ⟨inside, rfl⟩
    rw [handled, List.mem_cons, List.mem_singleton] at only
    rcases only with first | again
    · cases first
      exact ⟨by decide, by decide⟩
    · cases again
      exact ⟨by decide, by decide⟩
  obtain ⟨applied, -, -, written, -⟩ := occurs.input_applied_once (by decide) honest
  have running : ¬ Closed retyped.world.trace := by
    rw [closed_iff 4]
    decide +kernel
  have unfailed : ¬ MasterFailed retyped.world.trace := by
    rw [masterFailed_iff 4]
    decide +kernel
  exact ⟨applied, written running unfailed, by decide +kernel⟩

end Nomux
