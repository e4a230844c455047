import Nomux.Daemon.Decode
import Nomux.Session.Records

/-!
# Reassembly, and the end of the input

Where reads fall decides nothing about the frames a connection yields. At the end of its input
`read_client` refuses what is left behind the last whole frame, if it gets that far.
-/

namespace Nomux
open Wire World

/-- Nobody was refused for a truncation in the meantime. -/
structure Untold (d d' : Daemon) : Prop where
  events : ∃ es, d'.world.trace = d.world.trace ++ es ∧ ∀ c, .sent c truncation ∉ es

namespace Daemon

theorem decodeLoop_untold (rounds : Nat) (d : Daemon) : Untold d (decodeLoop rounds d).2 := by
  obtain ⟨es, handles⟩ := decodeLoop_handles rounds d
  refine ⟨es, handles.trace, ?_⟩
  intro c inside
  rcases handles.kinds _ inside with answer | ⟨conn, frame, no⟩
  · simp [Event.isAnswer] at answer
  · cases no

/-- Between the two states a connection was refused for ending inside a frame. -/
def RefusedTruncated (client : Attached) (d d' : Daemon) : Prop :=
  ∃ es, d'.world.trace = d.world.trace ++ es ∧ .sent client.conn.id truncation ∈ es

theorem not_refused {d d' : Daemon} (h : Untold d d') (client : Attached) :
    ¬ RefusedTruncated client d d' := by
  rintro ⟨es, trace, inside⟩
  obtain ⟨fs, same, other⟩ := h.events
  rw [trace, List.append_cancel_left_eq] at same
  exact other _ (same ▸ inside)

/-- The decode loop, as `read_client` runs it. -/
def decoded (d : Daemon) : Bool × Daemon :=
  decodeLoop ((d.client.elim 0 fun client => client.conn.buffered) + 1) d

theorem reject_truncation {d : Daemon} {client : Attached} (attached : d.client = some client) :
    ∃ es, (d.reject .protocol "truncated frame at end of input").world.trace = d.world.trace ++ es ∧
      .sent client.conn.id truncation ∈ es := by
  have encodable : truncation.Encodable := ⟨trivial, by decide⟩
  obtain ⟨es, trace, -⟩ := (dropClient_answers (d.tellClient truncation) .refused).events
  refine ⟨.sent client.conn.id truncation :: es, ?_, by simp⟩
  have told : (d.tellClient truncation).world.trace =
      d.world.trace ++ [.sent client.conn.id truncation] := by
    simp [tellClient, attached, Conn.send_eq _ encodable, World.log]
  change ((d.tellClient truncation).dropClient .refused).world.trace = _
  rw [trace, told, List.append_assoc]
  rfl

/-- Where the loop gets to the end of the buffer, the refusal is for exactly what it leaves; where it
stops before that, there is none. -/
theorem decodeFrames_eof {d : Daemon} {client : Attached} (attached : d.client = some client)
    (ended : client.conn.eof) :
    (d.decoded.1 = true → (RefusedTruncated client d d.decodeFrames ↔
      (wireFramer.parse client.conn.unread).rest ≠ [])) ∧
    (d.decoded.1 = false → (d.decoded.2.inputIsSaturated ∨ d.decoded.2.client = none) ∧
      ¬ RefusedTruncated client d d.decodeFrames) := by
  have looped := decodeLoop_untold ((d.client.elim 0 fun client => client.conn.buffered) + 1) d
  unfold decodeFrames decoded
  cases loop : decodeLoop ((d.client.elim 0 fun client => client.conn.buffered) + 1) d with
  | mk dry d' =>
      rw [loop] at looped
      cases dry with
      | false =>
          refine ⟨fun no => (by cases no), fun _ => ⟨decodeLoop_early loop fun same here => ?_,
            not_refused looped client⟩⟩
          simp [here]
      | true =>
          refine ⟨fun _ => ?_, fun no => (by cases no)⟩
          obtain ⟨client₀, client', frames, here, attached', id, eof, parsed⟩ := decodeLoop_dry loop
          cases attached.symm.trans here
          simp only [parsed, refuseTruncated, attached', Option.any_some, eof, ended, Bool.true_and,
            decide_eq_true_eq]
          have size := client'.conn.length_unread
          split
          · rename_i left
            refine iff_of_true ?_ fun empty => left (by rw [← size, empty, List.length_nil])
            obtain ⟨es, trace, -⟩ := looped.events
            obtain ⟨fs, more, inside⟩ := reject_truncation attached'
            refine ⟨es ++ fs, by rw [more, trace, List.append_assoc], List.mem_append_right _ ?_⟩
            rwa [← id]
          · rename_i whole
            rw [not_not, ← size, List.length_eq_zero_iff] at whole
            exact iff_of_false (not_refused looped client) fun left => left whole

theorem readClient_eof {d : Daemon} {client : Attached} (attached : d.client = some client)
    (ended : client.conn.eof) : d.readClient = d.decodeFrames := by
  simp only [readClient, attached, if_pos ended]

end Daemon

def encodeAll (fs : List Frame) : Bytes := fs.foldl (fun out f => (f.encode out).2) []

theorem encodeAll_eq {fs : List Frame} (encodable : ∀ f ∈ fs, f.Encodable) :
    encodeAll fs = fs.flatMap Frame.wire := by
  induction fs using List.reverseRecOn with
  | nil => rfl
  | append_singleton fs f ih =>
      have last := encodable f (by simp)
      have front := ih fun g hg => encodable g (by simp [hg])
      simp only [encodeAll, List.foldl_append, List.foldl_cons, List.foldl_nil] at front ⊢
      rw [front, encode_wire last.1 last.2]
      simp

/-- The frames taken and those still to be had are those of the one-shot reading of what was received,
and an unparseable header shows where that reading has it. -/
structure Receiving.Reassembles (s : Receiving) : Prop where
  whole : wireFramer.parse s.received = (wireFramer.parse s.conn.unread).prepend s.taken
  split : s.received = s.taken.flatMap RawFrame.bytes ++ s.conn.unread
  drained : ∀ n, s.conn.buffered < n →
    (s.run (.replicate n .takeFrame)).taken = (wireFramer.parse s.received).frames
  stuck : ∀ err conn, s.conn.takeFrame = (.error err, conn) →
    conn = s.conn ∧ wireFramer.parse s.received = ⟨s.taken, s.conn.unread, some err⟩
  reported : ∀ err, (wireFramer.parse s.received).error = some err →
    s.taken = (wireFramer.parse s.received).frames → s.conn.takeFrame = (.error err, s.conn)
  encoded : ∀ fs, (∀ f ∈ fs, Frame.Encodable f) → s.received = encodeAll fs →
    (wireFramer.parse s.conn.unread).rest = [] ∧
      (s.taken ++ (wireFramer.parse s.conn.unread).frames).map (fun r => Frame.decode r.1 r.2) =
        fs.map .ok

theorem Receiving.Accounts.reassembles {s : Receiving} (h : s.Accounts) : s.Reassembles where
  whole := h.parse
  split := h.split
  drained n enough := by rw [drain s n enough, h.parse, Framer.prepend_frames]
  stuck err conn take := by
    obtain ⟨stop, rfl⟩ := Conn.takeFrame_error take
    refine ⟨rfl, ?_⟩
    rw [h.parse, Framer.parse_of_error (F := wireFramer) stop, Framer.Parsed.prepend, List.append_nil]
  reported err found taken := by
    have whole := h.parse
    rw [whole, Framer.prepend_frames] at taken
    rw [whole, Framer.prepend_error] at found
    have none_left : (wireFramer.parse s.conn.unread).frames = [] := by simpa using taken
    have stop := Framer.next_rest (F := wireFramer) s.conn.unread
    obtain ⟨-, unread⟩ := Framer.parse_split (F := wireFramer) s.conn.unread
    rw [none_left, List.flatMap_nil, List.nil_append] at unread
    rw [found, ← unread] at stop
    have next : nextFrame s.conn.unread = .error err := stop
    rw [Conn.takeFrame_eq, next]
  encoded fs encodable received := by
    have whole := h.parse
    rw [received, encodeAll_eq encodable] at whole
    have bytes : fs.flatMap Frame.wire =
        (fs.map fun f => (f.frameType, f.payload)).flatMap RawFrame.bytes := by
      rw [List.flatMap_map]
      rfl
    have valid : ∀ r ∈ fs.map fun f => (f.frameType, f.payload), wireFramer.Valid r := by
      intro r inside
      obtain ⟨f, hf, rfl⟩ := List.mem_map.1 inside
      exact (encodable f hf).2
    have parsed := Framer.parse_flatMap (F := wireFramer) valid rfl
    rw [bytes] at whole
    rw [show wireFramer.bytes = RawFrame.bytes from rfl, whole] at parsed
    have frames := congrArg Framer.Parsed.frames parsed
    have rest := congrArg Framer.Parsed.rest parsed
    rw [Framer.prepend_frames] at frames
    rw [Framer.prepend_rest] at rest
    refine ⟨rest, ?_⟩
    rw [frames, List.map_map]
    refine List.map_congr_left fun f hf => ?_
    exact (decode_eq_ok ..).2 ⟨rfl, (encodable f hf).1, rfl, (encodable f hf).2⟩

theorem Receiving.accounts_fresh {id : Nat} {w : World} (fresh : receivedOn id w.trace = []) :
    Receiving.Accounts ⟨{ id }, w, []⟩ :=
  ⟨fun r no => (by cases no), Nat.le_refl _, by simp [Receiving.received, fresh, Conn.unread]⟩

/-- Any run of reads and decodes reassembles its stream, and at the end of the input what is left
behind the last whole frame is refused exactly where the decode loop gets that far. -/
theorem reassembly (id : Nat) (w : World) (services : List Service)
    (fresh : receivedOn id w.trace = []) :
    (Receiving.run ⟨{ id }, w, []⟩ services).Reassembles ∧
    ∀ (d : Daemon) client, d.client = some client → client.conn.eof →
      d.readClient = d.decodeFrames ∧
      (d.decoded.1 = true → (Daemon.RefusedTruncated client d d.decodeFrames ↔
        (wireFramer.parse client.conn.unread).rest ≠ [])) ∧
      (d.decoded.1 = false → (d.decoded.2.inputIsSaturated ∨ d.decoded.2.client = none) ∧
        ¬ Daemon.RefusedTruncated client d d.decodeFrames) :=
  ⟨((Receiving.accounts_fresh fresh).run services).reassembles, fun _ _ attached ended =>
    ⟨Daemon.readClient_eof attached ended, Daemon.decodeFrames_eof attached ended⟩⟩

/-- A client whose input has ended with these bytes unread. -/
def halfClosed (rx : Bytes) : Daemon :=
  { world := { script := [] }, ring := { buf := [], capacity := 4, base := 0 }, lastDetach := 0
    client := some { conn := { id := 0, rx, eof := true } } }

def tornStream : Bytes := Frame.ping.wire ++ (Frame.input 0 [104, 105]).wire

/-- The `Input` comes in three reads, with an interruption and a lull between them. -/
def tornScript : List Answer :=
  [{ read := .ok (tornStream.take 6) }, { read := .error .intr },
    { read := .ok ((tornStream.drop 6).take 5) }, { read := .error .again },
    { read := .ok (tornStream.drop 11) }]

def tornServices : List Service :=
  [.fill 16, .takeFrame, .takeFrame, .fill 5, .takeFrame, .fill 16, .fill 16, .takeFrame]

/-- The torn frame is put together, and half a header at the end of the input is a truncation. -/
theorem reassembly_torn :
    (Receiving.run ⟨{ id := 0 }, { script := tornScript }, []⟩ tornServices).Reassembles ∧
    (Receiving.run ⟨{ id := 0 }, { script := tornScript }, []⟩ tornServices).taken =
      [Frame.ping.raw, (Frame.input 0 [104, 105]).raw] ∧
    Daemon.RefusedTruncated { conn := { id := 0, rx := [7, 0], eof := true } } (halfClosed [7, 0])
      (halfClosed [7, 0]).decodeFrames := by
  obtain ⟨reassembles, refused⟩ := reassembly 0 { script := tornScript } tornServices rfl
  refine ⟨reassembles, by decide +kernel, ?_⟩
  exact ((refused (halfClosed [7, 0]) _ rfl rfl).2.1 (by decide +kernel)).2 (by decide +kernel)

/-- An unparseable header at the end of the input is left behind the last whole frame, but refused as
what it is. -/
theorem truncation_refusal_is_not_for_every_rest :
    ¬ ∀ (d : Daemon) client, d.client = some client → client.conn.eof →
      d.inputIsSaturated = false →
      (Daemon.RefusedTruncated client d d.readClient ↔
        (wireFramer.parse client.conn.unread).rest ≠ []) := by
  intro claimed
  have left : (wireFramer.parse [0xff, 0, 0, 0]).rest ≠ [] := by decide +kernel
  obtain ⟨es, trace, inside⟩ := (claimed (halfClosed [0xff, 0, 0, 0]) _ rfl rfl rfl).2 left
  have told : sentTo 0 (halfClosed [0xff, 0, 0, 0]).readClient.world.trace =
      [.error .protocol "unparseable frame header"] := by decide +kernel
  have queued : truncation ∈ sentTo 0 (halfClosed [0xff, 0, 0, 0]).readClient.world.trace := by
    rw [trace, sentTo_append]
    exact List.mem_append_right _ (List.mem_flatMap.2 ⟨_, inside, by simp⟩)
  rw [told] at queued
  simp [truncation] at queued

end Nomux
