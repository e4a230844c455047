import Nomux.Wire.Roundtrip
import Nomux.Lib.Framing

/-!
# The wire as a stream of frames

A raw frame is a type and a payload within the limit; `wireFramer` reads one off the front of a
stream. What `encode` appends for a frame is the raw frame of its type and payload.
-/

namespace Nomux.Wire
open BigEndian

theorem decodeHeader_eq_ok (b : HeaderBytes) (ty : FrameType) (len : UInt32) :
    decodeHeader b = .ok ⟨ty, len⟩ ↔
      b.toList = ty.asWire :: bytes 3 len.toNat ∧ len.toNat ≤ maxPayload := by
  obtain ⟨b, b1, b2, b3⟩ := b
  have digits : value [0, b1, b2, b3] = value [b1, b2, b3] := by simp [value]
  have small : value [b1, b2, b3] < 256 ^ 3 := value_lt [b1, b2, b3]
  have word : (UInt32.ofNat (value [b1, b2, b3])).toNat = value [b1, b2, b3] :=
    UInt32.toNat_ofNat_of_lt' (lt_of_lt_of_le small (by decide))
  have back : bytes 3 (value [b1, b2, b3]) = [b1, b2, b3] := bytes_value [b1, b2, b3]
  simp only [decodeHeader, digits, HeaderBytes.toList, List.cons.injEq]
  constructor
  · intro h
    split at h
    · cases h
    · rename_i known
      split at h
      · cases h
      · rename_i le
        cases h
        rw [word, back]
        exact ⟨⟨(FrameType.fromWire_eq_some _ _).1 known, rfl⟩, by rwa [word, Nat.not_lt] at le⟩
  · rintro ⟨⟨rfl, low⟩, le⟩
    have wide : len.toNat < 256 ^ 3 := lt_of_le_of_lt le (by decide)
    have same : UInt32.ofNat (value [b1, b2, b3]) = len := by
      rw [low, value_bytes wide, UInt32.ofNat_toNat]
    have known : FrameType.fromWire ty.asWire = some ty := (FrameType.fromWire_eq_some _ _).2 rfl
    simp [known, same, Nat.not_lt.2 le]

abbrev RawFrame := FrameType × Bytes

def RawFrame.bytes (r : RawFrame) : Bytes := r.1.asWire :: (BigEndian.bytes 3 r.2.length ++ r.2)

def RawFrame.Valid (r : RawFrame) : Prop := r.2.length ≤ maxPayload

@[simp] theorem RawFrame.length_bytes (r : RawFrame) :
    (RawFrame.bytes r).length = headerLen + r.2.length := by
  simp [RawFrame.bytes, headerLen]
  omega

def Frame.wire (f : Frame) : Bytes := RawFrame.bytes (f.frameType, f.payload)

theorem encode_eq_ok {f : Frame} {out after : Bytes} (h : f.encode out = (.ok (), after)) :
    after = out ++ f.wire := by
  by_cases good : f.WellFormed ∧ f.payload.length ≤ maxPayload
  · obtain ⟨header, enc, dec⟩ := encode_of_encodable good.1 good.2 out
    have len : (u32OfUsize f.payload.length).toNat = f.payload.length := by
      have := good.2
      rw [u32OfUsize_toNat]
      simp only [maxPayload] at this
      omega
    have head := ((decodeHeader_eq_ok ..).1 dec).1
    rw [h] at enc
    rw [(Prod.mk.inj enc).2, head, len, List.append_assoc]
    simp [Frame.wire, RawFrame.bytes]
  · obtain ⟨e, enc⟩ := encode_of_not_encodable good out
    rw [h] at enc
    cases (Prod.mk.inj enc).1

theorem encode_of_not_ok {f : Frame} {out after : Bytes} {e : ProtoError}
    (h : f.encode out = (.error e, after)) : after = out := by
  by_cases good : f.WellFormed ∧ f.payload.length ≤ maxPayload
  · obtain ⟨header, enc, -⟩ := encode_of_encodable good.1 good.2 out
    rw [h] at enc
    cases (Prod.mk.inj enc).1
  · obtain ⟨e', enc⟩ := encode_of_not_encodable good out
    rw [h] at enc
    exact (Prod.mk.inj enc).2

theorem encode_wire {f : Frame} (good : f.WellFormed) (small : f.payload.length ≤ maxPayload)
    (out : Bytes) : f.encode out = (.ok (), out ++ f.wire) := by
  obtain ⟨header, enc, -⟩ := encode_of_encodable good small out
  rw [enc, ← encode_eq_ok enc]

/-- One frame off the front of a buffer, with what follows it. -/
def nextFrame (available : Bytes) : Except ProtoError (Option (RawFrame × Bytes)) :=
  match available with
  | b :: b1 :: b2 :: b3 :: rest =>
      match decodeHeader (b, b1, b2, b3) with
      | .error e => .error e
      | .ok ⟨ty, len⟩ =>
          if len.toNat ≤ rest.length then .ok (some ((ty, rest.take len.toNat), rest.drop len.toNat))
          else .ok none
  | _ => .ok none

theorem nextFrame_eq_some (s : Bytes) (r : RawFrame) (rest : Bytes) :
    nextFrame s = .ok (some (r, rest)) ↔ RawFrame.Valid r ∧ s = RawFrame.bytes r ++ rest := by
  obtain ⟨ty, p⟩ := r
  constructor
  · intro h
    unfold nextFrame at h
    split at h
    · rename_i b b1 b2 b3 after
      split at h
      · cases h
      · rename_i ty' len dec
        split at h
        · rename_i enough
          cases h
          obtain ⟨head, le⟩ := (decodeHeader_eq_ok ..).1 dec
          have width : (after.take len.toNat).length = len.toNat := by simpa using enough
          refine ⟨by simpa [RawFrame.Valid, width] using le, ?_⟩
          rw [RawFrame.bytes, width, List.cons_append, List.append_assoc, List.take_append_drop,
            ← List.cons_append, ← head]
          rfl
        · cases h
    · cases h
  · rintro ⟨valid, rfl⟩
    simp only [RawFrame.Valid] at valid
    have small : p.length < 2 ^ 32 := lt_of_le_of_lt valid (by decide)
    have wide : (UInt32.ofNat p.length).toNat = p.length := UInt32.toNat_ofNat_of_lt' small
    obtain ⟨b1, b2, b3, digits⟩ : ∃ b1 b2 b3, BigEndian.bytes 3 p.length = [b1, b2, b3] :=
      ⟨_, _, _, rfl⟩
    have dec : decodeHeader (ty.asWire, b1, b2, b3) = .ok ⟨ty, UInt32.ofNat p.length⟩ := by
      rw [decodeHeader_eq_ok, wide, digits]
      exact ⟨rfl, valid⟩
    simp [nextFrame, RawFrame.bytes, digits, dec, wide]

def wireFramer : Framer ProtoError UInt8 RawFrame where
  next := nextFrame
  bytes := RawFrame.bytes
  Valid := RawFrame.Valid
  next_eq_some := nextFrame_eq_some
  bytes_ne_nil r := by simp [RawFrame.bytes]

theorem parse_raw_append {r : RawFrame} (valid : RawFrame.Valid r) (s : Bytes) :
    wireFramer.parse (RawFrame.bytes r ++ s) = (wireFramer.parse s).prepend [r] :=
  Framer.parse_bytes_append (F := wireFramer) valid s

end Nomux.Wire
