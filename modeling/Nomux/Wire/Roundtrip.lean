import Nomux.Wire.Fields

/-!
# Round trip and canonicity of the codec

`decode_eq_ok` says which payloads decode to which frame, `encode_eq` what `encode` appends and when
it refuses. The round trip and the canonicity of the encoding are read off the two.
-/

namespace Nomux.Wire
open BigEndian

theorem encodeHeader_of_le {len : UInt32} (ty : FrameType) (h : len.toNat ≤ maxPayload) :
    ∃ header, encodeHeader ty len = .ok header ∧ decodeHeader header = .ok ⟨ty, len⟩ := by
  refine ⟨_, if_neg (Nat.not_lt.2 h), ?_⟩
  have small : len.toNat < 256 ^ 3 := lt_of_le_of_lt h (by decide)
  have digits : value [0, UInt8.ofNat (len.toNat / 256 ^ 2), UInt8.ofNat (len.toNat / 256),
      UInt8.ofNat len.toNat] = len.toNat := by
    have word : bytes 3 len.toNat = [UInt8.ofNat (len.toNat / 256 ^ 2),
        UInt8.ofNat (len.toNat / 256), UInt8.ofNat len.toNat] := by simp [bytes]
    rw [← word, value, value_bytes small]
    simp
  have known : FrameType.fromWire ty.asWire = some ty := (FrameType.fromWire_eq_some _ _).2 rfl
  simp only [decodeHeader, known, digits, UInt32.ofNat_toNat, if_neg (Nat.not_lt.2 h)]

theorem decodeHeader_len_le {b : HeaderBytes} {header : Header}
    (h : decodeHeader b = .ok header) : header.len.toNat ≤ maxPayload := by
  obtain ⟨b, b1, b2, b3⟩ := b
  simp only [decodeHeader] at h
  split at h
  · cases h
  · split at h
    · cases h
    · rename_i small
      cases h
      exact Nat.not_lt.1 small

theorem u32OfUsize_toNat (n : Nat) : (u32OfUsize n).toNat = min n (2 ^ 32 - 1) := by
  unfold u32OfUsize
  split
  · rename_i h
    rw [UInt32.toNat_ofNat_of_lt' h]
    omega
  · rename_i h
    change 4294967295 = _
    omega

theorem u32OfUsize_le (n : Nat) : (u32OfUsize n).toNat ≤ maxPayload ↔ n ≤ maxPayload := by
  rw [u32OfUsize_toNat, maxPayload]
  omega

theorem payloadLen_of_wellFormed {f : Frame} (h : f.WellFormed) :
    ∃ n, f.payloadLen = .ok (n, f.termLen) ∧ (n ≤ maxPayload ↔ f.payload.length ≤ maxPayload) ∧
      (n ≤ maxPayload → n = f.payload.length) := by
  cases f with
  | hello greeting =>
      obtain ⟨len, nul⟩ := h
      have whole : (Frame.hello greeting).payload.length = 21 + (utf8 greeting.term).length := by
        simp [Frame.payload, Frame.encodePayload]
        omega
      refine ⟨21 + (utf8 greeting.term).length, ?_, by rw [whole], fun _ => whole.symm⟩
      simp only [Frame.payloadLen, if_neg (Nat.not_lt.2 len), (checkedTerm_eq_ok _).2 nul]
      rfl
  | exit status kind secs =>
      refine ⟨9, ?_, by simp [Frame.payload, Frame.encodePayload], fun _ => by
        simp [Frame.payload, Frame.encodePayload]⟩
      simp only [Frame.payloadLen, (checkedExit_eq_ok _ _).2 h]
      rfl
  | _ =>
      refine ⟨_, rfl, ?_, ?_⟩
      all_goals
        grind [Frame.payload, Frame.encodePayload, length_put16, length_put32, length_put64,
          length_putWin, saturatingAdd, maxPayload]

theorem payloadLen_of_not_wellFormed {f : Frame} (h : ¬ f.WellFormed) :
    ∃ e, f.payloadLen = .error e := by
  cases f with
  | hello greeting =>
      by_cases len : 65535 < (utf8 greeting.term).length
      · exact ⟨_, if_pos len⟩
      · have nul : 0 ∈ utf8 greeting.term := by
          by_contra free
          exact h ⟨Nat.not_lt.1 len, free⟩
        refine ⟨.malformed "TERM contains a NUL byte", ?_⟩
        simp only [Frame.payloadLen, if_neg len, checkedTerm, List.contains_iff_mem.2 nul]
        rfl
  | exit status kind secs =>
      refine ⟨.malformed "Unknown exit status is not zero", ?_⟩
      simp only [Frame.payloadLen, checkedExit, if_pos (not_not.1 h)]
      rfl
  | _ => exact (h trivial).elim

/-- `encode` appends a header and the payload exactly where the frame is well formed and its payload
within the limit, and otherwise leaves the buffer alone. -/
theorem encode_of_encodable {f : Frame} (good : f.WellFormed) (small : f.payload.length ≤ maxPayload)
    (out : Bytes) :
    ∃ header, f.encode out = (.ok (), out ++ header.toList ++ f.payload) ∧
      decodeHeader header = .ok ⟨f.frameType, u32OfUsize f.payload.length⟩ := by
  obtain ⟨n, len, bound, same⟩ := payloadLen_of_wellFormed good
  obtain rfl := same (bound.2 small)
  obtain ⟨header, enc, dec⟩ := encodeHeader_of_le f.frameType ((u32OfUsize_le _).2 small)
  refine ⟨header, ?_, dec⟩
  simp only [Frame.encode, len, enc]
  rw [encodePayload_append]
  rfl

theorem encode_of_not_encodable {f : Frame} (h : ¬ (f.WellFormed ∧ f.payload.length ≤ maxPayload))
    (out : Bytes) : ∃ e, f.encode out = (.error e, out) := by
  by_cases good : f.WellFormed
  · obtain ⟨n, len, bound, -⟩ := payloadLen_of_wellFormed good
    have large : maxPayload < (u32OfUsize n).toNat := by
      rw [← Nat.not_le, u32OfUsize_le, bound]
      exact fun small => h ⟨good, small⟩
    exact ⟨.payloadTooLarge (u32OfUsize n),
      by simp only [Frame.encode, len, encodeHeader, if_pos large]⟩
  · obtain ⟨e, len⟩ := payloadLen_of_not_wellFormed good
    exact ⟨e, by simp only [Frame.encode, len]⟩

/-- A payload decodes to a frame of its type exactly where it is what that frame writes. -/
theorem decode_eq_ok (ty : FrameType) (p : Bytes) (f : Frame) :
    Frame.decode ty p = .ok f ↔
      f.frameType = ty ∧ f.WellFormed ∧ p = f.payload ∧ p.length ≤ maxPayload := by
  by_cases large : maxPayload < (u32OfUsize p.length).toNat
  · have excess : ¬ p.length ≤ maxPayload := fun small =>
      absurd ((u32OfUsize_le _).2 small) (Nat.not_le.2 large)
    simp only [Frame.decode, if_pos large, excess, and_false, reduceCtorEq]
  · have small : p.length ≤ maxPayload := (u32OfUsize_le _).1 (Nat.not_lt.1 large)
    simp only [Frame.decode, if_neg large, small, and_true]
    constructor
    · intro h
      cases fields : (Frame.decodeFields ty).run p with
      | error e => simp [fields] at h
      | ok r =>
          obtain ⟨g, rest⟩ := r
          simp only [fields] at h
          split at h
          · rename_i empty
            cases h
            obtain ⟨shape, good, whole, -⟩ := (decodeFields_eq_ok ..).1 fields
            exact ⟨shape, good, by simpa [List.isEmpty_iff.1 empty] using whole⟩
          · cases h
    · rintro ⟨shape, good, rfl⟩
      have fields := (decodeFields_eq_ok ty f.payload f []).2
        ⟨shape, good, (List.append_nil _).symm, fun _ => rfl⟩
      simp [fields]

/-- What `encode` refuses. -/
def Frame.Unencodable (f : Frame) : Prop :=
  (∃ h, f = .hello h ∧ (65535 < (utf8 h.term).length ∨ 0 ∈ utf8 h.term)) ∨
  (∃ status secs, f = .exit status .unknown secs ∧ status ≠ 0) ∨
  maxPayload < f.payload.length

theorem not_wellFormed_iff (f : Frame) :
    ¬ f.WellFormed ↔
      (∃ h, f = .hello h ∧ (65535 < (utf8 h.term).length ∨ 0 ∈ utf8 h.term)) ∨
      (∃ status secs, f = .exit status .unknown secs ∧ status ≠ 0) := by
  cases f with
  | hello h =>
      simp only [Frame.WellFormed, Frame.hello.injEq, exists_eq_left', reduceCtorEq, false_and,
        exists_false, or_false]
      rw [not_and_or, Nat.not_le, not_not]
  | exit status kind secs =>
      simp only [Frame.WellFormed, not_not, reduceCtorEq, false_and, exists_false, false_or,
        Frame.exit.injEq]
      constructor
      · rintro ⟨rfl, nonzero⟩
        exact ⟨status, secs, ⟨rfl, rfl, rfl⟩, nonzero⟩
      · rintro ⟨_, _, ⟨rfl, rfl, rfl⟩, nonzero⟩
        exact ⟨rfl, nonzero⟩
  | _ => simp [Frame.WellFormed]

theorem unencodable_iff (f : Frame) :
    f.Unencodable ↔ ¬ (f.WellFormed ∧ f.payload.length ≤ maxPayload) := by
  rw [Frame.Unencodable, ← or_assoc, ← not_wellFormed_iff, ← Nat.not_le]
  tauto

/-- Encoding appends a header for exactly the payload behind it, which decodes to the frame again;
it fails exactly on the frames listed above, leaving the buffer as it was. -/
theorem encode_roundtrip (f : Frame) (out : Bytes) :
    match f.encode out with
    | (.ok (), after) => ¬ f.Unencodable ∧ ∃ (header : HeaderBytes) (len : UInt32) (payload : Bytes),
        after = out ++ header.toList ++ payload ∧ after.length = out.length + (4 + payload.length) ∧
        decodeHeader header = .ok ⟨f.frameType, len⟩ ∧ len.toNat = payload.length ∧
        payload.length ≤ maxPayload ∧ Frame.decode f.frameType payload = .ok f
    | (.error _, after) => f.Unencodable ∧ after = out := by
  by_cases h : f.WellFormed ∧ f.payload.length ≤ maxPayload
  · obtain ⟨header, enc, dec⟩ := encode_of_encodable h.1 h.2 out
    have len : (u32OfUsize f.payload.length).toNat = f.payload.length := by
      have := h.2
      rw [u32OfUsize_toNat]
      simp only [maxPayload] at this
      omega
    rw [enc]
    refine ⟨fun bad => (unencodable_iff f).1 bad h, header, _, f.payload, rfl, ?_, dec, len, h.2,
      (decode_eq_ok ..).2 ⟨rfl, h.1, rfl, h.2⟩⟩
    simp [HeaderBytes.toList]
    omega
  · obtain ⟨e, enc⟩ := encode_of_not_encodable h out
    rw [enc]
    exact ⟨(unencodable_iff f).2 h, rfl⟩

/-- What decodes is the one encoding of its frame. -/
theorem decode_canonical (ty : FrameType) (p : Bytes) (f : Frame) (h : Frame.decode ty p = .ok f) :
    f.frameType = ty ∧
    (∀ out, ∃ header : HeaderBytes, f.encode out = (.ok (), out ++ header.toList ++ p)) ∧
    (∀ q, Frame.decode ty q = .ok f → q = p) := by
  obtain ⟨shape, good, rfl, small⟩ := (decode_eq_ok ..).1 h
  refine ⟨shape, fun out => ?_, fun q hq => ((decode_eq_ok ..).1 hq).2.2.1⟩
  obtain ⟨header, enc, -⟩ := encode_of_encodable good small out
  exact ⟨header, enc⟩

theorem decode_canonical_inputAck :
    Frame.decode .inputAck [0, 0, 0, 0, 0, 0, 0, 9] = .ok (.inputAck 9) ∧
    ∀ q, Frame.decode .inputAck q = .ok (.inputAck 9) → q = [0, 0, 0, 0, 0, 0, 0, 9] :=
  have h : Frame.decode .inputAck [0, 0, 0, 0, 0, 0, 0, 9] = .ok (.inputAck 9) := by decide
  ⟨h, (decode_canonical .inputAck _ _ h).2.2⟩

end Nomux.Wire
