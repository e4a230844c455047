import Nomux.Wire.Codec

/-!
# What each field reader accepts

One equivalence for each reader of `Reader`, and from them the equivalence for a whole frame: the
fields of a type accept exactly the payloads its frames write, each for one frame.
-/

namespace Nomux.Wire
open BigEndian ExactParser

/-! ## Text -/

@[simp] theorem fromUtf8_eq_some (bs : Bytes) (s : String) :
    fromUtf8 bs = some s ↔ bs = utf8 s := by
  unfold fromUtf8 utf8 String.fromUTF8?
  constructor
  · intro h
    split at h
    · cases h
      simp [String.fromUTF8]
    · cases h
  · rintro rfl
    have whole : (⟨s.toByteArray.data.toList.toArray⟩ : ByteArray) = s.toByteArray := by simp
    rw [whole, dif_pos s.isValidUTF8]
    rfl

theorem utf8_injective : Function.Injective utf8 := by
  intro a b same
  have left := (fromUtf8_eq_some (utf8 a) a).2 rfl
  rw [(fromUtf8_eq_some (utf8 a) b).2 same] at left
  exact (Option.some.inj left).symm

/-! ## Words -/

@[simp] theorem length_put16 (v : UInt16) : (put16 v).length = 2 := length_bytes ..
@[simp] theorem length_put32 (v : UInt32) : (put32 v).length = 4 := length_bytes ..
@[simp] theorem length_put64 (v : UInt64) : (put64 v).length = 8 := length_bytes ..
@[simp] theorem length_putWin (win : WinSize) : (putWin win).length = 8 := by simp [putWin]

theorem put16_ofNat {b : Bytes} (h : b.length = 2) : put16 (UInt16.ofNat (value b)) = b := by
  have lt : value b < 2 ^ 16 := by simpa [h] using value_lt b
  rw [put16, UInt16.toNat_ofNat_of_lt' lt, ← h, bytes_value]

theorem put32_ofNat {b : Bytes} (h : b.length = 4) : put32 (UInt32.ofNat (value b)) = b := by
  have lt : value b < 2 ^ 32 := by simpa [h] using value_lt b
  rw [put32, UInt32.toNat_ofNat_of_lt' lt, ← h, bytes_value]

theorem put64_ofNat {b : Bytes} (h : b.length = 8) : put64 (UInt64.ofNat (value b)) = b := by
  have lt : value b < 2 ^ 64 := by simpa [h] using value_lt b
  rw [put64, UInt64.toNat_ofNat_of_lt' lt, ← h, bytes_value]

theorem ofNat_put16 (v : UInt16) : UInt16.ofNat (value (put16 v)) = v := by
  rw [put16, value_bytes (by simpa using v.toNat_lt), UInt16.ofNat_toNat]

theorem ofNat_put32 (v : UInt32) : UInt32.ofNat (value (put32 v)) = v := by
  rw [put32, value_bytes (by simpa using v.toNat_lt), UInt32.ofNat_toNat]

theorem ofNat_put64 (v : UInt64) : UInt64.ofNat (value (put64 v)) = v := by
  rw [put64, value_bytes (by simpa using v.toNat_lt), UInt64.ofNat_toNat]

namespace Reader

theorem run_take (n : Nat) (input : Bytes) :
    (take n).run input =
      if n ≤ input.length then .ok (input.take n, input.drop n) else .error .truncated := by
  by_cases h : n ≤ input.length
  · change StateT.run (if n ≤ input.length then _ else _) input = _
    rw [if_pos h, if_pos h]
    rfl
  · change StateT.run (if n ≤ input.length then _ else _) input = _
    rw [if_neg h, if_neg h]
    rfl

@[simp] theorem take_eq_ok (n : Nat) (input b r : Bytes) :
    (take n).run input = .ok (b, r) ↔ b.length = n ∧ input = b ++ r := by
  rw [run_take]
  split
  · rename_i h
    constructor
    · intro e
      cases e
      simp [h]
    · rintro ⟨rfl, rfl⟩
      simp
  · rename_i h
    constructor
    · intro e
      cases e
    · rintro ⟨rfl, rfl⟩
      simp at h

theorem take_exact (n : Nat) : Exact (take n) id (fun b => b.length = n) := take_eq_ok n

@[simp] theorem u8_eq_ok (input : Bytes) (v : UInt8) (r : Bytes) :
    u8.run input = .ok (v, r) ↔ input = v :: r := by
  have h := (take_exact 1).map (fun b => UInt8.ofNat (value b)) (fun v => [v])
    (fun b hb => by obtain ⟨v, rfl⟩ := List.length_eq_one_iff.1 hb; simp [value])
    (fun v => by simp [value])
  simpa [u8] using h input v r

@[simp] theorem u16_eq_ok (input : Bytes) (v : UInt16) (r : Bytes) :
    u16.run input = .ok (v, r) ↔ input = put16 v ++ r := by
  have h := (take_exact 2).map (fun b => UInt16.ofNat (value b)) put16
    (fun _ => put16_ofNat) ofNat_put16
  simpa [u16] using h input v r

@[simp] theorem u32_eq_ok (input : Bytes) (v : UInt32) (r : Bytes) :
    u32.run input = .ok (v, r) ↔ input = put32 v ++ r := by
  have h := (take_exact 4).map (fun b => UInt32.ofNat (value b)) put32
    (fun _ => put32_ofNat) ofNat_put32
  simpa [u32] using h input v r

@[simp] theorem u64_eq_ok (input : Bytes) (v : UInt64) (r : Bytes) :
    u64.run input = .ok (v, r) ↔ input = put64 v ++ r := by
  have h := (take_exact 8).map (fun b => UInt64.ofNat (value b)) put64
    (fun _ => put64_ofNat) ofNat_put64
  simpa [u64] using h input v r

@[simp] theorem i32_eq_ok (input : Bytes) (v : Int32) (r : Bytes) :
    i32.run input = .ok (v, r) ↔ input = put32 v.toUInt32 ++ r := by
  have word : Exact u32 put32 (fun _ => True) := fun input v r => by simp
  have h := word.map UInt32.toInt32 Int32.toUInt32 (fun _ _ => rfl) (fun _ => rfl)
  simpa [i32] using h input v r

@[simp] theorem win_eq_ok (input : Bytes) (v : WinSize) (r : Bytes) :
    win.run input = .ok (v, r) ↔ input = putWin v ++ r := by
  obtain ⟨cols, rows, xpixel, ypixel⟩ := v
  simp only [win, bind_eq_ok, pure_eq_ok, u16_eq_ok, Prod.mk.injEq, WinSize.mk.injEq, putWin]
  constructor
  · rintro ⟨_, _, rfl, _, _, rfl, _, _, rfl, _, _, rfl, ⟨rfl, rfl, rfl, rfl⟩, rfl⟩
    simp
  · rintro rfl
    exact ⟨cols, _, List.append_assoc .. |>.trans (by simp), rows, _, rfl, xpixel, _, rfl, ypixel, _,
      rfl, ⟨rfl, rfl, rfl, rfl⟩, rfl⟩

@[simp] theorem rest_eq_ok (input b r : Bytes) :
    rest.run input = .ok (b, r) ↔ r = [] ∧ input = b := by
  have run : rest.run input = .ok (input, []) := rfl
  rw [run, Except.ok.injEq, Prod.mk.injEq]
  exact ⟨fun ⟨h, h'⟩ => ⟨h'.symm, h⟩, fun ⟨h, h'⟩ => ⟨h', h.symm⟩⟩

@[simp] theorem okOr_eq_ok {α : Type} (what : String) (o : Option α) (input : Bytes) (a : α)
    (r : Bytes) : (okOr what o).run input = .ok (a, r) ↔ o = some a ∧ input = r := by
  cases o with
  | none =>
      constructor
      · intro h
        exact (throw_ne_ok _ _ _ h).elim
      · rintro ⟨⟨⟩, -⟩
  | some b => rw [okOr, pure_eq_ok, Prod.mk.injEq, Option.some.injEq]

@[simp] theorem lift_eq_ok (check : Except ProtoError Unit) (input : Bytes) (u : Unit) (r : Bytes) :
    (liftM check : Reader Unit).run input = .ok (u, r) ↔ check = .ok () ∧ input = r := by
  cases check with
  | error e =>
      constructor
      · intro h
        cases h
      · rintro ⟨⟨⟩, -⟩
  | ok u =>
      constructor
      · intro h
        cases h
        exact ⟨rfl, rfl⟩
      · rintro ⟨-, rfl⟩
        rfl

theorem guard_eq_ok {α : Type} (c : Prop) [Decidable c] (what : String) (next : Reader α)
    (input : Bytes) (x : α × Bytes) :
    (do if c then throw (.malformed what)
        next : Reader α).run input = .ok x ↔ ¬ c ∧ next.run input = .ok x := by
  by_cases h : c
  · rw [if_pos h]
    constructor
    · intro run
      obtain ⟨_, _, refused, -⟩ := (bind_eq_ok _ _ _ _).1 run
      exact (throw_ne_ok _ _ _ refused).elim
    · rintro ⟨free, -⟩
      exact (free h).elim
  · simp [h]

end Reader

/-! ## Flag bytes -/

theorem hello_flags_eq (hello : Hello) (flags : UInt8) :
    hello.flags = flags ↔ flags &&& ~~~helloFlagBits = 0 ∧
      hello.agentForward = (flags &&& helloAgentForward != 0) ∧
      hello.repaintCtrlL = (flags &&& helloRepaintCtrlL != 0) ∧
      hello.ifDetached = (flags &&& helloIfDetached != 0) := by
  have pack : ∀ (a b c : Bool) (n : Fin 256),
      (a.toUInt8 * helloAgentForward ||| b.toUInt8 * helloRepaintCtrlL
        ||| c.toUInt8 * helloIfDetached) = UInt8.ofNat n ↔
      UInt8.ofNat n &&& ~~~helloFlagBits = 0 ∧ a = (UInt8.ofNat n &&& helloAgentForward != 0) ∧
        b = (UInt8.ofNat n &&& helloRepaintCtrlL != 0) ∧
        c = (UInt8.ofNat n &&& helloIfDetached != 0) := by decide +kernel
  simpa [Hello.flags] using
    pack hello.agentForward hello.repaintCtrlL hello.ifDetached ⟨flags.toNat, flags.toNat_lt⟩

theorem helloOk_flags_eq (ok : HelloOk) (flags : UInt8) :
    ok.flags = flags ↔ flags &&& ~~~helloOkAgent = 0 ∧ ok.agent = (flags &&& helloOkAgent != 0) := by
  have pack : ∀ (a : Bool) (n : Fin 256), a.toUInt8 * helloOkAgent = UInt8.ofNat n ↔
      UInt8.ofNat n &&& ~~~helloOkAgent = 0 ∧ a = (UInt8.ofNat n &&& helloOkAgent != 0) := by
    decide +kernel
  simpa [HelloOk.flags] using pack ok.agent ⟨flags.toNat, flags.toNat_lt⟩

/-! ## Frames -/

theorem checkedTerm_eq_ok (term : String) : checkedTerm term = .ok () ↔ 0 ∉ utf8 term := by
  unfold checkedTerm
  split <;> simp_all

theorem checkedExit_eq_ok (status : Int32) (kind : ExitKind) :
    checkedExit status kind = .ok () ↔ ¬ (kind = .unknown ∧ status ≠ 0) := by
  unfold checkedExit
  split <;> simp_all

/-- What the fields of a frame must satisfy to be written at all. -/
def Frame.WellFormed : Frame → Prop
  | .hello greeting => (utf8 greeting.term).length ≤ 65535 ∧ 0 ∉ utf8 greeting.term
  | .exit status kind _ => ¬ (kind = .unknown ∧ status ≠ 0)
  | _ => True

def Frame.termLen : Frame → UInt16
  | .hello greeting => UInt16.ofNat (utf8 greeting.term).length
  | _ => 0

def Frame.payload (f : Frame) : Bytes := f.encodePayload [] f.termLen

theorem encodePayload_append (f : Frame) (out : Bytes) (n : UInt16) :
    f.encodePayload out n = out ++ f.encodePayload [] n := by
  cases f <;> simp [Frame.encodePayload]

theorem decodeFields_hello (input : Bytes) (h : Hello) (r : Bytes) :
    (Frame.decodeFields .hello).run input = .ok (.hello h, r) ↔
      (Frame.hello h).WellFormed ∧ input = (Frame.hello h).payload ++ r := by
  obtain ⟨protocol, a, b, c, outOffset, win, term⟩ := h
  simp only [Frame.decodeFields, bind_eq_ok, Reader.guard_eq_ok, pure_eq_ok, Reader.u16_eq_ok,
    Reader.u8_eq_ok, Reader.u64_eq_ok, Reader.win_eq_ok, Reader.take_eq_ok, Reader.okOr_eq_ok,
    Reader.lift_eq_ok, fromUtf8_eq_some, checkedTerm_eq_ok, Frame.WellFormed, Frame.payload,
    Frame.encodePayload, Frame.termLen, Prod.mk.injEq, Frame.hello.injEq, Hello.mk.injEq]
  constructor
  · rintro ⟨p, _, rfl, flags, _, rfl, hflags, o, _, rfl, w, _, rfl, n, _, rfl, raw, _, ⟨len, rfl⟩,
      t, _, ⟨rfl, rfl⟩, _, _, ⟨nul, rfl⟩, ⟨rfl, ha, hb, hc, rfl, rfl, rfl⟩, rfl⟩
    have packed := (hello_flags_eq ⟨p, a, b, c, o, w, t⟩ flags).2
      ⟨by simpa using hflags, ha.symm, hb.symm, hc.symm⟩
    have small : n.toNat < 65536 := n.toNat_lt
    refine ⟨⟨by omega, nul⟩, ?_⟩
    rw [packed, len, UInt16.ofNat_toNat]
    simp
  · rintro ⟨⟨len, nul⟩, rfl⟩
    obtain ⟨hflags, ha, hb, hc⟩ :=
      (hello_flags_eq ⟨protocol, a, b, c, outOffset, win, term⟩ _).1 rfl
    have round : (UInt16.ofNat (utf8 term).length).toNat = (utf8 term).length :=
      UInt16.toNat_ofNat_of_lt' (by simpa using Nat.lt_succ_of_le len)
    refine ⟨protocol, _,
      by simp only [List.nil_append, List.append_assoc, List.cons_append], _, _, rfl,
      by simpa using hflags, outOffset, _, rfl, win, _, rfl, _, _, rfl, utf8 term, r,
      ⟨round.symm, rfl⟩, term, r, ⟨rfl, rfl⟩, (), r, ⟨nul, rfl⟩,
      ⟨rfl, ha.symm, hb.symm, hc.symm, rfl, rfl, rfl⟩, rfl⟩

theorem decodeFields_helloOk (input : Bytes) (ok : HelloOk) (r : Bytes) :
    (Frame.decodeFields .helloOk).run input = .ok (.helloOk ok, r) ↔
      input = (Frame.helloOk ok).payload ++ r := by
  obtain ⟨resumeFrom, inApplied, agent⟩ := ok
  simp only [Frame.decodeFields, bind_eq_ok, Reader.guard_eq_ok, pure_eq_ok, Reader.u8_eq_ok,
    Reader.u64_eq_ok, Frame.payload, Frame.encodePayload, Prod.mk.injEq, Frame.helloOk.injEq,
    HelloOk.mk.injEq]
  constructor
  · rintro ⟨a, _, rfl, b, _, rfl, flags, _, rfl, hflags, ⟨rfl, rfl, hagent⟩, rfl⟩
    have packed := (helloOk_flags_eq ⟨a, b, agent⟩ flags).2 ⟨by simpa using hflags, hagent.symm⟩
    rw [packed]
    simp
  · rintro rfl
    obtain ⟨hflags, hagent⟩ := (helloOk_flags_eq ⟨resumeFrom, inApplied, agent⟩ _).1 rfl
    exact ⟨resumeFrom, _,
      by simp only [List.nil_append, List.append_assoc, List.cons_append], inApplied, _, rfl,
      _, _, rfl, by simpa using hflags, ⟨rfl, rfl, hagent.symm⟩, rfl⟩

theorem decodeFields_exit (input : Bytes) (status : Int32) (kind : ExitKind) (secs : UInt32)
    (r : Bytes) :
    (Frame.decodeFields .exit).run input = .ok (.exit status kind secs, r) ↔
      (Frame.exit status kind secs).WellFormed ∧
        input = (Frame.exit status kind secs).payload ++ r := by
  simp only [Frame.decodeFields, bind_eq_ok, pure_eq_ok, Reader.i32_eq_ok, Reader.u8_eq_ok,
    Reader.u32_eq_ok, Reader.okOr_eq_ok, Reader.lift_eq_ok, ExitKind.fromWire_eq_some,
    checkedExit_eq_ok, Frame.WellFormed, Frame.payload, Frame.encodePayload, Prod.mk.injEq,
    Frame.exit.injEq]
  constructor
  · rintro ⟨a, _, rfl, _, _, rfl, b, _, ⟨rfl, rfl⟩, _, _, ⟨good, rfl⟩, c, _, rfl,
      ⟨rfl, rfl, rfl⟩, rfl⟩
    exact ⟨good, by simp⟩
  · rintro ⟨good, rfl⟩
    exact ⟨status, _, by simp only [List.nil_append, List.append_assoc, List.cons_append], _, _,
      rfl, kind, _, ⟨rfl, rfl⟩, (), _, ⟨good, rfl⟩, secs, r, rfl, ⟨rfl, rfl, rfl⟩, rfl⟩

theorem decodeFields_error (input : Bytes) (code : ErrorCode) (message : String) (r : Bytes) :
    (Frame.decodeFields .error).run input = .ok (.error code message, r) ↔
      r = [] ∧ input = (Frame.error code message).payload := by
  simp only [Frame.decodeFields, bind_eq_ok, pure_eq_ok, Reader.u16_eq_ok, Reader.rest_eq_ok,
    Reader.okOr_eq_ok, ErrorCode.fromWire_eq_some, fromUtf8_eq_some, Frame.payload,
    Frame.encodePayload, Prod.mk.injEq, Frame.error.injEq]
  constructor
  · rintro ⟨_, _, rfl, a, _, ⟨rfl, rfl⟩, _, _, ⟨rfl, rfl⟩, b, _, ⟨rfl, rfl⟩, ⟨rfl, rfl⟩, rfl⟩
    exact ⟨rfl, by simp⟩
  · rintro ⟨rfl, rfl⟩
    exact ⟨_, _, by simp only [List.nil_append], code, _, ⟨rfl, rfl⟩, _, _, ⟨rfl, rfl⟩, message, _,
      ⟨rfl, rfl⟩, ⟨rfl, rfl⟩, rfl⟩

/-- Frames whose last field takes whatever is left of the payload. -/
def FrameType.TakesRest : FrameType → Prop
  | .input | .output | .error | .agentData => True
  | _ => False

/-- The fields of a type accept exactly what its frames write. -/
theorem decodeFields_eq_ok (ty : FrameType) (input : Bytes) (f : Frame) (r : Bytes) :
    (Frame.decodeFields ty).run input = .ok (f, r) ↔
      f.frameType = ty ∧ f.WellFormed ∧ input = f.payload ++ r ∧ (ty.TakesRest → r = []) := by
  constructor
  · intro h
    have shape : f.frameType = ty := by
      cases ty <;> simp only [Frame.decodeFields, bind_eq_ok, Reader.guard_eq_ok, pure_eq_ok,
        Prod.mk.injEq] at h
      all_goals grind [Frame.frameType]
    subst shape
    cases f with
    | hello =>
        obtain ⟨good, whole⟩ := (decodeFields_hello ..).1 h
        exact ⟨rfl, good, whole, False.elim⟩
    | helloOk => exact ⟨rfl, trivial, (decodeFields_helloOk ..).1 h, False.elim⟩
    | exit =>
        obtain ⟨good, whole⟩ := (decodeFields_exit ..).1 h
        exact ⟨rfl, good, whole, False.elim⟩
    | error =>
        obtain ⟨rfl, rfl⟩ := (decodeFields_error ..).1 h
        simp [Frame.frameType, Frame.WellFormed]
    | _ =>
        simp only [Frame.frameType, Frame.decodeFields, bind_eq_ok, pure_eq_ok, Prod.mk.injEq,
          Reader.u64_eq_ok, Reader.u32_eq_ok, Reader.win_eq_ok, Reader.rest_eq_ok] at h
        simp only [Frame.frameType, Frame.WellFormed, Frame.payload, Frame.encodePayload,
          FrameType.TakesRest]
        grind
  · rintro ⟨rfl, good, rfl, rest⟩
    cases f with
    | hello => exact (decodeFields_hello ..).2 ⟨good, rfl⟩
    | helloOk => exact (decodeFields_helloOk ..).2 rfl
    | exit => exact (decodeFields_exit ..).2 ⟨good, rfl⟩
    | error =>
        obtain rfl := rest trivial
        exact (decodeFields_error ..).2 ⟨rfl, by simp⟩
    | _ =>
        simp only [Frame.frameType, FrameType.TakesRest] at rest
        simp only [Frame.frameType, Frame.decodeFields, bind_eq_ok, pure_eq_ok, Prod.mk.injEq,
          Reader.u64_eq_ok, Reader.u32_eq_ok, Reader.win_eq_ok, Reader.rest_eq_ok, Frame.payload,
          Frame.encodePayload]
        grind

end Nomux.Wire
