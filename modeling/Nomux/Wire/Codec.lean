import Nomux.Wire.Basic
import Nomux.Lib.BigEndian
import Nomux.Lib.ExactParser

/-!
# The frame codec

`encode_header`, `decode_header`, `Frame::encode`, `Frame::decode` and the payload cursor `Reader`,
translated from `lib.rs` and `frame.rs`.
-/

namespace Nomux.Wire
open BigEndian

/-- `u32::try_from(len).unwrap_or(u32::MAX)`. -/
def u32OfUsize (len : Nat) : UInt32 := if len < 2 ^ 32 then UInt32.ofNat len else 0xffffffff

/-- `usize::saturating_add` on the 64-bit targets. -/
def saturatingAdd (a b : Nat) : Nat := min (a + b) (2 ^ 64 - 1)

/-- The bytes of a string, and the reading that refuses what is no string. -/
def utf8 (s : String) : Bytes := s.toByteArray.data.toList

def fromUtf8 (bs : Bytes) : Option String := String.fromUTF8? ⟨bs.toArray⟩

def put16 (v : UInt16) : Bytes := bytes 2 v.toNat

def put32 (v : UInt32) : Bytes := bytes 4 v.toNat

def put64 (v : UInt64) : Bytes := bytes 8 v.toNat

abbrev HeaderBytes := UInt8 × UInt8 × UInt8 × UInt8

def encodeHeader (ty : FrameType) (len : UInt32) : Except ProtoError HeaderBytes :=
  if maxPayload < len.toNat then .error (.payloadTooLarge len)
  else .ok (ty.asWire, UInt8.ofNat (len.toNat / 256 ^ 2), UInt8.ofNat (len.toNat / 256),
    UInt8.ofNat len.toNat)

def decodeHeader : HeaderBytes → Except ProtoError Header
  | (b, b1, b2, b3) =>
      match FrameType.fromWire b with
      | none => .error (.unknownFrameType b)
      | some ty =>
          let len := UInt32.ofNat (value [0, b1, b2, b3])
          if maxPayload < len.toNat then .error (.payloadTooLarge len) else .ok ⟨ty, len⟩

def HeaderBytes.toList : HeaderBytes → Bytes
  | (b, b1, b2, b3) => [b, b1, b2, b3]

def checkedTerm (term : String) : Except ProtoError Unit :=
  if (utf8 term).contains 0 then .error (.malformed "TERM contains a NUL byte") else .ok ()

def checkedExit (status : Int32) (kind : ExitKind) : Except ProtoError Unit :=
  if kind = .unknown ∧ status ≠ 0 then .error (.malformed "Unknown exit status is not zero")
  else .ok ()

def helloAgentForward : UInt8 := 1

def helloRepaintCtrlL : UInt8 := 2

def helloIfDetached : UInt8 := 4

def helloFlagBits : UInt8 := helloAgentForward ||| helloRepaintCtrlL ||| helloIfDetached

def helloOkAgent : UInt8 := 1

def Hello.flags (hello : Hello) : UInt8 :=
  hello.agentForward.toUInt8 * helloAgentForward ||| hello.repaintCtrlL.toUInt8 * helloRepaintCtrlL
    ||| hello.ifDetached.toUInt8 * helloIfDetached

def HelloOk.flags (ok : HelloOk) : UInt8 := ok.agent.toUInt8 * helloOkAgent

def putWin (win : WinSize) : Bytes :=
  put16 win.cols ++ put16 win.rows ++ put16 win.xpixel ++ put16 win.ypixel

/-- The first half of `Frame::encode`: the payload length, and the TERM length beside it. -/
def Frame.payloadLen : Frame → Except ProtoError (Nat × UInt16)
  | .hello greeting =>
      let len := (utf8 greeting.term).length
      if 65535 < len then .error (.malformed "TERM exceeds 65535 bytes")
      else do
        checkedTerm greeting.term
        return (21 + len, UInt16.ofNat len)
  | .helloOk _ => .ok (17, 0)
  | .input _ data | .output _ data => .ok (saturatingAdd 8 data.length, 0)
  | .inputAck _ | .resize _ | .gap _ => .ok (8, 0)
  | .exit status kind _ => do
      checkedExit status kind
      return (9, 0)
  | .detach | .ping | .pong => .ok (0, 0)
  | .error _ message => .ok (saturatingAdd 2 (utf8 message).length, 0)
  | .agentOpen _ | .agentClose _ => .ok (4, 0)
  | .agentData _ data => .ok (saturatingAdd 4 data.length, 0)

def Frame.encodePayload (f : Frame) (out : Bytes) (termLen : UInt16) : Bytes :=
  match f with
  | .hello greeting =>
      out ++ put16 greeting.protocol ++ [greeting.flags] ++ put64 greeting.outOffset
        ++ putWin greeting.win ++ put16 termLen ++ utf8 greeting.term
  | .helloOk ok => out ++ put64 ok.resumeFrom ++ put64 ok.inApplied ++ [ok.flags]
  | .input offset data | .output offset data => out ++ put64 offset ++ data
  | .inputAck v | .gap v => out ++ put64 v
  | .resize win => out ++ putWin win
  | .exit status kind secs => out ++ put32 status.toUInt32 ++ [kind.asWire] ++ put32 secs
  | .detach | .ping | .pong => out
  | .error code message => out ++ put16 code.asWire ++ utf8 message
  | .agentOpen generation | .agentClose generation => out ++ put32 generation
  | .agentData generation data => out ++ put32 generation ++ data

/-- `Frame::encode`, answering with what it leaves in `out` beside its result. -/
def Frame.encode (f : Frame) (out : Bytes) : Except ProtoError Unit × Bytes :=
  match f.payloadLen with
  | .error e => (.error e, out)
  | .ok (payloadLen, termLen) =>
      match encodeHeader f.frameType (u32OfUsize payloadLen) with
      | .error e => (.error e, out)
      | .ok header => (.ok (), f.encodePayload (out ++ header.toList) termLen)

abbrev Reader := ExactParser ProtoError UInt8

namespace Reader

def take (n : Nat) : Reader Bytes := do
  let rest ← get
  if n ≤ rest.length then
    set (rest.drop n)
    return rest.take n
  else throw .truncated

def u8 : Reader UInt8 := do
  let b ← take 1
  return UInt8.ofNat (value b)

def u16 : Reader UInt16 := do
  let b ← take 2
  return UInt16.ofNat (value b)

def u32 : Reader UInt32 := do
  let b ← take 4
  return UInt32.ofNat (value b)

def i32 : Reader Int32 := do
  let v ← u32
  return v.toInt32

def u64 : Reader UInt64 := do
  let b ← take 8
  return UInt64.ofNat (value b)

def win : Reader WinSize := do
  let cols ← u16
  let rows ← u16
  let xpixel ← u16
  let ypixel ← u16
  return { cols, rows, xpixel, ypixel }

def rest : Reader Bytes := do
  let all ← get
  set ([] : Bytes)
  return all

def okOr {α : Type} (what : String) : Option α → Reader α
  | some a => return a
  | none => throw (.malformed what)

end Reader

open Reader in
/-- The match of `Frame::decode`, one branch for each type. -/
def Frame.decodeFields : FrameType → Reader Frame
  | .hello => do
      let protocol ← u16
      let flags ← u8
      if flags &&& ~~~helloFlagBits ≠ 0 then
        throw (.malformed "undefined Hello flag bits")
      let outOffset ← u64
      let win ← win
      let termLen ← u16
      let raw ← take termLen.toNat
      let term ← okOr "TERM is not UTF-8" (fromUtf8 raw)
      liftM (checkedTerm term)
      return .hello
        { protocol
          agentForward := flags &&& helloAgentForward != 0
          repaintCtrlL := flags &&& helloRepaintCtrlL != 0
          ifDetached := flags &&& helloIfDetached != 0
          outOffset, win, term }
  | .helloOk => do
      let resumeFrom ← u64
      let inApplied ← u64
      let flags ← u8
      if flags &&& ~~~helloOkAgent ≠ 0 then
        throw (.malformed "undefined HelloOk flag bits")
      return .helloOk { resumeFrom, inApplied, agent := flags &&& helloOkAgent != 0 }
  | .input => do
      let offset ← u64
      return .input offset (← rest)
  | .output => do
      let offset ← u64
      return .output offset (← rest)
  | .inputAck => do return .inputAck (← u64)
  | .resize => do return .resize (← win)
  | .gap => do return .gap (← u64)
  | .exit => do
      let status ← i32
      let kind ← okOr "unknown exit kind" (ExitKind.fromWire (← u8))
      liftM (checkedExit status kind)
      return .exit status kind (← u32)
  | .detach => return .detach
  | .ping => return .ping
  | .pong => return .pong
  | .error => do
      let code ← okOr "unknown error code" (ErrorCode.fromWire (← u16))
      let message ← okOr "error message is not UTF-8" (fromUtf8 (← rest))
      return .error code message
  | .agentOpen => do return .agentOpen (← u32)
  | .agentClose => do return .agentClose (← u32)
  | .agentData => do
      let generation ← u32
      return .agentData generation (← rest)

/-- `Frame::decode`: the size limit, the fields, and `Reader::finish`. -/
def Frame.decode (ty : FrameType) (payload : Bytes) : Except ProtoError Frame :=
  let len := u32OfUsize payload.length
  if maxPayload < len.toNat then .error (.payloadTooLarge len)
  else
    match (Frame.decodeFields ty).run payload with
    | .error e => .error e
    | .ok (frame, rest) => if rest.isEmpty then .ok frame else .error .trailingBytes

end Nomux.Wire
