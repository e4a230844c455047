import Mathlib.Tactic

/-!
# The wire protocol's types

The constants, discriminants and frames of `lib.rs` and `frame.rs`. Bytes are `UInt8`, offsets and
discriminants have the width they have on the wire, and text is `String`, whose bytes are valid
UTF-8 by construction as a `&str`'s are.
-/

namespace Nomux

abbrev Bytes := List UInt8

namespace Wire

def protocolVersion : UInt16 := 11

/-- `\0nomux-sync\xff`. -/
def serverPreamble : Bytes := [0, 110, 111, 109, 117, 120, 45, 115, 121, 110, 99, 255]

def headerLen : Nat := 4

def maxPayload : Nat := 256 * 1024

def maxOutputData : Nat := maxPayload - 8

/-- The `Hello` offset that asks for everything retained. -/
def resumeFromStart : UInt64 := 0xffffffffffffffff

inductive FrameType where
  | hello | helloOk | input | inputAck | output | resize | gap | exit | detach | ping | pong
  | error | agentOpen | agentData | agentClose
  deriving DecidableEq, Repr

def FrameType.asWire : FrameType → UInt8
  | .hello => 0x01
  | .helloOk => 0x02
  | .input => 0x03
  | .inputAck => 0x04
  | .output => 0x05
  | .resize => 0x06
  | .gap => 0x07
  | .exit => 0x08
  | .detach => 0x09
  | .ping => 0x0a
  | .pong => 0x0b
  | .error => 0x0c
  | .agentOpen => 0x0d
  | .agentData => 0x0e
  | .agentClose => 0x0f

def FrameType.fromWire (value : UInt8) : Option FrameType :=
  match value with
  | 0x01 => some .hello
  | 0x02 => some .helloOk
  | 0x03 => some .input
  | 0x04 => some .inputAck
  | 0x05 => some .output
  | 0x06 => some .resize
  | 0x07 => some .gap
  | 0x08 => some .exit
  | 0x09 => some .detach
  | 0x0a => some .ping
  | 0x0b => some .pong
  | 0x0c => some .error
  | 0x0d => some .agentOpen
  | 0x0e => some .agentData
  | 0x0f => some .agentClose
  | _ => none

inductive ExitKind where
  | exited | signalled | unknown
  deriving DecidableEq, Repr

def ExitKind.asWire : ExitKind → UInt8
  | .exited => 0
  | .signalled => 1
  | .unknown => 2

def ExitKind.fromWire (value : UInt8) : Option ExitKind :=
  match value with
  | 0 => some .exited
  | 1 => some .signalled
  | 2 => some .unknown
  | _ => none

inductive ErrorCode where
  | protocol | takeover | version | inputGap | internal | alreadyAttached
  deriving DecidableEq, Repr

def ErrorCode.asWire : ErrorCode → UInt16
  | .protocol => 1
  | .takeover => 2
  | .version => 3
  | .inputGap => 4
  | .internal => 5
  | .alreadyAttached => 6

def ErrorCode.fromWire (value : UInt16) : Option ErrorCode :=
  match value with
  | 1 => some .protocol
  | 2 => some .takeover
  | 3 => some .version
  | 4 => some .inputGap
  | 5 => some .internal
  | 6 => some .alreadyAttached
  | _ => none

theorem FrameType.fromWire_eq_some (value : UInt8) (ty : FrameType) :
    fromWire value = some ty ↔ value = ty.asWire := by
  constructor
  · intro h
    unfold fromWire at h
    split at h <;> cases h <;> rfl
  · rintro rfl
    cases ty <;> rfl

theorem ExitKind.fromWire_eq_some (value : UInt8) (kind : ExitKind) :
    fromWire value = some kind ↔ value = kind.asWire := by
  constructor
  · intro h
    unfold fromWire at h
    split at h <;> cases h <;> rfl
  · rintro rfl
    cases kind <;> rfl

theorem ErrorCode.fromWire_eq_some (value : UInt16) (code : ErrorCode) :
    fromWire value = some code ↔ value = code.asWire := by
  constructor
  · intro h
    unfold fromWire at h
    split at h <;> cases h <;> rfl
  · rintro rfl
    cases code <;> rfl

inductive ProtoError where
  | unknownFrameType (byte : UInt8)
  | payloadTooLarge (len : UInt32)
  | truncated
  | trailingBytes
  | malformed (what : String)
  deriving DecidableEq, Repr

structure Header where
  ty : FrameType
  len : UInt32
  deriving DecidableEq, Repr

structure WinSize where
  cols : UInt16
  rows : UInt16
  xpixel : UInt16
  ypixel : UInt16
  deriving DecidableEq, Repr

structure Hello where
  protocol : UInt16
  agentForward : Bool
  repaintCtrlL : Bool
  ifDetached : Bool
  outOffset : UInt64
  win : WinSize
  term : String
  deriving DecidableEq

structure HelloOk where
  resumeFrom : UInt64
  inApplied : UInt64
  agent : Bool
  deriving DecidableEq, Repr

/-- Whether output was dropped before the resume point of a client that asked for `outOffset`. -/
def HelloOk.gap (ok : HelloOk) (outOffset : UInt64) : Bool := outOffset < ok.resumeFrom

inductive Frame where
  | hello (hello : Hello)
  | helloOk (ok : HelloOk)
  | input (offset : UInt64) (data : Bytes)
  | inputAck (appliedThrough : UInt64)
  | output (offset : UInt64) (data : Bytes)
  | resize (win : WinSize)
  | gap (newBaseOffset : UInt64)
  | exit (status : Int32) (kind : ExitKind) (sinceTerminalClosedSecs : UInt32)
  | detach
  | ping
  | pong
  | error (code : ErrorCode) (message : String)
  | agentOpen (generation : UInt32)
  | agentData (generation : UInt32) (data : Bytes)
  | agentClose (generation : UInt32)
  deriving DecidableEq

def Frame.frameType : Frame → FrameType
  | .hello _ => .hello
  | .helloOk _ => .helloOk
  | .input _ _ => .input
  | .inputAck _ => .inputAck
  | .output _ _ => .output
  | .resize _ => .resize
  | .gap _ => .gap
  | .exit _ _ _ => .exit
  | .detach => .detach
  | .ping => .ping
  | .pong => .pong
  | .error _ _ => .error
  | .agentOpen _ => .agentOpen
  | .agentData _ _ => .agentData
  | .agentClose _ => .agentClose

end Wire
end Nomux
