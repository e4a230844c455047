import Nomux.World
import Nomux.Wire.Codec
import Nomux.Lib.History

/-!
# A framed connection

`conn.rs`. Both queues are a buffer and a cursor into it. The socket is the kernel's; `id` names the
connection in the trace.
-/

namespace Nomux
open Wire World

/-- The part of `§ 4.1`'s caps that `conn.rs` measures itself against. -/
def maxPendingWrite : Nat := 2 ^ 20

def maxPendingRead : Nat := 2 ^ 20

def finalFlushTimeout : Nat := millis 500

/-- `compact`, without the capacity it keeps. -/
def compact (buf : Bytes) (pos : Nat) : Bytes × Nat :=
  if pos = buf.length then ([], 0)
  else if buf.length ≤ pos * 2 then (buf.drop pos, 0)
  else (buf, pos)

structure Conn where
  id : Nat
  rx : Bytes := []
  rxPos : Nat := 0
  tx : Bytes := []
  txPos : Nat := 0
  preambleQueued : Bool := false
  eof : Bool := false
  deriving DecidableEq, Repr

namespace Conn

def queued (c : Conn) : Nat := c.tx.length - c.txPos

def buffered (c : Conn) : Nat := c.rx.length - c.rxPos

def unsent (c : Conn) : Bytes := c.tx.drop c.txPos

def unread (c : Conn) : Bytes := c.rx.drop c.rxPos

def send (c : Conn) (frame : Frame) (w : World) : Bool × Conn × World :=
  let tx := if c.preambleQueued then c.tx else c.tx ++ serverPreamble
  match frame.encode tx with
  | (.ok (), tx) => (true, { c with tx, preambleQueued := true }, w.log (.sent c.id frame))
  | (.error _, tx) => (false, { c with tx, preambleQueued := true }, w)

def sendChunks : List Bytes → Nat → Conn → World → Nat × Conn × World
  | [], offset, c, w => (offset, c, w)
  | part :: parts, offset, c, w =>
      if maxPendingWrite ≤ c.queued then (offset, c, w)
      else
        match c.send (.output (UInt64.ofNat offset) part) w with
        | (false, c, w) => (offset, c, w)
        | (true, c, w) => sendChunks parts (offset + part.length) c w

/-- Answers with the offset one past the last byte queued. -/
def sendOutput (c : Conn) (offset : Nat) (data : Bytes) (w : World) : Nat × Conn × World :=
  sendChunks (History.chunks maxOutputData data) offset c w

def sendAgentData (c : Conn) (generation : UInt32) (data : Bytes) (w : World) : Conn × World :=
  (c.send (.agentData generation data) w).2

def fill (c : Conn) (chunkLen : Nat) (w : World) : Except Errno Unit × Conn × World :=
  if chunkLen = 0 then (.ok (), c, w)
  else if maxPendingRead ≤ c.buffered then (.ok (), c, w)
  else
    match w.read (min chunkLen (maxPendingRead - c.buffered)) with
    | (.ok [], w) => (.ok (), { c with eof := true }, w.log (.endOfFile c.id))
    | (.ok bytes, w) => (.ok (), { c with rx := c.rx ++ bytes }, w.log (.received c.id bytes))
    | (.error .again, w) => (.ok (), c, w)
    | (.error err, w) => (.error err, c, w)

/-- The loop of `flush_some` over a queue of `len` bytes: whether it failed, and how far it got. -/
def writeLoop (len : Nat) : List Answer → Nat → World → Bool × Nat × World
  | [], pos, w => (false, pos, { w with script := [] })
  | answer :: rest, pos, w =>
      if len ≤ pos then (false, pos, { w with script := answer :: rest })
      else
        let w := { w with script := rest, now := w.now + answer.elapsed }
        match answer.write with
        | .ok 0 => (true, pos, w)
        | .ok n => writeLoop len rest (pos + min n (len - pos)) w
        | .error .again => (false, pos, w)
        | .error .intr => writeLoop len rest pos w
        | .error _ => (true, pos, w)

def flushSome (c : Conn) (w : World) : Except Errno Unit × Conn × World :=
  match writeLoop c.tx.length w.script c.txPos w with
  | (failed, pos, w) =>
      let w := w.log (.wrote c.id (c.unsent.take (pos - c.txPos)))
      if failed then (.error .other, { c with txPos := pos }, w)
      else
        let (tx, txPos) := compact c.tx pos
        (.ok (), { c with tx, txPos }, w)

/-- The loop of `flush_final`, each answer one round of clock, time limit and write. -/
def finalLoop (len deadline : Nat) : List Answer → Nat → World → Nat × World
  | [], pos, w => (pos, { w with script := [] })
  | answer :: rest, pos, w =>
      if len ≤ pos then (pos, { w with script := answer :: rest })
      else
        let w := { w with script := rest, now := w.now + answer.elapsed }
        if deadline ≤ w.now then (pos, w)
        else if !answer.done then (pos, w)
        else
          match answer.write with
          | .ok 0 => (pos, w)
          | .ok n => finalLoop len deadline rest (pos + min n (len - pos)) w
          | .error .intr => finalLoop len deadline rest pos w
          | .error _ => (pos, w)

/-- What `flush_final` leaves of the world; the connection itself is dropped behind it. -/
def flushFinal (c : Conn) (w : World) : World :=
  match w.draw with
  | (answer, w) =>
      if !answer.done then w
      else
        match finalLoop c.tx.length (w.now + finalFlushTimeout) w.script c.txPos w with
        | (pos, w) => w.log (.wrote c.id (c.unsent.take (pos - c.txPos)))

def closeWith (c : Conn) (frame : Option Frame) (w : World) : World :=
  match frame with
  | some frame =>
      match c.send frame w with
      | (_, c, w) => c.flushFinal w
  | none => c.flushFinal w

def takeFrame (c : Conn) : Except ProtoError (Option (FrameType × Bytes)) × Conn :=
  match c.unread with
  | b :: b1 :: b2 :: b3 :: rest =>
      match decodeHeader (b, b1, b2, b3) with
      | .error err => (.error err, c)
      | .ok ⟨ty, len⟩ =>
          if len.toNat ≤ rest.length then
            let (rx, rxPos) := compact c.rx (c.rxPos + (headerLen + len.toNat))
            (.ok (some (ty, rest.take len.toNat)), { c with rx, rxPos })
          else (.ok none, c)
  | _ => (.ok none, c)

end Conn
end Nomux
