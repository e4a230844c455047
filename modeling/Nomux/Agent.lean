import Nomux.Conn.Basic

/-!
# The agent socket

`agent.rs`: one proxied connection at a time, named by a generation. The listener and its path are
left to the kernel.
-/

namespace Nomux
open Wire World

def maxChannelQueue : Nat := 256 * 1024

def agentIdleTimeout : Nat := seconds 60

def agentAbandonGrace : Nat := seconds 1

def Wire.Frame.channel : Frame → Option UInt32
  | .agentOpen generation | .agentData generation _ | .agentClose generation => some generation
  | _ => none

structure Channel where
  generation : UInt32
  pending : Bytes := []
  closing : Bool := false
  idleDeadline : Nat
  deriving DecidableEq, Repr

def Channel.touch (chan : Channel) (w : World) : Channel × World :=
  match w.clock with
  | (now, w) => ({ chan with idleDeadline := now + agentIdleTimeout }, w)

structure Agent where
  channel : Option Channel := none
  nextGeneration : UInt32 := 0
  deriving DecidableEq, Repr

namespace Agent

inductive Accept where
  | opened (generation : UInt32)
  | idle
  | failed
  deriving DecidableEq, Repr

inductive Flush where
  | «open»
  | finished
  | failed
  deriving DecidableEq, Repr

/-- `Agent::bind`, where the kernel decides whether the socket can be had. -/
def bind (w : World) : Option Agent × World :=
  match w.draw with
  | (answer, w) => (if answer.done then some {} else none, w)

def isServing (a : Agent) : Bool := a.channel.isSome

def generation (a : Agent) : Option UInt32 := a.channel.map (·.generation)

/-- `watch` without the descriptor: whether the channel wants to write, and to read. -/
def watch (a : Agent) : Option (Bool × Bool) :=
  a.channel.map fun chan => (!chan.pending.isEmpty, !chan.closing)

def deadline (a : Agent) : Option Nat := a.channel.map (·.idleDeadline)

def forget (a : Agent) (w : World) : Option UInt32 × Agent × World :=
  match a.channel with
  | none => (none, a, w)
  | some chan =>
      (some chan.generation, { a with channel := none }, w.log (.agentClosed chan.generation))

def closeIfIdle (a : Agent) (now : Nat) (w : World) : Option UInt32 × Agent × World :=
  match a.channel with
  | none => (none, a, w)
  | some chan =>
      if now < chan.idleDeadline then (none, a, w)
      else
        match a.forget w with
        | (generation, a, w) => (if chan.closing then none else generation, a, w)

def accept (a : Agent) (serving : Bool) (w : World) : Accept × Agent × World :=
  if a.isServing then (.idle, a, w)
  else
    match w.draw with
    | (answer, w) =>
        match answer.accept with
        | .error .again => (.idle, a, w)
        | .error .intr => (.idle, a, w)
        | .error _ => (.failed, a, w)
        | .ok peer =>
            if !peer.ours || !serving || !peer.nonblocking then (.idle, a, w)
            else
              let generation := a.nextGeneration
              match w.clock with
              | (now, w) =>
                  (.opened generation,
                    { channel := some { generation, idleDeadline := now + agentIdleTimeout }
                      nextGeneration := generation + 1 },
                    w.log (.agentOpened generation))

def read (a : Agent) (bufLen : Nat) (w : World) : ReadOutcome × Agent × World :=
  match a.channel with
  | none => (.eof, a, w)
  | some chan =>
      if chan.closing then (.wouldBlock, a, w)
      else
        match w.readOrEof bufLen with
        | (.data bytes, w) =>
            match chan.touch w with
            | (chan, w) =>
                (.data bytes, { a with channel := some chan },
                  w.log (.agentRead chan.generation bytes))
        | (outcome, w) => (outcome, a, w)

/-- Answers `false` where the queue would outgrow its cap. -/
def deliver (a : Agent) (generation : UInt32) (data : Bytes) : Bool × Agent :=
  match a.channel with
  | none => (true, a)
  | some chan =>
      if chan.generation = generation && !chan.closing then
        if maxChannelQueue < chan.pending.length + data.length then (false, a)
        else (true, { a with channel := some { chan with pending := chan.pending ++ data } })
      else (true, a)

def flush (a : Agent) (w : World) : Flush × Agent × World :=
  match a.channel with
  | none => (.finished, a, w)
  | some chan =>
      let before := chan.pending.length
      match w.drainTo chan.pending with
      | (drained, w) =>
          let chan := { chan with pending := drained.queue }
          let w := w.log (.agentWrote chan.generation drained.written)
          match (if chan.pending.length ≠ before then chan.touch w else (chan, w)) with
          | (chan, w) =>
              (if chan.closing then
                  if drained.failed || chan.pending.isEmpty then .finished else .open
                else if drained.failed then .failed
                else .open,
                { a with channel := some chan }, w)

def closeFromClient (a : Agent) (generation : UInt32) (w : World) : Agent × World :=
  match a.channel with
  | none => (a, w)
  | some chan =>
      if chan.generation ≠ generation then (a, w)
      else
        match ({ a with channel := some { chan with closing := true } } : Agent).flush w with
        | (.open, a, w) =>
            match a.channel with
            | none => (a, w)
            | some chan =>
                match w.clock with
                | (now, w) =>
                    let idleDeadline := min chan.idleDeadline (now + agentAbandonGrace)
                    ({ a with channel := some { chan with idleDeadline } }, w)
        | (_, a, w) => (a.forget w).2

theorem touch_quiet (chan : Channel) (w : World) : Quiet w (chan.touch w).2 := w.clock_quiet

theorem bind_quiet (w : World) : Quiet w (bind w).2 := w.draw_quiet

theorem forget_only (a : Agent) (w : World) : Only Event.isAgent w (a.forget w).2.2 := by
  unfold forget
  split
  · exact (Quiet.refl w).only
  · exact (Quiet.refl w).only.log rfl

theorem closeIfIdle_only (a : Agent) (now : Nat) (w : World) :
    Only Event.isAgent w (a.closeIfIdle now w).2.2 := by
  unfold closeIfIdle
  split
  · exact (Quiet.refl w).only
  · split
    · exact (Quiet.refl w).only
    · exact a.forget_only w

theorem accept_only (a : Agent) (serving : Bool) (w : World) :
    Only Event.isAgent w (a.accept serving w).2.2 := by
  have draw : Only Event.isAgent w _ := w.draw_quiet.only
  unfold accept
  split
  · exact (Quiet.refl w).only
  · dsimp only
    split
    · exact draw
    · exact draw
    · exact draw
    · split
      · exact draw
      · exact (draw.trans (World.clock_quiet _).only).log rfl

theorem read_only (a : Agent) (bufLen : Nat) (w : World) : Only Event.isAgent w (a.read bufLen w).2.2 := by
  have quiet : Only Event.isAgent w _ := (w.readOrEof_quiet bufLen).only
  unfold read
  split
  · exact (Quiet.refl w).only
  · split
    · exact (Quiet.refl w).only
    · split
      · rename_i chan _ _ _ bytes w' h
        rw [h] at quiet
        exact (quiet.trans (touch_quiet chan w').only).log rfl
      · rename_i h
        rwa [h] at quiet

theorem flush_only (a : Agent) (w : World) : Only Event.isAgent w (a.flush w).2.2 := by
  unfold flush
  split
  · exact (Quiet.refl w).only
  · rename_i chan _
    have quiet : Only Event.isAgent w _ := (w.drainTo_quiet chan.pending).only
    dsimp only
    have wrote := quiet.log
      (e := .agentWrote chan.generation (w.drainTo chan.pending).1.written) rfl
    split
    · exact wrote.trans (touch_quiet _ _).only
    · exact wrote

theorem closeFromClient_only (a : Agent) (generation : UInt32) (w : World) :
    Only Event.isAgent w (a.closeFromClient generation w).2 := by
  unfold closeFromClient
  split
  · exact (Quiet.refl w).only
  · rename_i chan _
    split
    · exact (Quiet.refl w).only
    · have flushed := flush_only { a with channel := some { chan with closing := true } } w
      split
      · rename_i h
        rw [h] at flushed
        split
        · exact flushed
        · exact flushed.trans (World.clock_quiet _).only
      · rename_i h
        rw [h] at flushed
        exact flushed.trans (forget_only _ _)

theorem forget_aside (a : Agent) (w : World) : Aside w (a.forget w).2.2 := (a.forget_only w).aside

theorem closeIfIdle_aside (a : Agent) (now : Nat) (w : World) :
    Aside w (a.closeIfIdle now w).2.2 := (a.closeIfIdle_only now w).aside

theorem accept_aside (a : Agent) (serving : Bool) (w : World) :
    Aside w (a.accept serving w).2.2 := (a.accept_only serving w).aside

theorem read_aside (a : Agent) (bufLen : Nat) (w : World) : Aside w (a.read bufLen w).2.2 :=
  (a.read_only bufLen w).aside

theorem flush_aside (a : Agent) (w : World) : Aside w (a.flush w).2.2 := (a.flush_only w).aside

theorem closeFromClient_aside (a : Agent) (generation : UInt32) (w : World) :
    Aside w (a.closeFromClient generation w).2 := (a.closeFromClient_only generation w).aside

end Agent
end Nomux
