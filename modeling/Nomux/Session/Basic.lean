import Nomux.Ring
import Nomux.World
import Nomux.Wire.Stream
import Nomux.Lib.GuardedTrace

/-!
# A session as its trace

What a session is for, told by the events of its trace: the output the terminal has produced, the
input its clients have had applied, and for each connection the frames queued to it. `Legal` says
when each event may happen. Nothing here knows how the daemon goes about it.
-/

namespace Nomux
open Wire

def Wire.Frame.isExit : Frame → Bool
  | .exit .. => true
  | _ => false

/-- What may follow a `HelloOk`. -/
def Wire.Frame.isResponse : Frame → Bool
  | .output .. | .gap .. | .inputAck .. | .pong | .agentOpen .. | .agentData .. | .agentClose ..
  | .exit .. => true
  | _ => false

/-- One connection: the frames queued to it, the bytes its socket took, and how much of the output
it has been queued. -/
structure Link where
  sent : List Frame := []
  wrote : Bytes := []
  sentThrough : Nat := 0
  eof : Bool := false
  ended : Bool := false

def Link.stream (l : Link) : Bytes :=
  if l.sent = [] then [] else serverPreamble ++ l.sent.flatMap Frame.wire

def Link.exitSent (l : Link) : Bool := l.sent.any Frame.isExit

/-- Greeted, and refused nothing yet. -/
def Link.Greeted (l : Link) : Prop :=
  ∃ ok body, l.sent = .helloOk ok :: body ∧ ∀ f ∈ body, f.isResponse

def Link.atEof (l : Link) : Link := { l with eof := true }

def Link.resumed (n : Nat) (l : Link) : Link := { l with sentThrough := n }

def Link.took (bytes : Bytes) (l : Link) : Link := { l with wrote := l.wrote ++ bytes }

def Link.over (l : Link) : Link := { l with ended := true }

structure Session where
  capacity : Nat
  output : Bytes := []
  appended : Bytes := []
  enqueued : Bytes := []
  written : Bytes := []
  writeFailed : Bool := false
  inApplied : Nat := 0
  pendingInput : Bytes := []
  terminalClosedAt : Option Nat := none
  outcome : Option (Int32 × ExitKind) := none
  waited : Option (Except Errno (Option WaitStatus)) := none
  handling : Option Frame := none
  greeting : Option Hello := none
  accepted : Nat := 0
  pending : Option Nat := none
  attached : Option Nat := none
  links : Nat → Link := fun _ => {}

namespace Session

/-- Offset of the oldest output still retained. -/
def base (s : Session) : Nat := History.base s.output s.capacity

def update (s : Session) (c : Nat) (change : Link → Link) : Session :=
  { s with links := Function.update s.links c (change (s.links c)) }

/-- Where a client that asked for `outOffset` is to resume. -/
def resumeFrom (s : Session) (outOffset : UInt64) : Nat :=
  if outOffset = resumeFromStart then s.base
  else max (min outOffset.toNat s.output.length) s.base

def queued (s : Session) (f : Frame) (l : Link) : Link :=
  { l with
    sent := l.sent ++ [f]
    sentThrough := match f with
      | .output _ data => l.sentThrough + data.length
      | .gap _ => s.base
      | _ => l.sentThrough }

def step (s : Session) : Event → Session
  | .accepted c => { s with accepted := s.accepted + 1, pending := some c }
  | .endOfFile c => s.update c Link.atEof
  | .attached c hello => { s with pending := none, attached := some c, greeting := some hello }
  | .resumed c n => s.update c (Link.resumed n)
  | .handled _ f => { s with handling := some f }
  | .applied offset data kept =>
      { s with
        inApplied := saturatingAdd offset.toNat data.length
        appended := s.appended ++ kept
        enqueued := s.enqueued ++ kept
        pendingInput := s.pendingInput ++ kept }
  | .sent c f => s.update c (s.queued f)
  | .wrote c bytes => s.update c (Link.took bytes)
  | .left c _ =>
      { s.update c Link.over with
        pending := if s.pending = some c then none else s.pending
        attached := if s.attached = some c then none else s.attached }
  | .output bytes => { s with output := s.output ++ bytes }
  | .terminalClosed now => { s with terminalClosedAt := some now, pendingInput := [] }
  | .repaintQueued =>
      { s with enqueued := s.enqueued ++ [0x0c], pendingInput := s.pendingInput ++ [0x0c] }
  | .masterWrote bytes =>
      { s with
        written := s.written ++ bytes
        pendingInput := s.pendingInput.drop bytes.length }
  | .masterFailed => { s with writeFailed := true, pendingInput := [] }
  | .waited answer => { s with waited := some answer }
  | .outcome o _ => { s with outcome := some o }
  | .received .. | .resized _ | .resizeRefused _ | .agentOpened _ | .agentRead .. | .agentWrote ..
  | .agentClosed _ => s

/-- The connection has been accepted and has not left. -/
def Open (s : Session) (c : Nat) : Prop := s.pending = some c ∨ s.attached = some c

def Sendable (s : Session) (c : Nat) (f : Frame) : Prop :=
  let l := s.links c
  match f with
  | .helloOk ok =>
      s.attached = some c ∧ l.sent = [] ∧ s.base ≤ l.sentThrough ∧
        l.sentThrough ≤ s.output.length ∧ ok.resumeFrom = UInt64.ofNat l.sentThrough ∧
        ok.inApplied = UInt64.ofNat s.inApplied
  | .output offset data =>
      s.attached = some c ∧ l.Greeted ∧ offset = UInt64.ofNat l.sentThrough ∧ data ≠ [] ∧
        data <+: s.output.drop l.sentThrough
  | .gap newBase =>
      s.attached = some c ∧ l.Greeted ∧ l.sentThrough < s.base ∧ newBase = UInt64.ofNat s.base
  | .inputAck through =>
      s.attached = some c ∧ l.Greeted ∧ through = UInt64.ofNat s.inApplied
  | .exit status kind _ =>
      s.attached = some c ∧ l.Greeted ∧ l.exitSent = false ∧ s.terminalClosedAt.isSome ∧
        s.outcome = some (status, kind) ∧ l.sentThrough = s.output.length
  | .pong | .agentOpen _ | .agentData .. | .agentClose _ => s.attached = some c ∧ l.Greeted
  | .error code _ =>
      s.Open c ∧ (l.sent = [] ∨ l.Greeted) ∧
        (code = .inputGap →
          ∃ offset data, s.handling = some (.input offset data) ∧ s.inApplied < offset.toNat)
  | .hello _ | .input .. | .resize _ | .detach | .ping => False

def Settles (s : Session) (o : Int32 × ExitKind) : Settled → Prop
  | .reported =>
      s.outcome = none ∧ ∃ status, s.waited = some (.ok (some status)) ∧ o = status.outcome
  | .waitFailed =>
      (s.outcome = none ∨ s.outcome = some o) ∧ o = (0, .unknown) ∧ s.terminalClosedAt.isSome ∧
        ∃ err, s.waited = some (.error err)
  | .graceElapsed now =>
      s.outcome = none ∧ o = (0, .unknown) ∧
        ∃ closedAt, s.terminalClosedAt = some closedAt ∧ closedAt + outcomeGrace ≤ now

def Legal (s : Session) : Event → Prop
  | .accepted c => c = s.accepted ∧ s.pending = none
  | .received c _ | .endOfFile c => s.Open c
  | .attached c _ => s.pending = some c ∧ s.attached = none ∧ (s.links c).sent = []
  | .resumed c n =>
      s.attached = some c ∧ (s.links c).sent = [] ∧
        ∃ hello, s.greeting = some hello ∧ n = s.resumeFrom hello.outOffset
  | .handled c _ => s.attached = some c
  | .applied offset data kept =>
      s.handling = some (.input offset data) ∧ offset.toNat ≤ s.inApplied ∧
        s.inApplied < saturatingAdd offset.toNat data.length ∧
        kept = if s.terminalClosedAt.isNone then data.drop (s.inApplied - offset.toNat) else []
  | .sent c f => s.Sendable c f
  | .wrote c bytes => s.Open c ∧ (s.links c).wrote ++ bytes <+: (s.links c).stream
  | .left c why =>
      s.Open c ∧ (why = .finished →
        (s.links c).exitSent ∧ (s.links c).eof ∧ (s.links c).wrote = (s.links c).stream)
  | .output _ | .terminalClosed _ | .repaintQueued => s.terminalClosedAt = none
  | .masterWrote bytes => bytes <+: s.pendingInput
  | .outcome o settled => s.Settles o settled
  | .masterFailed | .waited _ | .resized _ | .resizeRefused _ | .agentOpened _ | .agentRead ..
  | .agentWrote .. | .agentClosed _ => True

def machine (capacity : Nat) : Guarded Session Event where
  init := { capacity }
  step := step
  Legal := Legal

end Session

def session (capacity : Nat) (t : List Event) : Session := (Session.machine capacity).state t

def Lawful (capacity : Nat) (t : List Event) : Prop := (Session.machine capacity).Lawful t

theorem session_snoc (capacity : Nat) (t : List Event) (e : Event) :
    session capacity (t ++ [e]) = (session capacity t).step e := Guarded.state_snoc ..

theorem Lawful.snoc {capacity : Nat} {t : List Event} {e : Event} (before : Lawful capacity t)
    (legal : (session capacity t).Legal e) : Lawful capacity (t ++ [e]) :=
  Guarded.Lawful.snoc before legal

@[elab_as_elim]
theorem Lawful.induction {capacity : Nat} {motive : ∀ t, Lawful capacity t → Prop}
    (nil : motive [] Guarded.Lawful.nil)
    (snoc : ∀ t e (before : Lawful capacity t) (legal : (session capacity t).Legal e),
      motive t before → motive (t ++ [e]) (before.snoc legal))
    {t : List Event} (h : Lawful capacity t) : motive t h :=
  Guarded.Lawful.rec nil (fun before legal => snoc _ _ before legal) h

theorem Lawful.of_append {capacity : Nat} {t u : List Event} (h : Lawful capacity (t ++ u)) :
    Lawful capacity t := Guarded.Lawful.of_append h

theorem Lawful.invariant {capacity : Nat} {Inv : Session → Prop} {t : List Event}
    (h : Lawful capacity t) (start : Inv { capacity })
    (step : ∀ s e, Inv s → s.Legal e → Inv (s.step e)) : Inv (session capacity t) :=
  Guarded.Lawful.invariant h start step

theorem Lawful.persists {capacity : Nat} {before after : List Event}
    (h : Lawful capacity (before ++ after)) (P : Session → Prop)
    (step : ∀ s e, s.Legal e → P s → P (s.step e)) (held : P (session capacity before)) :
    P (session capacity (before ++ after)) :=
  Guarded.Lawful.persists h step held

theorem Lawful.moment {capacity : Nat} {before after : List Event} {e : Event}
    (h : Lawful capacity (before ++ e :: after)) : (session capacity before).Legal e :=
  Guarded.Lawful.moment h

end Nomux
