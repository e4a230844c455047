import Nomux.Daemon.Frame
import Nomux.Session.Invariants

/-!
# The daemon and its trace

A daemon is sound where its trace is lawful and its state is the one the trace tells of. `Sound` is
the refinement relation between `Daemon` and `Session`; this module has its parts and how the events
of a connection change them.
-/

namespace Nomux
open Wire World

/-- The part of a daemon's state that its trace determines. -/
structure View where
  nextConn : Nat
  ring : Ring
  pty : Option Pty
  client : Option Attached
  pending : Option (Conn × Nat)
  inApplied : Nat
  pendingInput : Bytes
  terminalClosedAt : Option Nat
  outcome : Option (Int32 × ExitKind)

def Daemon.view (d : Daemon) : View :=
  { nextConn := d.world.nextConn, ring := d.ring, pty := d.pty, client := d.client
    pending := d.pending, inApplied := d.inApplied, pendingInput := d.pendingInput
    terminalClosedAt := d.terminalClosedAt, outcome := d.outcome }

structure Linked (c : Conn) (l : Link) : Prop where
  carries : c.Carries l.wrote l.sent
  preamble : c.preambleQueued = !l.sent.isEmpty
  eof : c.eof = l.eof

inductive Stage where
  | fresh (hello : Hello)
  | greeted
  | refused

def Stage.Holds (s : Session) (l : Link) : Stage → Prop
  | .fresh hello => l.sent = [] ∧ s.greeting = some hello
  | .greeted => l.Greeted
  | .refused => True

structure Serves (s : Session) (stage : Stage) (a : Attached) : Prop where
  attached : s.attached = some a.conn.id
  linked : Linked a.conn (s.links a.conn.id)
  sentThrough : a.sentThrough = (s.links a.conn.id).sentThrough
  terminalEndSent : a.terminalEndSent = (s.links a.conn.id).exitSent
  stage : stage.Holds s (s.links a.conn.id)

structure Waits (s : Session) (c : Conn) : Prop where
  pending : s.pending = some c.id
  linked : Linked c (s.links c.id)
  unsent : (s.links c.id).sent = []
  through : (s.links c.id).sentThrough = 0

theorem Serves.of_same {s t : Session} {stage : Stage} {a : Attached} (h : Serves s stage a)
    (attached : t.attached = s.attached) (links : t.links = s.links)
    (greeting : t.greeting = s.greeting) : Serves t stage a := by
  obtain ⟨here, linked, through, ended, holds⟩ := h
  refine ⟨attached.trans here, links ▸ linked, links ▸ through, links ▸ ended, ?_⟩
  rw [links]
  cases stage with
  | fresh hello => exact ⟨holds.1, greeting.trans holds.2⟩
  | greeted | refused => exact holds

theorem Waits.of_same {s t : Session} {c : Conn} (h : Waits s c) (pending : t.pending = s.pending)
    (links : t.links = s.links) : Waits t c := by
  obtain ⟨here, linked, unsent, through⟩ := h
  exact ⟨pending.trans here, links ▸ linked, links ▸ unsent, links ▸ through⟩

structure Coupled (s : Session) (stage : Stage) (v : View) : Prop where
  capacity : v.ring.capacity = s.capacity
  ring : v.ring.Holds s.output
  nextConn : v.nextConn = s.accepted
  inApplied : v.inApplied = s.inApplied
  pendingInput : v.pendingInput = s.pendingInput
  terminalClosedAt : v.terminalClosedAt = s.terminalClosedAt
  outcome : v.outcome = s.outcome
  client : ∀ a, v.client = some a → Serves s stage a
  vacant : v.client = none → s.attached = none
  pending : ∀ c deadline, v.pending = some (c, deadline) → Waits s c
  idle : v.pending = none → s.pending = none
  served : stage = .greeted → v.client.isSome → v.pty.isSome
  queued : v.pendingInput ≠ [] → v.pty.isSome
  closed : v.terminalClosedAt.isSome → v.pty.isSome
  settled : ∀ o, v.outcome = some o → v.pty.any (·.observed) ∨ o = (0, .unknown)

/-- Where a stretch of a run starts: the capacity of its ring and the trace so far. -/
structure Origin where
  capacity : Nat
  past : List Event

structure Since (origin : Origin) (t : List Event) : Prop where
  lawful : Lawful origin.capacity t
  past : origin.past <+: t

theorem Since.snoc {origin : Origin} {t : List Event} {e : Event} (h : Since origin t)
    (legal : (session origin.capacity t).Legal e) : Since origin (t ++ [e]) :=
  ⟨h.lawful.snoc legal, h.past.trans (List.prefix_append ..)⟩

def Sound (origin : Origin) (stage : Stage) (d : Daemon) : Prop :=
  Since origin d.world.trace ∧ Coupled (session origin.capacity d.world.trace) stage d.view

variable {origin : Origin} {stage stage' : Stage}

theorem Sound.log {d d' : Daemon} {e : Event} (h : Sound origin stage d)
    (legal : (session origin.capacity d.world.trace).Legal e)
    (trace : d'.world.trace = d.world.trace ++ [e])
    (coupled : Coupled ((session origin.capacity d.world.trace).step e) stage' d'.view) :
    Sound origin stage' d' := by
  refine ⟨?_, ?_⟩
  · rw [trace]
    exact h.1.snoc legal
  · rw [trace, session_snoc]
    exact coupled

theorem Session.Legal.aside {e : Event} (h : e.isAside) (s : Session) : s.Legal e ∧ s.step e = s := by
  cases e <;> first | exact ⟨trivial, rfl⟩ | simp [Event.isAside] at h

theorem session_asides {t es : List Event} (lawful : Since origin t)
    (asides : ∀ e ∈ es, e.isAside) :
    Since origin (t ++ es) ∧ session origin.capacity (t ++ es) = session origin.capacity t := by
  induction es using List.reverseRecOn with
  | nil => simpa using lawful
  | append_singleton es e ih =>
      obtain ⟨upto, same⟩ := ih fun f hf => asides f (by simp [hf])
      obtain ⟨legal, still⟩ :=
        Session.Legal.aside (asides e (by simp)) (session origin.capacity (t ++ es))
      rw [← List.append_assoc]
      refine ⟨upto.snoc legal, ?_⟩
      rw [session_snoc, still, same]

theorem Sound.aside {d d' : Daemon} (h : Sound origin stage d) (aside : Aside d.world d'.world)
    (view : Coupled (session origin.capacity d.world.trace) stage { d'.view with nextConn := d.view.nextConn }) :
    Sound origin stage d' := by
  obtain ⟨⟨es, asides, trace⟩, next⟩ := aside
  obtain ⟨lawful, same⟩ := session_asides h.1 asides
  refine ⟨by rw [trace]; exact lawful, ?_⟩
  rw [trace, same]
  have restored : d'.view = { d'.view with nextConn := d.view.nextConn } := by
    simp only [Daemon.view, next]
  rw [restored]
  exact view

theorem Sound.world {d : Daemon} (h : Sound origin stage d) {w : World}
    (aside : Aside d.world w) : Sound origin stage { d with world := w } :=
  h.aside aside h.2

theorem Linked.stream {c : Conn} {l : Link} (h : Linked c l) : l.wrote ++ c.unsent = l.stream := by
  have split := h.carries.split
  rw [h.preamble] at split
  rw [split, Link.stream]
  cases l.sent <;> rfl

theorem Linked.queue {c : Conn} {l : Link} (h : Linked c l) (s : Session) (f : Frame) :
    Linked (c.queue f) (s.queued f l) where
  carries := h.carries.queue f
  preamble := by simp [Conn.queue]
  eof := h.eof

theorem Linked.writing {c : Conn} {l : Link} (h : Linked c l) {bytes tx : Bytes} {pos : Nat}
    (bound : pos ≤ tx.length) (split : bytes ++ tx.drop pos = c.unsent) :
    Linked (c.writing tx pos) (l.took bytes) where
  carries := h.carries.writing bound split
  preamble := h.preamble
  eof := h.eof

theorem Linked.fresh (id : Nat) : Linked { id } {} where
  carries := ⟨Nat.le_refl _, by simp [Conn.unsent], fun _ => rfl⟩
  preamble := rfl
  eof := rfl

theorem Link.Greeted.append {l : Link} (h : l.Greeted) {f : Frame} (response : f.isResponse)
    (s : Session) : (s.queued f l).Greeted := by
  obtain ⟨ok, body, sent, body_ok⟩ := h
  refine ⟨ok, body ++ [f], by simp [sent], ?_⟩
  intro g hg
  rcases List.mem_append.1 hg with hg | hg
  · exact body_ok g hg
  · rw [List.mem_singleton.1 hg]
    exact response

theorem Serves.open {s : Session} {a : Attached} (h : Serves s stage a) : s.Open a.conn.id :=
  .inr h.attached

theorem Coupled.touchClient {s : Session} {v : View} {a a' : Attached} (h : Coupled s stage v)
    (ident : s.Identified) (client : v.client = some a) (change : Link → Link)
    (serves : Serves (s.update a.conn.id change) stage' a')
    (served : stage' = .greeted → v.pty.isSome) :
    Coupled (s.update a.conn.id change) stage' { v with client := some a' } :=
  { h with
    client := fun b hb => by cases hb; exact serves
    vacant := fun no => by cases no
    pending := fun c deadline hc => by
      have waits := h.pending c deadline hc
      have ne : c.id ≠ a.conn.id := fun same =>
        ident.apart _ waits.pending (same ▸ (h.client a client).attached)
      refine ⟨waits.pending, ?_, ?_, ?_⟩
      · rw [Session.update_of_ne s change ne]
        exact waits.linked
      · rw [Session.update_of_ne s change ne]
        exact waits.unsent
      · rw [Session.update_of_ne s change ne]
        exact waits.through
    served := fun greeted _ => served greeted }

theorem Coupled.dropClient {s : Session} {v : View} {a : Attached} (h : Coupled s stage v)
    (ident : s.Identified) (client : v.client = some a) (why : Departure) :
    Coupled (s.step (.left a.conn.id why)) stage' { v with client := none } := by
  have attached := (h.client a client).attached
  refine
    { h with
      client := fun b no => by cases no
      vacant := fun _ => by simp [Session.step, attached]
      pending := fun c deadline hc => ?_
      idle := fun none => ?_
      served := fun _ no => by cases no }
  · have waits := h.pending c deadline hc
    have ne : c.id ≠ a.conn.id := fun same => ident.apart _ waits.pending (same ▸ attached)
    have link : (s.step (.left a.conn.id why)).links c.id = s.links c.id :=
      Session.update_of_ne s Link.over ne
    have other : s.pending ≠ some a.conn.id := fun same => by
      rw [waits.pending] at same
      exact ne (Option.some.inj same)
    refine ⟨(if_neg other).trans waits.pending, ?_, ?_, ?_⟩
    · rw [link]; exact waits.linked
    · rw [link]; exact waits.unsent
    · rw [link]; exact waits.through
  · simp [Session.step, h.idle none]

theorem Coupled.touchPending {s : Session} {v : View} {c c' : Conn} {deadline deadline' : Nat}
    (h : Coupled s stage v) (ident : s.Identified) (pending : v.pending = some (c, deadline))
    (change : Link → Link) (waits : Waits (s.update c.id change) c') :
    Coupled (s.update c.id change) stage { v with pending := some (c', deadline') } :=
  { h with
    client := fun a ha => by
      have serves := h.client a ha
      have ne : a.conn.id ≠ c.id := fun same =>
        ident.apart _ (h.pending c deadline pending).pending (same ▸ serves.attached)
      have link := Session.update_of_ne s change ne
      refine ⟨serves.attached, ?_, ?_, ?_, ?_⟩
      · rw [link]; exact serves.linked
      · rw [link]; exact serves.sentThrough
      · rw [link]; exact serves.terminalEndSent
      · rw [link]
        have holds := serves.stage
        cases stage <;> exact holds
    pending := fun b due hb => by cases hb; exact waits
    idle := fun no => by cases no }

theorem Coupled.dropPending {s : Session} {v : View} {c : Conn} {deadline : Nat}
    (h : Coupled s stage v) (ident : s.Identified) (pending : v.pending = some (c, deadline))
    (change : Link → Link) (why : Departure) :
    Coupled ((s.update c.id change).step (.left c.id why)) stage { v with pending := none } := by
  have waiting := (h.pending c deadline pending).pending
  have other : s.attached ≠ some c.id := ident.apart _ waiting
  refine
    { h with
      client := fun a ha => ?_
      vacant := fun none => ?_
      pending := fun b due no => by cases no
      idle := fun _ => if_pos waiting }
  · have serves := h.client a ha
    have ne : a.conn.id ≠ c.id := fun same => other (same ▸ serves.attached)
    have link : ((s.update c.id change).step (.left c.id why)).links a.conn.id =
        s.links a.conn.id :=
      (Session.update_of_ne _ Link.over ne).trans (Session.update_of_ne s change ne)
    refine ⟨(if_neg other).trans serves.attached, ?_, ?_, ?_, ?_⟩
    · rw [link]; exact serves.linked
    · rw [link]; exact serves.sentThrough
    · rw [link]; exact serves.terminalEndSent
    · rw [link]
      have holds := serves.stage
      cases stage <;> exact holds
  · exact (if_neg other).trans (h.vacant none)

end Nomux
