import Nomux.Daemon.Moves
import Nomux.Daemon.RunSound

/-!
# Runs are sequences of moves

Every state of a session is reached from its start by moves, so what the start has and every move
keeps holds in every state a session is ever in.
-/

namespace Nomux
open Wire World
namespace Daemon

variable {may : Special → Prop}

theorem wait_moves (d : Daemon) : Moves may d d.wait.2 := by
  obtain ⟨w, quiet, timed⟩ := d.expire.pollTimeout_world
  have polled : Moves may d { d.expire with world := w.draw.2 } :=
    (expire_moves d).trans (Moves.quiet _ (quiet.trans w.draw_quiet))
  unfold wait
  generalize d.expire.pollTimeout = result at timed
  obtain ⟨timeout, d'⟩ := result
  dsimp only at timed ⊢
  subst timed
  split
  · exact polled
  · exact polled
  · exact polled

theorem takeSignals_moves (d : Daemon) (ready : Source → PollFlags) :
    Moves may d (d.takeSignals ready) := by
  unfold takeSignals
  dsimp only
  have stopped : Moves may d (d.doIf (ready .stop).readable fun d =>
      { d with stop := d.stop.or (some "exiting: signalled") }) := by
    refine Moves.doIf .refl _ _ fun _ => ?_
    refine .single (.quiet _ d.childSignalled d.acceptRetry d.agentAcceptRetry (.refl _) fun _ => ?_)
    simp
  refine stopped.doIf _ _ fun _ => ?_
  exact .single (.quiet _ true _ _ (drainChildPipe_quiet _ _) id)

/-- A stretch of a pass in which at most one greeting is read, behind the read of the client. -/
def Arrives (may : Special → Prop) (d d' : Daemon) : Prop :=
  Moves may d d' ∨ ∃ q ready, Moves may d q ∧ (q.readSession ready).stop = none ∧
    Moves may (q.readSession ready).readPending d'

theorem Arrives.before {d d' d'' : Daemon} (before : Moves may d d') (h : Arrives may d' d'') :
    Arrives may d d'' := by
  rcases h with none | ⟨q, ready, first, running, rest⟩
  · exact .inl (before.trans none)
  · exact .inr ⟨q, ready, before.trans first, running, rest⟩

theorem Arrives.behind {d d' d'' : Daemon} (h : Arrives may d d') (behind : Moves may d' d'') :
    Arrives may d d'' := by
  rcases h with none | ⟨q, ready, first, running, rest⟩
  · exact .inl (none.trans behind)
  · exact .inr ⟨q, ready, first, running, rest.trans behind⟩

theorem Arrives.moves {d d' : Daemon} (attaches : may .attach) (h : Arrives may d d') :
    Moves may d d' := by
  rcases h with none | ⟨q, ready, first, running, rest⟩
  · exact none
  · refine ((first.trans (readSession_moves q ready)).trans ?_).trans rest
    exact readPending_moves attaches _ running

def greeted (p : Daemon) (ready : Source → PollFlags) : Daemon :=
  if p.stop.isNone && (ready .pending).readable then p.readPending else p

theorem takeArrivals_moves (p : Daemon) {ready : Source → PollFlags}
    (free : (ready .listener).readable → p.pending = none) :
    Moves may (p.greeted ready) (p.takeArrivals ready) := by
  have accepted : ∀ d' : Daemon, ((ready .listener).readable → d'.pending = none) →
      Moves may d' (d'.doIf (ready .listener).readable accept) :=
    fun d' vacant => Moves.doIf .refl _ _ fun readable => accept_moves d' (vacant readable)
  have vacant : (ready .listener).readable → p.readPending.pending = none := by
    intro readable
    have vacant := free readable
    unfold readPending
    rw [vacant]
    exact vacant
  unfold greeted takeArrivals
  cases p.stop.isNone with
  | false => exact .refl
  | true =>
      show Moves may _ ((p.doIf (ready .pending).readable readPending).doIf _ accept)
      cases (ready .pending).readable with
      | false => exact accepted _ free
      | true => exact accepted _ vacant

theorem takeArrivals_arrives (q : Daemon) {ready : Source → PollFlags}
    (free : (ready .listener).readable → (q.readSession ready).pending = none) :
    Arrives may q ((q.readSession ready).takeArrivals ready) := by
  have taken : Moves may _ ((q.readSession ready).takeArrivals ready) := takeArrivals_moves _ free
  unfold greeted at taken
  split at taken
  · rename_i both
    rw [Bool.and_eq_true] at both
    exact .inr ⟨q, ready, .refl, Option.isNone_iff_eq_none.1 both.1, taken⟩
  · exact .inl ((readSession_moves q ready).trans taken)

/-- What a pass does between `poll` and the terminal. -/
def serviced (d : Daemon) (ready : Source → PollFlags) : Daemon :=
  (((d.takeSignals ready).readSession ready).takeArrivals ready).serviceAgent ready

theorem Polled.session {d : Daemon} {ready : Source → PollFlags} (polled : d.Polled ready) :
    (ready .listener).readable → ((d.takeSignals ready).readSession ready).pending = none := by
  rw [readSession_pending, takeSignals_pending]
  exact polled.free

theorem serviced_arrives {d : Daemon} {ready : Source → PollFlags} (polled : d.Polled ready) :
    Arrives may d (d.serviced ready) :=
  .before (takeSignals_moves d ready)
    ((takeArrivals_arrives _ polled.session).behind (serviceAgent_moves _ ready))

/-- The state of a pass behind its `poll` and what that reported, if the loop does not return before. -/
def polled (d : Daemon) : Option (Daemon × (Source → PollFlags)) :=
  match d.stopReason with
  | (some _, _) => none
  | (none, d) =>
      match d.wait with
      | (.error _, _) => none
      | (.ok ready, d) => some (d, ready)

def beforeApply (d : Daemon) : Option Daemon := d.polled.map fun p => p.1.serviced p.2

def beforePump (d : Daemon) : Option Daemon := d.beforeApply.map settled

theorem pass_polled (d d' : Daemon) :
    d.pass = .ok d' ↔ ∃ q ready, d.polled = some (q, ready) ∧ d' = q.pollOnce ready := by
  unfold Daemon.pass polled
  generalize d.stopReason = result
  obtain ⟨_ | reason, d₁⟩ := result
  · dsimp only
    generalize d₁.wait = result
    obtain ⟨_ | ready, d₂⟩ := result
    · simp
    · simp [eq_comm]
  · simp

theorem pass_eq (d d' : Daemon) :
    d.pass = .ok d' ↔ ∃ p, d.beforePump = some p ∧ d' = p.pumpOutput.writeClient := by
  rw [pass_polled]
  unfold beforePump beforeApply
  constructor
  · rintro ⟨q, ready, polled, rfl⟩
    rw [polled]
    exact ⟨_, rfl, rfl⟩
  · rintro ⟨p, pumps, rfl⟩
    cases polled : d.polled with
    | none => rw [polled] at pumps; cases pumps
    | some result =>
        rw [polled] at pumps
        cases pumps
        exact ⟨_, _, rfl, rfl⟩

theorem Reachable.polled_sound {requested : Nat} {d q : Daemon} {ready : Source → PollFlags}
    (h : Reachable requested d) (polled : d.polled = some (q, ready)) :
    Moves may d q ∧ q.Polled ready := by
  have sound := h.sound.stopReason
  have asked : Moves may d d.stopReason.2 := stopReason_moves d
  unfold Daemon.polled at polled
  generalize d.stopReason = result at sound asked polled
  obtain ⟨_ | reason, d₁⟩ := result
  · have waited := asked.trans (wait_moves d₁)
    dsimp only at polled
    split at polled
    · cases polled
    · rename_i eq
      rw [eq] at waited
      cases polled
      exact ⟨waited, (sound.wait eq).2⟩
  · cases polled

theorem Reachable.beforeApply_arrives {requested : Nat} {d q : Daemon} (h : Reachable requested d)
    (applies : d.beforeApply = some q) : Arrives may d q := by
  obtain ⟨⟨q, ready⟩, polled, rfl⟩ := Option.map_eq_some_iff.1 applies
  obtain ⟨moves, polled⟩ := @Reachable.polled_sound may _ _ _ _ h polled
  exact .before moves (serviced_arrives polled)

theorem Reachable.beforePump_arrives {requested : Nat} {d p : Daemon} (h : Reachable requested d)
    (pumps : d.beforePump = some p) : Arrives may d p := by
  obtain ⟨q, applies, rfl⟩ := Option.map_eq_some_iff.1 pumps
  exact (h.beforeApply_arrives applies).behind (settled_moves q)

theorem pass_returns {d d' : Daemon} (next : d.pass = .error d') : Moves may d d' := by
  have asked : Moves may d d.stopReason.2 := stopReason_moves d
  unfold Daemon.pass at next
  generalize d.stopReason = result at asked next
  obtain ⟨_ | reason, d₁⟩ := result
  · have waited := asked.trans (wait_moves d₁)
    dsimp only at next
    split at next
    · rename_i eq
      rw [eq] at waited
      cases next
      exact waited
    · cases next
  · cases next
    exact asked

theorem Reachable.pass_moves {requested : Nat} {d d' : Daemon} (attaches : may .attach)
    (repaints : may .repaint) (h : Reachable requested d) (next : d.pass = .ok d') :
    Moves may d d' := by
  obtain ⟨p, pumps, same⟩ := (pass_eq ..).1 next
  rw [same]
  exact (((h.beforePump_arrives pumps).moves attaches).trans (pumpOutput_moves repaints p)).trans (writeClient_moves _)

theorem shutdown_shape (d : Daemon) : ∃ q, Moves may d q ∧ d.shutdown = { q with pty := none } := by
  unfold shutdown
  dsimp only
  refine ⟨_, Relation.ReflTransGen.trans ?_ (dropPending_moves _ .shutdown), rfl⟩
  split
  · exact .refl
  · rename_i client attached
    exact .single (.depart .shutdown attached (flushFinal_farewell ..))

theorem shutdown_moves (ends : may .shutDown) (d : Daemon) : Moves may d d.shutdown := by
  obtain ⟨q, moves, same⟩ := @shutdown_shape may d
  rw [same]
  exact moves.tail (.shutDown ends)

theorem Reachable.moves {requested : Nat} {d : Daemon} (attaches : may .attach)
    (repaints : may .repaint) (h : Reachable requested d) :
    ∃ ring script now, Ring.tryNew true requested = some ring ∧
      Moves may (Daemon.start ring script now) d := by
  induction h with
  | start script now reserved => exact ⟨_, script, now, reserved, .refl⟩
  | pass before next ih =>
      obtain ⟨ring, script, now, reserved, moves⟩ := ih
      exact ⟨ring, script, now, reserved, moves.trans (before.pass_moves attaches repaints next)⟩

/-- The invariant rule for moves. -/
theorem Moves.invariant {Inv : Daemon → Prop} {d d' : Daemon} (moves : Moves may d d')
    (step : ∀ d d', Inv d → Move may d d' → Inv d') (held : Inv d) : Inv d' := by
  induction moves with
  | refl => exact held
  | tail _ last ih => exact step _ _ ih last

end Daemon
end Nomux
