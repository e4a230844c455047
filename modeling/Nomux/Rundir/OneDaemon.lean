import Nomux.Rundir.Secure
import Mathlib.Logic.Relation

/-!
# One daemon for an id

Any number of `spawn`, `daemon`, `list` and `kill` processes run call by call in any order, fork, and
are ended at any moment. At most one of them serves the session, nobody else takes its socket away,
and a `kill` or `list` removes files only while nobody serves.
-/

namespace Nomux.Rundir
open Program

namespace Living

/-- What a process was started for; a fork also leaves processes that only have to exit. -/
inductive Errand
  | spawn
  | daemon
  | kill
  | list
  | leftover
  deriving DecidableEq

structure Process where
  errand : Errand
  left : Run Unit

def Errand.program (patience rounds : Nat) (label : Bool) : Errand → Run Unit
  | spawn => create patience rounds
  | daemon => start none label rounds
  | kill => Rundir.kill patience rounds
  | list => Rundir.list
  | leftover => pure ()

structure State where
  fs : Fs
  process : Proc → Option Process := fun _ => none
  /-- The socket a process has bound and neither closed nor begun to remove. -/
  serving : Proc → Option Sock := fun _ => none

def servingAfter (serving : Option Sock) : (c : Call) → Reply c → Option Sock
  | .bind, .ok s => some s
  | .readDir, _ => none
  | .unlink .socket, _ => none
  | .closeSocket s, _ => if serving = some s then none else serving
  | _, _ => serving

def offspring (o : Oracle) (rounds : Nat) (label : Bool) : Call → Option Process
  | .fork child =>
      match o.fault, child with
      | none, .daemon lock => some ⟨.daemon, start (some lock) label rounds⟩
      | none, .leftover => some ⟨.leftover, pure ()⟩
      | some _, _ => if o.stillborn then some ⟨.leftover, pure ()⟩ else none
  | _ => none

inductive Move
  | begin (errand : Errand) (patience rounds : Nat) (label : Bool)
  | go (o : Oracle) (rounds : Nat) (label : Bool)
  | exit

namespace State

def make (s : State) (p : Proc) (o : Oracle) (errand : Errand) (c : Call) (rest : Reply c → Run Unit) :
    State where
  fs := (s.fs.serve p o c).2
  process := Function.update s.process p (some ⟨errand, rest (s.fs.serve p o c).1⟩)
  serving := Function.update s.serving p (servingAfter (s.serving p) c (s.fs.serve p o c).1)

/-- A fork waits for a number that no process has. -/
def next (s : State) (p : Proc) (move : Move) : State :=
  match move, s.process p with
  | .begin errand patience rounds label, none => { s with
      process := Function.update s.process p (some ⟨errand, errand.program patience rounds label⟩) }
  | .go o rounds label, some ⟨errand, .call c rest⟩ =>
      match offspring o rounds label c, s.process o.child with
      | none, _ => s.make p o errand c rest
      | some child, none => { s.make p o errand c rest with
          process := Function.update (s.make p o errand c rest).process o.child (some child) }
      | some _, some _ => s
  | .exit, some _ => {
      fs := s.fs.exit p
      process := Function.update s.process p none
      serving := Function.update s.serving p none }
  | _, _ => s

def run (s : State) (moves : List (Proc × Move)) : State :=
  moves.foldl (fun s move => s.next move.1 move.2) s

def Reaches (start s : State) : Prop :=
  Relation.ReflTransGen (fun s s' => ∃ p move, s' = s.next p move) start s

end State

/-- The calls that take a session away or begin another one. -/
def Errand.Disrupts : Errand → Call → Prop
  | kill, .unlink _ | kill, .rmdir _ | list, .unlink _ | list, .rmdir _ => True
  | _, .fork (.daemon _) => True
  | _, .bind => True
  | _, _ => False

/-- What the errand of a process lets it call. -/
def Errand.Allows : Errand → Role → Call → Prop
  | kill | list => Role.AllowsIdle
  | _ => Role.Allows

def Coupled (role : Role) : Option Process → Prop
  | none => role = {}
  | some process => process.left.Follows Role.after process.errand.Allows role fun _ _ => True

structure Sound (s : State) (role : Proc → Role) : Prop where
  secure : Secure s.fs role
  serving : ∀ p, s.serving p = (role p).sock.serves
  coupled : ∀ p, Coupled (role p) (s.process p)

theorem Errand.allows (errand : Errand) {role : Role} {c : Call} (h : errand.Allows role c) :
    role.Allows c := by
  cases errand with
  | kill => exact h.1
  | list => exact h.1
  | _ => exact h

theorem program_coupled (errand : Errand) (patience rounds : Nat) (label : Bool) :
    Coupled {} (some ⟨errand, errand.program patience rounds label⟩) := by
  cases errand with
  | spawn => exact create_allowed patience rounds
  | daemon => exact start_allowed none label rounds
  | kill => exact kill_allowed patience rounds
  | list => exact list_allowed
  | leftover => trivial

theorem serves_servingAfter (lock : LockRole) (sock : SockRole) (c : Call) (reply : Reply c) :
    (sock.after lock c reply).serves = servingAfter sock.serves c reply := by
  cases c with
  | connect =>
      cases reply with
      | stale refused =>
          cases sock with
          | none =>
              change (if lock.Stands then SockRole.licensed else .none).serves = none
              split <;> rfl
          | _ => rfl
      | _ => rfl
  | bind => cases reply <;> rfl
  | listen s =>
      cases reply with
      | error e => rfl
      | ok _ =>
          cases sock with
          | bound s' =>
              change (if s' = s then SockRole.listening s' else .bound s').serves = some s'
              split <;> rfl
          | _ => rfl
  | readDir => exact SockRole.serves_retire sock
  | unlink n =>
      cases n with
      | socket => exact SockRole.serves_retire sock
      | _ => rfl
  | closeSocket s =>
      change (if sock.serves = some s then sock.retire else sock).serves =
        if sock.serves = some s then none else sock.serves
      split
      · exact SockRole.serves_retire sock
      · rfl
  | _ => rfl

variable {s : State} {role : Proc → Role} {p : Proc}

theorem offspring_isSome {o : Oracle} {rounds : Nat} {label : Bool} {c : Call} {child : Process}
    (h : offspring o rounds label c = some child) : ∃ forked, c = .fork forked := by
  cases c with
  | fork forked => exact ⟨forked, rfl⟩
  | _ => cases h

theorem Sound.make (h : Sound s role) (o : Oracle) {errand : Errand} {c : Call}
    {rest : Reply c → Run Unit} (process : s.process p = some ⟨errand, .call c rest⟩) :
    Sound (s.make p o errand c rest)
      (Function.update role p ((role p).after c (s.fs.serve p o c).1)) := by
  have coupled := h.coupled p
  rw [process] at coupled
  obtain ⟨allowed, onward⟩ := coupled
  have allows : (role p).Allows c := Errand.allows errand allowed
  refine ⟨h.secure.step (s.fs.serve_effect p o c) allows, fun q => ?_, fun q => ?_⟩
  · change Function.update s.serving p _ q = _
    rcases eq_or_ne q p with rfl | other
    · rw [Function.update_self, Function.update_self, h.serving q]
      exact ((SockRole.serves_lapse _ _).trans (serves_servingAfter ..)).symm
    · rw [Function.update_of_ne other, Function.update_of_ne other]
      exact h.serving q
  · change Coupled _ (Function.update s.process p _ q)
    rcases eq_or_ne q p with rfl | other
    · rw [Function.update_self, Function.update_self]
      exact onward _
    · rw [Function.update_of_ne other, Function.update_of_ne other]
      exact h.coupled q

theorem Sound.join (h : Sound s role) {q : Proc} {process : Process} {mine : Role}
    (secure : Secure s.fs (Function.update role q mine)) (unserved : mine.sock = .none)
    (idle : s.process q = none) (coupled : Coupled mine (some process)) :
    Sound { s with process := Function.update s.process q (some process) }
      (Function.update role q mine) := by
  refine ⟨secure, fun r => ?_, fun r => ?_⟩
  · rcases eq_or_ne r q with rfl | other
    · have before := h.coupled r
      rw [idle] at before
      rw [Function.update_self, unserved, h.serving r, show role r = {} from before]
    · rw [Function.update_of_ne other]
      exact h.serving r
  · change Coupled _ (Function.update s.process q _ r)
    rcases eq_or_ne r q with rfl | other
    · rw [Function.update_self, Function.update_self]
      exact coupled
    · rw [Function.update_of_ne other, Function.update_of_ne other]
      exact h.coupled r

theorem Sound.arrive (h : Sound s role) {q : Proc} {process : Process} (idle : s.process q = none)
    (coupled : Coupled {} (some process)) :
    Sound { s with process := Function.update s.process q (some process) }
      (Function.update role q {}) :=
  h.join (h.secure.relock (h.secure.serial.forget q) rfl) rfl idle coupled

theorem Sound.fork (h : Sound s role) {o : Oracle} {errand : Errand} {forked : Child}
    {rest : Reply (.fork forked) → Run Unit} {rounds : Nat} {label : Bool} {child : Process}
    (process : s.process p = some ⟨errand, .call (.fork forked) rest⟩)
    (born : offspring o rounds label (.fork forked) = some child) (idle : s.process o.child = none) :
    ∃ role, Sound { s.make p o errand (.fork forked) rest with
      process := Function.update (s.make p o errand (.fork forked) rest).process o.child (some child) }
      role := by
  have made := h.make o process
  have idle' : (s.make p o errand (.fork forked) rest).process o.child = none := by
    rcases eq_or_ne o.child p with same | other
    · rw [same, process] at idle
      cases idle
    · exact (Function.update_of_ne other ..).trans idle
  have allowed := h.coupled p
  rw [process] at allowed
  cases fault : o.fault with
  | some e =>
      simp only [offspring, fault] at born
      split at born
      · cases born
        exact ⟨_, made.arrive idle' trivial⟩
      · cases born
  | none =>
      cases forked with
      | leftover =>
          simp only [offspring, fault] at born
          cases born
          exact ⟨_, made.arrive idle' trivial⟩
      | daemon lock =>
          simp only [offspring, fault] at born
          cases born
          have served : s.fs.serve p o (.fork (.daemon lock)) = (.ok (), s.fs.fork p o.child) := by
            simp only [Fs.serve, fault, Option.elim]
          refine ⟨_, made.join ?_ rfl idle' (start_allowed (some lock) label rounds)⟩
          change Secure (s.fs.serve p o (.fork (.daemon lock))).2 _
          rw [served]
          exact h.secure.hand_on (Errand.allows errand allowed.1)

theorem Sound.exit (h : Sound s role) : Sound { s with
      fs := s.fs.exit p
      process := Function.update s.process p none
      serving := Function.update s.serving p none } (Function.update role p {}) := by
  refine ⟨h.secure.exit p, fun q => ?_, fun q => ?_⟩
  · change Function.update s.serving p none q = _
    rcases eq_or_ne q p with rfl | other
    · rw [Function.update_self, Function.update_self]
      rfl
    · rw [Function.update_of_ne other, Function.update_of_ne other]
      exact h.serving q
  · change Coupled _ (Function.update s.process p none q)
    rcases eq_or_ne q p with rfl | other
    · rw [Function.update_self, Function.update_self]
      exact rfl
    · rw [Function.update_of_ne other, Function.update_of_ne other]
      exact h.coupled q

theorem Sound.next (h : Sound s role) (p : Proc) (move : Move) : ∃ role, Sound (s.next p move) role := by
  cases move with
  | begin errand patience rounds label =>
      cases process : s.process p with
      | none =>
          simp only [State.next, process]
          exact ⟨_, h.arrive process (program_coupled errand patience rounds label)⟩
      | some _ =>
          simp only [State.next, process]
          exact ⟨role, h⟩
  | exit =>
      cases process : s.process p with
      | none =>
          simp only [State.next, process]
          exact ⟨role, h⟩
      | some _ =>
          simp only [State.next, process]
          exact ⟨_, h.exit⟩
  | go o rounds label =>
      cases process : s.process p with
      | none =>
          simp only [State.next, process]
          exact ⟨role, h⟩
      | some process' =>
          obtain ⟨errand, left⟩ := process'
          cases left with
          | done _ =>
              simp only [State.next, process]
              exact ⟨role, h⟩
          | call c rest =>
              cases born : offspring o rounds label c with
              | none =>
                  simp only [State.next, process, born]
                  exact ⟨_, h.make o process⟩
              | some child =>
                  cases idle : s.process o.child with
                  | some _ =>
                      simp only [State.next, process, born, idle]
                      exact ⟨role, h⟩
                  | none =>
                      simp only [State.next, process, born, idle]
                      obtain ⟨forked, rfl⟩ := offspring_isSome born
                      exact h.fork process born idle

theorem Sound.begun {fs : Fs} (rest : fs.AtRest)
    (lock : ∀ node, fs.name .lock = some node → node.kind = .regular) :
    Sound { fs } fun _ => {} where
  secure := {
    serial := ⟨rest.sane, fun _ => trivial, fun _ _ _ none => by cases none⟩
    lock_regular := lock
    file_regular := fun fd d file => by
      rw [rest.unopened fd] at file
      cases file
    unplanted := fun _ => rfl
    sock_old := fun s d sock => by
      rw [rest.unserved s] at sock
      cases sock
    fits := fun _ => trivial
    alone := fun _ _ some' _ => absurd rfl some' }
  serving := fun _ => rfl
  coupled := fun _ => rfl

theorem State.Reaches.sound {fs : Fs} {s : State} (rest : fs.AtRest)
    (lock : ∀ node, fs.name .lock = some node → node.kind = .regular)
    (run : Reaches { fs } s) : ∃ role, Sound s role := by
  induction run with
  | refl => exact ⟨_, .begun rest lock⟩
  | tail _ step ih =>
      obtain ⟨role, sound⟩ := ih
      obtain ⟨p, move, rfl⟩ := step
      exact sound.next p move

theorem Sound.serves (h : Sound s role) {t : Sock} (serving : s.serving p = some t) :
    s.fs.name .socket = some ⟨t, .socket⟩ :=
  (h.secure.serves ((h.serving p).symm.trans serving)).named

theorem Sound.licensed (h : Sound s role) {errand : Errand} {c : Call}
    (allowed : errand.Allows (role p) c) (disrupts : errand.Disrupts c) :
    (role p).sock = .licensed := by
  have unplanted : ∀ {c}, (role p).AllowsIdle c → (∃ n, c = .unlink n ∨ c = .rmdir n) →
      (role p).sock = .licensed := by
    rintro c ⟨-, idle⟩ ⟨n, rfl | rfl⟩
    all_goals
      rcases idle with licensed | planted
      · exact licensed
      · have unplanted := h.secure.unplanted p
        rw [planted] at unplanted
        cases unplanted
  cases c with
  | unlink n =>
      cases errand with
      | kill => exact unplanted allowed ⟨n, .inl rfl⟩
      | list => exact unplanted allowed ⟨n, .inl rfl⟩
      | _ => exact disrupts.elim
  | rmdir n =>
      cases errand with
      | kill => exact unplanted allowed ⟨n, .inr rfl⟩
      | list => exact unplanted allowed ⟨n, .inr rfl⟩
      | _ => exact disrupts.elim
  | fork child =>
      cases child with
      | daemon lock => exact (Errand.allows errand allowed).2
      | leftover => cases errand <;> exact disrupts.elim
  | bind => exact (Errand.allows errand allowed).2
  | _ => cases errand <;> exact disrupts.elim

theorem Sound.alone (h : Sound s role) {p q : Proc} (serves : s.serving p ≠ none)
    (serves' : s.serving q ≠ none) : p = q := by
  obtain ⟨t, serves⟩ := Option.ne_none_iff_exists'.1 serves
  obtain ⟨t', serves'⟩ := Option.ne_none_iff_exists'.1 serves'
  exact h.secure.serves_unique ((h.serving p).symm.trans serves) ((h.serving q).symm.trans serves')

theorem Sound.unserved (h : Sound s role) (licensed : (role p).sock = .licensed) (q : Proc) :
    s.serving q = none := by
  by_contra serves
  obtain rfl : q = p := by
    apply h.secure.alone p q
    · rw [licensed]
      exact SockRole.noConfusion
    · rwa [← h.serving q]
  rw [h.serving q, licensed] at serves
  exact serves rfl

theorem State.serving_next (s : State) {p q : Proc} (other : q ≠ p) (move : Move) :
    (s.next p move).serving q = s.serving q := by
  unfold next
  split
  · rfl
  · split
    · exact Function.update_of_ne other ..
    · exact Function.update_of_ne other ..
    · rfl
  · exact Function.update_of_ne other ..
  · rfl

/-- In every run from a directory where nobody has anything open and the lock name is a file or free,
at most one process serves the session. No other process takes its socket from the name, and none that
is about to bind one, to start a daemon, or to remove files for `kill` or `list`, does so while the
session is served. -/
theorem State.Reaches.one_daemon {fs : Fs} {s : State} (rest : fs.AtRest)
    (lock : ∀ node, fs.name .lock = some node → node.kind = .regular)
    (run : Reaches { fs } s) :
    (∀ p q, s.serving p ≠ none → s.serving q ≠ none → p = q) ∧
    (∀ p q t move, s.serving q = some t → q ≠ p → s.fs.name .socket = some ⟨t, .socket⟩ ∧
      (s.next p move).fs.name .socket = some ⟨t, .socket⟩) ∧
    ∀ p errand c next, s.process p = some ⟨errand, .call c next⟩ → errand.Disrupts c →
      ∀ q, s.serving q = none := by
  obtain ⟨role, sound⟩ := run.sound rest lock
  refine ⟨fun p q => sound.alone, fun p q t move serves other => ?_, ?_⟩
  · obtain ⟨role', sound'⟩ := sound.next p move
    exact ⟨sound.serves serves, sound'.serves ((s.serving_next other move).trans serves)⟩
  · intro p errand c next process disrupts q
    have coupled := sound.coupled p
    rw [process] at coupled
    exact sound.unserved (sound.licensed coupled.1 disrupts) q

theorem State.reaches_run (s : State) (moves : List (Proc × Move)) : s.Reaches (s.run moves) := by
  induction moves generalizing s with
  | nil => exact .refl
  | cons move moves ih => exact .head ⟨move.1, move.2, rfl⟩ (ih _)

def vacant : Fs where
  name := fun _ => none
  file := fun _ => none
  sock := fun _ => none
  flock := fun _ => none
  bound := fun _ => none
  linked := none
  fresh := 0

theorem vacant_atRest : vacant.AtRest :=
  ⟨fun _ => rfl, fun _ => rfl, fun _ => rfl, fun _ _ named => (by cases named),
    fun _ _ _ _ named _ _ => by cases named⟩

def goes (p : Proc) (calls : Nat) : List (Proc × Move) :=
  List.replicate calls (p, .go { child := 1 } 3 true)

/-- A `spawn` has started a daemon, which serves; whatever another process does, the socket stays. -/
theorem State.Reaches.one_daemon_spawned :
    let s := State.run { fs := vacant } ((0, .begin .spawn 3 3 true) :: goes 0 9 ++ goes 1 24)
    s.serving 1 = some 1 ∧ (∀ p, s.serving p ≠ none → p = 1) ∧
      ∀ p move, p ≠ 1 → (s.next p move).fs.name .socket = some ⟨1, .socket⟩ := by
  intro s
  have serves : s.serving 1 = some 1 := by rfl
  obtain ⟨alone, stays, -⟩ :=
    State.Reaches.one_daemon vacant_atRest (fun _ named => by cases named) (State.reaches_run _ _)
  refine ⟨serves, fun p serves' => alone p 1 serves' ?_, fun p move other => ?_⟩
  · rw [serves]
    exact Option.some_ne_none 1
  · exact (stays p 1 1 move serves other.symm).2

end Living

end Nomux.Rundir
