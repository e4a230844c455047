import Nomux.Rundir.Serial
import Mathlib.Logic.Relation

/-!
# The spawn lock is a mutex

Any number of processes take the lock, give its name back or remove the files of the session under
it, and drop it, call by call and in any order. Two of them hold the lock at once only when one has
removed the name already, as long as the node an acquirer clears is still one that was planted there.
-/

namespace Nomux.Rundir
open Program LockRole

namespace Locking

inductive Task
  | idle
  | acquiring (left : Run Acquisition)
  | holding (lock : SpawnLock)
  | finishing (lock : SpawnLock) (left : Run Unit)

/-- The lock that was returned and has not been dropped. -/
def Task.lock : Task → Option SpawnLock
  | holding lock | finishing lock _ => some lock
  | _ => none

def Task.settle : Run Acquisition → Task
  | .done (.ok (some lock)) => .holding lock
  | .done _ => .idle
  | left => .acquiring left

/-- Whether the next call clears what was seen at the lock name. -/
def Task.clears : Task → Bool
  | .acquiring (.call (.unlink .lock) _) => true
  | _ => false

structure State where
  fs : Fs
  task : Proc → Task := fun _ => .idle
  /-- The last call each process made, and its answer. -/
  last : Proc → Option (Σ c, Reply c) := fun _ => none

inductive Order
  | acquire
  | go (o : Oracle)
  | release
  | remove
  | drop

namespace State

def turn (s : State) (p : Proc) (task : Task) : State :=
  { s with task := Function.update s.task p task }

/-- `p` makes one call, and goes on with its answer. -/
def make (s : State) (p : Proc) (o : Oracle) (c : Call) (task : Reply c → Task) : State where
  fs := (s.fs.serve p o c).2
  task := Function.update s.task p (task (s.fs.serve p o c).1)
  last := Function.update s.last p (some ⟨c, (s.fs.serve p o c).1⟩)

/-- An order that does not apply to what `p` is doing changes nothing. -/
def next (s : State) (p : Proc) (order : Order) : State :=
  match order, s.task p with
  | .acquire, .idle => s.turn p (.acquiring tryLockSpawnOrRefuse)
  | .go o, .acquiring (.call c rest) => s.make p o c fun reply => .settle (rest reply)
  | .release, .holding lock => s.turn p (.finishing lock (releaseLockName lock))
  | .remove, .holding lock => s.turn p (.finishing lock (unlinkAllLocked lock >>= fun _ => pure ()))
  | .go o, .finishing lock (.call c rest) => s.make p o c fun reply => .finishing lock (rest reply)
  | .drop, .holding lock => s.make p {} (.close lock.fd) fun _ => .idle
  | .drop, .finishing lock (.done _) => s.make p {} (.close lock.fd) fun _ => .idle
  | _, _ => s

def run (s : State) (orders : List (Proc × Order)) : State :=
  orders.foldl (fun s order => s.next order.1 order.2) s

def Holds (s : State) (p : Proc) (lock : SpawnLock) : Prop := (s.task p).lock = some lock

def Removed (s : State) (p : Proc) : Prop := s.last p = some ⟨.unlink .lock, .ok ()⟩

/-- What `p` is about to clear, if it is about to, is no regular file. -/
def Intact (s : State) (p : Proc) : Prop :=
  (s.task p).clears → ∀ node, s.fs.name .lock = some node → node.kind ≠ .regular

/-- A run in which every clearing finds a planted node, or none. -/
def Reaches (start s : State) : Prop :=
  Relation.ReflTransGen (fun s s' => ∃ p order, s.Intact p ∧ s' = s.next p order) start s

end State

def Coupled (last : Option (Σ c, Reply c)) (role : LockRole) : Task → Prop
  | .idle => role = out
  | .acquiring left => left.Follows LockRole.after Acquires role Ended
  | .holding lock => role = standing lock.fd
  | .finishing lock left => left.Follows LockRole.after Removes role (fun _ _ => True) ∧
      (role = standing lock.fd ∨ role = spent lock.fd ∧ last = some ⟨.unlink .lock, .ok ()⟩)

structure Sound (s : State) (role : Proc → LockRole) : Prop where
  serial : Serialized s.fs role
  coupled : ∀ p, Coupled (s.last p) (role p) (s.task p)

variable {s : State} {role : Proc → LockRole} {p : Proc}

theorem Sound.turn (h : Sound s role) {task : Task} (coupled : Coupled (s.last p) (role p) task) :
    Sound (s.turn p task) role := by
  refine ⟨h.serial, fun q => ?_⟩
  change Coupled (s.last q) (role q) (Function.update s.task p task q)
  rcases eq_or_ne q p with rfl | other
  · rw [Function.update_self]
    exact coupled
  · rw [Function.update_of_ne other]
    exact h.coupled q

theorem Sound.make (h : Sound s role) {o : Oracle} {c : Call} {task : Reply c → Task}
    (allowed : (role p).Allows c) (names : ∀ n, c = .create n ∨ c = .reopen n → n = .lock)
    (intact : c = .unlink .lock → role p = planted none →
      ∀ node, s.fs.name .lock = some node → node.kind ≠ .regular)
    (coupled : ∀ reply, ∃ mine, (mine = (role p).after c reply ∨ mine = out) ∧
      Coupled (some ⟨c, reply⟩) mine (task reply)) :
    ∃ role, Sound (s.make p o c task) role := by
  have serial := h.serial.step (s.fs.serve_effect p o c) allowed names intact
  obtain ⟨mine, after, coupled⟩ := coupled (s.fs.serve p o c).1
  refine ⟨Function.update role p mine, ?_, fun q => ?_⟩
  · rcases after with rfl | rfl
    · exact serial
    · have forgotten := serial.forget p
      rwa [Function.update_idem] at forgotten
  · change Coupled (Function.update s.last p _ q) (Function.update role p mine q)
      (Function.update s.task p _ q)
    rcases eq_or_ne q p with rfl | other
    · rw [Function.update_self, Function.update_self, Function.update_self]
      exact coupled
    · rw [Function.update_of_ne other, Function.update_of_ne other, Function.update_of_ne other]
      exact h.coupled q

theorem coupled_settle {last : Option (Σ c, Reply c)} {mine : LockRole} {left : Run Acquisition}
    (follows : left.Follows LockRole.after Acquires mine Ended) :
    ∃ mine', (mine' = mine ∨ mine' = out) ∧ Coupled last mine' (.settle left) := by
  cases left with
  | done result =>
      cases result with
      | error e => exact ⟨out, .inr rfl, rfl⟩
      | ok lock =>
          cases lock with
          | none => exact ⟨out, .inr rfl, rfl⟩
          | some lock => exact ⟨mine, .inl rfl, follows⟩
  | call c rest => exact ⟨mine, .inl rfl, follows⟩

theorem Sound.acquire (h : Sound s role) (intact : s.Intact p) {o : Oracle} {c : Call}
    {rest : Reply c → Run Acquisition} (task : s.task p = .acquiring (.call c rest)) :
    ∃ role, Sound (s.make p o c fun reply => .settle (rest reply)) role := by
  have coupled := h.coupled p
  rw [task] at coupled
  obtain ⟨acquires, onward⟩ := coupled
  apply h.make (allows_of_acquires acquires) (lock_of_acquires acquires)
  · rintro rfl -
    exact intact (by rw [task]; rfl)
  · exact fun reply => coupled_settle (onward reply)

theorem Sound.finish (h : Sound s role) {o : Oracle} {c : Call} {lock : SpawnLock}
    {rest : Reply c → Run Unit} (task : s.task p = .finishing lock (.call c rest)) :
    ∃ role, Sound (s.make p o c fun reply => .finishing lock (rest reply)) role := by
  have coupled := h.coupled p
  rw [task] at coupled
  obtain ⟨⟨removes, onward⟩, standing'⟩ := coupled
  have stands : role p = standing lock.fd := by
    rcases standing' with stands | ⟨spent, -⟩
    · exact stands
    · rw [spent] at removes
      exact removes.elim
  apply h.make (allows_of_removes removes) (lock_of_removes removes)
  · rintro - planted
    rw [stands] at planted
    cases planted
  · intro reply
    refine ⟨_, .inl rfl, onward reply, ?_⟩
    rw [stands] at removes ⊢
    rcases after_removes removes reply with same | ⟨last, spent⟩
    · exact .inl same
    · exact .inr ⟨spent, congrArg some last⟩

theorem Sound.drop (h : Sound s role) {lock : SpawnLock} :
    ∃ role, Sound (s.make p {} (.close lock.fd) fun _ => .idle) role := by
  apply h.make
  · trivial
  · rintro n (made | made) <;> cases made
  · intro unlink
    cases unlink
  · exact fun _ => ⟨out, .inr rfl, rfl⟩

theorem Sound.next (h : Sound s role) (intact : s.Intact p) (order : Order) :
    ∃ role, Sound (s.next p order) role := by
  have coupled := h.coupled p
  unfold State.next
  split
  · next task =>
      rw [task] at coupled
      refine ⟨role, h.turn ?_⟩
      rw [show role p = out from coupled]
      exact tryLockSpawnOrRefuse_acquires
  · next task => exact h.acquire intact task
  · next lock task =>
      rw [task] at coupled
      refine ⟨role, h.turn ⟨?_, .inl coupled⟩⟩
      rw [show role p = standing lock.fd from coupled]
      exact (releaseLockName_removes lock).mono (fun _ _ allowed => allowed) fun _ _ _ => trivial
  · next lock task =>
      rw [task] at coupled
      refine ⟨role, h.turn ⟨?_, .inl coupled⟩⟩
      rw [show role p = standing lock.fd from coupled]
      exact (unlinkAllLocked_removes _ lock).bind fun _ _ _ => trivial
  · next task => exact h.finish task
  · exact h.drop
  · exact h.drop
  · exact ⟨role, h⟩

theorem State.Reaches.sound {start s : State} (rest : start.fs.AtRest)
    (idle : ∀ p, start.task p = .idle) (run : start.Reaches s) : ∃ role, Sound s role := by
  induction run with
  | refl =>
      refine ⟨fun _ => out, ⟨rest.sane, fun _ => trivial, fun _ _ _ none => by cases none⟩, ?_⟩
      intro p
      rw [idle p]
      rfl
  | tail _ step ih =>
      obtain ⟨role, sound⟩ := ih
      obtain ⟨p, order, intact, rfl⟩ := step
      exact sound.next intact order

theorem Sound.held (h : Sound s role) {lock : SpawnLock} (held : s.Holds p lock) :
    role p = standing lock.fd ∨ s.Removed p := by
  have coupled := h.coupled p
  unfold State.Holds at held
  cases task : s.task p with
  | idle =>
      rw [task] at held
      cases held
  | acquiring left =>
      rw [task] at held
      cases held
  | holding lock' =>
      rw [task] at held coupled
      cases held
      exact .inl coupled
  | finishing lock' left =>
      rw [task] at held coupled
      cases held
      exact coupled.2.imp id And.right

theorem Sound.removed (h : Sound s role) {p q : Proc} {lock lock' : SpawnLock} (held : s.Holds p lock)
    (held' : s.Holds q lock') (differ : lock.fd ≠ lock'.fd) : s.Removed p ∨ s.Removed q := by
  rcases h.held held with stands | removed
  · rcases h.held held' with stands' | removed
    · have same := h.serial.standing_unique stands stands'
      subst same
      rw [stands, standing.injEq] at stands'
      exact absurd stands' differ
    · exact .inr removed
  · exact .inl removed

/-- In every run in which a clearing never finds a regular file, two processes that hold the lock at
once do so after one of them has removed the name, and what is cleared is locked by nobody. -/
theorem State.Reaches.mutex {start s : State} (rest : start.fs.AtRest)
    (idle : ∀ p, start.task p = .idle) (run : start.Reaches s) :
    (∀ p q lock lock', s.Holds p lock → s.Holds q lock' → lock.fd ≠ lock'.fd →
      s.Removed p ∨ s.Removed q) ∧
    ∀ p, (s.task p).clears → s.Intact p → ∀ node, s.fs.name .lock = some node →
      s.fs.flock node.ino = none := by
  obtain ⟨role, sound⟩ := run.sound rest idle
  refine ⟨fun p q lock lock' held held' => sound.removed held held', ?_⟩
  intro p clears intact node named
  have sane := sound.serial.sane
  cases locked : s.fs.flock node.ino with
  | none => rfl
  | some fd =>
      obtain ⟨d, file, same, regular⟩ := sane.flocked _ _ locked
      obtain rfl := sane.one_node _ _ (.inr ⟨fd, d, file, rfl⟩) (.inl ⟨_, named⟩) same
      exact absurd regular (intact clears _ named)

def State.intactRun (s : State) : List (Proc × Order) → Bool
  | [] => true
  | (p, order) :: orders =>
      (!(s.task p).clears || (s.fs.name .lock).all fun node => node.kind ≠ .regular) &&
        (s.next p order).intactRun orders

theorem State.reaches_run {s : State} {orders : List (Proc × Order)} (intact : s.intactRun orders) :
    s.Reaches (s.run orders) := by
  induction orders generalizing s with
  | nil => exact .refl
  | cons order orders ih =>
      obtain ⟨p, order⟩ := order
      rw [intactRun, Bool.and_eq_true, Bool.or_eq_true] at intact
      refine .head ⟨p, order, fun clears node named => ?_, rfl⟩ (ih intact.2)
      rcases intact.1 with quiet | planted
      · rw [clears] at quiet
        cases quiet
      · rw [named] at planted
        simpa using planted

/-- The lock name leads to a file, and this lock is the one on it. -/
def State.LockedBy (s : State) (lock : SpawnLock) : Prop :=
  ∃ node, s.fs.name .lock = some node ∧ node.kind = .regular ∧ s.fs.flock node.ino = some lock.fd

theorem Sound.locked (h : Sound s role) {lock : SpawnLock} (held : s.Holds p lock)
    (kept : ¬ s.Removed p) : s.LockedBy lock := by
  have fits := h.serial.fits p
  rw [(h.held held).resolve_right kept] at fits
  obtain ⟨node, -, regular, locked, named⟩ := fits
  exact ⟨node, named, regular, locked⟩

theorem State.next_other (s : State) {p q : Proc} (other : q ≠ p) (order : Order) :
    (s.next p order).task q = s.task q ∧ (s.next p order).last q = s.last q := by
  unfold next
  split
  · exact ⟨Function.update_of_ne other .., rfl⟩
  · exact ⟨Function.update_of_ne other .., Function.update_of_ne other ..⟩
  · exact ⟨Function.update_of_ne other .., rfl⟩
  · exact ⟨Function.update_of_ne other .., rfl⟩
  · exact ⟨Function.update_of_ne other .., Function.update_of_ne other ..⟩
  · exact ⟨Function.update_of_ne other .., Function.update_of_ne other ..⟩
  · exact ⟨Function.update_of_ne other .., Function.update_of_ne other ..⟩
  · exact ⟨rfl, rfl⟩

/-- As long as no clearing finds a regular file, a lock that was returned is on the file at the name
until its holder removes that or drops it, whatever another process does next; so there is one at a
time. -/
theorem State.Reaches.lock_kept {start s : State} (rest : start.fs.AtRest)
    (idle : ∀ p, start.task p = .idle) (run : start.Reaches s) :
    (∀ p q lock lock', s.Holds p lock → s.Holds q lock' → lock.fd ≠ lock'.fd →
      s.Removed p ∨ s.Removed q) ∧
    ∀ q lock, s.Holds q lock → ¬ s.Removed q → s.LockedBy lock ∧
      ∀ p order, q ≠ p → s.Intact p → (s.next p order).LockedBy lock := by
  obtain ⟨role, sound⟩ := run.sound rest idle
  refine ⟨fun p q lock lock' held held' => sound.removed held held', fun q lock held kept => ?_⟩
  refine ⟨sound.locked held kept, fun p order other intact => ?_⟩
  obtain ⟨role', sound'⟩ := sound.next intact order
  obtain ⟨task, last⟩ := s.next_other other order
  apply sound'.locked (p := q)
  · rw [Holds, task]
    exact held
  · rw [Removed, last]
    exact kept

def State.planted : State where
  fs := {
    name := Function.update (fun _ => none) .lock (some ⟨0, .fifo⟩)
    file := fun _ => none
    sock := fun _ => none
    flock := fun _ => none
    bound := fun _ => none
    linked := none
    fresh := 1 }

theorem State.planted_atRest : State.planted.fs.AtRest := by
  have only : ∀ n node, State.planted.fs.name n = some node → node = ⟨0, .fifo⟩ := by
    intro n node named
    cases n <;> first | exact (Option.some.inj named).symm | cases named
  refine ⟨fun _ => rfl, fun _ => rfl, fun _ => rfl, fun n node named => ?_,
    fun m n a b named named' _ => ?_⟩
  · rw [only n node named]
    exact Nat.zero_lt_one
  · rw [only m a named, only n b named']

def goes (p : Proc) (calls : Nat) : List (Proc × Order) := List.replicate calls (p, .go {})

/-- A process clears the FIFO, takes the lock and removes the files of the session; another takes the
lock while the first one has not dropped it yet. -/
theorem State.Reaches.mutex_cleared :
    let s := State.planted.run ((0, .acquire) :: goes 0 10 ++ (0, .remove) :: goes 0 6 ++
      (1, .acquire) :: goes 1 5)
    s.Holds 0 ⟨2, true⟩ ∧ s.Holds 1 ⟨3, true⟩ ∧ (s.Removed 0 ∨ s.Removed 1) :=
  ⟨rfl, rfl, (State.Reaches.mutex State.planted_atRest (fun _ => rfl)
    (State.reaches_run (by decide))).1 0 1 ⟨2, true⟩ ⟨3, true⟩ rfl rfl (by decide)⟩

/-- A process has cleared the FIFO and taken the lock, and another is on its way to it. -/
theorem State.Reaches.lock_kept_cleared :
    let s := State.planted.run ((0, .acquire) :: goes 0 10 ++ (1, .acquire) :: goes 1 3)
    s.Holds 0 ⟨2, true⟩ ∧ s.LockedBy ⟨2, true⟩ ∧ ∀ order, (s.next 1 order).LockedBy ⟨2, true⟩ := by
  intro s
  have held : s.Holds 0 ⟨2, true⟩ := by rfl
  have kept : ¬ s.Removed 0 := by
    intro removed
    have last : Call.stat .lock = .unlink .lock := congrArg Sigma.fst (Option.some.inj removed)
    cases last
  have intact : s.Intact 1 := fun clears => by cases clears
  obtain ⟨locked, stays⟩ := (State.Reaches.lock_kept State.planted_atRest (fun _ => rfl)
    (State.reaches_run (by decide))).2 0 ⟨2, true⟩ held kept
  exact ⟨held, locked, fun order => stays 1 order (by decide) intact⟩

/-- The condition cannot be dropped. Between what a process saw at the name and its clearing of it,
another one has cleared the FIFO, made the lock file and locked it; that file is removed, and the first
one makes its own. -/
theorem State.clearing_takes_the_lock :
    let s := State.planted.run ((0, .acquire) :: goes 0 4 ++ (1, .acquire) :: goes 1 10)
    let s' := s.run (goes 0 6)
    State.planted.fs.AtRest ∧ s.LockedBy ⟨3, true⟩ ∧ (s.next 0 (.go {})).fs.name .lock = none ∧
      s'.Holds 0 ⟨4, true⟩ ∧ s'.Holds 1 ⟨3, true⟩ ∧ ¬ s'.Removed 0 ∧ ¬ s'.Removed 1 := by
  refine ⟨State.planted_atRest, ⟨⟨3, .regular⟩, rfl, rfl, rfl⟩, rfl, rfl, rfl, ?_, ?_⟩
  · intro removed
    have last : Call.stat .lock = .unlink .lock := congrArg Sigma.fst (Option.some.inj removed)
    cases last
  · intro removed
    have last : Call.stat .lock = .unlink .lock := congrArg Sigma.fst (Option.some.inj removed)
    cases last

end Locking

end Nomux.Rundir
