import Nomux.Rundir.Lock

/-!
# What standing a process has

A process goes from one role to the next by the calls it makes on `<id>.lock` and what it is
answered. The functions that take and use the lock make no call that their role does not allow.
-/

namespace Nomux.Rundir
open Program

/-- The calls that are about the lock and nothing else. -/
def Call.Locking : Call → Prop
  | .create n | .reopen n | .lstat n | .stat n | .unlink n | .rmdir n => n = .lock
  | .fstat _ | .flock _ | .close _ | .work _ => True
  | _ => False

inductive LockRole
  | out
  /-- It saw a node at the name that is no regular file; it may still have that open. -/
  | planted (fd : Option Fd)
  | opened (fd : Fd)
  /-- What it opened is a regular file. -/
  | checked (fd : Fd)
  /-- It locked what it opened, and may have seen which node that is. -/
  | locked (fd : Fd) (held : Option Node)
  /-- What it locked was at the name. -/
  | standing (fd : Fd)
  /-- It left its standing to the process it forked. -/
  | shared (fd : Fd)
  /-- It removed the name. -/
  | spent (fd : Fd)
  deriving DecidableEq

namespace LockRole

def fd : LockRole → Option Fd
  | out => none
  | planted fd => fd
  | opened fd | checked fd | locked fd _ | standing fd | shared fd | spent fd => some fd

/-- The description of which this process is the one user. -/
def claims : LockRole → Option Fd
  | opened fd | checked fd | locked fd _ | standing fd => some fd
  | _ => none

def onOpen (fd : Fd) : LockRole → LockRole
  | out => opened fd
  | role => role

def onLstat (node : Node) : LockRole → LockRole
  | out => if node.kind = .regular then out else planted none
  | role => role

def onFstat (fd : Fd) (node : Node) : LockRole → LockRole
  | opened fd' =>
      if fd' = fd then if node.kind = .regular then checked fd else planted (some fd)
      else opened fd'
  | locked fd' held => locked fd' (if fd' = fd then some node else held)
  | role => role

def onFlock (fd : Fd) : LockRole → LockRole
  | checked fd' => if fd' = fd then locked fd none else checked fd'
  | role => role

def onStat (named : Node) : LockRole → LockRole
  | locked fd (some held) => if held.ino = named.ino then standing fd else locked fd (some held)
  | role => role

def onClose (fd : Fd) : LockRole → LockRole
  | planted (some fd') => if fd' = fd then planted none else planted (some fd')
  | role => if role.fd = some fd then out else role

theorem onClose_cases (role : LockRole) (fd : Fd) :
    role.onClose fd = role ∧ role.claims ≠ some fd ∨ (role.onClose fd).claims = none := by
  cases role with
  | out => exact .inr rfl
  | planted fd' =>
      cases fd' with
      | none => exact .inr rfl
      | some fd' =>
          by_cases same : fd' = fd
          · exact .inr (congrArg claims (if_pos same))
          · exact .inr (congrArg claims (if_neg same))
  | shared fd' | spent fd' =>
      by_cases same : some fd' = some fd
      · exact .inr (congrArg claims (if_pos same))
      · exact .inr (congrArg claims (if_neg same))
  | _ fd' =>
      by_cases same : some fd' = some fd
      · exact .inr (congrArg claims (if_pos same))
      · exact .inl ⟨if_neg same, same⟩

def onUnlink : LockRole → LockRole
  | planted none => out
  | standing fd => spent fd
  | role => role

def onRmdir : LockRole → LockRole
  | planted none => out
  | role => role

def onFork : LockRole → LockRole
  | standing fd => shared fd
  | role => role

theorem onStat_locked (fd : Fd) (held named : Node) :
    held.ino = named.ino ∧ onStat named (locked fd (some held)) = standing fd ∨
      held.ino ≠ named.ino ∧ onStat named (locked fd (some held)) = locked fd (some held) := by
  by_cases same : held.ino = named.ino
  · exact .inl ⟨same, if_pos same⟩
  · exact .inr ⟨same, if_neg same⟩

def after (role : LockRole) : (c : Call) → Reply c → LockRole
  | .create .lock, .ok fd => role.onOpen fd
  | .reopen .lock, .ok fd => role.onOpen fd
  | .lstat .lock, .ok node => role.onLstat node
  | .fstat fd, .ok node => role.onFstat fd node
  | .flock fd, .ok _ => role.onFlock fd
  | .stat .lock, .ok named => role.onStat named
  | .close fd, _ => role.onClose fd
  | .unlink .lock, .ok _ => role.onUnlink
  | .rmdir .lock, .ok _ => role.onRmdir
  | .fork (.daemon _), .ok _ => role.onFork
  | _, _ => role

theorem after_unlink_error (role : LockRole) (n : RunName) (e : Errno) :
    role.after (.unlink n) (.error e) = role := by cases n <;> rfl

theorem standing_after_rmdir (fd : Fd) (n : RunName) (reply : Reply (.rmdir n)) :
    (standing fd).after (.rmdir n) reply = standing fd := by
  cases reply with
  | error e => cases n <;> rfl
  | ok _ => cases n <;> rfl

section

variable {role : LockRole} {fd fd' : Fd}

theorem claims_onLstat {node : Node} (h : (role.onLstat node).claims = some fd') :
    role.claims = some fd' := by
  cases role with
  | out =>
      change (if node.kind = .regular then out else planted none).claims = some fd' at h
      split at h <;> cases h
  | _ => exact h

theorem claims_onFstat {node : Node} (h : (role.onFstat fd node).claims = some fd') :
    role.claims = some fd' := by
  cases role with
  | opened fd'' =>
      simp only [onFstat] at h
      split at h
      · next same =>
          split at h
          · exact same ▸ h
          · cases h
      · exact h
  | _ => exact h

theorem claims_onFlock (h : (role.onFlock fd).claims = some fd') : role.claims = some fd' := by
  cases role with
  | checked fd'' =>
      simp only [onFlock] at h
      split at h
      · next same => exact same ▸ h
      · exact h
  | _ => exact h

theorem claims_onStat {named : Node} (h : (role.onStat named).claims = some fd') :
    role.claims = some fd' := by
  cases role with
  | locked fd held =>
      cases held with
      | none => exact h
      | some held =>
          rcases onStat_locked fd held named with ⟨-, stands⟩ | ⟨-, stays⟩
          · rw [stands] at h
            exact h
          · rw [stays] at h
            exact h
  | _ => exact h

theorem claims_onClose (h : (role.onClose fd).claims = some fd') : role.claims = some fd' := by
  rcases role.onClose_cases fd with ⟨same, -⟩ | none
  · rwa [same] at h
  · rw [none] at h
    cases h

theorem claims_onUnlink (h : role.onUnlink.claims = some fd') : role.claims = some fd' := by
  cases role with
  | planted fd => cases fd <;> cases h
  | standing fd => cases h
  | _ => exact h

theorem claims_onRmdir (h : role.onRmdir.claims = some fd') : role.claims = some fd' := by
  cases role with
  | planted fd => cases fd <;> cases h
  | _ => exact h

theorem claims_onFork (h : role.onFork.claims = some fd') : role.claims = some fd' := by
  cases role with
  | standing fd => cases h
  | _ => exact h

theorem claims_onOpen (h : (role.onOpen fd).claims = some fd') :
    role.claims = some fd' ∨ fd' = fd := by
  cases role with
  | out => exact .inr (Option.some.inj h).symm
  | _ => exact .inl h

end

/-- Whether it has seen a node at the name that is no regular file. -/
def isPlanted : LockRole → Bool
  | planted _ => true
  | _ => false

section

variable (role : LockRole) (fd : Fd)

theorem isPlanted_onOpen : (role.onOpen fd).isPlanted = role.isPlanted := by cases role <;> rfl

theorem isPlanted_onFlock : (role.onFlock fd).isPlanted = role.isPlanted := by
  cases role with
  | checked fd' =>
      simp only [onFlock]
      split <;> rfl
  | _ => rfl

theorem isPlanted_onStat (named : Node) : (role.onStat named).isPlanted = role.isPlanted := by
  cases role with
  | locked fd held =>
      cases held with
      | none => rfl
      | some held =>
          rcases onStat_locked fd held named with ⟨-, same⟩ | ⟨-, same⟩
          · rw [same]
            rfl
          · rw [same]
  | _ => rfl

theorem isPlanted_onClose (h : role.isPlanted = false) : (role.onClose fd).isPlanted = false := by
  cases role with
  | planted fd' => cases h
  | _ =>
      simp only [onClose]
      split <;> rfl

theorem isPlanted_onUnlink (h : role.isPlanted = false) : role.onUnlink.isPlanted = false := by
  cases role with
  | planted fd' => cases h
  | _ => rfl

theorem isPlanted_onRmdir (h : role.isPlanted = false) : role.onRmdir.isPlanted = false := by
  cases role with
  | planted fd' => cases h
  | _ => rfl

theorem isPlanted_onFork : role.onFork.isPlanted = role.isPlanted := by cases role <;> rfl

theorem isPlanted_onLstat {node : Node} (regular : node.kind = .regular) :
    (role.onLstat node).isPlanted = role.isPlanted := by
  cases role with
  | out =>
      simp only [onLstat]
      rw [if_pos regular]
  | _ => rfl

theorem isPlanted_onFstat {node : Node} (regular : node.kind = .regular) :
    (role.onFstat fd node).isPlanted = role.isPlanted := by
  cases role with
  | opened fd' =>
      simp only [onFstat]
      rw [if_pos regular]
      split <;> rfl
  | _ => rfl

theorem isPlanted_after {c : Call} {reply : Reply c} (h : role.isPlanted = false)
    (regular : ∀ node, ((⟨c, reply⟩ : Σ c, Reply c) = ⟨.lstat .lock, .ok node⟩ ∨
      ∃ fd, (⟨c, reply⟩ : Σ c, Reply c) = ⟨.fstat fd, .ok node⟩) → node.kind = .regular) :
    (role.after c reply).isPlanted = false := by
  cases c with
  | create n => cases reply <;> cases n <;> first | exact h | exact (role.isPlanted_onOpen _).trans h
  | reopen n => cases reply <;> cases n <;> first | exact h | exact (role.isPlanted_onOpen _).trans h
  | lstat n =>
      cases reply with
      | error e => cases n <;> exact h
      | ok node =>
          cases n with
          | lock => exact (role.isPlanted_onLstat (regular node (.inl rfl))).trans h
          | _ => exact h
  | fstat fd =>
      cases reply with
      | error e => exact h
      | ok node => exact (role.isPlanted_onFstat fd (regular node (.inr ⟨fd, rfl⟩))).trans h
  | stat n => cases reply <;> cases n <;> first | exact h | exact (role.isPlanted_onStat _).trans h
  | flock fd => cases reply <;> first | exact h | exact (role.isPlanted_onFlock _).trans h
  | close fd => exact role.isPlanted_onClose fd h
  | unlink n => cases reply <;> cases n <;> first | exact h | exact role.isPlanted_onUnlink h
  | rmdir n => cases reply <;> cases n <;> first | exact h | exact role.isPlanted_onRmdir h
  | fork child => cases reply <;> cases child <;> first | exact h | exact role.isPlanted_onFork.trans h
  | _ => exact h

end

/-- The calls on which the mutex rests: who may lock a file, remove the name, and hand the lock on. -/
def Allows (role : LockRole) : Call → Prop
  | .flock fd => role = checked fd ∨ ∃ held, role = locked fd held
  | .unlink .lock => role = planted none ∨ ∃ fd, role = standing fd
  | .fork (.daemon fd) => role = standing fd
  | _ => True

def Acquires : LockRole → Call → Prop
  | out, .create .lock => True
  | out, .reopen .lock => True
  | out, .lstat .lock => True
  | opened fd, .fstat fd' => fd' = fd
  | opened fd, .close fd' => fd' = fd
  | checked fd, .flock fd' => fd' = fd
  | checked fd, .close fd' => fd' = fd
  | locked fd _, .fstat fd' => fd' = fd
  | locked fd _, .flock fd' => fd' = fd
  | locked _ _, .stat .lock => True
  | locked fd _, .close fd' => fd' = fd
  | standing fd, .close fd' => fd' = fd
  | planted (some fd), .close fd' => fd' = fd
  | planted none, .unlink .lock => True
  | planted none, .rmdir .lock => True
  | _, .work _ => True
  | _, _ => False

/-- What a process calls to remove the files of the session it has standing on. -/
def Removes : LockRole → Call → Prop
  | standing _, .unlink _ => True
  | standing _, .rmdir _ => True
  | standing _, .readDir => True
  | _, _ => False

def Ended (role : LockRole) : Acquisition → Prop
  | .ok (some lock) => role = standing lock.fd
  | .ok none => role = out
  | .error _ => role = out ∨ role = planted none

theorem allows_of_acquires {role : LockRole} {c : Call} (h : role.Acquires c) : role.Allows c := by
  cases c with
  | flock fd =>
      cases role with
      | checked fd' =>
          have same : fd = fd' := h
          exact .inl (congrArg checked same.symm)
      | locked fd' held =>
          have same : fd = fd' := h
          exact .inr ⟨held, congrArg (locked · held) same.symm⟩
      | planted fd' => cases fd' <;> exact h.elim
      | _ => exact h.elim
  | unlink n =>
      cases n with
      | lock =>
          cases role with
          | planted fd =>
              cases fd with
              | none => exact .inl rfl
              | some fd => exact h.elim
          | _ => exact h.elim
      | _ => trivial
  | fork child =>
      cases role with
      | planted fd => cases fd <;> exact h.elim
      | _ => exact h.elim
  | _ => trivial

theorem allows_of_removes {role : LockRole} {c : Call} (h : role.Removes c) : role.Allows c := by
  cases role with
  | standing fd =>
      cases c with
      | unlink n =>
          cases n with
          | lock => exact .inr ⟨fd, rfl⟩
          | _ => trivial
      | rmdir n => trivial
      | readDir => trivial
      | _ => exact h.elim
  | _ => exact h.elim

theorem locking_of_acquires {role : LockRole} {c : Call} (h : role.Acquires c) : c.Locking := by
  unfold Acquires at h
  split at h <;> first | rfl | trivial

theorem planted_of_rmdir {role : LockRole} {n : RunName} (h : role.Acquires (.rmdir n)) :
    role = planted none := by
  cases role with
  | planted fd =>
      cases fd with
      | none => rfl
      | some fd => exact h.elim
  | _ => exact h.elim

theorem lock_of_acquires {role : LockRole} {c : Call} (h : role.Acquires c) (n : RunName)
    (made : c = .create n ∨ c = .reopen n) : n = .lock := by
  have locking := locking_of_acquires h
  rcases made with rfl | rfl <;> exact locking

theorem standing_of_removes {role : LockRole} {c : Call} (h : role.Removes c) :
    ∃ fd, role = standing fd := by
  cases role with
  | standing fd => exact ⟨fd, rfl⟩
  | _ => exact h.elim

theorem lock_of_removes {role : LockRole} {c : Call} (h : role.Removes c) (n : RunName)
    (made : c = .create n ∨ c = .reopen n) : n = .lock := by
  obtain ⟨fd, rfl⟩ := standing_of_removes h
  rcases made with rfl | rfl <;> exact h.elim

theorem after_removes {fd : Fd} {c : Call} (h : (standing fd).Removes c) (reply : Reply c) :
    (standing fd).after c reply = standing fd ∨
      (⟨c, reply⟩ : Σ c, Reply c) = ⟨.unlink .lock, .ok ()⟩ ∧
        (standing fd).after c reply = spent fd := by
  cases c with
  | unlink n =>
      cases reply with
      | error e => exact .inl (after_unlink_error _ n e)
      | ok _ =>
          cases n with
          | lock => exact .inr ⟨rfl, rfl⟩
          | _ => exact .inl rfl
  | rmdir n => exact .inl (standing_after_rmdir fd n reply)
  | readDir => exact .inl rfl
  | _ => exact h.elim

end LockRole

open LockRole

/-! ## Taking the lock -/

theorem removeNode_acquires :
    (removeNode .lock).Follows LockRole.after Acquires (planted none) fun role settled =>
      role = match settled with
        | .ok _ => out
        | .error _ => planted none := by
  refine ⟨trivial, fun reply => ?_⟩
  cases reply with
  | ok _ => rfl
  | error e =>
      cases e with
      | isdir =>
          refine ⟨trivial, fun reply => ?_⟩
          cases reply with
          | error e => rfl
          | ok _ => rfl
      | _ => rfl

theorem locksTheFileAt_acquires (fd : Fd) (held : Option Node) :
    (locksTheFileAt fd).Follows LockRole.after Acquires (locked fd held) fun role named =>
      role = standing fd ∨ named = false ∧ ∃ held, role = locked fd held := by
  refine .ask rfl fun reply => ?_
  cases reply with
  | error e =>
      refine .ask trivial fun reply => ?_
      cases reply with
      | error e => exact .inr ⟨rfl, held, rfl⟩
      | ok named =>
          cases held with
          | none => exact .inr ⟨rfl, none, rfl⟩
          | some node =>
              rcases onStat_locked fd node named with ⟨-, stands⟩ | ⟨-, stays⟩
              · exact .inl stands
              · exact .inr ⟨rfl, _, stays⟩
  | ok node =>
      refine .ask ?_ fun reply => ?_
      · simp [LockRole.after, onFstat, Acquires]
      · simp only [LockRole.after, onFstat, if_true]
        cases reply with
        | error e => exact .inr ⟨rfl, _, rfl⟩
        | ok named =>
            rcases onStat_locked fd node named with ⟨-, stands⟩ | ⟨differs, stays⟩
            · exact .inl stands
            · exact .inr ⟨decide_eq_false differs, _, stays⟩

section

variable {next : Nat → Run Acquisition}
  (onward : ∀ repairs, (next repairs).Follows LockRole.after Acquires out LockRole.Ended)

include onward

theorem repair_acquires (repairs : Nat) :
    (repair repairs next).Follows LockRole.after Acquires (planted none) LockRole.Ended := by
  cases repairs with
  | zero => exact .inr rfl
  | succ repairs =>
      apply removeNode_acquires.bind
      intro role settled ended
      subst ended
      cases settled with
      | error e => exact .inr rfl
      | ok _ => exact onward repairs

theorem clearUnopened_acquires {kind : Kind} (foreign : kind ≠ .regular) (repairs : Nat) :
    (clearUnopened kind repairs next).Follows LockRole.after Acquires out LockRole.Ended := by
  refine ⟨trivial, fun reply => ?_⟩
  cases reply with
  | error e => exact .inl rfl
  | ok node =>
      change Follows _ _ (if node.kind = kind then repair repairs next else _)
        (if node.kind = .regular then out else planted none) _
      by_cases same : node.kind = kind
      · rw [if_pos same, if_neg (same ▸ foreign)]
        exact repair_acquires onward repairs
      · rw [if_neg same]
        by_cases regular : node.kind = .regular
        · rw [if_pos regular]
          exact .inl rfl
        · rw [if_neg regular]
          exact .inr rfl

theorem takeLock_acquires (lock : SpawnLock) (repairs : Nat) :
    (takeLock lock repairs next).Follows LockRole.after Acquires (opened lock.fd)
      LockRole.Ended := by
  refine .ask rfl fun reply => ?_
  cases reply with
  | error e => exact .ask rfl fun _ => .inl (if_pos rfl)
  | ok node =>
      simp only [LockRole.after, onFstat, if_true]
      by_cases regular : node.kind = .regular
      · simp only [regular, if_true, ne_eq, not_true_eq_false, if_false]
        refine .ask rfl fun reply => ?_
        cases reply with
        | error e =>
            cases e <;> exact .ask rfl fun _ => by simp [LockRole.after, LockRole.Ended, onClose, LockRole.fd]
        | ok _ =>
            simp only [LockRole.after, onFlock, if_true]
            apply (locksTheFileAt_acquires lock.fd none).bind
            rintro role named (rfl | ⟨rfl, held, rfl⟩)
            · cases named with
              | true => exact rfl
              | false =>
                  refine .ask rfl fun _ => ?_
                  simp only [LockRole.after, onClose, LockRole.fd, if_true]
                  exact onward repairs
            · refine .ask rfl fun _ => ?_
              simp only [LockRole.after, onClose, LockRole.fd, if_true]
              exact onward repairs
      · simp only [regular, if_false, ne_eq, not_false_eq_true, if_true]
        refine .ask rfl fun _ => ?_
        simp only [LockRole.after, onClose, if_true]
        exact repair_acquires onward repairs

end

theorem openLock_acquires :
    openLock.Follows LockRole.after Acquires out fun role opened =>
      role = match opened with
        | .ok lock => LockRole.opened lock.fd
        | .error _ => out := by
  refine .ask trivial fun reply => ?_
  cases reply with
  | ok fd => exact rfl
  | error e =>
      cases e with
      | exist =>
          refine .ask trivial fun reply => ?_
          cases reply with
          | ok fd => exact rfl
          | error e => exact rfl
      | _ => exact rfl

theorem lockPasses_acquires (passes repairs : Nat) :
    (lockPasses passes repairs).Follows LockRole.after Acquires out LockRole.Ended := by
  induction passes generalizing repairs with
  | zero => exact rfl
  | succ passes ih =>
      apply openLock_acquires.bind
      rintro role opened rfl
      cases opened with
      | ok lock => exact takeLock_acquires ih lock repairs
      | error e =>
          cases e with
          | rofs => exact .inl rfl
          | access => exact .inl rfl
          | perm => exact .inl rfl
          | loop => exact clearUnopened_acquires ih (by decide) repairs
          | nxio => exact clearUnopened_acquires ih (by decide) repairs
          | notdir => exact .inl rfl
          | noent => exact ih repairs
          | _ => exact rfl

theorem tryLockSpawnOrRefuse_acquires :
    tryLockSpawnOrRefuse.Follows LockRole.after Acquires out LockRole.Ended :=
  lockPasses_acquires _ _

theorem tryLockSpawn_acquires :
    tryLockSpawn.Follows LockRole.after Acquires out fun role lock =>
      ∀ lock', lock = some lock' → role = standing lock'.fd := by
  apply tryLockSpawnOrRefuse_acquires.bind
  intro role result ended
  cases result with
  | error e => exact fun _ none => by cases none
  | ok lock =>
      rintro lock' rfl
      exact ended

theorem lockSpawnUntil_acquires (patience : Nat) :
    (lockSpawnUntil patience).Follows LockRole.after Acquires out fun role result =>
      ∀ lock, result = .ok lock → role = standing lock.fd := by
  induction patience with
  | zero =>
      apply tryLockSpawnOrRefuse_acquires.bind
      intro role result ended
      rcases result with e | _ | lock
      · exact fun _ error => by cases error
      · exact fun _ error => by cases error
      · rintro lock' same
        cases same
        exact ended
  | succ patience ih =>
      apply tryLockSpawnOrRefuse_acquires.bind
      intro role result ended
      rcases result with e | _ | lock
      · exact fun _ error => by cases error
      · rw [show role = out from ended]
        exact ih
      · rintro lock' same
        cases same
        exact ended

/-! ## Removing the files -/

section

variable {fd : Fd}

theorem removeNode_removes (n : RunName) :
    (removeNode n).Follows LockRole.after Removes (standing fd) fun role _ =>
      role = standing fd ∨ n = .lock ∧ role = spent fd := by
  refine .ask trivial fun reply => ?_
  cases reply with
  | ok _ =>
      cases n with
      | lock => exact .inr ⟨rfl, rfl⟩
      | _ => exact .inl rfl
  | error e =>
      rw [after_unlink_error]
      cases e with
      | isdir => exact ⟨trivial, fun reply => .inl (standing_after_rmdir fd n reply)⟩
      | _ => exact .inl rfl

theorem removeEach_removes {names : List RunName} (others : RunName.lock ∉ names)
    (rest : List RunName) (failure : Option Failure) {post : LockRole → Option Failure → Prop}
    (onward : ∀ failure, (removeEach rest failure).Follows LockRole.after Removes (standing fd) post) :
    (removeEach (names ++ rest) failure).Follows LockRole.after Removes (standing fd) post := by
  induction names generalizing failure with
  | nil => exact onward failure
  | cons n names ih =>
      rw [List.mem_cons, not_or] at others
      apply (removeNode_removes n).bind
      rintro role settled (rfl | ⟨rfl, -⟩)
      · cases settled with
        | ok _ => exact ih others.2 failure
        | error e => cases e <;> exact ih others.2 _
      · exact absurd rfl others.1

theorem lock_not_scanned (entries : List (Except Errno Nat)) :
    RunName.lock ∉ (scanned entries).1 := by
  induction entries with
  | nil => exact List.not_mem_nil
  | cons entry entries ih =>
      cases entry with
      | error e => exact ih
      | ok n =>
          rintro (_ | ⟨_, later⟩)
          exact ih later

/-- The lock name comes last, and only there. -/
theorem removalOrder_removes :
    removalOrder.Follows LockRole.after Removes (standing fd) fun role found =>
      role = standing fd ∧ ∃ names, RunName.lock ∉ names ∧ found.1 = names ++ [.lock] := by
  refine .ask trivial fun reply => ?_
  cases reply with
  | error e => exact ⟨rfl, _, by decide, rfl⟩
  | ok entries =>
      refine ⟨rfl, _, ?_, rfl⟩
      rw [List.mem_append, not_or]
      exact ⟨by decide, lock_not_scanned entries⟩

theorem unlinkAllLocked_removes (fd : Fd) (lock : SpawnLock) :
    (unlinkAllLocked lock).Follows LockRole.after Removes (standing fd) fun role _ =>
      role = standing fd ∨ role = spent fd := by
  apply removalOrder_removes.bind
  rintro role ⟨order, failure⟩ ⟨rfl, names, others, rfl⟩
  simp only [if_true, Nat.sub_zero, List.take_length]
  apply removeEach_removes others
  intro failure
  apply (removeNode_removes .lock).bind
  rintro role settled (rfl | ⟨-, rfl⟩)
  · cases settled with
    | ok _ => exact .inl rfl
    | error e => cases e <;> exact .inl rfl
  · cases settled with
    | ok _ => exact .inr rfl
    | error e => cases e <;> exact .inr rfl

theorem unlinkPublishedLocked_removes (fd : Fd) (lock : SpawnLock) :
    (unlinkPublishedLocked lock).Follows LockRole.after Removes (standing fd) fun role _ =>
      role = standing fd := by
  apply removalOrder_removes.bind
  rintro role ⟨order, failure⟩ ⟨rfl, names, others, rfl⟩
  have kept : (names ++ [RunName.lock]).take ((names ++ [RunName.lock]).length - 1) = names := by
    simp
  simp only [Bool.false_eq_true, if_false, kept]
  have follows : (removeEach (names ++ []) failure).Follows LockRole.after Removes (standing fd)
      fun role _ => role = standing fd := removeEach_removes others [] failure fun _ => rfl
  rwa [List.append_nil] at follows

theorem releaseLockName_removes (lock : SpawnLock) :
    (releaseLockName lock).Follows LockRole.after Removes (standing fd) fun role _ =>
      role = standing fd ∨ role = spent fd := by
  unfold releaseLockName
  split
  · refine .ask trivial fun reply => ?_
    cases reply with
    | error e => exact .inl rfl
    | ok _ => exact .inr rfl
  · exact .inl rfl

end

end Nomux.Rundir
