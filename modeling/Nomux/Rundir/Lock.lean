import Nomux.Rundir.Kernel

/-!
# The spawn lock

Taking `<id>.lock`, giving its name back, and removing the files of a session under it: the functions
of the source, call by call.
-/

namespace Nomux.Rundir
open Program

abbrev Run (α : Type) := Program Reply α

abbrev sys (c : Call) : Run (Reply c) := ask c

def LOCK_ATTEMPTS : Nat := 2

def LOCK_REPAIRS : Nat := 1

def LOCK_PASSES : Nat := LOCK_ATTEMPTS + LOCK_REPAIRS

/-- A lock that was taken, and whether this acquisition created the name. -/
structure SpawnLock where
  fd : Fd
  createdName : Bool
  deriving DecidableEq

/-- Why no lock is to be had here, now or later. -/
inductive Refusal
  | readOnlyLock
  | unlockable (e : Errno)
  | notALockFile
  | io (e : Errno)
  | timedOut
  deriving DecidableEq

abbrev Acquisition := Except Refusal (Option SpawnLock)

/-- Removes one run file, whatever kind of node is at the name. -/
def removeNode (n : RunName) : Run (Except Errno Unit) := do
  match ← sys (.unlink n) with
  | .error .isdir => sys (.rmdir n)
  | settled => pure settled

/-- Clears the node at `<id>.lock` and goes on with one repair less, or refuses. -/
def repair (repairs : Nat) (next : Nat → Run Acquisition) : Run Acquisition :=
  match repairs with
  | 0 => pure (.error .notALockFile)
  | repairs + 1 => do
      match ← removeNode .lock with
      | .ok () => next repairs
      | .error _ => pure (.error .notALockFile)

/-- The descriptor, and whether this call created the name it is at. -/
def openLock : Run (Except Errno SpawnLock) := do
  match ← sys (.create .lock) with
  | .ok fd => pure (.ok ⟨fd, true⟩)
  | .error .exist => do
      match ← sys (.reopen .lock) with
      | .ok fd => pure (.ok ⟨fd, false⟩)
      | .error e => pure (.error e)
  | .error e => pure (.error e)

/-- Whether what is locked is what is at the name now. Every failure answers "no". -/
def locksTheFileAt (fd : Fd) : Run Bool := do
  let held ← sys (.fstat fd)
  let named ← sys (.stat .lock)
  match held, named with
  | .ok held, .ok named => pure (held.ino = named.ino)
  | _, _ => pure false

/-- The end of one pass, on a descriptor that is open at `<id>.lock`. -/
def takeLock (lock : SpawnLock) (repairs : Nat) (next : Nat → Run Acquisition) :
    Run Acquisition := do
  match ← sys (.fstat lock.fd) with
  | .error e => do
      sys (.close lock.fd)
      pure (.error (.io e))
  | .ok node =>
      if node.kind ≠ .regular then do
        sys (.close lock.fd)
        repair repairs next
      else do
        match ← sys (.flock lock.fd) with
        | .ok () => do
            if ← locksTheFileAt lock.fd then
              pure (.ok (some lock))
            else do
              sys (.close lock.fd)
              next repairs
        | .error .opnotsupp => do
            sys (.close lock.fd)
            pure (.error (.unlockable .opnotsupp))
        | .error _ => do
            sys (.close lock.fd)
            pure (.ok none)

/-- A node that does not open: cleared where `symlink_metadata` names it as of the kind that
answers so. -/
def clearUnopened (kind : Kind) (repairs : Nat) (next : Nat → Run Acquisition) :
    Run Acquisition := do
  match ← sys (.lstat .lock) with
  | .ok node => if node.kind = kind then repair repairs next else pure (.error .notALockFile)
  | .error _ => pure (.error .notALockFile)

/-- The passes of `try_lock_spawn_or_refuse` that are left. -/
def lockPasses : (passes : Nat) → (repairs : Nat) → Run Acquisition
  | 0 => fun _ => pure (.ok none)
  | passes + 1 => fun repairs => do
      match ← openLock with
      | .ok lock => takeLock lock repairs (lockPasses passes)
      | .error .rofs => pure (.error .readOnlyLock)
      | .error .access => pure (.error (.unlockable .access))
      | .error .perm => pure (.error (.unlockable .perm))
      | .error .loop => clearUnopened .symlink repairs (lockPasses passes)
      | .error .nxio => clearUnopened .socket repairs (lockPasses passes)
      | .error .notdir => pure (.error .notALockFile)
      | .error .noent => lockPasses passes repairs
      | .error _ => pure (.ok none)

def tryLockSpawnOrRefuse : Run Acquisition := lockPasses LOCK_PASSES LOCK_REPAIRS

/-- For the two collections, which answer every failure by touching nothing. -/
def tryLockSpawn : Run (Option SpawnLock) := do
  match ← tryLockSpawnOrRefuse with
  | .ok lock => pure lock
  | .error _ => pure none

/-- Asks again until the deadline, which is `patience` rounds away. -/
def lockSpawnUntil : (patience : Nat) → Run (Except Refusal SpawnLock)
  | 0 => do
      match ← tryLockSpawnOrRefuse with
      | .error e => pure (.error e)
      | .ok (some lock) => pure (.ok lock)
      | .ok none => pure (.error .timedOut)
  | patience + 1 => do
      match ← tryLockSpawnOrRefuse with
      | .error e => pure (.error e)
      | .ok (some lock) => pure (.ok lock)
      | .ok none => lockSpawnUntil patience

/-- Gives `<id>.lock` back, where `lock` is the acquisition that created the name. -/
def releaseLockName (lock : SpawnLock) : Run Unit :=
  if lock.createdName then do
    let _ ← sys (.unlink .lock)
    pure ()
  else
    pure ()

inductive Failure
  | scan (e : Errno)
  | removal (n : RunName) (e : Errno)
  deriving DecidableEq

/-- The first failure is the one that is kept. -/
def Failure.first (failure : Option Failure) (later : Failure) : Option Failure :=
  some (failure.getD later)

/-- The names a scan found, and its first failure. -/
def scanned : List (Except Errno Nat) → List RunName × Option Failure
  | [] => ([], none)
  | .ok n :: entries => ((.other n) :: (scanned entries).1, (scanned entries).2)
  | .error e :: entries => ((scanned entries).1, some (.scan e))

/-- Every `<id>.*` in the order it is removed in: the lock is last. -/
def removalOrder : Run (List RunName × Option Failure) := do
  let named : List RunName := [.socket, .pid, .label, .agent]
  match ← sys .readDir with
  | .error e => pure (named ++ [.lock], some (.scan e))
  | .ok entries =>
      let (others, failure) := scanned entries
      pure (named ++ others ++ [.lock], failure)

def removeEach : List RunName → Option Failure → Run (Option Failure)
  | [], failure => pure failure
  | n :: names, failure => do
      match ← removeNode n with
      | .ok () => removeEach names failure
      | .error .noent => removeEach names failure
      | .error e => removeEach names (Failure.first failure (.removal n e))

def unlinkLocked (includeLock : Bool) : Run (Option Failure) := do
  let (order, failure) ← removalOrder
  removeEach (order.take (order.length - if includeLock then 0 else 1)) failure

/-- The lock is the caller's standing to do it. -/
def unlinkAllLocked (_lock : SpawnLock) : Run (Option Failure) := unlinkLocked true

def unlinkPublishedLocked (_lock : SpawnLock) : Run (Option Failure) := unlinkLocked false

end Nomux.Rundir
