import Nomux.Rundir.Lock

/-!
# Starting, serving and removing a session

What the commands do to the run files of one session, call by call. An error is left without its
text. Loops that wait for time to pass wait a number of rounds.
-/

namespace Nomux.Rundir
open Program

/-! ## The daemon -/

/-- The descriptor a `spawn` handed on is adopted when it is a lock on the file at the name. -/
def inheritSpawnLock (raw : Fd) : Run (Option SpawnLock) := do
  match ← sys (.work .getfd) with
  | .error _ => pure none
  | .ok () =>
      match ← sys (.work .setCloexec) with
      | .error _ => refuse
      | .ok () =>
          match ← sys (.fstat raw) with
          | .error _ => refuse
          | .ok node =>
              if node.kind ≠ .regular then refuse
              else
                match ← sys (.flock raw) with
                | .error _ => refuse
                | .ok () => if ← locksTheFileAt raw then pure (some ⟨raw, false⟩) else refuse
where
  refuse : Run (Option SpawnLock) := do
    sys (.close raw)
    pure none

def bindSocketPrivate : Run (Option Sock) := do
  match ← sys .bind with
  | .error _ => pure none
  | .ok s =>
      match ← sys (.listen s) with
      | .error _ => do
          sys (.closeSocket s)
          pure none
      | .ok () =>
          match ← sys (.work .setNonblocking) with
          | .error _ => do
              sys (.closeSocket s)
              let _ ← sys (.unlink .socket)
              pure none
          | .ok () => pure (some s)

/-- `clear_pid`, `clear_label` and the bind, once nothing answers at the name. -/
def bindCleared : Run (Option Sock) := do
  let _ ← sys (.unlink .pid)
  let _ ← sys (.unlink .label)
  bindSocketPrivate

/-- Only a refused connection leaves a socket file to replace. -/
def bindSocket : Run (Option Sock) := do
  match ← sys .connect with
  | .alive => pure none
  | .unknown => pure none
  | .stale false => bindCleared
  | .stale true =>
      match ← sys (.unlink .socket) with
      | .ok () => bindCleared
      | .error .noent => bindCleared
      | .error _ => pure none

/-- Whether the daemon is in a session without a terminal, after a `fork` where it takes one. -/
def detachFromControllingTerminal : Run Bool := do
  match ← sys (.work .leadsSession) with
  | .ok () => pure true
  | .error _ =>
      match ← sys (.work .setsid) with
      | .ok () => pure true
      | .error _ =>
          match ← sys (.fork .leftover) with
          | .error _ => pure false
          | .ok () =>
              match ← sys (.work .setsid) with
              | .ok () => pure true
              | .error _ => pure false

/-- `write_private`: what was at the name goes first. -/
def writePrivate (n : RunName) : Run (Except Errno Unit) := do
  let _ ← sys (.unlink n)
  sys (.work .write)

def publish (label : Bool) : Run Bool := do
  if ← detachFromControllingTerminal then
    match ← sys (.work .armSignals) with
    | .error _ => pure false
    | .ok () =>
        match ← writePrivate .pid with
        | .error _ => pure false
        | .ok () =>
            if label then do
              let _ ← writePrivate .label
              pure true
            else
              pure true
  else
    pure false

/-- A `Hello` starts the shell, and binds the agent socket first where it is asked for. -/
def startSession : Run Unit := do
  match ← sys (.work .forwardAgent) with
  | .error _ => pure ()
  | .ok () => do
      let _ ← sys (.unlink .agent)
      let _ ← sys (.work .bindAgent)
      pure ()
  let _ ← sys (.fork .leftover)
  pure ()

def eventLoop : (rounds : Nat) → Run Unit
  | 0 => pure ()
  | rounds + 1 => do
      sys .poll
      match ← sys (.work .startSession) with
      | .error _ => eventLoop rounds
      | .ok () => do
          startSession
          eventLoop rounds

/-- The daemon's own shutdown, where the lock is to be had this instant. -/
def unlinkAll : Run Unit := do
  match ← tryLockSpawn with
  | none => pure ()
  | some lock => do
      let _ ← unlinkAllLocked lock
      sys (.close lock.fd)

/-- Up to the listener. Whatever fails on the way is answered alike. -/
def prepare : Run (Option Sock) := do
  match ← sys (.work .allocateRing) with
  | .error _ => pure none
  | .ok () =>
      match ← sys (.work .leaveDirectory) with
      | .error _ => pure none
      | .ok () => bindSocket

/-- From the listener on. The name of an inherited lock is the parent's to remove. -/
def serve (publishing : SpawnLock) (inherited label : Bool) (rounds : Nat) : Run Unit := do
  if ← published then do
    sys (.close publishing.fd)
    eventLoop rounds
    unlinkAll
  else if inherited then do
    let _ ← unlinkPublishedLocked publishing
    pure ()
  else do
    let _ ← unlinkAllLocked publishing
    pure ()
where
  published : Run Bool := do
    if ← publish label then
      match ← sys (.work .silence) with
      | .error _ => pure false
      | .ok () => pure true
    else
      pure false

def authority : (inherited : Option Fd) → Run (Option SpawnLock)
  | some raw => inheritSpawnLock raw
  | none => tryLockSpawn

def start (inherited : Option Fd) (label : Bool) (rounds : Nat) : Run Unit := do
  match ← sys (.work .closeInherited) with
  | .error _ => pure ()
  | .ok () =>
      match ← sys (.work .checkRunDir) with
      | .error _ => pure ()
      | .ok () =>
          match ← authority inherited with
          | none => pure ()
          | some publishing =>
              match ← prepare with
              | none => releaseLockName publishing
              | some _ => serve publishing inherited.isSome label rounds

/-! ## `spawn` -/

def spawnDaemon (lock : Fd) : Run (Except Errno Unit) := do
  match ← sys (.work .prepareSpawn) with
  | .error e => pure (.error e)
  | .ok () => sys (.fork (.daemon lock))

def awaitPublication : (rounds : Nat) → Run Unit
  | 0 => pure ()
  | rounds + 1 => do
      match ← sys (.work .readPid) with
      | .ok () => pure ()
      | .error _ => do
          sys .poll
          awaitPublication rounds

def awaitDaemon : (rounds : Nat) → Run Unit
  | 0 => pure ()
  | rounds + 1 => do
      match ← sys .connect with
      | .alive => awaitPublication (rounds + 1)
      | .stale _ => do
          sys .poll
          awaitDaemon rounds
      | .unknown => pure ()

def createLocked (lock : SpawnLock) (rounds : Nat) : Run Unit := do
  match ← sys .connect with
  | .stale _ =>
      match ← spawnDaemon lock.fd with
      | .error _ => releaseLockName lock
      | .ok () => awaitDaemon rounds
  | _ => pure ()

def create (patience rounds : Nat) : Run Unit := do
  match ← sys (.work .checkRunDir) with
  | .error _ => pure ()
  | .ok () =>
      match ← lockSpawnUntil patience with
      | .error _ => pure ()
      | .ok lock => do
          createLocked lock rounds
          sys (.close lock.fd)

/-! ## `kill` and `list` -/

/-- The probe that decides, under the lock; `kill` and `collect` make the same one. -/
def collectLocked (lock : SpawnLock) : Run Unit := do
  match ← sys .connect with
  | .stale _ => do
      let _ ← unlinkAllLocked lock
      pure ()
  | _ => pure ()

/-- What the pidfile says, and `later` where it is not written yet. -/
def named (later : Run (Option Bool)) : Run (Option Bool) := do
  match ← sys (.work .readPid) with
  | .ok () =>
      match ← sys (.work .identify) with
      | .ok () => pure (some true)
      | .error _ => pure none
  | .error .noent => do
      sys .poll
      later
  | .error _ => pure none

/-- Whether there is a process to signal, or `none` for a refusal. -/
def resolve : (rounds : Nat) → Run (Option Bool)
  | 0 => pure none
  | rounds + 1 => do
      match ← sys .connect with
      | .stale _ => pure (some false)
      | _ => named (resolve rounds)

/-- Whether the socket went silent within the graces. -/
def awaitSilence : (rounds : Nat) → Run Bool
  | 0 => pure false
  | rounds + 1 => do
      match ← sys .connect with
      | .stale _ => pure true
      | .unknown => pure false
      | .alive => do
          let _ ← sys (.work .signal)
          sys .poll
          awaitSilence rounds

def killLocked (lock : SpawnLock) (rounds : Nat) : Run Unit := do
  match ← resolve rounds with
  | none => pure ()
  | some false => collectLocked lock
  | some true => do
      let _ ← sys (.work .signal)
      if ← awaitSilence rounds then collectLocked lock else pure ()

def kill (patience rounds : Nat) : Run Unit := do
  match ← sys (.work .checkRunDir) with
  | .error _ => pure ()
  | .ok () =>
      match ← lockSpawnUntil patience with
      | .error _ => pure ()
      | .ok lock => do
          killLocked lock rounds
          sys (.close lock.fd)

def collect : Run Unit := do
  match ← tryLockSpawn with
  | none => pure ()
  | some lock => do
      collectLocked lock
      sys (.close lock.fd)

def list : Run Unit := do
  match ← sys (.work .checkRunDir) with
  | .error _ => pure ()
  | .ok () =>
      match ← sys .connect with
      | .stale _ => collect
      | _ => pure ()

end Nomux.Rundir
