import Nomux.Rundir.Roles
import Nomux.Rundir.Startup

/-!
# Who may replace the socket

To standing on the lock comes what a process knows of the socket while it has it: that nobody serves
the session, or that it serves it itself. Starting, serving and removing a session keep to that.
-/

namespace Nomux.Rundir
open Program

inductive SockRole
  | none
  /-- While it has standing, it was told that nobody listens, or it has begun to remove its own. -/
  | licensed
  | bound (s : Sock)
  | listening (s : Sock)
  deriving DecidableEq

def SockRole.serves : SockRole → Option Sock
  | bound s | listening s => some s
  | _ => .none

def LockRole.Stands (role : LockRole) : Prop := ∃ fd, role = .standing fd

instance (role : LockRole) : Decidable role.Stands :=
  match role with
  | .standing fd => isTrue ⟨fd, rfl⟩
  | .out | .planted _ | .opened _ | .checked _ | .locked _ _ | .shared _ | .spent _ =>
      isFalse fun ⟨_, same⟩ => LockRole.noConfusion same

structure Role where
  lock : LockRole := .out
  sock : SockRole := .none
  deriving DecidableEq

namespace SockRole

/-- A process that serves no more is left with the license of its standing. -/
def retire : SockRole → SockRole
  | bound _ | listening _ => licensed
  | role => role

/-- A license ends with the standing it was had under. -/
def lapse (lock : LockRole) : SockRole → SockRole
  | licensed => if lock.Stands then licensed else none
  | role => role

def onStale (lock : LockRole) : SockRole → SockRole
  | none => if lock.Stands then licensed else none
  | role => role

def onListen (s : Sock) : SockRole → SockRole
  | bound s' => if s' = s then listening s' else bound s'
  | role => role

def onClose (s : Sock) (role : SockRole) : SockRole :=
  if role.serves = some s then role.retire else role

def after (lock : LockRole) (role : SockRole) : (c : Call) → Reply c → SockRole
  | .connect, .stale _ => role.onStale lock
  | .bind, .ok s => bound s
  | .listen s, .ok _ => role.onListen s
  | .readDir, _ => role.retire
  | .unlink .socket, _ => role.retire
  | .closeSocket s, _ => role.onClose s
  | _, _ => role

theorem serves_retire (role : SockRole) : role.retire.serves = .none := by cases role <;> rfl

theorem serves_lapse (lock : LockRole) (role : SockRole) : (role.lapse lock).serves = role.serves := by
  cases role with
  | licensed =>
      simp only [lapse]
      split <;> rfl
  | _ => rfl

section

variable {lock : LockRole} {role : SockRole} {c : Call} {reply : Reply c} {s : Sock}

theorem serves_after (h : (role.after lock c reply).serves = some s) :
    (⟨c, reply⟩ : Σ c, Reply c) = ⟨.bind, .ok s⟩ ∨
      role.serves = some s ∧ c ≠ .unlink .socket ∧ c ≠ .closeSocket s := by
  cases c with
  | connect =>
      right
      refine ⟨?_, Call.noConfusion, Call.noConfusion⟩
      cases reply with
      | stale refused =>
          cases role with
          | none =>
              change (if lock.Stands then licensed else none).serves = some s at h
              split at h <;> cases h
          | _ => exact h
      | _ => exact h
  | bind =>
      cases reply with
      | error e => exact .inr ⟨h, Call.noConfusion, Call.noConfusion⟩
      | ok s' =>
          cases h
          exact .inl rfl
  | listen s' =>
      right
      refine ⟨?_, Call.noConfusion, Call.noConfusion⟩
      cases reply with
      | error e => exact h
      | ok _ =>
          cases role with
          | bound s'' =>
              change (if s'' = s' then listening s'' else bound s'').serves = some s at h
              split at h <;> exact h
          | _ => exact h
  | readDir =>
      rw [show role.after lock .readDir reply = role.retire from rfl, serves_retire] at h
      cases h
  | unlink n =>
      cases n with
      | socket =>
          rw [show role.after lock (.unlink .socket) reply = role.retire from rfl, serves_retire] at h
          cases h
      | _ => exact .inr ⟨h, by simp, Call.noConfusion⟩
  | closeSocket s' =>
      change (if role.serves = some s' then role.retire else role).serves = some s at h
      split at h
      · rw [serves_retire] at h
        cases h
      · next other =>
          refine .inr ⟨h, Call.noConfusion, ?_⟩
          rintro same
          cases same
          exact other h
  | _ => exact .inr ⟨h, Call.noConfusion, Call.noConfusion⟩

theorem bound_after (h : role.after lock c reply = bound s) :
    c = .bind ∨ role = bound s := by
  cases c with
  | connect =>
      right
      cases reply with
      | stale refused =>
          cases role with
          | none =>
              change (if lock.Stands then licensed else none) = bound s at h
              split at h <;> cases h
          | _ => exact h
      | _ => exact h
  | bind => exact .inl rfl
  | listen s' =>
      right
      cases reply with
      | error e => exact h
      | ok _ =>
          cases role with
          | bound s'' =>
              change (if s'' = s' then listening s'' else bound s'') = bound s at h
              split at h
              · cases h
              · exact h
          | _ => exact h
  | readDir => cases role <;> cases h
  | unlink n =>
      cases n with
      | socket => cases role <;> cases h
      | _ => exact .inr h
  | closeSocket s' =>
      change (if role.serves = some s' then role.retire else role) = bound s at h
      split at h
      · cases role <;> cases h
      · exact .inr h
  | _ => exact .inr h

theorem listening_after (h : role.after lock c reply = listening s) :
    role = listening s ∨ role = bound s ∧ (⟨c, reply⟩ : Σ c, Reply c) = ⟨.listen s, .ok ()⟩ := by
  cases c with
  | connect =>
      left
      cases reply with
      | stale refused =>
          cases role with
          | none =>
              change (if lock.Stands then licensed else none) = listening s at h
              split at h <;> cases h
          | _ => exact h
      | _ => exact h
  | bind =>
      cases reply with
      | error e => exact .inl h
      | ok s' => cases h
  | listen s' =>
      cases reply with
      | error e => exact .inl h
      | ok _ =>
          cases role with
          | bound s'' =>
              change (if s'' = s' then listening s'' else bound s'') = listening s at h
              split at h
              · next same =>
                  cases h
                  subst same
                  exact .inr ⟨rfl, rfl⟩
              · cases h
          | _ => exact .inl h
  | readDir => cases role <;> cases h
  | unlink n =>
      cases n with
      | socket => cases role <;> cases h
      | _ => exact .inl h
  | closeSocket s' =>
      change (if role.serves = some s' then role.retire else role) = listening s at h
      split at h
      · cases role <;> cases h
      · exact .inl h
  | _ => exact .inl h

theorem of_after_none (h : SockRole.after lock none c reply ≠ none) :
    lock.Stands ∧ (∃ refused, (⟨c, reply⟩ : Σ c, Reply c) = ⟨.connect, .stale refused⟩) ∨
      c = .bind := by
  cases c with
  | connect =>
      cases reply with
      | stale refused =>
          change (if lock.Stands then licensed else none) ≠ none at h
          split at h
          · next stands => exact .inl ⟨stands, refused, rfl⟩
          · exact absurd rfl h
      | _ => exact absurd rfl h
  | bind => exact .inr rfl
  | listen s => cases reply <;> exact absurd rfl h
  | closeSocket s =>
      change (if serves none = some s then none else none) ≠ none at h
      rw [ite_self] at h
      exact absurd rfl h
  | unlink n => cases n <;> exact absurd rfl h
  | _ => exact absurd rfl h

end

end SockRole

namespace Role

def after (role : Role) (c : Call) (reply : Reply c) : Role where
  lock := role.lock.after c reply
  sock := (role.sock.after role.lock c reply).lapse (role.lock.after c reply)

/-- The calls on which the session rests: who may bind, start a daemon and remove the socket, and that
nobody lets go of the lock between the bind and the `listen`. -/
def Guards (role : Role) : Call → Prop
  | .create n => n = .lock
  | .reopen n => n = .lock
  | .unlink .socket => role.lock.Stands ∧ role.sock ≠ .none
  | .bind => role.sock = .licensed
  | .listen s => role.sock = .bound s
  | .unlink .lock => ∀ s, role.sock ≠ .bound s
  | .close _ => ∀ s, role.sock ≠ .bound s
  | .fork (.daemon _) => role.sock = .licensed
  | _ => True

def Allows (role : Role) (c : Call) : Prop := role.lock.Allows c ∧ role.Guards c

theorem stands_after {role : Role} {c : Call} {s : Sock} (guards : role.Guards c)
    (bound : role.sock = .bound s) (stands : role.lock.Stands) (reply : Reply c) :
    (role.lock.after c reply).Stands := by
  obtain ⟨fd, stands⟩ := stands
  rw [stands]
  cases c with
  | close fd' => exact absurd bound (guards s)
  | unlink n =>
      cases n with
      | lock => exact absurd bound (guards s)
      | _ => exact ⟨fd, rfl⟩
  | fork child =>
      cases child with
      | daemon lock =>
          rw [show role.sock = .licensed from guards] at bound
          cases bound
      | leftover => exact ⟨fd, rfl⟩
  | create n => cases reply <;> cases n <;> exact ⟨fd, rfl⟩
  | reopen n => cases reply <;> cases n <;> exact ⟨fd, rfl⟩
  | lstat n => cases reply <;> cases n <;> exact ⟨fd, rfl⟩
  | stat n => cases reply <;> cases n <;> exact ⟨fd, rfl⟩
  | rmdir n => exact ⟨fd, LockRole.standing_after_rmdir fd n reply⟩
  | fstat fd' => cases reply <;> exact ⟨fd, rfl⟩
  | flock fd' => cases reply <;> exact ⟨fd, rfl⟩
  | _ => exact ⟨fd, rfl⟩

/-- What a process allows that is to remove files only where nobody serves the session. -/
def AllowsIdle (role : Role) (c : Call) : Prop :=
  role.Allows c ∧ match c with
    | .unlink _ | .rmdir _ => role.sock = .licensed ∨ role.lock = .planted none
    | _ => True

end Role

open LockRole SockRole Role

theorem follows_allows {α : Type} {program : Run α} {role : Role} {post : Role → α → Prop}
    (h : program.Follows Role.after AllowsIdle role post) :
    program.Follows Role.after Role.Allows role post :=
  h.mono (fun _ _ allowed => allowed.1) fun _ _ held => held

/-! ## The lock -/

theorem sock_after_locking {c : Call} (locking : c.Locking) (reply : Reply c) (lock : LockRole)
    (sock : SockRole) : sock.after lock c reply = sock := by
  cases c with
  | connect => exact locking.elim
  | bind => exact locking.elim
  | listen s => exact locking.elim
  | readDir => exact locking.elim
  | closeSocket s => exact locking.elim
  | unlink n =>
      cases locking
      rfl
  | _ => rfl

theorem guards_of_locking {role : Role} {c : Call} (locking : c.Locking)
    (settled : ∀ s, role.sock ≠ bound s) : role.Guards c := by
  cases c with
  | create n => exact locking
  | reopen n => exact locking
  | bind => exact locking.elim
  | listen s => exact locking.elim
  | unlink n =>
      cases locking
      exact settled
  | close fd => exact settled
  | fork child => exact locking.elim
  | _ => trivial

theorem allowsIdle_of_acquires {role : Role} {c : Call} (acquires : role.lock.Acquires c)
    (settled : ∀ s, role.sock ≠ bound s) : role.AllowsIdle c := by
  refine ⟨⟨allows_of_acquires acquires, guards_of_locking (locking_of_acquires acquires) settled⟩, ?_⟩
  cases c with
  | unlink n =>
      cases locking_of_acquires acquires
      rcases allows_of_acquires acquires with planted | ⟨fd, stands⟩
      · exact .inr planted
      · rw [stands] at acquires
        exact acquires.elim
  | rmdir n =>
      cases locking_of_acquires acquires
      exact .inr (planted_of_rmdir acquires)
  | _ => trivial

theorem follows_acquires {α : Type} {program : Run α} {lock : LockRole} (sock : SockRole)
    {post : LockRole → α → Prop} (license : sock ≠ licensed) (settled : ∀ s, sock ≠ bound s)
    (h : program.Follows LockRole.after Acquires lock post) :
    program.Follows Role.after AllowsIdle ⟨lock, sock⟩ fun role value =>
      role.sock = sock ∧ post role.lock value := by
  refine Follows.along Role.lock (fun role => role.sock = sock) ?_ rfl h
  rintro role c rfl acquires
  refine ⟨allowsIdle_of_acquires acquires settled, fun reply => ⟨?_, rfl⟩⟩
  change SockRole.lapse _ (role.sock.after role.lock c reply) = role.sock
  rw [sock_after_locking (locking_of_acquires acquires)]
  cases same : role.sock with
  | licensed => exact absurd same license
  | _ => rfl

/-! ## Removing the files -/

theorem lapse_licensed {lock : LockRole} : lapse lock licensed = if lock.Stands then licensed else none :=
  rfl

theorem follows_removes {α : Type} {program : Run α} {fd : Fd} {post : LockRole → α → Prop}
    (h : program.Follows LockRole.after Removes (standing fd) post) :
    program.Follows Role.after AllowsIdle ⟨standing fd, licensed⟩ fun role value =>
      role.sock = lapse role.lock licensed ∧ post role.lock value := by
  refine Follows.along Role.lock (fun role => role.sock = lapse role.lock licensed) ?_ rfl h
  rintro ⟨lock, sock⟩ c held removes
  obtain ⟨fd, rfl⟩ := standing_of_removes removes
  obtain rfl : sock = licensed := held
  refine ⟨⟨⟨allows_of_removes removes, ?_⟩, ?_⟩, fun reply => ⟨?_, rfl⟩⟩
  · cases c with
    | unlink n => cases n with
      | socket => exact ⟨⟨fd, rfl⟩, SockRole.noConfusion⟩
      | lock => exact fun _ => SockRole.noConfusion
      | _ => trivial
    | rmdir n => trivial
    | readDir => trivial
    | _ => exact removes.elim
  · cases c with
    | unlink n => exact .inl rfl
    | rmdir n => exact .inl rfl
    | _ => trivial
  · change lapse _ (SockRole.after _ licensed c reply) = lapse _ licensed
    congr
    cases c with
    | unlink n => cases n <;> rfl
    | rmdir n => rfl
    | readDir => rfl
    | _ => exact removes.elim

theorem follows_retires {α : Type} {rest : Reply .readDir → Run α} {fd : Fd} {s : Sock}
    {post : Role → α → Prop}
    (h : (Program.call .readDir rest).Follows Role.after AllowsIdle ⟨standing fd, licensed⟩ post) :
    (Program.call .readDir rest).Follows Role.after Role.Allows ⟨standing fd, listening s⟩ post :=
  ⟨⟨trivial, trivial⟩, fun reply => follows_allows (h.2 reply)⟩

/-! ## The daemon -/

theorem inheritSpawnLock_acquires (raw : Fd) :
    (inheritSpawnLock raw).Follows LockRole.after Acquires (locked raw .none) fun role lock =>
      ∀ lock', lock = some lock' → role = standing lock'.fd := by
  have refuse : ∀ {role : LockRole}, role.Acquires (.close raw) →
      (inheritSpawnLock.refuse raw).Follows LockRole.after Acquires role fun role lock =>
        ∀ lock', lock = some lock' → role = standing lock'.fd :=
    fun acquires => .ask acquires fun _ _ none => by cases none
  refine .ask trivial fun reply => ?_
  cases reply with
  | error e => exact fun _ none => by cases none
  | ok _ =>
      refine .ask trivial fun reply => ?_
      cases reply with
      | error e => exact refuse rfl
      | ok _ =>
          refine .ask rfl fun reply => ?_
          cases reply with
          | error e => exact refuse rfl
          | ok node =>
              change Follows _ _ (if _ then _ else _) (locked raw (if raw = raw then some node else _)) _
              rw [if_pos (rfl : raw = raw)]
              split
              · exact refuse rfl
              · refine .ask rfl fun reply => ?_
                cases reply with
                | error e => exact refuse rfl
                | ok _ =>
                    apply (locksTheFileAt_acquires raw (some node)).bind
                    rintro role named (rfl | ⟨rfl, held, rfl⟩)
                    · cases named with
                      | true =>
                          intro lock same
                          cases same
                          rfl
                      | false => exact refuse rfl
                    · exact refuse rfl

variable {lock : Fd}

theorem after_listen (s : Sock) :
    (⟨standing lock, bound s⟩ : Role).after (.listen s) (.ok ()) = ⟨standing lock, listening s⟩ := by
  change Role.mk _ (lapse _ (if s = s then listening s else bound s)) = _
  rw [if_pos rfl]
  rfl

theorem after_closeSocket {sock : SockRole} {s : Sock} (serves : sock.serves = some s) :
    (⟨standing lock, sock⟩ : Role).after (.closeSocket s) () = ⟨standing lock, licensed⟩ := by
  change Role.mk _ (lapse _ (if sock.serves = some s then sock.retire else sock)) = _
  rw [if_pos serves]
  cases sock with
  | none => cases serves
  | licensed => cases serves
  | bound s' => rfl
  | listening s' => rfl

theorem bindSocketPrivate_allowed :
    bindSocketPrivate.Follows Role.after Role.Allows ⟨standing lock, licensed⟩ fun role listener =>
      role = match listener with
        | some s => ⟨standing lock, listening s⟩
        | .none => ⟨standing lock, licensed⟩ := by
  refine .ask ⟨trivial, rfl⟩ fun reply => ?_
  cases reply with
  | error e => exact rfl
  | ok s =>
      refine .ask ⟨trivial, rfl⟩ fun reply => ?_
      cases reply with
      | error e => exact .ask ⟨trivial, trivial⟩ fun _ => after_closeSocket rfl
      | ok _ =>
          change Follows _ _ _ ((⟨standing lock, bound s⟩ : Role).after (.listen s) (.ok ())) _
          rw [after_listen]
          refine .ask ⟨trivial, trivial⟩ fun reply => ?_
          cases reply with
          | ok _ => exact rfl
          | error e =>
              refine .ask ⟨trivial, trivial⟩ fun _ => ?_
              change Follows _ _ _ ((⟨standing lock, listening s⟩ : Role).after (.closeSocket s) ()) _
              rw [after_closeSocket rfl]
              exact .ask ⟨trivial, ⟨lock, rfl⟩, SockRole.noConfusion⟩ fun _ => rfl

theorem bindCleared_allowed :
    bindCleared.Follows Role.after Role.Allows ⟨standing lock, licensed⟩ fun role listener =>
      role = match listener with
        | some s => ⟨standing lock, listening s⟩
        | .none => ⟨standing lock, licensed⟩ :=
  .ask ⟨trivial, trivial⟩ fun _ => .ask ⟨trivial, trivial⟩ fun _ => bindSocketPrivate_allowed

/-- A process that has standing, and serves the session or has no socket. -/
def Settled (lock : Fd) (role : Role) : Option Sock → Prop
  | some s => role = ⟨standing lock, listening s⟩
  | .none => role = ⟨standing lock, .none⟩ ∨ role = ⟨standing lock, licensed⟩

theorem bindSocket_allowed :
    bindSocket.Follows Role.after Role.Allows ⟨standing lock, .none⟩ (Settled lock) := by
  have cleared : bindCleared.Follows Role.after Role.Allows ⟨standing lock, licensed⟩
      (Settled lock) := by
    apply bindCleared_allowed.mono (fun _ _ allowed => allowed)
    rintro role listener rfl
    cases listener with
    | none => exact .inr rfl
    | some s => exact rfl
  refine .ask ⟨trivial, trivial⟩ fun reply => ?_
  cases reply with
  | alive => exact .inl rfl
  | unknown => exact .inl rfl
  | stale refused =>
      cases refused with
      | false => exact cleared
      | true =>
          refine .ask ⟨trivial, ⟨lock, rfl⟩, SockRole.noConfusion⟩ fun reply => ?_
          cases reply with
          | ok _ => exact cleared
          | error e =>
              cases e with
              | noent => exact cleared
              | _ => exact .inr rfl

theorem prepare_allowed :
    prepare.Follows Role.after Role.Allows ⟨standing lock, .none⟩ (Settled lock) := by
  refine .ask ⟨trivial, trivial⟩ fun reply => ?_
  cases reply with
  | error e => exact .inl rfl
  | ok _ =>
      refine .ask ⟨trivial, trivial⟩ fun reply => ?_
      cases reply with
      | error e => exact .inl rfl
      | ok _ => exact bindSocket_allowed

/-- The calls that have to do with neither the lock nor the socket. -/
def Call.Neutral : Call → Prop
  | .poll => True
  | .work _ => True
  | .fork .leftover => True
  | .unlink n => n ≠ .socket ∧ n ≠ .lock
  | _ => False

/-- A program that makes only neutral calls. -/
abbrev Neutral {α : Type} (program : Run α) : Prop :=
  program.Follows (fun (_ : Unit) _ _ => ()) (fun _ c => c.Neutral) () fun _ _ => True

theorem follows_neutral {α : Type} {program : Run α} {role : Role}
    (settled : lapse role.lock role.sock = role.sock) (h : Neutral program) :
    program.Follows Role.after Role.Allows role fun role' _ => role' = role := by
  have kept : program.Follows Role.after Role.Allows role fun role' _ => role' = role ∧ True := by
    refine Follows.along (fun _ => ()) (fun role' => role' = role) ?_ rfl h
    rintro _ c rfl neutral
    cases c with
    | poll => exact ⟨⟨trivial, trivial⟩, fun _ => ⟨congrArg (Role.mk _) settled, rfl⟩⟩
    | work w => exact ⟨⟨trivial, trivial⟩, fun _ => ⟨congrArg (Role.mk _) settled, rfl⟩⟩
    | fork child =>
        cases child with
        | daemon lock => exact neutral.elim
        | leftover => exact ⟨⟨trivial, trivial⟩, fun _ => ⟨congrArg (Role.mk _) settled, rfl⟩⟩
    | unlink n =>
        cases n with
        | socket => exact absurd rfl neutral.1
        | lock => exact absurd rfl neutral.2
        | _ => exact ⟨⟨trivial, trivial⟩, fun _ => ⟨congrArg (Role.mk _) settled, rfl⟩⟩
    | _ => exact neutral.elim
  exact kept.mono (fun _ _ allowed => allowed) fun _ _ held => held.1

theorem detach_neutral : Neutral detachFromControllingTerminal := by
  refine .ask trivial fun reply => ?_
  cases reply with
  | ok _ => trivial
  | error e =>
      refine .ask trivial fun reply => ?_
      cases reply with
      | ok _ => trivial
      | error e =>
          refine .ask trivial fun reply => ?_
          cases reply with
          | error e => trivial
          | ok _ => exact .ask trivial fun reply => by cases reply <;> trivial

theorem writePrivate_neutral {n : RunName} (socket : n ≠ .socket) (lock : n ≠ .lock) :
    Neutral (writePrivate n) :=
  .ask ⟨socket, lock⟩ fun _ => .ask trivial fun _ => trivial

theorem publish_neutral (label : Bool) : Neutral (publish label) := by
  apply detach_neutral.bind
  intro _ detached _
  cases detached with
  | false => trivial
  | true =>
      refine .ask trivial fun reply => ?_
      cases reply with
      | error e => trivial
      | ok _ =>
          apply (writePrivate_neutral (n := .pid) (by decide) (by decide)).bind
          intro _ written _
          cases written with
          | error e => trivial
          | ok _ =>
              cases label with
              | false => trivial
              | true =>
                  exact (writePrivate_neutral (n := .label) (by decide) (by decide)).bind
                    fun _ _ _ => trivial

theorem startSession_neutral : Neutral startSession := by
  refine .ask trivial fun reply => ?_
  cases reply with
  | error e => exact .ask trivial fun _ => trivial
  | ok _ =>
      exact .ask ⟨by decide, by decide⟩ fun _ => .ask trivial fun _ => .ask trivial fun _ => trivial

theorem eventLoop_neutral (rounds : Nat) : Neutral (eventLoop rounds) := by
  induction rounds with
  | zero => trivial
  | succ rounds ih =>
      refine .ask trivial fun _ => .ask trivial fun reply => ?_
      cases reply with
      | error e => exact ih
      | ok _ => exact startSession_neutral.bind fun _ _ _ => ih

/-- The daemon's own removal begins while its socket still listens. -/
theorem unlinkAll_allowed (s : Sock) :
    unlinkAll.Follows Role.after Role.Allows ⟨out, listening s⟩ fun _ _ => True := by
  have acquired := follows_allows (follows_acquires (listening s) SockRole.noConfusion
    (fun _ => SockRole.noConfusion) tryLockSpawn_acquires)
  apply acquired.bind
  rintro ⟨_, _⟩ taken ⟨rfl, held⟩
  cases taken with
  | none => trivial
  | some lock =>
      obtain rfl := held lock rfl
      have removed := follows_removes (unlinkAllLocked_removes lock.fd lock)
      apply (follows_retires removed).bind
      rintro role failure ⟨sock, -⟩
      refine ⟨⟨trivial, fun s bound => ?_⟩, fun _ => trivial⟩
      rw [sock, lapse_licensed] at bound
      split at bound <;> cases bound

theorem after_close (s : Sock) :
    (⟨standing lock, listening s⟩ : Role).after (.close lock) () = ⟨out, listening s⟩ := by
  change Role.mk (if some lock = some lock then out else _) _ = _
  rw [if_pos rfl]
  rfl

theorem serve_allowed (publishing : SpawnLock) (inherited label : Bool) (rounds : Nat) (s : Sock) :
    (serve publishing inherited label rounds).Follows Role.after Role.Allows
      ⟨standing publishing.fd, listening s⟩ fun _ _ => True := by
  have published : Neutral (serve.published label) := by
    apply (publish_neutral label).bind
    intro _ published _
    cases published with
    | false => trivial
    | true => exact .ask trivial fun reply => by cases reply <;> trivial
  apply (follows_neutral rfl published).bind
  rintro _ done rfl
  cases done with
  | true =>
      refine .ask ⟨trivial, fun _ => SockRole.noConfusion⟩ fun _ => ?_
      rw [show Role.after ⟨standing publishing.fd, listening s⟩ _ _ = _ from after_close s]
      apply (follows_neutral rfl (eventLoop_neutral rounds)).bind
      rintro _ _ rfl
      exact unlinkAll_allowed s
  | false =>
      cases inherited with
      | true =>
          have removed := follows_removes (unlinkPublishedLocked_removes publishing.fd publishing)
          exact (follows_retires removed).bind fun _ _ _ => trivial
      | false =>
          have removed := follows_removes (unlinkAllLocked_removes publishing.fd publishing)
          exact (follows_retires removed).bind fun _ _ _ => trivial

theorem not_bound {sock : SockRole} (unserved : sock.serves = .none) (s : Sock) : sock ≠ bound s := by
  rintro rfl
  cases unserved

theorem releaseLockName_allowed (lock' : SpawnLock) {sock : SockRole} (unserved : sock.serves = .none) :
    (releaseLockName lock').Follows Role.after Role.Allows ⟨standing lock, sock⟩ fun role _ =>
      role.sock.serves = .none := by
  unfold releaseLockName
  split
  · refine .ask ⟨.inr ⟨lock, rfl⟩, not_bound unserved⟩ fun reply => ?_
    exact (serves_lapse _ sock).trans unserved
  · exact unserved

theorem authority_allowed (inherited : Option Fd) :
    (authority inherited).Follows Role.after Role.Allows
      ⟨inherited.elim out (locked · .none), .none⟩ fun role lock =>
        ∀ lock', lock = some lock' → role = ⟨standing lock'.fd, .none⟩ := by
  have standing' : ∀ (role : Role) (lock : Option SpawnLock), role.sock = .none ∧
      (∀ lock', lock = some lock' → role.lock = standing lock'.fd) →
      ∀ lock', lock = some lock' → role = ⟨standing lock'.fd, .none⟩ := by
    rintro ⟨_, _⟩ lock ⟨rfl, held⟩ lock' same
    rw [← held lock' same]
  cases inherited with
  | some raw =>
      exact (follows_allows (follows_acquires .none SockRole.noConfusion (fun _ => SockRole.noConfusion)
        (inheritSpawnLock_acquires raw))).mono (fun _ _ allowed => allowed) standing'
  | none =>
      exact (follows_allows (follows_acquires .none SockRole.noConfusion (fun _ => SockRole.noConfusion)
        tryLockSpawn_acquires)).mono (fun _ _ allowed => allowed) standing'

theorem start_allowed (inherited : Option Fd) (label : Bool) (rounds : Nat) :
    (start inherited label rounds).Follows Role.after Role.Allows
      ⟨inherited.elim out (locked · .none), .none⟩ fun _ _ => True := by
  refine .ask ⟨trivial, trivial⟩ fun reply => ?_
  cases reply with
  | error e => trivial
  | ok _ =>
      refine .ask ⟨trivial, trivial⟩ fun reply => ?_
      cases reply with
      | error e => trivial
      | ok _ =>
          apply (authority_allowed inherited).bind
          intro role taken held
          cases taken with
          | none => trivial
          | some publishing =>
              obtain rfl := held publishing rfl
              apply prepare_allowed.bind
              intro role listener settled
              cases listener with
              | some s =>
                  obtain rfl := settled
                  exact serve_allowed publishing inherited.isSome label rounds s
              | none =>
                  rcases settled with rfl | rfl
                  · exact (releaseLockName_allowed publishing rfl).mono
                      (fun _ _ allowed => allowed) fun _ _ _ => trivial
                  · exact (releaseLockName_allowed publishing rfl).mono
                      (fun _ _ allowed => allowed) fun _ _ _ => trivial

/-! ## The commands -/

theorem awaitPublication_neutral (rounds : Nat) : Neutral (awaitPublication rounds) := by
  induction rounds with
  | zero => trivial
  | succ rounds ih =>
      refine .ask trivial fun reply => ?_
      cases reply with
      | ok _ => trivial
      | error e => exact .ask trivial fun _ => ih

/-- Once the daemon has the standing, whoever started it only looks on. -/
theorem awaitDaemon_allowed (rounds : Nat) :
    (awaitDaemon rounds).Follows Role.after Role.Allows ⟨shared lock, .none⟩ fun role _ =>
      role = ⟨shared lock, .none⟩ := by
  induction rounds with
  | zero => exact rfl
  | succ rounds ih =>
      refine .ask ⟨trivial, trivial⟩ fun reply => ?_
      cases reply with
      | alive => exact follows_neutral rfl (awaitPublication_neutral (rounds + 1))
      | stale refused => exact .ask ⟨trivial, trivial⟩ fun _ => ih
      | unknown => exact rfl

theorem createLocked_allowed (lock : SpawnLock) (rounds : Nat) :
    (createLocked lock rounds).Follows Role.after Role.Allows ⟨standing lock.fd, .none⟩ fun role _ =>
      role.sock.serves = .none := by
  refine .ask ⟨trivial, trivial⟩ fun reply => ?_
  cases reply with
  | alive => exact rfl
  | unknown => exact rfl
  | stale refused =>
      refine .ask ⟨trivial, trivial⟩ fun reply => ?_
      cases reply with
      | error e => exact releaseLockName_allowed lock rfl
      | ok _ =>
          refine .ask ⟨rfl, rfl⟩ fun reply => ?_
          cases reply with
          | error e => exact releaseLockName_allowed lock rfl
          | ok _ =>
              apply (awaitDaemon_allowed rounds).mono (fun _ _ allowed => allowed)
              rintro role _ rfl
              exact rfl

theorem create_allowed (patience rounds : Nat) :
    (create patience rounds).Follows Role.after Role.Allows ⟨out, .none⟩ fun _ _ => True := by
  refine .ask ⟨trivial, trivial⟩ fun reply => ?_
  cases reply with
  | error e => trivial
  | ok _ =>
      have acquired := follows_allows (follows_acquires .none SockRole.noConfusion
        (fun _ => SockRole.noConfusion) (lockSpawnUntil_acquires patience))
      apply acquired.bind
      rintro ⟨_, _⟩ taken ⟨rfl, held⟩
      cases taken with
      | error e => trivial
      | ok lock =>
          obtain rfl := held lock rfl
          apply (createLocked_allowed lock rounds).bind
          intro role _ unserved
          exact ⟨⟨trivial, not_bound unserved⟩, fun _ => trivial⟩

/-- Standing on a session that was not probed yet, or to which nobody listens. -/
def Probed (lock : Fd) (role : Role) : Prop :=
  role = ⟨standing lock, .none⟩ ∨ role = ⟨standing lock, licensed⟩

theorem collectLocked_allowed (lock : SpawnLock) {role : Role} (probed : Probed lock.fd role) :
    (collectLocked lock).Follows Role.after AllowsIdle role fun role _ => role.sock.serves = .none := by
  have removes : (unlinkAllLocked lock >>= fun _ => pure ()).Follows Role.after AllowsIdle
      ⟨standing lock.fd, licensed⟩ fun role _ => role.sock.serves = .none := by
    apply (follows_removes (unlinkAllLocked_removes lock.fd lock)).bind
    rintro role _ ⟨sock, -⟩
    change role.sock.serves = .none
    rw [sock, serves_lapse]
    rfl
  rcases probed with rfl | rfl
  · refine .ask ⟨⟨trivial, trivial⟩, trivial⟩ fun reply => ?_
    cases reply with
    | stale refused => exact removes
    | _ => exact rfl
  · refine .ask ⟨⟨trivial, trivial⟩, trivial⟩ fun reply => ?_
    cases reply with
    | stale refused => exact removes
    | _ => exact rfl

theorem named_allowed {later : Run (Option Bool)}
    (h : later.Follows Role.after AllowsIdle ⟨standing lock, .none⟩ fun role _ => Probed lock role) :
    (named later).Follows Role.after AllowsIdle ⟨standing lock, .none⟩ fun role _ =>
      Probed lock role := by
  refine .ask ⟨⟨trivial, trivial⟩, trivial⟩ fun reply => ?_
  cases reply with
  | ok _ =>
      refine .ask ⟨⟨trivial, trivial⟩, trivial⟩ fun reply => ?_
      cases reply <;> exact .inl rfl
  | error e =>
      cases e with
      | noent => exact .ask ⟨⟨trivial, trivial⟩, trivial⟩ fun _ => h
      | _ => exact .inl rfl

theorem resolve_allowed (rounds : Nat) :
    (resolve rounds).Follows Role.after AllowsIdle ⟨standing lock, .none⟩ fun role _ =>
      Probed lock role := by
  induction rounds with
  | zero => exact .inl rfl
  | succ rounds ih =>
      refine .ask ⟨⟨trivial, trivial⟩, trivial⟩ fun reply => ?_
      cases reply with
      | stale refused => exact .inr rfl
      | alive => exact named_allowed ih
      | unknown => exact named_allowed ih

theorem awaitSilence_allowed (rounds : Nat) {role : Role} (probed : Probed lock role) :
    (awaitSilence rounds).Follows Role.after AllowsIdle role fun role _ => Probed lock role := by
  induction rounds generalizing role with
  | zero => exact probed
  | succ rounds ih =>
      refine .ask ⟨⟨trivial, trivial⟩, trivial⟩ fun reply => ?_
      rcases probed with rfl | rfl
      · cases reply with
        | stale refused => exact .inr rfl
        | unknown => exact .inl rfl
        | alive =>
            exact .ask ⟨⟨trivial, trivial⟩, trivial⟩ fun _ =>
              .ask ⟨⟨trivial, trivial⟩, trivial⟩ fun _ => ih (.inl rfl)
      · cases reply with
        | stale refused => exact .inr rfl
        | unknown => exact .inr rfl
        | alive =>
            exact .ask ⟨⟨trivial, trivial⟩, trivial⟩ fun _ =>
              .ask ⟨⟨trivial, trivial⟩, trivial⟩ fun _ => ih (.inr rfl)

theorem probed_serves {role : Role} (probed : Probed lock role) : role.sock.serves = .none := by
  rcases probed with rfl | rfl <;> rfl

theorem killLocked_allowed (lock : SpawnLock) (rounds : Nat) :
    (killLocked lock rounds).Follows Role.after AllowsIdle ⟨standing lock.fd, .none⟩ fun role _ =>
      role.sock.serves = .none := by
  apply (resolve_allowed rounds).bind
  intro role resolved probed
  cases resolved with
  | none => exact probed_serves probed
  | some chosen =>
      cases chosen with
      | false => exact collectLocked_allowed lock probed
      | true =>
          refine .ask ⟨⟨trivial, trivial⟩, trivial⟩ fun _ => ?_
          have unchanged : role.after (.work .signal) ‹_› = role := by
            rcases probed with rfl | rfl <;> rfl
          rw [unchanged]
          apply (awaitSilence_allowed rounds probed).bind
          intro role silent probed
          cases silent with
          | true => exact collectLocked_allowed lock probed
          | false => exact probed_serves probed

theorem closes_allowed {lock : SpawnLock} {role : Role} (unserved : role.sock.serves = .none) :
    (sys (.close lock.fd)).Follows Role.after AllowsIdle role fun _ _ => True :=
  ⟨⟨⟨trivial, not_bound unserved⟩, trivial⟩, fun _ => trivial⟩

theorem kill_allowed (patience rounds : Nat) :
    (kill patience rounds).Follows Role.after AllowsIdle ⟨out, .none⟩ fun _ _ => True := by
  refine .ask ⟨⟨trivial, trivial⟩, trivial⟩ fun reply => ?_
  cases reply with
  | error e => trivial
  | ok _ =>
      have acquired := follows_acquires .none SockRole.noConfusion
        (fun _ => SockRole.noConfusion) (lockSpawnUntil_acquires patience)
      apply acquired.bind
      rintro ⟨_, _⟩ taken ⟨rfl, held⟩
      cases taken with
      | error e => trivial
      | ok lock =>
          obtain rfl := held lock rfl
          exact (killLocked_allowed lock rounds).bind fun _ _ unserved => closes_allowed unserved

theorem collect_allowed : collect.Follows Role.after AllowsIdle ⟨out, .none⟩ fun _ _ => True := by
  have acquired := follows_acquires .none SockRole.noConfusion
    (fun _ => SockRole.noConfusion) tryLockSpawn_acquires
  apply acquired.bind
  rintro ⟨_, _⟩ taken ⟨rfl, held⟩
  cases taken with
  | none => trivial
  | some lock =>
      obtain rfl := held lock rfl
      exact (collectLocked_allowed lock (.inl rfl)).bind fun _ _ unserved => closes_allowed unserved

theorem list_allowed : list.Follows Role.after AllowsIdle ⟨out, .none⟩ fun _ _ => True := by
  refine .ask ⟨⟨trivial, trivial⟩, trivial⟩ fun reply => ?_
  cases reply with
  | error e => trivial
  | ok _ =>
      refine .ask ⟨⟨trivial, trivial⟩, trivial⟩ fun reply => ?_
      cases reply with
      | alive => trivial
      | unknown => trivial
      | stale refused => exact collect_allowed

end Nomux.Rundir
