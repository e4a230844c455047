import Nomux.Rundir.Serial
import Nomux.Rundir.Serving

/-!
# One process serves the session

The invariant of the directory and of what all processes know of the lock and of the socket. Whoever
may remove the socket, or has bound it, is alone with it.
-/

namespace Nomux.Rundir
open LockRole SockRole

namespace Fs

/-- `p` has the socket that is bound at the name, and it listens when `heard`. -/
structure Serves (fs : Fs) (p : Proc) (s : Sock) (heard : Prop) : Prop where
  sock : ∃ d, fs.sock s = some d ∧ p ∈ d.refs ∧ d.node = ⟨s, .socket⟩ ∧ (heard → d.listens)
  named : fs.name .socket = some ⟨s, .socket⟩
  bound : fs.bound s = some s

variable {fs fs' : Fs} {p q : Proc} {c : Call} {reply : Reply c} {s : Sock} {heard : Prop}

theorem Effect.fresh_le (effect : fs.Effect p c reply fs') : fs.fresh ≤ fs'.fresh := by
  cases effect with
  | created n free => exact Nat.le_succ _
  | reopened n node named kind => exact Nat.le_succ _
  | bound free => exact Nat.le_succ _
  | _ => exact le_rfl

theorem sock_dropSockets (fs : Fs) (p : Proc) (which : Sock → Bool) (s : Sock) :
    (fs.dropSockets p which).sock s =
      if which s then (fs.sock s).bind (·.without p) else fs.sock s := rfl

theorem Effect.sock_of (effect : fs.Effect p c reply fs') {d : Description}
    (sock : fs'.sock s = some d) : (∃ before, fs.sock s = some before) ∨ s < fs'.fresh := by
  cases effect with
  | bound free =>
      change Function.update fs.sock fs.fresh _ s = some d at sock
      rcases eq_or_ne s fs.fresh with rfl | other
      · exact .inr (Nat.lt_succ_self _)
      · rw [Function.update_of_ne other] at sock
        exact .inl ⟨d, sock⟩
  | listened s' before sock' mine =>
      change Function.update fs.sock s' _ s = some d at sock
      rcases eq_or_ne s s' with rfl | other
      · exact .inl ⟨before, sock'⟩
      · rw [Function.update_of_ne other] at sock
        exact .inl ⟨d, sock⟩
  | socketClosed s' =>
      rw [sock_dropSockets] at sock
      split at sock
      · obtain ⟨before, sock', -⟩ := Option.bind_eq_some_iff.1 sock
        exact .inl ⟨before, sock'⟩
      · exact .inl ⟨d, sock⟩
  | forked child r =>
      obtain ⟨before, sock', -⟩ := Option.map_eq_some_iff.1 sock
      exact .inl ⟨before, sock'⟩
  | stillborn child r e =>
      obtain ⟨before, sock', -⟩ := Option.map_eq_some_iff.1 sock
      exact .inl ⟨before, sock'⟩
  | _ => exact .inl ⟨d, sock⟩

theorem Effect.lock_name_of (effect : fs.Effect p c reply fs') {node : Node}
    (named : fs'.name .lock = some node) : fs.name .lock = some node ∨ node.kind = .regular := by
  cases effect with
  | created n free =>
      change Function.update fs.name n _ .lock = some node at named
      rcases eq_or_ne .lock n with rfl | other
      · rw [Function.update_self, Option.some.injEq] at named
        exact .inr (named ▸ rfl)
      · rw [Function.update_of_ne other] at named
        exact .inl named
  | unlinked n node' there =>
      change Function.update fs.name n _ .lock = some node at named
      rcases eq_or_ne .lock n with rfl | other
      · rw [Function.update_self] at named
        cases named
      · rw [Function.update_of_ne other] at named
        exact .inl named
  | removed n node' there kind =>
      change Function.update fs.name n _ .lock = some node at named
      rcases eq_or_ne .lock n with rfl | other
      · rw [Function.update_self] at named
        cases named
      · rw [Function.update_of_ne other] at named
        exact .inl named
  | bound free =>
      have other : RunName.lock ≠ .socket := by decide
      change Function.update fs.name .socket (some ⟨fs.fresh, .socket⟩) .lock = some node at named
      rw [Function.update_of_ne other] at named
      exact .inl named
  | _ => exact .inl named

theorem Effect.file_of (effect : fs.Effect p c reply fs')
    (names : ∀ n, c = .create n ∨ c = .reopen n → n = .lock) {fd : Fd} {d : Description}
    (file : fs'.file fd = some d) : (∃ before, fs.file fd = some before ∧ before.node = d.node) ∨
      d.node.kind = .regular ∨ fs.name .lock = some d.node := by
  cases effect with
  | created n free =>
      rcases file_describe file with ⟨-, new⟩ | old
      · exact .inr (.inl (new ▸ rfl))
      · exact .inl ⟨d, old, rfl⟩
  | reopened n node named kind =>
      obtain rfl := names n (.inr rfl)
      rcases file_describe file with ⟨-, rfl⟩ | old
      · exact .inr (.inr named)
      · exact .inl ⟨d, old, rfl⟩
  | closed fd' => exact .inl (within_drop fs p _ fd d file)
  | forked child r => exact .inl (within_fork fs p r fd d file)
  | stillborn child r e => exact .inl (within_fork fs p r fd d file)
  | _ => exact .inl ⟨d, file, rfl⟩

theorem Serves.through (h : fs.Serves q s heard) (effect : fs.Effect p c reply fs')
    (old : ∀ s d, fs.sock s = some d → s < fs.fresh) (stays : c = .closeSocket s → q ≠ p)
    (unlinked : c ≠ .unlink .socket) : fs'.Serves q s heard := by
  obtain ⟨⟨d, sock, mine, node, hears⟩, named, bound⟩ := h
  refine ⟨?_, ?_, effect.bound_eq (old s d sock) bound⟩
  · obtain ⟨d', sock', mine', same, listens⟩ := effect.sock_survives (old s) stays d sock mine
    exact ⟨d', sock', mine', same.trans node, listens ∘ hears⟩
  · exact effect.name_eq named unlinked fun _ => Kind.noConfusion

theorem Serves.listening (h : fs.Serves q s True) : fs.listening ⟨s, .socket⟩ = true := by
  obtain ⟨⟨d, sock, -, node, hears⟩, -, bound⟩ := h
  unfold Fs.listening
  rw [bound, Option.bind_some, sock]
  change (d.listens && d.node == _) = true
  rw [hears trivial, node, Bool.true_and, beq_self_eq_true]

end Fs

def SockRole.Fits (role : SockRole) (fs : Fs) (p : Proc) (lock : LockRole) : Prop :=
  match role with
  | .none => True
  | licensed => lock.Stands
  | bound s => fs.Serves p s False ∧ lock.Stands
  | listening s => fs.Serves p s True

structure Secure (fs : Fs) (role : Proc → Role) : Prop where
  serial : Serialized fs (Role.lock ∘ role)
  lock_regular : ∀ node, fs.name .lock = some node → node.kind = .regular
  file_regular : ∀ fd d, fs.file fd = some d → d.node.kind = .regular
  unplanted : ∀ p, (role p).lock.isPlanted = false
  sock_old : ∀ s d, fs.sock s = some d → s < fs.fresh
  fits : ∀ p, (role p).sock.Fits fs p (role p).lock
  /-- Who may remove the socket, or serves on it, is the only one who serves. -/
  alone : ∀ p q, (role p).sock ≠ .none → (role q).sock.serves ≠ .none → q = p

namespace Secure

variable {fs fs' : Fs} {role : Proc → Role} {p q : Proc} {c : Call} {reply : Reply c}

theorem file_regular_effect (h : Secure fs role) (effect : fs.Effect p c reply fs')
    (names : ∀ n, c = .create n ∨ c = .reopen n → n = .lock) (fd : Fd) (d : Description)
    (file : fs'.file fd = some d) : d.node.kind = .regular := by
  rcases effect.file_of names file with ⟨before, file, same⟩ | regular | named
  · exact same ▸ h.file_regular fd before file
  · exact regular
  · exact h.lock_regular _ named

theorem lock_regular_effect (h : Secure fs role) (effect : fs.Effect p c reply fs') (node : Node)
    (named : fs'.name .lock = some node) : node.kind = .regular :=
  (effect.lock_name_of named).elim (h.lock_regular node) id

theorem sock_old_effect (h : Secure fs role) (effect : fs.Effect p c reply fs') (s : Sock)
    (d : Description) (sock : fs'.sock s = some d) : s < fs'.fresh := by
  rcases effect.sock_of sock with ⟨before, old⟩ | new
  · exact (h.sock_old s before old).trans_le effect.fresh_le
  · exact new

theorem unplanted_after (h : Secure fs role) (effect : fs.Effect p c reply fs') :
    ((role p).lock.after c reply).isPlanted = false := by
  apply isPlanted_after _ (h.unplanted p)
  rintro node (seen | ⟨fd, seen⟩)
  · cases seen
    cases effect with
    | none tells => exact h.lock_regular node tells
  · cases seen
    cases effect with
    | none tells =>
        obtain ⟨d, file, rfl⟩ := tells.file
        exact h.file_regular fd d file

theorem stands_unique (h : Secure fs role) (stands : (role p).lock.Stands)
    (stands' : (role q).lock.Stands) : p = q := by
  obtain ⟨fd, stands⟩ := stands
  obtain ⟨fd', stands'⟩ := stands'
  exact h.serial.standing_unique stands stands'

theorem stands_of_licensed (h : Secure fs role) (licensed : (role p).sock = licensed) :
    (role p).lock.Stands := by
  have fits := h.fits p
  rw [licensed] at fits
  exact fits

theorem serves (h : Secure fs role) {s : Sock} (serves : (role p).sock.serves = some s) :
    fs.Serves p s ((role p).sock = listening s) := by
  have fits := h.fits p
  cases sock : (role p).sock with
  | none =>
      rw [sock] at serves
      cases serves
  | licensed =>
      rw [sock] at serves
      cases serves
  | bound s' =>
      rw [sock] at serves fits
      cases serves
      obtain ⟨⟨⟨d, there, mine, node, -⟩, named, bound⟩, -⟩ := fits
      exact ⟨⟨d, there, mine, node, fun same => by cases same⟩, named, bound⟩
  | listening s' =>
      rw [sock] at serves fits
      cases serves
      obtain ⟨⟨d, there, mine, node, hears⟩, named, bound⟩ := fits
      exact ⟨⟨d, there, mine, node, fun _ => hears trivial⟩, named, bound⟩

/-- At most one process serves the session. -/
theorem serves_unique (h : Secure fs role) {s t : Sock} (serves : (role p).sock.serves = some s)
    (serves' : (role q).sock.serves = some t) : p = q := by
  apply h.alone q p
  · intro none
    rw [none] at serves'
    cases serves'
  · rw [serves]
    exact Option.some_ne_none s

theorem unserved_of_stale (h : Secure fs role) (stands : (role p).lock.Stands)
    (stale : ∀ node, fs.name .socket = some node → fs.listening node = false) {s : Sock}
    (serves : (role q).sock.serves = some s) : q = p := by
  have held := h.serves serves
  cases sock : (role q).sock with
  | none =>
      rw [sock] at serves
      cases serves
  | licensed =>
      rw [sock] at serves
      cases serves
  | bound s' =>
      have fits := h.fits q
      rw [sock] at fits
      exact h.stands_unique fits.2 stands
  | listening s' =>
      rw [sock] at serves held
      cases serves
      have heard : fs.Serves q s True := ⟨by simpa using held.sock, held.named, held.bound⟩
      have silent := stale _ heard.named
      rw [heard.listening] at silent
      cases silent

theorem lock_of_guards {role : Role} (guards : role.Guards c) (n : RunName)
    (made : c = .create n ∨ c = .reopen n) : n = .lock := by
  rcases made with rfl | rfl <;> exact guards

theorem fits_other (h : Secure fs role) (effect : fs.Effect p c reply fs')
    (allowed : (role p).Allows c) (other : q ≠ p) : (role q).sock.Fits fs' q (role q).lock := by
  have fits := h.fits q
  have through : ∀ {s heard}, (role q).sock.serves = some s → fs.Serves q s heard →
      fs'.Serves q s heard := by
    intro s heard serves held
    apply held.through effect h.sock_old fun _ => other
    rintro rfl
    refine other (h.alone p q allowed.2.2 ?_)
    rw [serves]
    exact Option.some_ne_none s
  cases sock : (role q).sock with
  | none => trivial
  | licensed =>
      rw [sock] at fits
      exact fits
  | bound s =>
      rw [sock] at fits through
      exact ⟨through rfl fits.1, fits.2⟩
  | listening s =>
      rw [sock] at fits through
      exact through rfl fits

theorem serves_bound {s : Sock} (effect : fs.Effect p .bind (.ok s) fs') : fs'.Serves p s False := by
  cases effect with
  | none tells => exact tells.elim
  | bound free =>
      constructor
      · exact ⟨_, Function.update_self .., List.mem_singleton_self p, rfl, False.elim⟩
      · exact Function.update_self RunName.socket (some ⟨fs.fresh, .socket⟩) fs.name
      · exact Function.update_self fs.fresh (some fs.fresh) fs.bound

theorem serves_listened {s : Sock} (held : fs.Serves p s False)
    (effect : fs.Effect p (.listen s) (.ok ()) fs') : fs'.Serves p s True := by
  obtain ⟨⟨d, sock, mine, node, -⟩, named, bound⟩ := held
  cases effect with
  | none tells => exact tells.elim
  | listened _ d' sock' mine' =>
      rw [sock, Option.some.injEq] at sock'
      subst sock'
      exact ⟨⟨_, Function.update_self .., mine, node, fun _ => rfl⟩, named, bound⟩

theorem fits_mine (h : Secure fs role) (effect : fs.Effect p c reply fs')
    (allowed : (role p).Allows c) :
    ((role p).after c reply).sock.Fits fs' p ((role p).after c reply).lock := by
  have fits := h.fits p
  have through : ∀ {s}, (role p).sock.serves = some s → c ≠ .unlink .socket → c ≠ .closeSocket s →
      fs'.Serves p s ((role p).sock = listening s) := by
    intro s serves unlinked closed
    exact (h.serves serves).through effect h.sock_old (fun same => absurd same closed) unlinked
  change (SockRole.lapse _ ((role p).sock.after (role p).lock c reply)).Fits fs' p
    ((role p).lock.after c reply)
  cases sock : (role p).sock.after (role p).lock c reply with
  | none => trivial
  | licensed =>
      rw [lapse_licensed]
      split
      · next stands => exact stands
      · trivial
  | bound s =>
      rcases serves_after (congrArg SockRole.serves sock) with bound | ⟨serves, unlinked, closed⟩
      · cases bound
        exact ⟨serves_bound effect, h.stands_of_licensed allowed.2⟩
      · rcases bound_after sock with rfl | was
        · rw [show (role p).sock = licensed from allowed.2] at serves
          cases serves
        · obtain ⟨⟨d, there, mine, node, -⟩, named, bound⟩ := through serves unlinked closed
          rw [was] at fits
          exact ⟨⟨⟨d, there, mine, node, False.elim⟩, named, bound⟩,
            Role.stands_after allowed.2 was fits.2 reply⟩
  | listening s =>
      rcases listening_after sock with was | ⟨was, listens⟩
      · rcases serves_after (congrArg SockRole.serves sock) with bound | ⟨serves, unlinked, closed⟩
        · cases bound
          cases sock
        · obtain ⟨⟨d, there, mine, node, hears⟩, named, bound⟩ := through serves unlinked closed
          exact ⟨⟨d, there, mine, node, fun _ => hears was⟩, named, bound⟩
      · cases listens
        rw [was] at fits
        exact serves_listened fits.1 effect

/-- Whoever comes to serve was licensed to. -/
theorem alone_mine (h : Secure fs role) (allowed : (role p).Allows c)
    (serves : ((role p).after c reply).sock.serves ≠ .none) (q : Proc) (some' : (role q).sock ≠ .none) :
    p = q := by
  obtain ⟨s, serves⟩ := Option.ne_none_iff_exists'.1 serves
  rw [show ((role p).after c reply).sock = SockRole.lapse _ _ from rfl, serves_lapse] at serves
  rcases serves_after serves with bound | ⟨before, -⟩
  · cases bound
    have licensed := allowed.2
    cases sock : (role q).sock with
    | none => exact absurd sock some'
    | licensed => exact h.stands_unique (h.stands_of_licensed licensed) (h.stands_of_licensed sock)
    | bound t =>
        refine (h.alone p q ?_ ?_).symm
        · rw [show (role p).sock = SockRole.licensed from licensed]
          exact SockRole.noConfusion
        · rw [sock]
          exact Option.some_ne_none t
    | listening t =>
        refine (h.alone p q ?_ ?_).symm
        · rw [show (role p).sock = SockRole.licensed from licensed]
          exact SockRole.noConfusion
        · rw [sock]
          exact Option.some_ne_none t
  · refine h.alone q p some' ?_
    rw [before]
    exact Option.some_ne_none s

/-- Whoever learns that it may remove the socket learns it of a session nobody else serves. -/
theorem alone_other (h : Secure fs role) (effect : fs.Effect p c reply fs')
    (allowed : (role p).Allows c) (some' : ((role p).after c reply).sock ≠ .none) (q : Proc)
    (serves : (role q).sock.serves ≠ .none) : q = p := by
  by_cases unknown : (role p).sock = .none
  · have learns : SockRole.after (role p).lock .none c reply ≠ .none := by
      intro none
      apply some'
      change SockRole.lapse _ ((role p).sock.after (role p).lock c reply) = .none
      rw [unknown, none]
      rfl
    rcases of_after_none learns with ⟨stands, refused, stale⟩ | rfl
    · cases stale
      cases effect with
      | none tells =>
          obtain ⟨s, serves⟩ := Option.ne_none_iff_exists'.1 serves
          exact h.unserved_of_stale stands tells serves
    · rw [show (role p).sock = licensed from allowed.2] at unknown
      cases unknown
  · exact h.alone p q unknown serves

theorem step (h : Secure fs role) (effect : fs.Effect p c reply fs') (allowed : (role p).Allows c) :
    Secure fs' (Function.update role p ((role p).after c reply)) := by
  have names := lock_of_guards allowed.2
  constructor
  · rw [Function.comp_update]
    apply h.serial.step effect allowed.1 names
    intro _ planted
    have unplanted := h.unplanted p
    rw [show (role p).lock = _ from planted] at unplanted
    cases unplanted
  · exact h.lock_regular_effect effect
  · exact h.file_regular_effect effect names
  · intro q
    rcases eq_or_ne q p with rfl | other
    · rw [Function.update_self]
      exact h.unplanted_after effect
    · rw [Function.update_of_ne other]
      exact h.unplanted q
  · exact h.sock_old_effect effect
  · intro q
    rcases eq_or_ne q p with rfl | other
    · rw [Function.update_self]
      exact h.fits_mine effect allowed
    · rw [Function.update_of_ne other]
      exact h.fits_other effect allowed other
  · intro q r some' serves
    by_cases first : q = p
    · rw [first, Function.update_self] at some'
      by_cases second : r = p
      · rw [first, second]
      · rw [Function.update_of_ne second] at serves
        rw [first]
        exact h.alone_other effect allowed some' r serves
    · rw [Function.update_of_ne first] at some'
      by_cases second : r = p
      · rw [second, Function.update_self] at serves
        rw [second]
        exact h.alone_mine allowed serves q some'
      · rw [Function.update_of_ne second] at serves
        exact h.alone q r some' serves

theorem relock (h : Secure fs role) {lock : LockRole}
    (serial : Serialized fs (Function.update (Role.lock ∘ role) p lock))
    (unplanted : lock.isPlanted = false) : Secure fs (Function.update role p ⟨lock, .none⟩) := by
  refine { h with
    serial := by rwa [Function.comp_update]
    unplanted := fun q => ?_
    fits := fun q => ?_
    alone := fun q r some' serves => ?_ }
  · rcases eq_or_ne q p with rfl | other
    · rwa [Function.update_self]
    · rw [Function.update_of_ne other]
      exact h.unplanted q
  · rcases eq_or_ne q p with rfl | other
    · rw [Function.update_self]
      trivial
    · rw [Function.update_of_ne other]
      exact h.fits q
  · have before : ∀ r, (Function.update role p ⟨lock, .none⟩ r).sock ≠ .none → (role r).sock ≠ .none ∧
        Function.update role p ⟨lock, .none⟩ r = role r := by
      intro r some'
      rcases eq_or_ne r p with rfl | other
      · rw [Function.update_self] at some'
        exact absurd rfl some'
      · rw [Function.update_of_ne other] at some' ⊢
        exact ⟨some', rfl⟩
    obtain ⟨some', -⟩ := before q some'
    have serves' : (Function.update role p ⟨lock, .none⟩ r).sock ≠ .none := by
      intro none
      rw [none] at serves
      exact serves rfl
    rw [(before r serves').2] at serves
    exact h.alone q r some' serves

theorem hand_on (h : Secure fs role) {fd : Fd} (allowed : (role p).Allows (.fork (.daemon fd))) :
    Secure (fs.fork p q) (Function.update
      (Function.update role p ((role p).after (.fork (.daemon fd)) (.ok ()))) q ⟨locked fd .none, .none⟩) := by
  have stands : (role p).lock = standing fd := allowed.1
  have lock : ((role p).after (.fork (.daemon fd)) (.ok ())).lock = shared fd := by
    change (role p).lock.onFork = _
    rw [stands]
    rfl
  apply (h.step (.forked (.daemon fd) q) allowed).relock
  · rw [Function.comp_update, lock]
    exact h.serial.hand_on stands
  · rfl

theorem exit (h : Secure fs role) (p : Proc) : Secure (fs.exit p) (Function.update role p {}) := by
  have serves : ∀ {q s heard}, q ≠ p → fs.Serves q s heard → (fs.exit p).Serves q s heard := by
    rintro q s heard other ⟨⟨d, sock, mine, node, hears⟩, named, bound⟩
    obtain ⟨d', sock', mine', same, listens⟩ := Fs.survives_without other (fs.sock s) d sock mine
    exact ⟨⟨d', sock', mine', same.trans node, listens ∘ hears⟩, named, bound⟩
  have relocked := h.relock (h.serial.forget p) rfl
  refine { relocked with
    serial := ?_
    file_regular := fun fd d file => ?_
    sock_old := fun s d sock => ?_
    fits := fun q => ?_ }
  · rw [Function.comp_update]
    exact h.serial.exit p
  · obtain ⟨before, file, same⟩ := Fs.within_drop fs p (fun _ => true) fd d file
    exact same ▸ h.file_regular fd before file
  · obtain ⟨before, sock, -⟩ := Option.bind_eq_some_iff.1 sock
    exact h.sock_old s before sock
  · rcases eq_or_ne q p with rfl | other
    · rw [Function.update_self]
      trivial
    · rw [Function.update_of_ne other]
      have fits := h.fits q
      cases sock : (role q).sock with
      | none => trivial
      | licensed =>
          rw [sock] at fits
          exact fits
      | bound s =>
          rw [sock] at fits
          exact ⟨serves other fits.1, fits.2⟩
      | listening s =>
          rw [sock] at fits
          exact serves other fits

end Secure

end Nomux.Rundir
