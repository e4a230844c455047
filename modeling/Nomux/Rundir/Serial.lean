import Nomux.Rundir.Effect
import Nomux.Rundir.Roles

/-!
# The lock is held by one process

The invariant of the directory and of the roles of all processes. A standing is a lock on the very
file that is at the name, so two processes that have one have it by the same description.
-/

namespace Nomux.Rundir

namespace Fs

def Known (fs : Fs) (node : Node) : Prop :=
  (∃ n, fs.name n = some node) ∨ ∃ fd d, fs.file fd = some d ∧ d.node = node

structure Sane (fs : Fs) : Prop where
  file_old : ∀ fd d, fs.file fd = some d → fd < fs.fresh
  known_old : ∀ node, fs.Known node → node.ino < fs.fresh
  one_node : ∀ a b, fs.Known a → fs.Known b → a.ino = b.ino → a = b
  flocked : ∀ ino fd, fs.flock ino = some fd →
    ∃ d, fs.file fd = some d ∧ d.node.ino = ino ∧ d.node.kind = .regular
  /-- Nobody has a file open while the name is a symlink, which could lead there. -/
  linked : ∀ node, fs.name .lock = some node → node.kind = .symlink →
    ∀ fd d, fs.file fd = some d → d.node.kind ≠ .regular

theorem Open.known {fs : Fs} {p : Proc} {fd : Fd} {node : Node} (h : fs.Open p fd node) :
    fs.Known node := .inr ⟨fd, h.file⟩

/-! ## What a change of the directory keeps -/

/-- Every description was there before, on the same node. -/
def Within (fs fs' : Fs) : Prop :=
  ∀ fd d, fs'.file fd = some d → ∃ before, fs.file fd = some before ∧ before.node = d.node

theorem Within.known {fs fs' : Fs} (h : fs.Within fs') (names : fs'.name = fs.name) {node : Node}
    (known : fs'.Known node) : fs.Known node := by
  rcases known with ⟨n, named⟩ | ⟨fd, d, file, rfl⟩
  · exact .inl ⟨n, names ▸ named⟩
  · exact .inr ⟨fd, h fd d file⟩

theorem Sane.within {fs fs' : Fs} (h : fs.Sane) (within : fs.Within fs') (names : fs'.name = fs.name)
    (fresh : fs'.fresh = fs.fresh)
    (locks : ∀ ino fd, fs'.flock ino = some fd → fs.flock ino = some fd ∧ (fs'.file fd).isSome) :
    fs'.Sane := by
  constructor
  · intro fd d file
    obtain ⟨before, file, -⟩ := within fd d file
    rw [fresh]
    exact h.file_old fd before file
  · intro node known
    rw [fresh]
    exact h.known_old node (within.known names known)
  · intro a b known known'
    exact h.one_node a b (within.known names known) (within.known names known')
  · intro ino fd locked
    obtain ⟨locked, open'⟩ := locks ino fd locked
    obtain ⟨d, file⟩ := Option.isSome_iff_exists.1 open'
    obtain ⟨before, file', inode, regular⟩ := h.flocked ino fd locked
    obtain ⟨before', file'', node⟩ := within fd d file
    rw [file', Option.some.injEq] at file''
    subst file''
    rw [node] at inode regular
    exact ⟨d, file, inode, regular⟩
  · intro node named symlink fd d file
    obtain ⟨before, file, same⟩ := within fd d file
    rw [← same]
    exact h.linked node (names ▸ named) symlink fd before file

section

variable {fs : Fs} {p : Proc} {node : Node}

theorem file_describe {fd : Fd} {d : Description} (h : (fs.describe p node).file fd = some d) :
    (fd = fs.fresh ∧ d.node = node) ∨ fs.file fd = some d := by
  change Function.update fs.file fs.fresh (some ⟨node, [p], false⟩) fd = some d at h
  rcases eq_or_ne fd fs.fresh with rfl | other
  · rw [Function.update_self, Option.some.injEq] at h
    exact .inl ⟨rfl, by rw [← h]⟩
  · rw [Function.update_of_ne other] at h
    exact .inr h

theorem file_describe_of_lt {fd : Fd} (h : fd < fs.fresh) :
    (fs.describe p node).file fd = fs.file fd := Function.update_of_ne h.ne _ _

theorem known_describe {a : Node} (h : (fs.describe p node).Known a) : fs.Known a ∨ a = node := by
  rcases h with named | ⟨fd, d, file, rfl⟩
  · exact .inl (.inl named)
  · rcases file_describe file with ⟨-, new⟩ | old
    · exact .inr new
    · exact .inl (.inr ⟨fd, d, old, rfl⟩)

theorem Sane.describe (h : fs.Sane) (known : fs.Known node ∨ node.ino = fs.fresh)
    (linked : ∀ at', fs.name .lock = some at' → at'.kind = .symlink → node.kind ≠ .regular) :
    (fs.describe p node).Sane := by
  have old : ∀ a, fs.Known a → a.ino = node.ino → a = node := by
    intro a known' same
    rcases known with known | new
    · exact h.one_node a node known' known same
    · exact absurd (same.trans new) (h.known_old a known').ne
  constructor
  · intro fd d file
    rcases file_describe file with ⟨rfl, -⟩ | file
    · exact Nat.lt_succ_self _
    · exact Nat.lt_succ_of_lt (h.file_old fd d file)
  · intro a known'
    rcases known_describe known' with before | rfl
    · exact Nat.lt_succ_of_lt (h.known_old a before)
    · rcases known with known | new
      · exact Nat.lt_succ_of_lt (h.known_old a known)
      · exact new ▸ Nat.lt_succ_self _
  · intro a b known' known'' same
    rcases known_describe known' with before | rfl <;>
      rcases known_describe known'' with before' | rfl
    · exact h.one_node a b before before' same
    · exact old a before same
    · exact (old b before' same.symm).symm
    · rfl
  · intro ino fd locked
    obtain ⟨d, file, at'⟩ := h.flocked ino fd locked
    exact ⟨d, (file_describe_of_lt (h.file_old fd d file)).trans file, at'⟩
  · intro at' named symlink fd d file
    rcases file_describe file with ⟨-, rfl⟩ | file
    · exact linked at' named symlink
    · exact h.linked at' named symlink fd d file

theorem known_named {n : RunName} {at' : Option Node} {a : Node} (h : (fs.named n at').Known a) :
    fs.Known a ∨ at' = some a := by
  rcases h with ⟨m, named⟩ | opened
  · change Function.update fs.name n at' m = some a at named
    rcases eq_or_ne m n with rfl | other
    · rw [Function.update_self] at named
      exact .inr named
    · rw [Function.update_of_ne other] at named
      exact .inl (.inl ⟨m, named⟩)
  · exact .inl (.inr opened)

theorem Sane.named (h : fs.Sane) (n : RunName) {at' : Option Node}
    (known : ∀ node, at' = some node → fs.Known node)
    (linked : n = .lock → ∀ node, at' = some node → node.kind ≠ .symlink) :
    (fs.named n at').Sane := by
  have before : ∀ a, (fs.named n at').Known a → fs.Known a := fun a known' =>
    (known_named known').elim id (known a)
  constructor
  · exact h.file_old
  · exact fun a known' => h.known_old a (before a known')
  · exact fun a b known' known'' => h.one_node a b (before a known') (before b known'')
  · exact h.flocked
  · intro node named symlink
    change Function.update fs.name n at' .lock = some node at named
    rcases eq_or_ne .lock n with rfl | other
    · rw [Function.update_self] at named
      exact absurd symlink (linked rfl node named)
    · rw [Function.update_of_ne other] at named
      exact h.linked node named symlink

end

theorem within_drop (fs : Fs) (p : Proc) (which : Fd → Bool) : fs.Within (fs.drop p which) := by
  intro fd d file
  rw [file_drop] at file
  split at file
  · obtain ⟨before, file', left⟩ := Option.bind_eq_some_iff.1 file
    refine ⟨before, file', ?_⟩
    unfold Description.without at left
    split at left
    · cases left
    · cases left
      rfl
  · exact ⟨d, file, rfl⟩

theorem Sane.drop {fs : Fs} (h : fs.Sane) (p : Proc) (which : Fd → Bool) :
    (fs.drop p which).Sane := by
  apply h.within (within_drop fs p which) rfl rfl
  intro ino fd locked
  exact Option.filter_eq_some_iff.1 locked

theorem within_fork (fs : Fs) (p q : Proc) : fs.Within (fs.fork p q) := by
  intro fd d file
  obtain ⟨before, file', rfl⟩ := Option.map_eq_some_iff.1 file
  refine ⟨before, file', ?_⟩
  unfold Description.share
  split <;> rfl

theorem Sane.fork {fs : Fs} (h : fs.Sane) (p q : Proc) : (fs.fork p q).Sane := by
  apply h.within (within_fork fs p q) rfl rfl
  intro ino fd locked
  obtain ⟨d, file, -⟩ := h.flocked ino fd locked
  refine ⟨locked, ?_⟩
  change ((fs.file fd).map (·.share p q)).isSome
  rw [file]
  rfl

theorem Sane.bind {fs : Fs} (h : fs.Sane) (sock : Sock → Option Description)
    (bound : Nat → Option Sock) : { fs with
      name := Function.update fs.name .socket (some ⟨fs.fresh, .socket⟩), sock, bound,
      fresh := fs.fresh + 1 : Fs }.Sane := by
  have before : ∀ a, (fs.named .socket (some ⟨fs.fresh, .socket⟩)).Known a →
      fs.Known a ∨ a = ⟨fs.fresh, .socket⟩ := fun a known =>
    (known_named known).imp id fun new => (Option.some.inj new).symm
  constructor
  · exact fun fd d file => Nat.lt_succ_of_lt (h.file_old fd d file)
  · intro a known
    rcases before a known with old | rfl
    · exact Nat.lt_succ_of_lt (h.known_old a old)
    · exact Nat.lt_succ_self _
  · intro a b known known' same
    rcases before a known with old | rfl <;> rcases before b known' with old' | rfl
    · exact h.one_node a b old old' same
    · exact absurd same (h.known_old a old).ne
    · exact absurd same.symm (h.known_old b old').ne
    · rfl
  · exact h.flocked
  · intro node named
    have other : RunName.lock ≠ .socket := by decide
    change Function.update fs.name .socket (some ⟨fs.fresh, .socket⟩) .lock = some node at named
    rw [Function.update_of_ne other] at named
    exact h.linked node named

theorem Sane.flock {fs : Fs} (h : fs.Sane) {p : Proc} {fd : Fd} {node : Node}
    (opened : fs.Open p fd node) (regular : node.kind = .regular) :
    { fs with flock := Function.update fs.flock node.ino (some fd) : Fs }.Sane := by
  refine { h with flocked := fun ino fd' locked => ?_ }
  change Function.update fs.flock node.ino (some fd) ino = some fd' at locked
  rcases eq_or_ne ino node.ino with rfl | other
  · rw [Function.update_self, Option.some.injEq] at locked
    obtain ⟨d, file, rfl⟩ := opened.file
    exact ⟨d, locked ▸ file, rfl, regular⟩
  · rw [Function.update_of_ne other] at locked
    exact h.flocked ino fd' locked

/-- Files are made only at the lock name, and only files are locked. -/
def Proper (fs : Fs) (p : Proc) : Call → Prop
  | .create n => n = .lock
  | .reopen n => n = .lock
  | .flock fd => ∀ node, fs.Open p fd node → node.kind = .regular
  | _ => True

theorem Sane.effect {fs fs' : Fs} {p : Proc} {c : Call} {reply : Reply c} (h : fs.Sane)
    (proper : fs.Proper p c) (effect : fs.Effect p c reply fs') : fs'.Sane := by
  cases effect with
  | none tells => exact h
  | created n free =>
      obtain rfl : n = .lock := proper
      apply (h.describe (.inr rfl) _).named
      · intro node new
        cases new
        exact .inr ⟨fs.fresh, _, Function.update_self .., rfl⟩
      · intro _ node new
        cases new
        exact Kind.noConfusion
      · intro at' named
        rw [free] at named
        cases named
  | reopened n node named kind =>
      obtain rfl : n = .lock := proper
      apply h.describe (.inl (.inl ⟨_, named⟩))
      intro at' named' symlink
      rw [named, Option.some.injEq] at named'
      exact absurd (named' ▸ symlink) kind
  | flocked fd node opened free => exact h.flock opened (proper node opened)
  | closed fd => exact h.drop p _
  | unlinked n node named =>
      exact h.named n (fun _ none => by cases none) (fun _ _ none => by cases none)
  | removed n node named kind =>
      exact h.named n (fun _ none => by cases none) (fun _ _ none => by cases none)
  | bound free => exact h.bind _ _
  | listened s d sock mine => exact { h with }
  | socketClosed s => exact { h with }
  | forked child q => exact h.fork p q
  | stillborn child q e => exact h.fork p q

end Fs

structure Fs.AtRest (fs : Fs) : Prop where
  unopened : ∀ fd, fs.file fd = none
  unserved : ∀ s, fs.sock s = none
  unlocked : ∀ ino, fs.flock ino = none
  old : ∀ n node, fs.name n = some node → node.ino < fs.fresh
  one_node : ∀ m n a b, fs.name m = some a → fs.name n = some b → a.ino = b.ino → a = b

namespace Fs

theorem AtRest.named {fs : Fs} (h : fs.AtRest) {node : Node} (known : fs.Known node) :
    ∃ n, fs.name n = some node := by
  rcases known with named | ⟨fd, d, file, -⟩
  · exact named
  · rw [h.unopened fd] at file
    cases file

theorem AtRest.sane {fs : Fs} (h : fs.AtRest) : fs.Sane := by
  constructor
  · intro fd d file
    rw [h.unopened fd] at file
    cases file
  · intro node known
    obtain ⟨n, named⟩ := h.named known
    exact h.old n node named
  · intro a b known known' same
    obtain ⟨m, named⟩ := h.named known
    obtain ⟨n, named'⟩ := h.named known'
    exact h.one_node m n a b named named' same
  · intro ino fd locked
    rw [h.unlocked ino] at locked
    cases locked
  · intro node _ _ fd d file
    rw [h.unopened fd] at file
    cases file

end Fs

/-! ## Roles -/

namespace LockRole

def Fits (role : LockRole) (fs : Fs) (p : Proc) : Prop :=
  match role with
  | opened fd => ∃ node, fs.Open p fd node
  | checked fd => ∃ node, fs.Open p fd node ∧ node.kind = .regular
  | locked fd held => ∃ node, fs.Open p fd node ∧ node.kind = .regular ∧
      fs.flock node.ino = some fd ∧ ∀ seen, held = some seen → seen = node
  | standing fd => ∃ node, fs.Open p fd node ∧ node.kind = .regular ∧
      fs.flock node.ino = some fd ∧ fs.name .lock = some node
  | _ => True

variable {role : LockRole} {fs fs' : Fs} {p : Proc}

theorem Fits.frame (h : role.Fits fs p) (keeps : ∀ fd, role.claims = some fd → fs.Keeps fs' p fd)
    (named : ∀ fd node, role = standing fd → fs.name .lock = some node → node.kind = .regular →
      fs.flock node.ino = some fd → fs'.name .lock = some node) : role.Fits fs' p := by
  cases role with
  | opened fd =>
      obtain ⟨node, opened⟩ := h
      exact ⟨node, (keeps fd rfl).opened opened⟩
  | checked fd =>
      obtain ⟨node, opened, regular⟩ := h
      exact ⟨node, (keeps fd rfl).opened opened, regular⟩
  | locked fd held =>
      obtain ⟨node, opened, regular, locked, seen⟩ := h
      exact ⟨node, (keeps fd rfl).opened opened, regular,
        (keeps fd rfl).flocked node opened locked, seen⟩
  | standing fd =>
      obtain ⟨node, opened, regular, locked, at'⟩ := h
      exact ⟨node, (keeps fd rfl).opened opened, regular,
        (keeps fd rfl).flocked node opened locked, named fd node rfl at' regular locked⟩
  | _ => trivial

theorem Fits.of_claims_none (h : role.claims = none) : role.Fits fs p := by
  cases role with
  | opened fd => cases h
  | checked fd => cases h
  | locked fd held => cases h
  | standing fd => cases h
  | _ => trivial

theorem Fits.opened {fd : Fd} (h : role.Fits fs p) (claims : role.claims = some fd) :
    ∃ node, fs.Open p fd node := by
  cases role with
  | opened fd' =>
      cases claims
      exact h
  | checked fd' =>
      cases claims
      exact ⟨h.choose, h.choose_spec.1⟩
  | locked fd' held =>
      cases claims
      exact ⟨h.choose, h.choose_spec.1⟩
  | standing fd' =>
      cases claims
      exact ⟨h.choose, h.choose_spec.1⟩
  | _ => cases claims

theorem Fits.through {q : Proc} {c : Call} {reply : Reply c} (h : role.Fits fs q) (sane : fs.Sane)
    (effect : fs.Effect p c reply fs')
    (stays : ∀ fd, role.claims = some fd → c = .close fd → q ≠ p)
    (named : ∀ fd, role = standing fd → c ≠ .unlink .lock) : role.Fits fs' q := by
  apply h.frame
  · intro fd claims
    exact effect.keeps (sane.file_old fd) (stays fd claims)
  · intro fd node stands at' regular _
    refine effect.name_eq at' (named fd stands) fun _ => ?_
    rw [regular]
    exact Kind.noConfusion

theorem Fits.onFstat {fd : Fd} {node : Node} (h : role.Fits fs p) (told : fs.Open p fd node) :
    (role.onFstat fd node).Fits fs p := by
  cases role with
  | opened fd' =>
      simp only [LockRole.onFstat]
      by_cases same : fd' = fd
      · rw [if_pos same]
        by_cases regular : node.kind = .regular
        · rw [if_pos regular]
          exact ⟨node, told, regular⟩
        · rw [if_neg regular]
          trivial
      · rw [if_neg same]
        exact h
  | locked fd' held =>
      obtain ⟨node', opened, regular, locked, seen⟩ := h
      refine ⟨node', opened, regular, locked, fun node'' => ?_⟩
      split
      · next same =>
          intro new
          rw [Option.some.injEq] at new
          subst same new
          exact told.unique opened
      · exact seen node''
  | _ => exact h

theorem Fits.onFlock {fd : Fd} {node : Node} (h : role.Fits fs p) (told : fs.Open p fd node)
    (locked : fs.flock node.ino = some fd) : (role.onFlock fd).Fits fs p := by
  cases role with
  | checked fd' =>
      obtain ⟨node', opened, regular⟩ := h
      simp only [LockRole.onFlock]
      by_cases same : fd' = fd
      · subst same
        obtain rfl := told.unique opened
        rw [if_pos rfl]
        exact ⟨node, opened, regular, locked, fun _ none => by cases none⟩
      · rw [if_neg same]
        exact ⟨node', opened, regular⟩
  | _ => exact h

theorem Fits.onStat {named target : Node} (h : role.Fits fs p) (sane : fs.Sane)
    (at' : fs.name .lock = some named)
    (leads : if named.kind = .symlink then fs.linked = some target else target = named) :
    (role.onStat target).Fits fs p := by
  cases role with
  | locked fd held =>
      cases held with
      | none => exact h
      | some held =>
          rcases onStat_locked fd held target with ⟨same, stands⟩ | ⟨-, stays⟩
          · rw [stands]
            obtain ⟨node, opened, regular, locked, seen⟩ := h
            obtain rfl := seen held rfl
            have follows : named.kind ≠ .symlink := by
              intro symlink
              obtain ⟨d, file, rfl⟩ := opened.file
              exact sane.linked named at' symlink fd d file regular
            rw [if_neg follows] at leads
            subst leads
            obtain rfl := sane.one_node held target opened.known (.inl ⟨_, at'⟩) same
            exact ⟨held, opened, regular, locked, at'⟩
          · rw [stays]
            exact h
  | _ => exact h

theorem Fits.told {c : Call} {reply : Reply c} (h : role.Fits fs p) (sane : fs.Sane)
    (tells : fs.Tells p c reply) : (role.after c reply).Fits fs p := by
  cases c with
  | create n => cases reply <;> cases n <;> first | exact h | exact tells.elim
  | reopen n => cases reply <;> cases n <;> first | exact h | exact tells.elim
  | unlink n => cases reply <;> cases n <;> first | exact h | exact tells.elim
  | rmdir n => cases reply <;> cases n <;> first | exact h | exact tells.elim
  | close fd => exact tells.elim
  | fork child => cases reply <;> cases child <;> first | exact h | exact tells.elim
  | fstat fd =>
      cases reply with
      | error e => exact h
      | ok node => exact h.onFstat tells
  | flock fd =>
      cases reply with
      | error e => exact h
      | ok _ =>
          obtain ⟨node, opened, locked⟩ := tells
          exact h.onFlock opened locked
  | stat n =>
      cases reply with
      | error e => cases n <;> exact h
      | ok target =>
          cases n with
          | lock =>
              obtain ⟨named, at', leads⟩ := tells
              exact h.onStat sane at' leads
          | _ => exact h
  | lstat n =>
      cases reply with
      | error e => cases n <;> exact h
      | ok node =>
          cases n with
          | lock =>
              cases role with
              | out =>
                  change (if node.kind = .regular then out else planted none).Fits fs p
                  split <;> trivial
              | _ => exact h
          | _ => exact h
  | _ => exact h

theorem Fits.onClose {fd : Fd} (h : role.Fits fs p) (sane : fs.Sane) :
    (role.onClose fd).Fits (fs.drop p (· = fd)) p := by
  rcases role.onClose_cases fd with ⟨same, other⟩ | none
  · rw [same]
    apply h.through sane (.closed fd)
    · intro fd' claims closed
      cases closed
      exact absurd claims other
    · intro _ _ unlink
      cases unlink
  · exact .of_claims_none none

theorem Fits.after {c : Call} {reply : Reply c} (h : role.Fits fs p) (sane : fs.Sane)
    (effect : fs.Effect p c reply fs') (allowed : role.Allows c) : (role.after c reply).Fits fs' p := by
  have through (stays : ∀ fd, c ≠ .close fd) (named : c ≠ .unlink .lock) : role.Fits fs' p :=
    h.through sane effect (fun fd _ same => absurd same (stays fd)) fun _ _ => named
  cases effect with
  | none tells => exact h.told sane tells
  | created n free =>
      have kept := through (by simp) (by simp)
      cases n with
      | lock =>
          cases role with
          | out => exact ⟨_, _, Function.update_self .., rfl, List.mem_singleton_self p⟩
          | _ => exact kept
      | _ => exact kept
  | reopened n node named kind =>
      have kept := through (by simp) (by simp)
      cases n with
      | lock =>
          cases role with
          | out => exact ⟨_, _, Function.update_self .., rfl, List.mem_singleton_self p⟩
          | _ => exact kept
      | _ => exact kept
  | flocked fd node opened free =>
      rcases allowed with rfl | ⟨held, rfl⟩
      · obtain ⟨node', opened', regular⟩ := through (by simp) (by simp)
        obtain rfl := Fs.Open.unique opened' opened
        change (if fd = fd then locked fd none else checked fd).Fits _ _
        rw [if_pos rfl]
        exact ⟨node', opened', regular, Function.update_self .., fun _ none => by cases none⟩
      · exact through (by simp) (by simp)
  | closed fd => exact h.onClose sane
  | unlinked n node named =>
      cases n with
      | lock =>
          rcases allowed with rfl | ⟨fd, rfl⟩
          · trivial
          · trivial
      | _ => exact through (by simp) (by simp)
  | removed n node named kind =>
      have kept := through (by simp) (by simp)
      cases n with
      | lock =>
          cases role with
          | planted fd => cases fd <;> trivial
          | _ => exact kept
      | _ => exact kept
  | bound free => exact through (by simp) (by simp)
  | listened s d sock mine => exact through (by simp) (by simp)
  | socketClosed s => exact through (by simp) (by simp)
  | forked child q =>
      have kept := through (by simp) (by simp)
      cases child with
      | leftover => exact kept
      | daemon lock =>
          cases role with
          | standing fd => trivial
          | _ => exact kept
  | stillborn child q e =>
      have kept := through (by simp) (by simp)
      cases child <;> exact kept

theorem claims_after {c : Call} {reply : Reply c} {fd : Fd} (effect : fs.Effect p c reply fs')
    (claims : (role.after c reply).claims = some fd) : role.claims = some fd ∨ fd = fs.fresh := by
  cases c with
  | create n =>
      cases effect with
      | none tells => cases reply <;> cases n <;> first | exact .inl claims | exact tells.elim
      | created n free => cases n <;> first | exact .inl claims | exact claims_onOpen claims
  | reopen n =>
      cases effect with
      | none tells => cases reply <;> cases n <;> first | exact .inl claims | exact tells.elim
      | reopened n node named kind =>
          cases n <;> first | exact .inl claims | exact claims_onOpen claims
  | lstat n => cases reply <;> cases n <;> first | exact .inl claims | exact .inl (claims_onLstat claims)
  | stat n => cases reply <;> cases n <;> first | exact .inl claims | exact .inl (claims_onStat claims)
  | fstat fd' => cases reply <;> first | exact .inl claims | exact .inl (claims_onFstat claims)
  | flock fd' => cases reply <;> first | exact .inl claims | exact .inl (claims_onFlock claims)
  | close fd' => exact .inl (claims_onClose claims)
  | unlink n => cases reply <;> cases n <;> first | exact .inl claims | exact .inl (claims_onUnlink claims)
  | rmdir n => cases reply <;> cases n <;> first | exact .inl claims | exact .inl (claims_onRmdir claims)
  | fork child =>
      cases reply <;> cases child <;> first | exact .inl claims | exact .inl (claims_onFork claims)
  | _ => exact .inl claims

end LockRole

open LockRole

structure Serialized (fs : Fs) (role : Proc → LockRole) : Prop where
  sane : fs.Sane
  fits : ∀ p, (role p).Fits fs p
  unique : ∀ p q fd, (role p).claims = some fd → (role q).claims = some fd → p = q

namespace Serialized

variable {fs fs' : Fs} {role : Proc → LockRole} {p q : Proc}

/-- Two processes never have standing at once. -/
theorem standing_unique (h : Serialized fs role) {fd fd' : Fd} (stands : role p = standing fd)
    (stands' : role q = standing fd') : p = q := by
  have fits := h.fits p
  have fits' := h.fits q
  rw [stands] at fits
  rw [stands'] at fits'
  obtain ⟨node, -, -, locked, named⟩ := fits
  obtain ⟨node', -, -, locked', named'⟩ := fits'
  rw [named, Option.some.injEq] at named'
  rw [← named', locked, Option.some.injEq] at locked'
  apply h.unique p q fd
  · rw [stands]
    rfl
  · rw [stands', locked']
    rfl

theorem proper (h : Serialized fs role) {c : Call} (allowed : (role p).Allows c)
    (names : ∀ n, c = .create n ∨ c = .reopen n → n = .lock) : fs.Proper p c := by
  have fits := h.fits p
  cases c with
  | create n => exact names n (.inl rfl)
  | reopen n => exact names n (.inr rfl)
  | flock fd =>
      intro node opened
      rcases allowed with checked | ⟨held, locked⟩
      · rw [checked] at fits
        obtain ⟨node', opened', regular⟩ := fits
        exact opened.unique opened' ▸ regular
      · rw [locked] at fits
        obtain ⟨node', opened', regular, -⟩ := fits
        exact opened.unique opened' ▸ regular
  | _ => trivial

/-- A clearing that finds what it means to clear, or a removal by the process that has standing, takes
nothing from the others. -/
theorem other_fits (h : Serialized fs role) {c : Call} {reply : Reply c}
    (effect : fs.Effect p c reply fs') (allowed : (role p).Allows c)
    (intact : c = .unlink .lock → role p = planted none →
      ∀ node, fs.name .lock = some node → node.kind ≠ .regular) (other : q ≠ p) :
    (role q).Fits fs' q := by
  apply (h.fits q).through h.sane effect (fun _ _ _ => other)
  rintro fd stands rfl
  rcases allowed with planted | ⟨fd', stands'⟩
  · have fits := h.fits q
    rw [stands] at fits
    obtain ⟨node, -, regular, -, named⟩ := fits
    exact intact rfl planted node named regular
  · exact other (h.standing_unique stands stands')

theorem of_update (h : Serialized fs role) {mine : LockRole} (sane : fs'.Sane)
    (others : ∀ q, q ≠ p → (role q).Fits fs' q) (fits : mine.Fits fs' p)
    (free : ∀ q fd, q ≠ p → mine.claims = some fd → (role q).claims ≠ some fd) :
    Serialized fs' (Function.update role p mine) := by
  refine ⟨sane, fun q => ?_, fun q q' fd claims claims' => ?_⟩
  · rcases eq_or_ne q p with rfl | other
    · rw [Function.update_self]
      exact fits
    · rw [Function.update_of_ne other]
      exact others q other
  · by_cases first : q = p
    · rw [first, Function.update_self] at claims
      by_cases second : q' = p
      · rw [first, second]
      · rw [Function.update_of_ne second] at claims'
        exact absurd claims' (free q' fd second claims)
    · rw [Function.update_of_ne first] at claims
      by_cases second : q' = p
      · rw [second, Function.update_self] at claims'
        exact absurd claims (free q fd first claims')
      · rw [Function.update_of_ne second] at claims'
        exact h.unique q q' fd claims claims'

theorem step (h : Serialized fs role) {c : Call} {reply : Reply c}
    (effect : fs.Effect p c reply fs') (allowed : (role p).Allows c)
    (names : ∀ n, c = .create n ∨ c = .reopen n → n = .lock)
    (intact : c = .unlink .lock → role p = planted none →
      ∀ node, fs.name .lock = some node → node.kind ≠ .regular) :
    Serialized fs' (Function.update role p ((role p).after c reply)) := by
  apply h.of_update
  · exact h.sane.effect (h.proper allowed names) effect
  · exact fun q other => h.other_fits effect allowed intact other
  · exact (h.fits p).after h.sane effect allowed
  · intro q fd other mine others
    rcases claims_after effect mine with before | rfl
    · exact other (h.unique q p fd others before)
    · obtain ⟨node, opened⟩ := (h.fits q).opened others
      obtain ⟨d, file, -⟩ := opened.file
      exact (h.sane.file_old _ d file).ne rfl

theorem forget (h : Serialized fs role) (p : Proc) : Serialized fs (Function.update role p out) :=
  h.of_update h.sane (fun q _ => h.fits q) trivial fun _ _ _ none => by cases none

theorem hand_on (h : Serialized fs role) {fd : Fd} (stands : role p = standing fd) :
    Serialized (fs.fork p q)
      (Function.update (Function.update role p (shared fd)) q (locked fd none)) := by
  have fits := h.fits p
  rw [stands] at fits
  obtain ⟨node, ⟨d, file, rfl, mine⟩, regular, locked, -⟩ := fits
  have left := h.step (p := p) (.forked (.daemon fd) q) stands (by rintro n (made | made) <;> cases made)
    (by intro unlink; cases unlink)
  have after : (role p).after (.fork (.daemon fd)) (.ok ()) = shared fd := by rw [stands]; rfl
  rw [after] at left
  apply left.of_update left.sane (fun r _ => left.fits r)
  · refine ⟨d.node, ⟨d.share p q, ?_, ?_, ?_⟩, regular, locked, fun _ none => by cases none⟩
    · change (fs.file fd).map (·.share p q) = _
      rw [file]
      rfl
    · unfold Description.share
      split <;> rfl
    · unfold Description.share
      rw [if_pos mine]
      exact List.mem_cons_self
  · intro r fd' other mine others
    cases mine
    by_cases parent : r = p
    · rw [parent, Function.update_self] at others
      cases others
    · rw [Function.update_of_ne parent] at others
      exact parent (h.unique r p fd others (by rw [stands]; rfl))

theorem exit (h : Serialized fs role) (p : Proc) :
    Serialized (fs.exit p) (Function.update role p out) := by
  have sane := h.sane.drop p fun _ => true
  apply h.of_update
  · exact { sane with }
  · intro q other
    apply (h.fits q).frame
    · intro fd _
      exact { fs.keeps_drop fun _ => other with }
    · exact fun fd node _ named _ _ => named
  · trivial
  · exact fun _ _ _ none => by cases none

end Serialized

end Nomux.Rundir
