import Nomux.Rundir.Kernel

/-!
# What a call does to the directory

Every call either leaves the directory as it is, and then its answer tells something about it, or
changes it in one of a few ways.
-/

namespace Nomux.Rundir.Fs

/-- Process `p` has a descriptor for `fd`, which was opened at the node. -/
def Open (fs : Fs) (p : Proc) (fd : Fd) (node : Node) : Prop :=
  ∃ d, fs.file fd = some d ∧ d.node = node ∧ p ∈ d.refs

theorem Open.file {fs : Fs} {p : Proc} {fd : Fd} {node : Node} (h : fs.Open p fd node) :
    ∃ d, fs.file fd = some d ∧ d.node = node := by
  obtain ⟨d, file, opened, -⟩ := h
  exact ⟨d, file, opened⟩

theorem Open.unique {fs : Fs} {p q : Proc} {fd : Fd} {a b : Node} (h : fs.Open p fd a)
    (h' : fs.Open q fd b) : a = b := by
  obtain ⟨d, file, rfl, -⟩ := h
  obtain ⟨d', file', rfl, -⟩ := h'
  rw [file, Option.some.injEq] at file'
  rw [file']

def Tells (fs : Fs) (p : Proc) : (c : Call) → Reply c → Prop
  | .create _, .ok _ => False
  | .reopen _, .ok _ => False
  | .unlink _, .ok _ => False
  | .rmdir _, .ok _ => False
  | .bind, .ok _ => False
  | .listen _, .ok _ => False
  | .fork _, .ok _ => False
  | .close _, _ => False
  | .closeSocket _, _ => False
  | .fstat fd, .ok node => fs.Open p fd node
  | .lstat n, .ok node => fs.name n = some node
  | .stat n, .ok node => ∃ named, fs.name n = some named ∧
      if named.kind = .symlink then fs.linked = some node else node = named
  | .flock fd, .ok _ => ∃ node, fs.Open p fd node ∧ fs.flock node.ino = some fd
  | .connect, .stale _ => ∀ node, fs.name .socket = some node → fs.listening node = false
  | _, _ => True

inductive Effect (fs : Fs) (p : Proc) : (c : Call) → Reply c → Fs → Prop
  | none {c : Call} {reply : Reply c} (tells : fs.Tells p c reply) : Effect fs p c reply fs
  | created (n : RunName) (free : fs.name n = none) :
      Effect fs p (.create n) (.ok fs.fresh)
        ((fs.describe p ⟨fs.fresh, .regular⟩).named n (some ⟨fs.fresh, .regular⟩))
  | reopened (n : RunName) (node : Node) (named : fs.name n = some node)
      (kind : node.kind ≠ .symlink) : Effect fs p (.reopen n) (.ok fs.fresh) (fs.describe p node)
  | flocked (fd : Fd) (node : Node) (opened : fs.Open p fd node)
      (free : fs.flock node.ino = .none) : Effect fs p (.flock fd) (.ok ())
        { fs with flock := Function.update fs.flock node.ino (some fd) }
  | closed (fd : Fd) : Effect fs p (.close fd) () (fs.drop p (· = fd))
  | unlinked (n : RunName) (node : Node) (named : fs.name n = some node) :
      Effect fs p (.unlink n) (.ok ()) (fs.named n .none)
  | removed (n : RunName) (node : Node) (named : fs.name n = some node)
      (kind : node.kind = .directory) : Effect fs p (.rmdir n) (.ok ()) (fs.named n .none)
  | bound (free : fs.name .socket = .none) :
      Effect fs p .bind (.ok fs.fresh) { fs with
        name := Function.update fs.name .socket (some ⟨fs.fresh, .socket⟩)
        sock := Function.update fs.sock fs.fresh (some ⟨⟨fs.fresh, .socket⟩, [p], false⟩)
        bound := Function.update fs.bound fs.fresh (some fs.fresh)
        fresh := fs.fresh + 1 }
  | listened (s : Sock) (d : Description) (sock : fs.sock s = some d) (mine : p ∈ d.refs) :
      Effect fs p (.listen s) (.ok ())
        { fs with sock := Function.update fs.sock s (some { d with listens := true }) }
  | socketClosed (s : Sock) : Effect fs p (.closeSocket s) () (fs.dropSockets p (· = s))
  | forked (child : Child) (q : Proc) : Effect fs p (.fork child) (.ok ()) (fs.fork p q)
  | stillborn (child : Child) (q : Proc) (e : Errno) :
      Effect fs p (.fork child) (.error e) (fs.fork p q)

theorem create_effect (fs : Fs) (p : Proc) (n : RunName) :
    fs.Effect p (.create n) (fs.create p n).1 (fs.create p n).2 := by
  unfold create
  split
  · exact .none trivial
  · exact .created n ‹_›

theorem reopen_effect (fs : Fs) (p : Proc) (n : RunName) :
    fs.Effect p (.reopen n) (fs.reopen p n).1 (fs.reopen p n).2 := by
  unfold reopen
  split
  · exact .none trivial
  · split
    · exact .none trivial
    · exact .none trivial
    · exact .reopened n _ ‹_› ‹_›

theorem lstat_tells (fs : Fs) (p : Proc) (n : RunName) : fs.Tells p (.lstat n) (fs.lstat n) := by
  unfold lstat
  split
  · trivial
  · assumption

theorem stat_tells (fs : Fs) (p : Proc) (n : RunName) : fs.Tells p (.stat n) (fs.stat n) := by
  unfold stat
  split
  · trivial
  · next node named =>
      split
      · next symlink =>
          cases linked : fs.linked with
          | none => trivial
          | some target => exact ⟨node, named, by rw [if_pos symlink, linked]⟩
      · next followed => exact ⟨node, named, by rw [if_neg followed]⟩

theorem fstat_tells (fs : Fs) (p : Proc) (fd : Fd) : fs.Tells p (.fstat fd) (fs.fstat p fd) := by
  unfold fstat
  split
  · trivial
  · next d file =>
      split
      · next mine => exact ⟨d, file, rfl, mine⟩
      · trivial

theorem lock_effect (fs : Fs) (p : Proc) (fd : Fd) :
    fs.Effect p (.flock fd) (fs.lock p fd).1 (fs.lock p fd).2 := by
  unfold lock
  split
  · exact .none trivial
  · next d file =>
      split
      · next mine =>
          split
          · exact .flocked fd d.node ⟨d, file, rfl, mine⟩ ‹_›
          · next holder held =>
              split
              · next same => exact .none ⟨d.node, ⟨d, file, rfl, mine⟩, same ▸ held⟩
              · exact .none trivial
      · exact .none trivial

theorem unlink_effect (fs : Fs) (p : Proc) (n : RunName) :
    fs.Effect p (.unlink n) (fs.unlink n).1 (fs.unlink n).2 := by
  unfold unlink
  split
  · exact .none trivial
  · split
    · exact .none trivial
    · exact .unlinked n _ ‹_›

theorem rmdir_effect (fs : Fs) (p : Proc) (n : RunName) :
    fs.Effect p (.rmdir n) (fs.rmdir n).1 (fs.rmdir n).2 := by
  unfold rmdir
  split
  · exact .none trivial
  · split
    · exact .removed n _ ‹_› ‹_›
    · exact .none trivial

theorem connect_tells (fs : Fs) (p : Proc) : fs.Tells p .connect fs.connect := by
  unfold connect
  split
  · next free =>
      intro node named
      rw [free] at named
      cases named
  · next there named =>
      by_cases listens : fs.listening there
      · rw [if_pos listens]
        trivial
      · rw [if_neg listens]
        intro node named'
        rw [named, Option.some.injEq] at named'
        rw [← named']
        exact Bool.not_eq_true _ ▸ listens

theorem bind_effect (fs : Fs) (p : Proc) :
    fs.Effect p .bind (fs.bind p).1 (fs.bind p).2 := by
  unfold bind
  split
  · exact .none trivial
  · exact .bound ‹_›

theorem listen_effect (fs : Fs) (p : Proc) (s : Sock) :
    fs.Effect p (.listen s) (fs.listen p s).1 (fs.listen p s).2 := by
  unfold listen
  split
  · exact .none trivial
  · next d sock =>
      split
      · exact .listened s d sock ‹_›
      · exact .none trivial

/-- A call that fails leaves the directory as it is, whatever the error; only a `fork` may not. -/
theorem serve_effect (fs : Fs) (p : Proc) (o : Oracle) (c : Call) :
    fs.Effect p c (fs.serve p o c).1 (fs.serve p o c).2 := by
  unfold serve
  cases o.fault with
  | none =>
      cases c with
      | create n => exact create_effect fs p n
      | reopen n => exact reopen_effect fs p n
      | lstat n => exact .none (lstat_tells fs p n)
      | stat n => exact .none (stat_tells fs p n)
      | fstat fd => exact .none (fstat_tells fs p fd)
      | flock fd => exact lock_effect fs p fd
      | close fd => exact .closed fd
      | unlink n => exact unlink_effect fs p n
      | rmdir n => exact rmdir_effect fs p n
      | readDir => exact .none trivial
      | connect => exact .none (connect_tells fs p)
      | bind => exact bind_effect fs p
      | listen s => exact listen_effect fs p s
      | closeSocket s => exact .socketClosed s
      | fork child => exact .forked child o.child
      | work w => exact .none trivial
      | poll => exact .none trivial
  | some e =>
      cases c with
      | close fd => exact .closed fd
      | closeSocket s => exact .socketClosed s
      | fork child =>
          cases stillborn : o.stillborn with
          | true => exact .stillborn child o.child e
          | false => exact .none trivial
      | _ => exact .none trivial

/-! ## What a call keeps -/

/-- A description that `q` has is still there, still of the same node, and listens if it did. -/
def Survives (q : Proc) (before after : Option Description) : Prop :=
  ∀ d, before = some d → q ∈ d.refs →
    ∃ d', after = some d' ∧ q ∈ d'.refs ∧ d'.node = d.node ∧ (d.listens → d'.listens)

theorem Survives.refl (q : Proc) (d : Option Description) : Survives q d d :=
  fun d there mine => ⟨d, there, mine, rfl, id⟩

theorem survives_without {p q : Proc} (other : q ≠ p) (d : Option Description) :
    Survives q d (d.bind (·.without p)) := by
  rintro d rfl mine
  have left : q ∈ d.refs.filter (· ≠ p) := by simpa [mine] using other
  exact ⟨{ d with refs := d.refs.filter (· ≠ p) }, if_neg (List.ne_nil_of_mem left), left, rfl, id⟩

theorem survives_drop {p q : Proc} {picked : Bool} (stays : picked → q ≠ p)
    (d : Option Description) : Survives q d (if picked then d.bind (·.without p) else d) := by
  split
  · next h => exact survives_without (stays h) d
  · exact .refl q d

theorem survives_share (p child q : Proc) (d : Option Description) :
    Survives q d (d.map (·.share p child)) := by
  rintro d rfl mine
  refine ⟨d.share p child, rfl, ?_⟩
  unfold Description.share
  split
  · exact ⟨List.mem_cons_of_mem _ mine, rfl, id⟩
  · exact ⟨mine, rfl, id⟩

/-- What `q` has open as `fd` it still has open, and still locks. -/
structure Keeps (fs fs' : Fs) (q : Proc) (fd : Fd) : Prop where
  file : Survives q (fs.file fd) (fs'.file fd)
  flocked : ∀ node, fs.Open q fd node → fs.flock node.ino = some fd → fs'.flock node.ino = some fd

theorem Keeps.opened {fs fs' : Fs} {q : Proc} {fd : Fd} {node : Node} (h : fs.Keeps fs' q fd)
    (opened : fs.Open q fd node) : fs'.Open q fd node := by
  obtain ⟨d, file, rfl, mine⟩ := opened
  obtain ⟨d', file', mine', same, -⟩ := h.file d file mine
  exact ⟨d', file', same, mine'⟩

theorem Keeps.of_same {fs fs' : Fs} {q : Proc} {fd : Fd} (file : fs'.file fd = fs.file fd)
    (flock : fs'.flock = fs.flock) : fs.Keeps fs' q fd :=
  ⟨file ▸ .refl q _, fun _ _ locked => flock ▸ locked⟩

theorem file_drop (fs : Fs) (p : Proc) (which : Fd → Bool) (fd : Fd) :
    (fs.drop p which).file fd =
      if which fd then (fs.file fd).bind (·.without p) else fs.file fd := rfl

theorem keeps_drop (fs : Fs) {p q : Proc} {fd : Fd} {which : Fd → Bool}
    (stays : which fd → q ≠ p) : fs.Keeps (fs.drop p which) q fd := by
  have kept : Survives q (fs.file fd) ((fs.drop p which).file fd) := survives_drop stays _
  refine ⟨kept, fun node before locked => ?_⟩
  obtain ⟨d, file, -, mine⟩ := before
  obtain ⟨d', file', -⟩ := kept d file mine
  apply Option.filter_eq_some_iff.2
  exact ⟨locked, Option.isSome_iff_exists.2 ⟨d', file'⟩⟩

theorem keeps_describe (fs : Fs) (p q : Proc) (node : Node) {fd : Fd}
    (old : ∀ d, fs.file fd = some d → fd < fs.fresh) : fs.Keeps (fs.describe p node) q fd := by
  refine ⟨fun d file mine => ⟨d, ?_, mine, rfl, id⟩, fun _ _ locked => locked⟩
  exact (Function.update_of_ne (old d file).ne ..).trans file

theorem keeps_fork (fs : Fs) (p child q : Proc) (fd : Fd) : fs.Keeps (fs.fork p child) q fd :=
  ⟨survives_share p child q _, fun _ _ locked => locked⟩

theorem Effect.keeps {fs fs' : Fs} {p q : Proc} {c : Call} {reply : Reply c} {fd : Fd}
    (effect : fs.Effect p c reply fs') (old : ∀ d, fs.file fd = some d → fd < fs.fresh)
    (stays : c = .close fd → q ≠ p) : fs.Keeps fs' q fd := by
  cases effect with
  | created n free => exact { keeps_describe fs p q ⟨fs.fresh, .regular⟩ old with }
  | reopened n node named kind => exact keeps_describe fs p q node old
  | flocked fd' node opened free =>
      refine ⟨.refl q _, fun node' _ locked => ?_⟩
      have other : node'.ino ≠ node.ino := by
        intro same
        rw [same, free] at locked
        cases locked
      exact (Function.update_of_ne other ..).trans locked
  | closed fd' =>
      apply keeps_drop
      intro same
      rw [decide_eq_true_eq] at same
      exact stays (same ▸ rfl)
  | forked child r => exact keeps_fork fs p r q fd
  | stillborn child r e => exact keeps_fork fs p r q fd
  | _ => exact .of_same rfl rfl

theorem Effect.sock_survives {fs fs' : Fs} {p q : Proc} {c : Call} {reply : Reply c} {s : Sock}
    (effect : fs.Effect p c reply fs') (old : ∀ d, fs.sock s = some d → s < fs.fresh)
    (stays : c = .closeSocket s → q ≠ p) : Survives q (fs.sock s) (fs'.sock s) := by
  cases effect with
  | bound free =>
      intro d sock mine
      exact ⟨d, (Function.update_of_ne (old d sock).ne ..).trans sock, mine, rfl, id⟩
  | listened s' d sock mine =>
      intro d' sock' mine'
      rcases eq_or_ne s s' with rfl | other
      · rw [sock, Option.some.injEq] at sock'
        subst sock'
        exact ⟨_, Function.update_self .., mine', rfl, fun _ => rfl⟩
      · exact ⟨d', (Function.update_of_ne other ..).trans sock', mine', rfl, id⟩
  | socketClosed s' =>
      apply survives_drop
      intro same
      rw [decide_eq_true_eq] at same
      exact stays (same ▸ rfl)
  | forked child r => exact survives_share p r q _
  | stillborn child r e => exact survives_share p r q _
  | _ => exact .refl q _

theorem Effect.bound_eq {fs fs' : Fs} {p : Proc} {c : Call} {reply : Reply c} {ino : Nat} {fd : Fd}
    (effect : fs.Effect p c reply fs') (old : ino < fs.fresh) (bound : fs.bound ino = some fd) :
    fs'.bound ino = some fd := by
  cases effect with
  | bound free => exact (Function.update_of_ne old.ne ..).trans bound
  | _ => exact bound

theorem Effect.name_eq {fs fs' : Fs} {p : Proc} {c : Call} {reply : Reply c} {n : RunName} {node : Node}
    (effect : fs.Effect p c reply fs') (named : fs.name n = some node) (unlinked : c ≠ .unlink n)
    (removed : c = .rmdir n → node.kind ≠ .directory) : fs'.name n = some node := by
  cases effect with
  | created m free =>
      have other : n ≠ m := by
        rintro rfl
        rw [named] at free
        cases free
      exact (Function.update_of_ne other ..).trans named
  | unlinked m at' there =>
      have other : n ≠ m := fun same => unlinked (same ▸ rfl)
      exact (Function.update_of_ne other ..).trans named
  | removed m at' there kind =>
      have other : n ≠ m := by
        rintro rfl
        rw [named, Option.some.injEq] at there
        exact removed rfl (there ▸ kind)
      exact (Function.update_of_ne other ..).trans named
  | bound free =>
      have other : n ≠ .socket := by
        rintro rfl
        rw [named] at free
        cases free
      exact (Function.update_of_ne other ..).trans named
  | _ => exact named

end Nomux.Rundir.Fs
