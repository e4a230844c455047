import Nomux.Lib.DirectoryTree
import Nomux.Lib.ErrorState
import Nomux.Wire.Codec

/-!
# The run directory is this user's alone

`check_run_dir` and the walk over its ancestors. The calls are made on a tree of directories, and any
of them can fail besides for a reason the tree does not have. A path is its components, so that its
end is not followed: `run_dir` ends every path it gives in a name.
-/

namespace Nomux.Trust
open DirectoryTree UnixPath

/-! ## The path -/

/-- A directory from the environment counts only where it is absolute. -/
def absoluteEnv (value : Option Path) : Option Path :=
  value.filter fun path => path.head? = some separator

def runDir (env : String → Option Path) : Option Path :=
  let state := absoluteEnv (env "XDG_STATE_HOME") <|>
    (absoluteEnv (env "HOME")).map fun home => push home (Wire.utf8 ".local/state")
  match state with
  | some state => some (push state (Wire.utf8 "nomux/run"))
  | none => (absoluteEnv (env "XDG_RUNTIME_DIR")).map fun dir => push dir (Wire.utf8 "nomux")

/-- What the checks read of an absolute path. -/
def absolute (dir : Path) : Absolute := (components dir).tail.reverse

theorem runDir_ends {env : String → Option Path} {dir : Path} (found : runDir env = some dir) :
    ∃ front, ∃ name : Name, dir = push front name.bytes ∧
      absolute dir = .normal name.bytes :: absolute front := by
  have below (front : Path) (name : Name) (rooted : front.head? = some separator) :
      absolute (push front name.bytes) = .normal name.bytes :: absolute front := by
    unfold absolute
    rw [components_push, List.tail_append_of_ne_nil (components_rooted rooted), List.reverse_append]
    rfl
  have persistent {state : Path} (rooted : state.head? = some separator) :
      ∃ front, ∃ name : Name, push state (Wire.utf8 "nomux/run") = push front name.bytes ∧
        absolute (push front name.bytes) = .normal name.bytes :: absolute front := by
    use push state (Wire.utf8 "nomux"), ⟨Wire.utf8 "run", by decide, by decide⟩
    constructor
    · have spelled : Wire.utf8 "nomux/run" = Wire.utf8 "nomux" ++ separator :: Wire.utf8 "run" := by decide
      rw [spelled]
      exact push_append (by decide) (by decide) (by decide) (by decide)
    · exact below _ ⟨Wire.utf8 "run", by decide, by decide⟩ (head?_push rooted (by decide))
  have rooted {value : Option Path} {path : Path} (kept : absoluteEnv value = some path) :
      path.head? = some separator := by
    simpa using (Option.filter_eq_some_iff.1 kept).2
  unfold runDir at found
  cases state : absoluteEnv (env "XDG_STATE_HOME") with
  | some path =>
      rw [state] at found
      cases found
      obtain ⟨front, name, same, read⟩ := persistent (rooted state)
      exact ⟨front, name, same, same ▸ read⟩
  | none =>
      rw [state] at found
      cases home : absoluteEnv (env "HOME") with
      | some path =>
          rw [home] at found
          cases found
          have below_home : (push path (Wire.utf8 ".local/state")).head? = some separator :=
            head?_push (rooted home) (by decide)
          obtain ⟨front, name, same, read⟩ := persistent below_home
          exact ⟨front, name, same, same ▸ read⟩
      | none =>
          rw [home] at found
          obtain ⟨path, runtime, rfl⟩ := Option.map_eq_some_iff.1 found
          exact ⟨path, ⟨Wire.utf8 "nomux", by decide, by decide⟩, rfl,
            below path ⟨Wire.utf8 "nomux", by decide, by decide⟩ (rooted runtime)⟩

/-! ## The host -/

abbrev Trouble := { e : Errno // e ≠ .noent }

structure Host where
  uid : Uid
  trouble : Nat → Option Trouble

/-- The tree, and how many calls were made on it. -/
structure World where
  tree : Tree
  calls : Nat

inductive Refusal
  | ancestorNotDirectory (path : Absolute)
  | ancestorOwner (path : Absolute) (owner : Uid)
  | ancestorMode (path : Absolute) (mode : Mode)
  | ancestorUnexamined (path : Absolute) (e : Errno)
  | symlink (dir : Absolute)
  | notDirectory (dir : Absolute)
  | unopened (dir : Absolute) (e : Errno)
  | unexamined (dir : Absolute) (e : Errno)
  | owner (dir : Absolute) (owner : Uid)
  | mode (dir : Absolute) (mode : Mode)
  | untightened (dir : Absolute) (e : Errno)
deriving DecidableEq

abbrev Check := EStateM Refusal World

variable (host : Host)

/-- One call: what the tree answers, and the tree after it. -/
def call {α : Type} (answer : Tree → Except Errno α × Tree) : Check (Except Errno α) := do
  let world ← get
  match host.trouble world.calls with
  | some e =>
      set { world with calls := world.calls + 1 }
      return .error e
  | none =>
      let (reply, tree) := answer world.tree
      set { tree, calls := world.calls + 1 : World }
      return reply

def symlinkMetadata (path : Absolute) : Check (Except Errno Node) :=
  call host fun tree => ((tree.lookup path).map tree.node, tree)

/-- `open` with `O_DIRECTORY | O_NOFOLLOW`. -/
def openDirectory (dir : Absolute) : Check (Except Errno Ino) :=
  call host fun tree =>
    match tree.lookup dir with
    | .error e => (.error e, tree)
    | .ok ino => (if (tree.node ino).kind = .directory then .ok ino else .error .notdir, tree)

def fstat (fd : Ino) : Check (Except Errno Node) :=
  call host fun tree => (.ok (tree.node fd), tree)

def fchmod (fd : Ino) (mode : Mode) : Check (Except Errno Unit) :=
  call host fun tree => (.ok (), tree.chmod fd mode)

/-! ## The check -/

def DIR_MODE : Mode := 0o700

/-- One ancestor, given who owns what is below it. Answers who owns what is below the next one. -/
def judge (path : Absolute) (childOwner : Option Uid) : Check (Option Uid) := do
  match ← symlinkMetadata host path with
  | .ok node =>
      let stickyProtectsChild := node.mode &&& 0o1000 ≠ 0 ∧
        childOwner.all fun owner => owner = host.uid ∨ owner = 0
      if node.kind ≠ .directory then throw (.ancestorNotDirectory path)
      else if node.owner ≠ host.uid ∧ node.owner ≠ 0 then throw (.ancestorOwner path node.owner)
      else if node.mode &&& 0o022 ≠ 0 ∧ ¬ stickyProtectsChild then throw (.ancestorMode path node.mode)
      else return some node.owner
  | .error .noent => return childOwner
  | .error e => throw (.ancestorUnexamined path e)

def judgeFrom : Absolute → Option Uid → Check Unit
  | [], childOwner => do
      let _ ← judge host [] childOwner
  | component :: path, childOwner => do
      judgeFrom path (← judge host (component :: path) childOwner)

def checkTrustedAncestors (dir : Absolute) : Check Unit := do
  let childOwner := (← symlinkMetadata host dir).toOption.map (·.owner)
  match dir with
  | [] => return
  | _ :: parent => judgeFrom host parent childOwner

def refuseUnopenable (dir : Absolute) (e : Errno) : Check Bool := do
  if e = .notdir ∨ e = .loop then
    match ← symlinkMetadata host dir with
    | .ok node => if node.kind = .symlink then throw (.symlink dir) else throw (.notDirectory dir)
    | .error _ => throw (.notDirectory dir)
  else throw (.unopened dir e)

def checkRunDir (dir : Absolute) : Check Bool := do
  checkTrustedAncestors host dir
  match ← openDirectory host dir with
  | .error .noent => return false
  | .error e => refuseUnopenable host dir e
  | .ok fd =>
      match ← fstat host fd with
      | .error e => throw (.unexamined dir e)
      | .ok stat =>
          if stat.owner ≠ host.uid then throw (.owner dir stat.owner)
          else if stat.mode &&& 0o022 ≠ 0 then throw (.mode dir stat.mode)
          else if stat.mode = DIR_MODE then return true
          else
            match ← fchmod host fd DIR_MODE with
            | .error e => throw (.untightened dir e)
            | .ok () => return true

/-! ## Calls -/

open ErrorState

variable {host}

theorem call_ok {α : Type} {answer : Tree → Except Errno α × Tree} {world after : World}
    {reply : Except Errno α} (run : (call host answer).run world = .ok reply after) :
    (∃ e : Trouble, reply = .error e ∧ after.tree = world.tree) ∨
      reply = (answer world.tree).1 ∧ after.tree = (answer world.tree).2 := by
  unfold call at run
  obtain ⟨_, _, got, run⟩ := bind_ok.1 run
  cases got
  cases trouble : host.trouble world.calls with
  | some e =>
      rw [trouble] at run
      cases run
      exact .inl ⟨e, rfl, rfl⟩
  | none =>
      rw [trouble] at run
      cases run
      exact .inr ⟨rfl, rfl⟩

theorem call_error {α : Type} {answer : Tree → Except Errno α × Tree} {world after : World}
    {refusal : Refusal} : (call host answer).run world ≠ .error refusal after := by
  intro run
  unfold call at run
  rcases bind_error.1 run with got | ⟨_, _, got, run⟩
  · cases got
  · cases got
    cases trouble : host.trouble world.calls with
    | some e =>
        rw [trouble] at run
        cases run
    | none =>
        rw [trouble] at run
        cases run

theorem keeps_call {α : Type} {answer : Tree → Except Errno α × Tree}
    (same : ∀ tree, (answer tree).2 = tree) : Keeps World.tree (call host answer) where
  ok run := by
    rcases call_ok run with ⟨e, -, kept⟩ | ⟨-, kept⟩
    · exact kept
    · rw [kept, same]
  error run := absurd run call_error

theorem keeps_symlinkMetadata (path : Absolute) :
    Keeps World.tree (symlinkMetadata host path) :=
  keeps_call fun _ => rfl

theorem keeps_openDirectory (dir : Absolute) : Keeps World.tree (openDirectory host dir) := by
  apply keeps_call
  intro tree
  cases tree.lookup dir <;> rfl

theorem keeps_fstat (fd : Ino) : Keeps World.tree (fstat host fd) := keeps_call fun _ => rfl

theorem symlinkMetadata_ok {path : Absolute} {ino : Ino} {world after : World}
    {reply : Except Errno Node} (found : world.tree.lookup path = .ok ino)
    (run : (symlinkMetadata host path).run world = .ok reply after) :
    reply = .ok (world.tree.node ino) ∨ ∃ e : Trouble, reply = .error e := by
  rcases call_ok run with ⟨e, failed, -⟩ | ⟨answered, -⟩
  · exact .inr ⟨e, failed⟩
  · rw [found] at answered
    exact .inl answered

theorem openDirectory_ok {dir : Absolute} {fd : Ino} {world after : World}
    (run : (openDirectory host dir).run world = .ok (.ok fd) after) :
    world.tree.lookup dir = .ok fd ∧ (world.tree.node fd).kind = .directory := by
  rcases call_ok run with ⟨e, failed, -⟩ | ⟨answered, -⟩
  · cases failed
  · cases found : world.tree.lookup dir with
    | error e =>
        rw [found] at answered
        cases answered
    | ok ino =>
        rw [found] at answered
        by_cases real : (world.tree.node ino).kind = .directory
        · simp only [if_pos real, Except.ok.injEq] at answered
          subst answered
          exact ⟨rfl, real⟩
        · simp [if_neg real] at answered

theorem fstat_ok {fd : Ino} {stat : Node} {world after : World}
    (run : (fstat host fd).run world = .ok (.ok stat) after) : stat = world.tree.node fd := by
  rcases call_ok run with ⟨e, failed, -⟩ | ⟨answered, -⟩
  · cases failed
  · exact Except.ok.inj answered

theorem fchmod_ok {fd : Ino} {mode : Mode} {world after : World}
    (run : (fchmod host fd mode).run world = .ok (.ok ()) after) :
    after.tree = world.tree.chmod fd mode := by
  rcases call_ok run with ⟨e, failed, -⟩ | ⟨-, changed⟩
  · cases failed
  · exact changed

theorem fchmod_failed {fd : Ino} {mode : Mode} {e : Errno} {world after : World}
    (run : (fchmod host fd mode).run world = .ok (.error e) after) : after.tree = world.tree := by
  rcases call_ok run with ⟨e, -, kept⟩ | ⟨answered, -⟩
  · exact kept
  · cases answered

/-! ## The walk -/

/-- What a judged ancestor is, given who owns what is below it. -/
structure Judged (node : Node) (us : Uid) (childOwner : Option Uid) : Prop where
  real : node.kind = .directory
  trusted : node.Trusted us
  mode : node.mode &&& 0o022 = 0 ∨ node.Sticky ∧ ∀ owner, childOwner = some owner → owner = us ∨ owner = 0

theorem Judged.shields {node : Node} {us : Uid} {childOwner : Option Uid} {owner : Uid}
    (judged : Judged node us childOwner) (owned : ∀ other, childOwner = some other → other = owner)
    (whose : childOwner = none → owner = us ∨ owner = 0) : node.Shields us owner := by
  constructor
  · exact judged.trusted
  · rcases judged.mode with clear | ⟨sticky, below⟩
    · exact .inl clear
    · right
      constructor
      · exact sticky
      · cases known : childOwner with
        | none => exact whose known
        | some other => exact owned other known ▸ below other known

theorem keeps_judge (path : Absolute) (childOwner : Option Uid) :
    Keeps World.tree (judge host path childOwner) := by
  unfold judge
  apply (keeps_symlinkMetadata path).bind
  intro reply
  match reply with
  | .ok node =>
      dsimp only
      split
      · exact keeps_throw _
      · split
        · exact keeps_throw _
        · split
          · exact keeps_throw _
          · exact keeps_pure _
  | .error .noent => exact keeps_pure _
  | .error .notdir => exact keeps_throw _
  | .error .loop => exact keeps_throw _
  | .error (.other n) => exact keeps_throw _

theorem keeps_judgeFrom (path : Absolute) (childOwner : Option Uid) :
    Keeps World.tree (judgeFrom host path childOwner) := by
  induction path generalizing childOwner with
  | nil => exact (keeps_judge [] childOwner).bind fun _ => keeps_pure _
  | cons component path ih => exact (keeps_judge _ childOwner).bind ih

theorem judge_ok {path : Absolute} {childOwner below : Option Uid} {ino : Ino} {world after : World}
    (found : world.tree.lookup path = .ok ino)
    (run : (judge host path childOwner).run world = .ok below after) :
    Judged (world.tree.node ino) host.uid childOwner ∧ below = some (world.tree.node ino).owner := by
  unfold judge at run
  obtain ⟨reply, _, called, run⟩ := bind_ok.1 run
  rcases symlinkMetadata_ok found called with rfl | ⟨⟨e, present⟩, rfl⟩
  · dsimp only at run
    split at run
    · exact absurd run throw_ok
    · rename_i real
      split at run
      · exact absurd run throw_ok
      · rename_i owner
        split at run
        · exact absurd run throw_ok
        · rename_i mode
          obtain ⟨rfl, -⟩ := pure_ok.1 run
          constructor
          · constructor
            · exact not_not.1 real
            · rcases not_and_or.1 owner with ours | root
              · exact .inl (not_not.1 ours)
              · exact .inr (not_not.1 root)
            · rcases not_and_or.1 mode with clear | sticky
              · exact .inl (not_not.1 clear)
              · obtain ⟨sticky, below⟩ := not_not.1 sticky
                right
                constructor
                · exact sticky
                · simpa [Option.all_eq_true] using below
          · rfl
  · match e with
    | .noent => exact absurd rfl present
    | .notdir => exact absurd run throw_ok
    | .loop => exact absurd run throw_ok
    | .other n => exact absurd run throw_ok

/-- Everything from the root down to a path is real, and no stranger can move what is on the way. -/
structure Walked (tree : Tree) (us : Uid) (path : Absolute) : Prop where
  real : ∀ above ino, above <:+ path → tree.lookup above = .ok ino →
    (tree.node ino).kind = .directory ∧ (tree.node ino).Trusted us
  shields : ∀ component above parent child, component :: above <:+ path →
    tree.lookup above = .ok parent → tree.lookup (component :: above) = .ok child →
    (tree.node parent).Shields us (tree.node child).owner

theorem Walked.below {tree : Tree} {us : Uid} {path : Absolute} {component : Component}
    (walked : Walked tree us path) {child : Ino} (found : tree.lookup (component :: path) = .ok child)
    (real : (tree.node child).kind = .directory) (trusted : (tree.node child).Trusted us)
    (shields : ∀ parent, tree.lookup path = .ok parent →
      (tree.node parent).Shields us (tree.node child).owner) :
    Walked tree us (component :: path) := by
  constructor
  · intro above ino suffix located
    rcases List.suffix_cons_iff.1 suffix with rfl | suffix
    · rw [found] at located
      cases located
      exact ⟨real, trusted⟩
    · exact walked.real above ino suffix located
  · intro other above parent ino suffix upper lower
    rcases List.suffix_cons_iff.1 suffix with same | suffix
    · cases same
      rw [found] at lower
      cases lower
      exact shields parent upper
    · exact walked.shields other above parent ino suffix upper lower

theorem judgeFrom_ok {path : Absolute} {childOwner : Option Uid} {ino : Ino} {world after : World}
    (found : world.tree.lookup path = .ok ino)
    (run : (judgeFrom host path childOwner).run world = .ok () after) :
    Walked world.tree host.uid path ∧ Judged (world.tree.node ino) host.uid childOwner := by
  induction path generalizing childOwner ino world with
  | nil =>
      obtain ⟨_, _, judged, -⟩ := bind_ok.1 run
      obtain ⟨judged, -⟩ := judge_ok found judged
      constructor
      · constructor
        · intro above other suffix located
          cases List.suffix_nil.1 suffix
          rw [found] at located
          cases located
          exact ⟨judged.real, judged.trusted⟩
        · intro component above parent child suffix
          cases List.suffix_nil.1 suffix
      · exact judged
  | cons component path ih =>
      obtain ⟨below, between, first, rest⟩ := bind_ok.1 run
      have same : between.tree = world.tree := (keeps_judge _ _).ok first
      obtain ⟨judged, rfl⟩ := judge_ok found first
      obtain ⟨parent, upper⟩ := Tree.lookup_parent found
      rw [← same] at upper
      obtain ⟨walked, above⟩ := ih upper rest
      rw [same] at walked above upper
      constructor
      · apply walked.below found judged.real judged.trusted
        intro other located
        rw [upper] at located
        cases located
        apply above.shields
        · intro owner same
          exact (Option.some.inj same).symm
        · intro none
          cases none
      · exact judged

/-! ## The whole check -/

theorem keeps_checkTrustedAncestors (dir : Absolute) :
    Keeps World.tree (checkTrustedAncestors host dir) := by
  apply (keeps_symlinkMetadata dir).bind
  intro reply
  cases dir with
  | nil => exact keeps_pure _
  | cons component parent => exact keeps_judgeFrom parent _

theorem keeps_refuseUnopenable (dir : Absolute) (e : Errno) :
    Keeps World.tree (refuseUnopenable host dir e) := by
  unfold refuseUnopenable
  split
  · apply (keeps_symlinkMetadata dir).bind
    intro reply
    cases reply with
    | error e => exact keeps_throw _
    | ok node =>
        dsimp only
        split
        · exact keeps_throw _
        · exact keeps_throw _
  · exact keeps_throw _

theorem refuseUnopenable_ok {dir : Absolute} {e : Errno} {world after : World} {answer : Bool} :
    (refuseUnopenable host dir e).run world ≠ .ok answer after := by
  intro run
  unfold refuseUnopenable at run
  split at run
  · obtain ⟨reply, _, -, run⟩ := bind_ok.1 run
    cases reply with
    | error e => exact throw_ok run
    | ok node =>
        dsimp only at run
        split at run
        · exact throw_ok run
        · exact throw_ok run
  · exact throw_ok run

theorem checkRunDir_ok {dir : Absolute} {world after : World}
    (run : (checkRunDir host dir).run world = .ok true after) :
    ∃ fd between, (checkTrustedAncestors host dir).run world = .ok () between ∧
      world.tree.lookup dir = .ok fd ∧ (world.tree.node fd).kind = .directory ∧
      (world.tree.node fd).owner = host.uid ∧
      (after.tree = world.tree ∧ (world.tree.node fd).mode = DIR_MODE ∨
        after.tree = world.tree.chmod fd DIR_MODE) := by
  unfold checkRunDir at run
  obtain ⟨_, between, ancestors, run⟩ := bind_ok.1 run
  obtain ⟨opened, open_world, opening, run⟩ := bind_ok.1 run
  have same : open_world.tree = world.tree :=
    ((keeps_openDirectory dir).ok opening).trans ((keeps_checkTrustedAncestors dir).ok ancestors)
  match opened with
  | .error .noent => cases (pure_ok.1 run).1
  | .error .notdir => exact absurd run refuseUnopenable_ok
  | .error .loop => exact absurd run refuseUnopenable_ok
  | .error (.other n) => exact absurd run refuseUnopenable_ok
  | .ok fd =>
      obtain ⟨found, real⟩ := openDirectory_ok opening
      rw [(keeps_checkTrustedAncestors dir).ok ancestors] at found real
      obtain ⟨answered, stat_world, examining, run⟩ := bind_ok.1 run
      have stat_same : stat_world.tree = world.tree := ((keeps_fstat fd).ok examining).trans same
      cases answered with
      | error e => exact absurd run throw_ok
      | ok stat =>
          have stat_eq := fstat_ok examining
          rw [same] at stat_eq
          subst stat_eq
          dsimp only at run
          split at run
          · exact absurd run throw_ok
          · rename_i owner
            split at run
            · exact absurd run throw_ok
            · split at run
              · rename_i mode
                refine ⟨fd, between, ancestors, found, real, not_not.1 owner, .inl ⟨?_, mode⟩⟩
                rw [← (pure_ok.1 run).2, stat_same]
              · obtain ⟨tightened, last_world, tightening, run⟩ := bind_ok.1 run
                cases tightened with
                | error e => exact absurd run throw_ok
                | ok _ =>
                    refine ⟨fd, between, ancestors, found, real, not_not.1 owner, .inr ?_⟩
                    rw [← (pure_ok.1 run).2, fchmod_ok tightening, stat_same]

theorem checkRunDir_error {dir : Absolute} {world after : World} {refusal : Refusal}
    (run : (checkRunDir host dir).run world = .error refusal after) : after.tree = world.tree := by
  unfold checkRunDir at run
  rcases bind_error.1 run with failed | ⟨_, between, ancestors, run⟩
  · exact (keeps_checkTrustedAncestors dir).error failed
  · rcases bind_error.1 run with failed | ⟨opened, open_world, opening, run⟩
    · rw [(keeps_openDirectory dir).error failed, (keeps_checkTrustedAncestors dir).ok ancestors]
    · have same : open_world.tree = world.tree :=
        ((keeps_openDirectory dir).ok opening).trans ((keeps_checkTrustedAncestors dir).ok ancestors)
      rw [← same]
      match opened with
      | .error .noent => exact absurd run pure_error
      | .error .notdir => exact (keeps_refuseUnopenable dir _).error run
      | .error .loop => exact (keeps_refuseUnopenable dir _).error run
      | .error (.other n) => exact (keeps_refuseUnopenable dir _).error run
      | .ok fd =>
          rcases bind_error.1 run with failed | ⟨answered, stat_world, examining, run⟩
          · exact (keeps_fstat fd).error failed
          · rw [← (keeps_fstat fd).ok examining]
            cases answered with
            | error e => rw [(throw_error.1 run).2]
            | ok stat =>
                dsimp only at run
                split at run
                · rw [(throw_error.1 run).2]
                · split at run
                  · rw [(throw_error.1 run).2]
                  · split at run
                    · exact absurd run pure_error
                    · rcases bind_error.1 run with failed | ⟨tightened, last_world, tightening, run⟩
                      · exact absurd failed call_error
                      · cases tightened with
                        | error e => rw [← (throw_error.1 run).2, fchmod_failed tightening]
                        | ok _ => exact absurd run pure_error

theorem checkTrustedAncestors_ok {dir : Absolute} {fd : Ino} {world after : World}
    (run : (checkTrustedAncestors host dir).run world = .ok () after)
    (found : world.tree.lookup dir = .ok fd) (real : (world.tree.node fd).kind = .directory)
    (ours : (world.tree.node fd).owner = host.uid) : Walked world.tree host.uid dir := by
  cases dir with
  | nil =>
      constructor
      · intro above ino suffix located
        cases List.suffix_nil.1 suffix
        rw [found] at located
        cases located
        exact ⟨real, .inl ours⟩
      · intro component above parent child suffix
        cases List.suffix_nil.1 suffix
  | cons component path =>
      obtain ⟨reply, between, looked, run⟩ := bind_ok.1 run
      have same : between.tree = world.tree := (keeps_symlinkMetadata _).ok looked
      obtain ⟨parent, upper⟩ := Tree.lookup_parent found
      rw [← same] at upper
      obtain ⟨walked, judged⟩ := judgeFrom_ok upper run
      rw [same] at walked judged upper
      apply walked.below found real (.inl ours)
      intro other located
      rw [upper] at located
      cases located
      apply judged.shields
      · intro owner known
        rcases symlinkMetadata_ok found looked with rfl | ⟨e, rfl⟩
        · exact (Option.some.inj known).symm
        · cases known
      · exact fun _ => .inl ours

theorem Walked.chmod {tree : Tree} {us : Uid} {path : Absolute} (walked : Walked tree us path)
    (fd : Ino) {mode : Mode} (clear : mode &&& 0o022 = 0) : Walked (tree.chmod fd mode) us path := by
  constructor
  · intro above ino suffix located
    rw [Tree.lookup_chmod] at located
    unfold Node.Trusted
    rw [Tree.chmod_kind, Tree.chmod_owner]
    exact walked.real above ino suffix located
  · intro component above parent child suffix upper lower
    rw [Tree.lookup_chmod] at upper lower
    have shields := walked.shields component above parent child suffix upper lower
    have owner : ((tree.chmod fd mode).node parent).Trusted us := by
      unfold Node.Trusted
      rw [Tree.chmod_owner]
      exact shields.trusted
    constructor
    · exact owner
    · unfold Node.Sticky
      rw [Tree.chmod_mode, Tree.chmod_owner]
      split
      · exact .inl clear
      · exact shields.mode

theorem run_dir_not_redirected (host : Host) (world : World) (dir : Absolute) :
    (∀ env path, runDir env = some path → ∃ front, ∃ name : Name, path = push front name.bytes ∧
      absolute path = .normal name.bytes :: absolute front) ∧
    (∀ after, (checkRunDir host dir).run world = .ok true after →
      (∃ fd, after.tree.lookup dir = .ok fd ∧ (after.tree.node fd).kind = .directory ∧
        (after.tree.node fd).owner = host.uid ∧ (after.tree.node fd).mode = DIR_MODE) ∧
      (∀ above, above <:+ dir → ∃ ino, after.tree.lookup above = .ok ino ∧
        (after.tree.node ino).kind = .directory ∧
        ((after.tree.node ino).owner = host.uid ∨ (after.tree.node ino).owner = 0)) ∧
      ∀ component above, component :: above <:+ dir → ∃ parent child,
        after.tree.lookup above = .ok parent ∧ after.tree.lookup (component :: above) = .ok child ∧
        ∀ member user, user ≠ host.uid → user ≠ 0 →
          ¬ (after.tree.node parent).MayRename (after.tree.node child) member user) ∧
    ∀ refusal after, (checkRunDir host dir).run world = .error refusal after →
      ∀ ino, (after.tree.node ino).mode = (world.tree.node ino).mode := by
  refine ⟨fun env path found => runDir_ends found, ?_, ?_⟩
  · intro after run
    obtain ⟨fd, between, ancestors, found, real, ours, set⟩ := checkRunDir_ok run
    have walked := checkTrustedAncestors_ok ancestors found real ours
    have ended : after.tree.lookup dir = .ok fd ∧ (after.tree.node fd).kind = .directory ∧
        (after.tree.node fd).owner = host.uid ∧ (after.tree.node fd).mode = DIR_MODE ∧
        Walked after.tree host.uid dir := by
      rcases set with ⟨same, mode⟩ | changed
      · rw [same]
        exact ⟨found, real, ours, mode, walked⟩
      · rw [changed, Tree.lookup_chmod, Tree.chmod_kind, Tree.chmod_owner, Tree.chmod_mode, if_pos rfl]
        exact ⟨found, real, ours, rfl, walked.chmod fd (by decide)⟩
    obtain ⟨found, real, ours, mode, walked⟩ := ended
    constructor
    · exact ⟨fd, found, real, ours, mode⟩
    · constructor
      · intro above suffix
        obtain ⟨ino, located⟩ := Tree.lookup_suffix suffix found
        exact ⟨ino, located, walked.real above ino suffix located⟩
      · intro component above suffix
        obtain ⟨child, lower⟩ := Tree.lookup_suffix suffix found
        obtain ⟨parent, upper⟩ := Tree.lookup_parent lower
        refine ⟨parent, child, upper, lower, ?_⟩
        intro member user other not_root
        exact (walked.shields component above parent child suffix upper lower).not_mayRename
          member other not_root
  · intro refusal after run ino
    rw [checkRunDir_error run]

/-- `/tmp/u/nomux`, below a `/tmp` of this mode that is root's. -/
def belowTmp (mode : Mode) : Tree where
  root := 0
  node ino := match ino with
    | 0 => ⟨0, 0, .directory, 0o755⟩
    | 1 => ⟨0, 0, .directory, mode⟩
    | _ => ⟨1000, 1000, .directory, 0o755⟩
  entry ino name := match ino with
    | 0 => if name = Wire.utf8 "tmp" then some 1 else none
    | 1 => if name = Wire.utf8 "u" then some 2 else none
    | 2 => if name = Wire.utf8 "nomux" then some 3 else none
    | _ => none
  up ino := ino - 1
  target _ := .error .noent

def runtimeDir (name : String) : Option Path :=
  if name = "XDG_RUNTIME_DIR" then some (Wire.utf8 "/tmp/u") else none

/-- Nobody else renames `u` in the sticky `/tmp`, and without the bit the directory is refused. -/
theorem run_dir_not_redirected_below_tmp : ∃ path, runDir runtimeDir = some path ∧
    (∃ after, (checkRunDir ⟨1000, fun _ => none⟩ (absolute path)).run ⟨belowTmp 0o1777, 0⟩ =
        .ok true after ∧
      (∃ fd, after.tree.lookup (absolute path) = .ok fd ∧ (after.tree.node fd).mode = DIR_MODE) ∧
      ∃ parent child, after.tree.lookup [.normal (Wire.utf8 "tmp")] = .ok parent ∧
        after.tree.lookup [.normal (Wire.utf8 "u"), .normal (Wire.utf8 "tmp")] = .ok child ∧
        ∀ member user, user ≠ 1000 → user ≠ 0 →
          ¬ (after.tree.node parent).MayRename (after.tree.node child) member user) ∧
    ∃ refusal after, (checkRunDir ⟨1000, fun _ => none⟩ (absolute path)).run ⟨belowTmp 0o777, 0⟩ =
        .error refusal after ∧
      ∀ ino, (after.tree.node ino).mode = ((belowTmp 0o777).node ino).mode := by
  obtain ⟨path, found⟩ : ∃ path, runDir runtimeDir = some path := ⟨_, rfl⟩
  have spelled : absolute path =
      [.normal (Wire.utf8 "nomux"), .normal (Wire.utf8 "u"), .normal (Wire.utf8 "tmp")] := by
    cases found
    decide
  obtain ⟨after, accepted⟩ : ∃ after, (checkRunDir ⟨1000, fun _ => none⟩ (absolute path)).run
      ⟨belowTmp 0o1777, 0⟩ = .ok true after := by
    rw [spelled]
    exact ⟨_, rfl⟩
  obtain ⟨refusal, before, refused⟩ : ∃ refusal after, (checkRunDir ⟨1000, fun _ => none⟩
      (absolute path)).run ⟨belowTmp 0o777, 0⟩ = .error refusal after := by
    rw [spelled]
    exact ⟨_, _, rfl⟩
  obtain ⟨-, fine, -⟩ := run_dir_not_redirected ⟨1000, fun _ => none⟩ ⟨belowTmp 0o1777, 0⟩ (absolute path)
  obtain ⟨-, -, still⟩ := run_dir_not_redirected ⟨1000, fun _ => none⟩ ⟨belowTmp 0o777, 0⟩ (absolute path)
  obtain ⟨⟨fd, located, -, -, mode⟩, -, shields⟩ := fine after accepted
  refine ⟨path, found, ⟨after, accepted, ⟨fd, located, mode⟩, ?_⟩, refusal, before, refused, still _ _ refused⟩
  exact shields _ _ (by rw [spelled]; exact List.suffix_cons ..)

end Nomux.Trust
