import Nomux.Lib.UnixPath

/-!
# Trees of directories and what a user may do in them

Nodes with an owner, a group, a kind and permission bits; the walk from the root that a path names;
and the right to rename or remove an entry: to write its directory, and under the sticky bit to own
the entry or the directory too. A path that is not redirected is one whose every entry is shielded.
-/

namespace DirectoryTree
open UnixPath

abbrev Ino := Nat

abbrev Uid := Nat

abbrev Gid := Nat

abbrev Mode := BitVec 12

inductive Kind
  | directory
  | symlink
  | other
deriving DecidableEq

structure Node where
  owner : Uid
  group : Gid
  kind : Kind
  mode : Mode
deriving DecidableEq

inductive Errno
  | noent
  | notdir
  | loop
  | other (n : Nat)
deriving DecidableEq

/-- Nodes by number. What a symbolic link leads to is any node or any error. -/
structure Tree where
  root : Ino
  node : Ino → Node
  entry : Ino → Path → Option Ino
  up : Ino → Ino
  target : Ino → Except Errno Ino

/-- An absolute path, by its components below the root: the last one is first. -/
abbrev Absolute := List Component

namespace Tree

/-- A component that others follow is not left a link. -/
def follow (tree : Tree) (at_node : Ino) : Except Errno Ino :=
  match (tree.node at_node).kind with
  | .symlink => tree.target at_node
  | _ => .ok at_node

def descend (tree : Tree) (directory : Ino) (component : Component) : Except Errno Ino :=
  match (tree.node directory).kind with
  | .directory =>
      match component with
      | .normal name =>
          match tree.entry directory name with
          | some child => .ok child
          | none => .error .noent
      | .parentDir => .ok (tree.up directory)
      | .curDir => .ok directory
      | .rootDir => .ok tree.root
  | _ => .error .notdir

/-- The node at a path. A link at its end is not followed. -/
def lookup (tree : Tree) : Absolute → Except Errno Ino
  | [] => .ok tree.root
  | component :: path => do
      let directory ← tree.follow (← tree.lookup path)
      tree.descend directory component

def chmod (tree : Tree) (target : Ino) (mode : Mode) : Tree :=
  { tree with node := fun ino => if ino = target then { tree.node ino with mode } else tree.node ino }

@[simp] theorem chmod_kind (tree : Tree) (target ino : Ino) (mode : Mode) :
    ((tree.chmod target mode).node ino).kind = (tree.node ino).kind := by
  unfold chmod
  dsimp only
  split <;> rfl

@[simp] theorem chmod_owner (tree : Tree) (target ino : Ino) (mode : Mode) :
    ((tree.chmod target mode).node ino).owner = (tree.node ino).owner := by
  unfold chmod
  dsimp only
  split <;> rfl

theorem chmod_mode (tree : Tree) (target ino : Ino) (mode : Mode) :
    ((tree.chmod target mode).node ino).mode =
      if ino = target then mode else (tree.node ino).mode := by
  unfold chmod
  dsimp only
  split <;> rfl

@[simp] theorem lookup_chmod (tree : Tree) (target : Ino) (mode : Mode) (path : Absolute) :
    (tree.chmod target mode).lookup path = tree.lookup path := by
  have followed : (tree.chmod target mode).follow = tree.follow := by
    funext ino
    simp only [follow, chmod_kind]
    rfl
  have descended : (tree.chmod target mode).descend = tree.descend := by
    funext ino component
    simp only [descend, chmod_kind]
    rfl
  induction path with
  | nil => rfl
  | cons component path ih =>
      unfold lookup
      rw [ih, followed, descended]

theorem lookup_parent {tree : Tree} {component : Component} {path : Absolute} {child : Ino}
    (found : tree.lookup (component :: path) = .ok child) : ∃ parent, tree.lookup path = .ok parent := by
  unfold lookup at found
  cases above : tree.lookup path with
  | error e =>
      rw [above] at found
      cases found
  | ok parent => exact ⟨parent, rfl⟩

theorem lookup_suffix {tree : Tree} {path above : Absolute} (suffix : above <:+ path) {child : Ino}
    (found : tree.lookup path = .ok child) : ∃ ino, tree.lookup above = .ok ino := by
  induction path generalizing child with
  | nil =>
      rw [List.suffix_nil.1 suffix]
      exact ⟨child, found⟩
  | cons component path ih =>
      rcases List.suffix_cons_iff.1 suffix with rfl | suffix
      · exact ⟨child, found⟩
      · obtain ⟨parent, found⟩ := lookup_parent found
        exact ih suffix found

end Tree

def Node.Writes (node : Node) (member : Uid → Gid → Prop) (user : Uid) : Prop :=
  user = 0 ∨
    (user = node.owner ∧ node.mode &&& 0o200 ≠ 0) ∨
    (user ≠ node.owner ∧ member user node.group ∧ node.mode &&& 0o020 ≠ 0) ∨
    (user ≠ node.owner ∧ ¬ member user node.group ∧ node.mode &&& 0o002 ≠ 0)

def Node.Sticky (node : Node) : Prop := node.mode &&& 0o1000 ≠ 0

/-- The right to rename, remove or replace an entry of a directory. -/
def Node.MayRename (directory child : Node) (member : Uid → Gid → Prop) (user : Uid) : Prop :=
  directory.Writes member user ∧
    (directory.Sticky → user = 0 ∨ user = child.owner ∨ user = directory.owner)

/-- The node is no one's but `us` and the superuser's. -/
def Node.Trusted (node : Node) (us : Uid) : Prop := node.owner = us ∨ node.owner = 0

/-- Others may write the directory only where the sticky bit keeps them off an entry owned so. -/
structure Node.Shields (directory : Node) (us childOwner : Uid) : Prop where
  trusted : directory.Trusted us
  mode : directory.mode &&& 0o022 = 0 ∨ directory.Sticky ∧ (childOwner = us ∨ childOwner = 0)

theorem Node.Writes.others {node : Node} {member : Uid → Gid → Prop} {us user : Uid}
    (writes : node.Writes member user) (trusted : node.Trusted us) (other : user ≠ us)
    (not_root : user ≠ 0) : node.mode &&& 0o022 ≠ 0 := by
  have stranger : user ≠ node.owner := by
    rintro rfl
    rcases trusted with same | same
    · exact other same
    · exact not_root same
  intro clear
  have narrow (bits : Mode) (within : 0o022 &&& bits = bits) : node.mode &&& bits = 0 := by
    rw [← within, ← BitVec.and_assoc, clear]
    exact BitVec.zero_and
  rcases writes with root | ⟨owner, -⟩ | ⟨-, -, group⟩ | ⟨-, -, anyone⟩
  · exact not_root root
  · exact stranger owner
  · exact group (narrow _ (by decide))
  · exact anyone (narrow _ (by decide))

theorem Node.Shields.not_mayRename {directory child : Node} {us : Uid}
    (shields : directory.Shields us child.owner) (member : Uid → Gid → Prop) {user : Uid}
    (other : user ≠ us) (not_root : user ≠ 0) : ¬ directory.MayRename child member user := by
  rintro ⟨writes, sticky⟩
  rcases shields.mode with clear | ⟨set, owned⟩
  · exact writes.others shields.trusted other not_root clear
  · rcases sticky set with root | entry | directory
    · exact not_root root
    · subst entry
      rcases owned with same | same
      · exact other same
      · exact not_root same
    · subst directory
      rcases shields.trusted with same | same
      · exact other same
      · exact not_root same

end DirectoryTree
