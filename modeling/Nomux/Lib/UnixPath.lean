import Mathlib.Tactic

/-!
# Unix paths

A path as `std::path` reads it: components between separators, where repeated separators and `.`
between them say nothing. `push` is how one name is put below a directory.
-/

namespace UnixPath

abbrev Path := List UInt8

def separator : UInt8 := 0x2f

def dot : UInt8 := 0x2e

inductive Component
  | rootDir
  | curDir
  | parentDir
  | normal (name : Path)
deriving DecidableEq

def component (piece : Path) : Option Component :=
  if piece = [] ∨ piece = [dot] then none
  else if piece = [dot, dot] then some .parentDir
  else some (.normal piece)

/-- The component that only the start of a path can be. -/
def lead (path : Path) : List Component :=
  if path.head? = some separator then [.rootDir]
  else if (path.splitOn separator).head? = some [dot] then [.curDir]
  else []

def components (path : Path) : List Component :=
  lead path ++ (path.splitOn separator).filterMap component

/-- The last component, where it is a name. -/
def fileName (path : Path) : Option Path :=
  match (components path).getLast? with
  | some (.normal name) => some name
  | _ => none

def push (path name : Path) : Path :=
  if name.head? = some separator then name
  else if path = [] ∨ path.getLast? = some separator then path ++ name
  else path ++ separator :: name

structure Name where
  bytes : Path
  single : separator ∉ bytes
  proper : component bytes = some (.normal bytes)
deriving DecidableEq

theorem component_of_proper {name : Path} (nonempty : name ≠ []) (one : name ≠ [dot])
    (two : name ≠ [dot, dot]) : component name = some (.normal name) := by
  unfold component
  rw [if_neg (by simp [nonempty, one]), if_neg two]

theorem Name.not_dot (name : Name) : name.bytes ≠ [dot] := by
  intro same
  have proper := name.proper
  rw [same] at proper
  cases proper

theorem Name.relative (name : Name) : name.bytes.head? ≠ some separator := by
  intro leading
  exact name.single (List.mem_of_mem_head? leading)

theorem push_relative (path : Path) {name : Path} (relative : name.head? ≠ some separator) :
    push path name =
      (if path = [] ∨ path.getLast? = some separator then path else path ++ [separator]) ++ name := by
  unfold push
  rw [if_neg relative]
  split
  · rfl
  · rw [List.append_assoc, List.singleton_append]

theorem Name.splitOn (name : Name) : name.bytes.splitOn separator = [name.bytes] := by
  apply List.splitOnP_eq_singleton
  intro byte member
  apply beq_false_of_ne
  intro same
  exact name.single (same ▸ member)

@[simp] theorem Name.filterMap (name : Name) :
    [name.bytes].filterMap component = [.normal name.bytes] := by
  rw [List.filterMap_cons_some name.proper, List.filterMap_nil]

@[simp] theorem component_nil : component [] = none := rfl

theorem splitOn_append (front back : Path) :
    (front ++ separator :: back).splitOn separator =
      front.splitOn separator ++ back.splitOn separator :=
  List.splitOnP_append_cons front back (by simp)

theorem lead_append (front back other : Path) :
    lead (front ++ separator :: back) = lead (front ++ separator :: other) := by
  have first (rest : Path) : ((front ++ separator :: rest).splitOn separator).head? =
      (front.splitOn separator).head? := by
    rw [splitOn_append, List.head?_append_of_ne_nil _ (List.splitOn_ne_nil separator front)]
  unfold lead
  rw [first, first]
  cases front with
  | nil => rfl
  | cons byte front => rfl

theorem components_append (front : Path) (name : Name) :
    components (front ++ separator :: name.bytes) =
      components (front ++ [separator]) ++ [.normal name.bytes] := by
  unfold components
  rw [lead_append front name.bytes [], splitOn_append, splitOn_append, name.splitOn]
  simp

theorem components_slash {path : Path} (nonempty : path ≠ []) :
    components (path ++ [separator]) = components path := by
  have first : lead (path ++ [separator]) = lead path := by
    unfold lead
    rw [splitOn_append, List.head?_append_of_ne_nil _ (List.splitOn_ne_nil separator path)]
    obtain ⟨byte, rest, rfl⟩ := List.exists_cons_of_ne_nil nonempty
    rfl
  unfold components
  rw [first, splitOn_append]
  simp

theorem components_push (path : Path) (name : Name) :
    components (push path name.bytes) = components path ++ [.normal name.bytes] := by
  unfold push
  rw [if_neg name.relative]
  split
  · rename_i joined
    rcases joined with rfl | last
    · show components name.bytes = _
      unfold components lead
      rw [if_neg name.relative, name.splitOn, if_neg (by simp [name.not_dot])]
      simp
    · obtain ⟨front, rfl⟩ := List.getLast?_eq_some_iff.1 last
      rw [List.append_assoc]
      exact components_append front name
  · rename_i apart
    rw [components_append, components_slash (by simp_all)]

theorem components_rooted {path : Path} (rooted : path.head? = some separator) : components path ≠ [] := by
  unfold components lead
  rw [if_pos rooted]
  exact List.cons_ne_nil _ _

theorem head?_push {path name : Path} (rooted : path.head? = some separator)
    (relative : name.head? ≠ some separator) : (push path name).head? = some separator := by
  rw [push_relative path relative]
  cases path with
  | nil => cases rooted
  | cons byte path =>
      split
      · exact rooted
      · exact rooted

theorem push_append {path front back : Path} (front_nonempty : front ≠ [])
    (front_relative : front.head? ≠ some separator) (front_ends : front.getLast? ≠ some separator)
    (back_relative : back.head? ≠ some separator) :
    push path (front ++ separator :: back) = push (push path front) back := by
  have whole : (front ++ separator :: back).head? ≠ some separator := by
    rwa [List.head?_append_of_ne_nil _ front_nonempty]
  have ends : ∀ base : Path, ¬ (base ++ front = [] ∨ (base ++ front).getLast? = some separator) := by
    intro base
    rw [List.getLast?_append_of_ne_nil _ front_nonempty]
    simp [front_nonempty, front_ends]
  rw [push_relative path whole, push_relative path front_relative, push_relative _ back_relative,
    if_neg (ends _)]
  simp

theorem fileName_push (path : Path) (name : Name) : fileName (push path name.bytes) = some name.bytes := by
  unfold fileName
  rw [components_push, List.getLast?_concat]

theorem push_injective {path : Path} {name other : Name}
    (same : push path name.bytes = push path other.bytes) : name = other := by
  have names := congrArg fileName same
  rw [fileName_push, fileName_push] at names
  cases name
  cases other
  cases names
  rfl

end UnixPath
