import Nomux.Lib.Search
import Nomux.Lib.UnixPath
import Nomux.Cli.Args
import Nomux.Wire.Fields
import Nomux.Rundir.Kernel

/-!
# Names in the run directory

How a session id is read from a name, how a path is built from an id, and which names a collection
removes: `rundir.rs` over the bytes of paths.
-/

namespace Nomux.RunNames
open Wire UnixPath Program
open Rundir (Errno)

/-! ## Reading names -/

/-- The id is what precedes the first dot. -/
def splitRunName (path : Path) : Option (String × Bytes) := do
  let name ← fileName path
  let position ← name.findIdx? (· == dot)
  let id ← fromUtf8 (name.take position)
  return (id, name.drop (position + 1))

def sessionIdOf (path : Path) : Option String :=
  ((splitRunName path).map (·.1)).filter fun id => isValidSessionId (utf8 id)

/-- The order of `str`. -/
def Before (a b : String) : Prop := utf8 a < utf8 b

instance : DecidableRel Before := fun a b => inferInstanceAs (Decidable (utf8 a < utf8 b))

/-- Where an id is, or else where it would keep the ids ascending. -/
def binarySearch (ids : List String) (id : String) : Except Nat Nat :=
  let position := Search.place Before ids id
  if ids[position]? = some id then .ok position else .error position

def insertId (ids : List String) (id : String) : List String :=
  match binarySearch ids id with
  | .ok _ => ids
  | .error position => ids.insertIdx position id

abbrev Entries := List (Except Errno Name)

def collectIds (dir : Path) : Entries → List String → Except Errno (List String)
  | [], ids => .ok ids
  | .error e :: _, _ => .error e
  | .ok entry :: rest, ids =>
      match sessionIdOf (push dir entry.bytes) with
      | none => collectIds dir rest ids
      | some id => collectIds dir rest (insertId ids id)

def sessionIds (dir : Path) (scan : Except Errno Entries) : Except Errno (List String) := do
  collectIds dir (← scan) []

/-! ## The paths of a session -/

structure SessionPaths where
  dir : Path
  id : String
  valid : isValidSessionId (utf8 id) = true

namespace SessionPaths

def withExtension (paths : SessionPaths) (extension : String) : Path :=
  push (push [] paths.dir) (utf8 paths.id) ++ dot :: utf8 extension

def socket (paths : SessionPaths) : Path := paths.withExtension "sock"

def pid (paths : SessionPaths) : Path := paths.withExtension "pid"

def lock (paths : SessionPaths) : Path := paths.withExtension "lock"

def label (paths : SessionPaths) : Path := paths.withExtension "label"

def agent (paths : SessionPaths) : Path := paths.withExtension "agent"

def already : List Bytes := ["sock", "pid", "label", "agent", "lock"].map utf8

inductive Failure
  | scan (id : String) (dir : Path) (e : Errno)
  | removal (id : String) (path : Path) (e : Errno)
deriving DecidableEq

def isOther (paths : SessionPaths) (path : Path) : Bool :=
  match splitRunName path with
  | none => false
  | some (id, extension) => id = paths.id ∧ extension ∉ already

/-- The other names a scan found, and its first failure. -/
def scanned (paths : SessionPaths) : Entries → List Path × Option Failure
  | [] => ([], none)
  | .error e :: rest => ((paths.scanned rest).1, some (.scan paths.id paths.dir e))
  | .ok entry :: rest =>
      let path := push paths.dir entry.bytes
      let (others, failure) := paths.scanned rest
      (if paths.isOther path then path :: others else others, failure)

/-- `removal_order` once the directory was opened or was not. -/
def order (paths : SessionPaths) (scan : Except Errno Entries) : List Path × Option Failure :=
  let named := [paths.socket, paths.pid, paths.label, paths.agent]
  match scan with
  | .error e => (named ++ [paths.lock], some (.scan paths.id paths.dir e))
  | .ok entries => (named ++ (paths.scanned entries).1 ++ [paths.lock], (paths.scanned entries).2)

end SessionPaths

/-! ## Collecting a session -/

inductive Call
  | readDir (dir : Path)
  | removeFile (path : Path)
  | removeDir (path : Path)

abbrev Reply : Call → Type
  | .readDir _ => Except Errno Entries
  | .removeFile _ => Except Errno Unit
  | .removeDir _ => Except Errno Unit

def removeNode (path : Path) : Program Reply (Except Errno Unit) := do
  match ← ask (Call.removeFile path) with
  | .error .isdir => ask (Call.removeDir path)
  | settled => pure settled

namespace SessionPaths

def removalOrder (paths : SessionPaths) : Program Reply (List Path × Option Failure) := do
  return paths.order (← ask (Call.readDir paths.dir))

def removeEach (paths : SessionPaths) : List Path → Option Failure → Program Reply (Option Failure)
  | [], failure => pure failure
  | path :: rest, failure => do
      match ← removeNode path with
      | .ok () => paths.removeEach rest failure
      | .error .noent => paths.removeEach rest failure
      | .error e => paths.removeEach rest (some (failure.getD (.removal paths.id path e)))

def unlinkLocked (paths : SessionPaths) (includeLock : Bool) : Program Reply (Option Failure) := do
  let (order, failure) ← paths.removalOrder
  paths.removeEach (order.take (order.length - if includeLock then 0 else 1)) failure

end SessionPaths

/-! ## The first dot -/

/-- The part of the name before its first dot is the id. -/
def Of (id : String) (name : Name) : Prop :=
  dot ∉ utf8 id ∧ ∃ extension, name.bytes = utf8 id ++ dot :: extension

theorem valid_bytes {id : Bytes} (valid : isValidSessionId id = true) :
    id ≠ [] ∧ dot ∉ id ∧ separator ∉ id := by
  simp only [isValidSessionId, Bool.and_eq_true, Bool.not_eq_true', decide_eq_true_eq] at valid
  obtain ⟨⟨⟨nonempty, -⟩, -⟩, bytes⟩ := valid
  constructor
  · intro empty
    rw [empty] at nonempty
    cases nonempty
  · constructor
    · intro member
      exact absurd (List.all_eq_true.1 bytes dot member) (by decide)
    · intro member
      exact absurd (List.all_eq_true.1 bytes separator member) (by decide)

theorem splitRunName_push {dir : Path} {name : Name} {id : String} {extension : Bytes} :
    splitRunName (push dir name.bytes) = some (id, extension) ↔
      dot ∉ utf8 id ∧ name.bytes = utf8 id ++ dot :: extension := by
  unfold splitRunName
  rw [fileName_push]
  simp only [Option.bind_eq_bind, Option.bind_some, Option.pure_def, Option.bind_eq_some_iff,
    Option.some.injEq, Prod.mk.injEq, fromUtf8_eq_some]
  constructor
  · rintro ⟨position, found, _, read, rfl, rfl⟩
    obtain ⟨bare, whole⟩ := Search.of_findIdx? found
    rw [read] at bare whole
    exact ⟨bare, whole⟩
  · rintro ⟨bare, whole⟩
    use (utf8 id).length
    rw [whole]
    exact ⟨Search.findIdx?_append bare _, id, List.take_left, rfl, by simp⟩

theorem sessionIdOf_push {dir : Path} {name : Name} {id : String} :
    sessionIdOf (push dir name.bytes) = some id ↔ isValidSessionId (utf8 id) = true ∧ Of id name := by
  unfold sessionIdOf
  simp only [Option.filter_eq_some_iff, Option.map_eq_some_iff, Prod.exists, exists_and_right,
    exists_eq_right, splitRunName_push]
  constructor
  · rintro ⟨⟨extension, bare, whole⟩, valid⟩
    exact ⟨valid, bare, extension, whole⟩
  · rintro ⟨valid, bare, extension, whole⟩
    exact ⟨⟨extension, bare, whole⟩, valid⟩

/-! ## Ids of a directory -/

theorem Before.trans {a b c : String} (first : Before a b) (second : Before b c) : Before a c :=
  List.lt_trans first second

theorem Before.connected {a b : String} (not : ¬ Before a b) (apart : a ≠ b) : Before b a := by
  by_contra other
  exact apart (utf8_injective (List.le_antisymm other not))

theorem mem_insertId {ids : List String} {id other : String} :
    other ∈ insertId ids id ↔ other = id ∨ other ∈ ids := by
  unfold insertId binarySearch
  by_cases known : ids[Search.place Before ids id]? = some id
  · simp only [if_pos known]
    constructor
    · exact Or.inr
    · rintro (rfl | member)
      · exact List.mem_of_getElem? known
      · exact member
  · simp only [if_neg known]
    exact Search.mem_insertIdx_place

theorem insertId_ascending {ids : List String} (ascending : ids.Pairwise Before) (id : String) :
    (insertId ids id).Pairwise Before := by
  unfold insertId binarySearch
  by_cases known : ids[Search.place Before ids id]? = some id
  · simpa only [if_pos known] using ascending
  · simp only [if_neg known]
    exact Search.ascending_insertIdx (fun {a b c} => @Before.trans a b c)
      (fun {a b} => @Before.connected a b) ascending known

theorem collectIds_ok (dir : Path) (names : List Name) {ids : List String}
    (ascending : ids.Pairwise Before) :
    ∃ all, collectIds dir (names.map .ok) ids = .ok all ∧ all.Pairwise Before ∧
      ∀ id, id ∈ all ↔ id ∈ ids ∨ isValidSessionId (utf8 id) = true ∧ ∃ name ∈ names, Of id name := by
  induction names generalizing ids with
  | nil => exact ⟨ids, rfl, ascending, by simp⟩
  | cons name names ih =>
      rw [List.map_cons, collectIds]
      cases read : sessionIdOf (push dir name.bytes) with
      | none =>
          obtain ⟨all, collected, sorted, members⟩ := ih ascending
          use all, collected, sorted
          intro id
          rw [members id, List.exists_mem_cons_iff]
          have not : ¬ (isValidSessionId (utf8 id) = true ∧ Of id name) := by
            rw [← @sessionIdOf_push dir, read]
            simp
          tauto
      | some found =>
          obtain ⟨all, collected, sorted, members⟩ := ih (insertId_ascending ascending found)
          use all, collected, sorted
          intro id
          have owner : found = id ↔ isValidSessionId (utf8 id) = true ∧ Of id name := by
            rw [← @sessionIdOf_push dir, read, Option.some.injEq]
          rw [members id, mem_insertId, List.exists_mem_cons_iff, eq_comm, owner]
          tauto

theorem sessionIds_ok (dir : Path) (names : List Name) :
    ∃ ids, sessionIds dir (.ok (names.map .ok)) = .ok ids ∧ ids.Pairwise Before ∧
      ∀ id, id ∈ ids ↔ isValidSessionId (utf8 id) = true ∧ ∃ name ∈ names, Of id name := by
  obtain ⟨ids, collected, ascending, members⟩ := collectIds_ok dir names List.Pairwise.nil
  exact ⟨ids, collected, ascending, by simpa using members⟩

/-! ## Paths of a session -/

def SessionPaths.name (paths : SessionPaths) (extension : Bytes) (single : separator ∉ extension) :
    Name where
  bytes := utf8 paths.id ++ dot :: extension
  single := by
    obtain ⟨-, -, plain⟩ := valid_bytes paths.valid
    rw [List.mem_append, List.mem_cons]
    rintro (inside | same | inside)
    · exact plain inside
    · cases same
    · exact single inside
  proper := by
    obtain ⟨nonempty, bare, -⟩ := valid_bytes paths.valid
    obtain ⟨byte, rest, id_eq⟩ := List.exists_cons_of_ne_nil nonempty
    have first : byte ≠ dot := by
      intro same
      rw [id_eq, same] at bare
      exact bare List.mem_cons_self
    apply component_of_proper
    · simp
    · simp [id_eq]
    · simp [id_eq, first]

theorem SessionPaths.withExtension_eq (paths : SessionPaths) (extension : String)
    (single : separator ∉ utf8 extension) :
    paths.withExtension extension = push paths.dir (paths.name (utf8 extension) single).bytes := by
  obtain ⟨nonempty, -, plain⟩ := valid_bytes paths.valid
  have relative : (utf8 paths.id).head? ≠ some separator := by
    intro leading
    exact plain (List.mem_of_mem_head? leading)
  have from_dir : push [] paths.dir = paths.dir := by
    unfold push
    split
    · rfl
    · simp
  have extended : (paths.name (utf8 extension) single).bytes = utf8 paths.id ++ dot :: utf8 extension := rfl
  unfold withExtension
  rw [from_dir, push_relative _ relative, push_relative _ (Name.relative _), extended, List.append_assoc]

theorem SessionPaths.of_name (paths : SessionPaths) (extension : Bytes)
    (single : separator ∉ extension) : Of paths.id (paths.name extension single) :=
  ⟨(valid_bytes paths.valid).2.1, extension, rfl⟩

theorem SessionPaths.sessionIdOf_withExtension (paths : SessionPaths) (extension : String)
    (single : separator ∉ utf8 extension) :
    sessionIdOf (paths.withExtension extension) = some paths.id := by
  rw [paths.withExtension_eq extension single, sessionIdOf_push]
  exact ⟨paths.valid, paths.of_name _ single⟩

/-! ## What a collection removes -/

namespace SessionPaths

/-- The names the layout has frozen, the lock last. -/
def frozen (paths : SessionPaths) : List Path :=
  [paths.socket, paths.pid, paths.label, paths.agent, paths.lock]

/-- The names of `order`, where the scan found `found`. -/
def orderNames (paths : SessionPaths) (found : List Name) : List Name :=
  [paths.name (utf8 "sock") (by decide), paths.name (utf8 "pid") (by decide),
    paths.name (utf8 "label") (by decide), paths.name (utf8 "agent") (by decide)] ++
  found.filter (fun name => paths.isOther (push paths.dir name.bytes)) ++
  [paths.name (utf8 "lock") (by decide)]

def found : Except Errno Entries → List Name
  | .error _ => []
  | .ok entries => entries.filterMap Except.toOption

theorem scanned_eq (paths : SessionPaths) (entries : Entries) :
    (paths.scanned entries).1 =
      ((found (.ok entries)).filter fun name => paths.isOther (push paths.dir name.bytes)).map
        fun name => push paths.dir name.bytes := by
  induction entries with
  | nil => rfl
  | cons entry entries ih =>
      cases entry with
      | error e => exact ih
      | ok name =>
          unfold scanned
          simp only [found, List.filterMap_cons, Except.toOption, List.filter_cons] at ih ⊢
          by_cases other : paths.isOther (push paths.dir name.bytes) = true
          · simp [other, ih]
          · simp [other, ih]

theorem order_eq (paths : SessionPaths) (scan : Except Errno Entries) :
    (paths.order scan).1 = (paths.orderNames (found scan)).map fun name => push paths.dir name.bytes := by
  unfold order orderNames socket pid label agent lock
  rw [paths.withExtension_eq "sock" (by decide), paths.withExtension_eq "pid" (by decide),
    paths.withExtension_eq "label" (by decide), paths.withExtension_eq "agent" (by decide),
    paths.withExtension_eq "lock" (by decide)]
  cases scan with
  | error e => rfl
  | ok entries =>
      simp only [scanned_eq, List.map_append]
      rfl

theorem isOther_push (paths : SessionPaths) (name : Name) :
    paths.isOther (push paths.dir name.bytes) = true ↔
      ∃ extension, extension ∉ already ∧ name.bytes = utf8 paths.id ++ dot :: extension := by
  have bare := (valid_bytes paths.valid).2.1
  unfold isOther
  cases split : splitRunName (push paths.dir name.bytes) with
  | none =>
      simp only [Bool.false_eq_true, false_iff]
      rintro ⟨extension, -, whole⟩
      rw [splitRunName_push.2 ⟨bare, whole⟩] at split
      cases split
  | some parts =>
      obtain ⟨id, extension⟩ := parts
      simp only [decide_eq_true_eq]
      constructor
      · rintro ⟨rfl, fresh⟩
        exact ⟨extension, fresh, (splitRunName_push.1 split).2⟩
      · rintro ⟨other, fresh, whole⟩
        rw [splitRunName_push.2 ⟨bare, whole⟩] at split
        cases split
        exact ⟨rfl, fresh⟩

theorem mem_orderNames {paths : SessionPaths} {found : List Name} {name : Name} :
    name ∈ paths.orderNames found ↔
      (∃ extension ∈ already, name.bytes = utf8 paths.id ++ dot :: extension) ∨
        name ∈ found ∧ Of paths.id name := by
  have bare := (valid_bytes paths.valid).2.1
  have fixed (extension : Bytes) (single : separator ∉ extension) :
      name = paths.name extension single ↔ name.bytes = utf8 paths.id ++ dot :: extension := by
    cases name
    simp [SessionPaths.name]
  have named : (∃ extension ∈ already, name.bytes = utf8 paths.id ++ dot :: extension) ↔
      (name.bytes = utf8 paths.id ++ dot :: utf8 "sock" ∨ name.bytes = utf8 paths.id ++ dot :: utf8 "pid" ∨
        name.bytes = utf8 paths.id ++ dot :: utf8 "label" ∨
        name.bytes = utf8 paths.id ++ dot :: utf8 "agent") ∨
      name.bytes = utf8 paths.id ++ dot :: utf8 "lock" := by
    simp [already, or_assoc]
  have listed : name ∈ paths.orderNames found ↔
      (∃ extension ∈ already, name.bytes = utf8 paths.id ++ dot :: extension) ∨
        name ∈ found ∧ paths.isOther (push paths.dir name.bytes) = true := by
    rw [named]
    simp only [orderNames, List.mem_append, List.mem_cons, List.not_mem_nil, or_false, fixed,
      List.mem_filter]
    exact or_right_comm
  rw [listed]
  constructor
  · rintro (known | ⟨member, other⟩)
    · exact .inl known
    · obtain ⟨extension, -, whole⟩ := (paths.isOther_push name).1 other
      exact .inr ⟨member, bare, extension, whole⟩
  · rintro (known | ⟨member, -, extension, whole⟩)
    · exact .inl known
    · by_cases known : extension ∈ already
      · exact .inl ⟨extension, known, whole⟩
      · exact .inr ⟨member, (paths.isOther_push name).2 ⟨extension, known, whole⟩⟩

theorem nodup_orderNames (paths : SessionPaths) {found : List Name} (once : found.Nodup) :
    (paths.orderNames found).Nodup := by
  have fixed : ∀ name ∈ found.filter (fun name => paths.isOther (push paths.dir name.bytes)),
      ∀ extension ∈ already, ∀ single, name ≠ paths.name extension single := by
    intro name member extension known single same
    obtain ⟨-, other⟩ := List.mem_filter.1 member
    obtain ⟨fresh, unknown, whole⟩ := (paths.isOther_push name).1 other
    rw [same] at whole
    have : extension = fresh := by simpa [SessionPaths.name] using whole
    exact unknown (this ▸ known)
  have apart (a b : Bytes) (a_single : separator ∉ a) (b_single : separator ∉ b) :
      paths.name a a_single = paths.name b b_single ↔ a = b := by
    simp [SessionPaths.name]
  unfold orderNames
  rw [List.nodup_append, List.nodup_append]
  constructor
  · constructor
    · simp only [List.nodup_cons, List.mem_cons, List.not_mem_nil, apart]
      decide
    · constructor
      · exact once.filter _
      · intro first member name other same
        simp only [List.mem_cons, List.not_mem_nil, or_false] at member
        rcases member with rfl | rfl | rfl | rfl <;>
          exact fixed name other _ (by decide) (by decide) same.symm
  · constructor
    · exact List.nodup_singleton _
    · intro first member lock last same
      cases List.mem_singleton.1 last
      rcases List.mem_append.1 member with front | other
      · subst same
        simp only [List.mem_cons, List.not_mem_nil, or_false, apart] at front
        revert front
        decide
      · exact fixed first other _ (by decide) (by decide) same

theorem already_single : ∀ extension ∈ already, separator ∉ extension := by
  decide

theorem frozen_eq (paths : SessionPaths) :
    paths.frozen = already.map fun extension => push paths.dir (utf8 paths.id ++ dot :: extension) := by
  have each (extension : String) (single : separator ∉ utf8 extension) :
      paths.withExtension extension = push paths.dir (utf8 paths.id ++ dot :: utf8 extension) :=
    paths.withExtension_eq extension single
  unfold frozen socket pid label agent lock already
  rw [each "sock" (by decide), each "pid" (by decide), each "label" (by decide),
    each "agent" (by decide), each "lock" (by decide)]
  rfl

theorem mem_order {paths : SessionPaths} {scan : Except Errno Entries} {path : Path} :
    path ∈ (paths.order scan).1 ↔
      path ∈ paths.frozen ∨ ∃ name ∈ found scan, Of paths.id name ∧ path = push paths.dir name.bytes := by
  have named : path ∈ paths.frozen ↔ ∃ name : Name,
      (∃ extension ∈ already, name.bytes = utf8 paths.id ++ dot :: extension) ∧
        path = push paths.dir name.bytes := by
    rw [frozen_eq, List.mem_map]
    constructor
    · rintro ⟨extension, known, rfl⟩
      exact ⟨paths.name extension (already_single extension known), ⟨extension, known, rfl⟩, rfl⟩
    · rintro ⟨name, ⟨extension, known, whole⟩, rfl⟩
      exact ⟨extension, known, by rw [whole]⟩
  rw [order_eq, List.mem_map, named]
  simp only [mem_orderNames]
  constructor
  · rintro ⟨name, known | ⟨member, owned⟩, rfl⟩
    · exact .inl ⟨name, known, rfl⟩
    · exact .inr ⟨name, member, owned, rfl⟩
  · rintro (⟨name, known, rfl⟩ | ⟨name, member, owned, rfl⟩)
    · exact ⟨name, .inl known, rfl⟩
    · exact ⟨name, .inr ⟨member, owned⟩, rfl⟩

theorem of_mem_order {paths : SessionPaths} {scan : Except Errno Entries} {path : Path}
    (member : path ∈ (paths.order scan).1) :
    ∃ name, Of paths.id name ∧ path = push paths.dir name.bytes := by
  rw [order_eq, List.mem_map] at member
  obtain ⟨name, listed, rfl⟩ := member
  rcases mem_orderNames.1 listed with ⟨extension, -, whole⟩ | ⟨-, owned⟩
  · exact ⟨name, ⟨(valid_bytes paths.valid).2.1, extension, whole⟩, rfl⟩
  · exact ⟨name, owned, rfl⟩

/-- A call that removes nothing but names of the session. -/
def Allows (paths : SessionPaths) (_ : Unit) : Call → Prop
  | .readDir dir => dir = paths.dir
  | .removeFile path => ∃ name, Of paths.id name ∧ path = push paths.dir name.bytes
  | .removeDir path => ∃ name, Of paths.id name ∧ path = push paths.dir name.bytes

abbrev Keeps {α : Type} (paths : SessionPaths) (program : Program Reply α)
    (post : α → Prop) : Prop :=
  program.Follows (fun _ _ _ => ()) paths.Allows () fun _ => post

theorem removeNode_keeps {paths : SessionPaths} {path : Path}
    (owned : ∃ name, Of paths.id name ∧ path = push paths.dir name.bytes) :
    paths.Keeps (removeNode path) fun _ => True := by
  unfold removeNode
  apply follows_bind.2
  apply follows_ask.2
  constructor
  · exact owned
  · intro reply
    split
    · exact follows_ask.2 ⟨owned, fun _ => trivial⟩
    · exact follows_pure.2 trivial

theorem removeEach_keeps {paths : SessionPaths} {order : List Path} (failure : Option Failure)
    (owned : ∀ path ∈ order, ∃ name, Of paths.id name ∧ path = push paths.dir name.bytes) :
    paths.Keeps (paths.removeEach order failure) fun _ => True := by
  induction order generalizing failure with
  | nil => exact follows_pure.2 trivial
  | cons path order ih =>
      have rest (failure : Option Failure) := ih failure fun path member =>
        owned path (List.mem_cons_of_mem _ member)
      unfold removeEach
      apply (removeNode_keeps (owned path List.mem_cons_self)).bind
      intro _ reply _
      split
      · exact rest failure
      · exact rest failure
      · exact rest _

theorem unlinkLocked_keeps (paths : SessionPaths) (includeLock : Bool) :
    paths.Keeps (paths.unlinkLocked includeLock) fun _ => True := by
  unfold unlinkLocked removalOrder
  apply follows_bind.2
  apply follows_bind.2
  apply follows_ask.2
  constructor
  · rfl
  · intro scan
    apply removeEach_keeps
    intro path member
    exact of_mem_order (List.mem_of_mem_take member)

end SessionPaths

/-! ## Sessions partition the names -/

theorem Of.unique {a b : String} {name : Name} (first : Of a name) (second : Of b name) : a = b := by
  obtain ⟨a_bare, a_rest, a_whole⟩ := first
  obtain ⟨b_bare, b_rest, b_whole⟩ := second
  have position := Search.findIdx?_append a_bare a_rest
  rw [← a_whole, b_whole, Search.findIdx?_append b_bare, Option.some.injEq] at position
  have fronts := congrArg (List.take (utf8 b).length) (a_whole.symm.trans b_whole)
  rw [List.take_left, position, List.take_left] at fronts
  exact utf8_injective fronts

theorem run_names_partition (dir : Path) :
    (∀ names : List Name, ∃ ids, sessionIds dir (.ok (names.map .ok)) = .ok ids ∧
      ids.Pairwise Before ∧
      ∀ id, id ∈ ids ↔ isValidSessionId (utf8 id) = true ∧ ∃ name ∈ names, Of id name) ∧
    (∀ paths : SessionPaths, ∀ extension, separator ∉ utf8 extension →
      (∃ name : Name, components (paths.withExtension extension) =
        components paths.dir ++ [.normal name.bytes]) ∧
      sessionIdOf (paths.withExtension extension) = some paths.id) ∧
    (∀ paths : SessionPaths, ∀ names : List Name, names.Nodup →
      (paths.order (.ok (names.map .ok))).1.Nodup ∧
      (paths.order (.ok (names.map .ok))).1.getLast? = some paths.lock ∧
      ∀ path, path ∈ (paths.order (.ok (names.map .ok))).1 ↔
        path ∈ paths.frozen ∨ ∃ name ∈ names, Of paths.id name ∧ path = push paths.dir name.bytes) ∧
    (∀ paths other : SessionPaths, paths.id ≠ other.id → ∀ scan scan',
      ∀ path ∈ (paths.order scan).1, ∀ path' ∈ (other.order scan').1, fileName path ≠ fileName path') ∧
    ∀ paths : SessionPaths, ∀ includeLock trace left,
      Runs (paths.unlinkLocked includeLock) trace left → ∀ e ∈ trace, ∀ name, ¬ Of paths.id name →
        e.1 ≠ .removeFile (push paths.dir name.bytes) ∧
          e.1 ≠ .removeDir (push paths.dir name.bytes) := by
  have all_found (names : List Name) : SessionPaths.found (.ok (names.map .ok)) = names := by
    simp [SessionPaths.found, List.filterMap_map, Function.comp_def, Except.toOption]
  refine ⟨sessionIds_ok dir, ?_, ?_, ?_, ?_⟩
  · intro paths extension single
    constructor
    · use paths.name (utf8 extension) single
      rw [paths.withExtension_eq extension single, components_push]
    · exact paths.sessionIdOf_withExtension extension single
  · intro paths names once
    constructor
    · rw [SessionPaths.order_eq, all_found]
      apply List.Nodup.map _ (paths.nodup_orderNames once)
      intro a b same
      exact push_injective same
    · constructor
      · exact List.getLast?_concat
      · intro path
        rw [SessionPaths.mem_order, all_found]
  · intro paths other apart scan scan' path member path' member' same
    obtain ⟨name, owned, rfl⟩ := SessionPaths.of_mem_order member
    obtain ⟨name', owned', rfl⟩ := SessionPaths.of_mem_order member'
    rw [fileName_push, fileName_push, Option.some.injEq] at same
    have equal : name = name' := push_injective (congrArg (push dir) same)
    exact apart (owned.unique (equal ▸ owned'))
  · intro paths includeLock trace left run e member name foreign
    obtain ⟨before, later, split⟩ := List.append_of_mem member
    have allowed := (paths.unlinkLocked_keeps includeLock).allowed run before e later split
    constructor
    · intro call
      rw [call] at allowed
      obtain ⟨owner, owned, same⟩ := allowed
      exact foreign (push_injective same ▸ owned)
    · intro call
      rw [call] at allowed
      obtain ⟨owner, owned, same⟩ := allowed
      exact foreign (push_injective same ▸ owned)

def tab_7 : SessionPaths := ⟨utf8 "/run", "tab_7", by decide⟩

def tab_72 : SessionPaths := ⟨utf8 "/run", "tab_72", by decide⟩

def bothTabs : List Name :=
  [⟨utf8 "tab_72.sock", by decide, by decide⟩, ⟨utf8 "tab_7.sock", by decide, by decide⟩,
    ⟨utf8 "tab_7.tmp", by decide, by decide⟩]

/-- `tab_7` is collected beside its neighbour `tab_72`. -/
theorem run_names_partition_tabs :
    (∃ ids, sessionIds (utf8 "/run") (.ok (bothTabs.map .ok)) = .ok ids ∧ ids.Pairwise Before ∧
      "tab_7" ∈ ids ∧ "tab_72" ∈ ids) ∧
    sessionIdOf (tab_7.withExtension "sock") = some "tab_7" ∧
    (tab_7.order (.ok (bothTabs.map .ok))).1.Nodup ∧
    push tab_7.dir (utf8 "tab_7.tmp") ∈ (tab_7.order (.ok (bothTabs.map .ok))).1 ∧
    (∀ path ∈ (tab_7.order (.ok (bothTabs.map .ok))).1,
      ∀ path' ∈ (tab_72.order (.ok (bothTabs.map .ok))).1, fileName path ≠ fileName path') ∧
    ∃ trace left, Runs (tab_7.unlinkLocked true) trace left ∧ trace.length = 2 ∧
      ∀ e ∈ trace, e.1 ≠ .removeFile (push tab_7.dir (utf8 "tab_72.sock")) := by
  obtain ⟨listed, extended, ordered, apart, removed⟩ := run_names_partition (utf8 "/run")
  obtain ⟨ids, found, ascending, members⟩ := listed bothTabs
  have once : bothTabs.Nodup := by decide
  have run : ∃ left, Runs (tab_7.unlinkLocked true)
      [⟨.readDir tab_7.dir, .ok (bothTabs.map .ok)⟩, ⟨.removeFile tab_7.socket, .ok ()⟩] left :=
    ⟨_, .call (.call .stop)⟩
  obtain ⟨left, run⟩ := run
  have foreign : ¬ Of tab_7.id ⟨utf8 "tab_72.sock", by decide, by decide⟩ := by
    intro owned
    have here : Of "tab_72" ⟨utf8 "tab_72.sock", by decide, by decide⟩ := ⟨by decide, utf8 "sock", by decide⟩
    exact absurd (owned.unique here) (by decide)
  refine ⟨⟨ids, found, ascending, (members _).2 ⟨by decide, _, List.mem_of_getElem? (i := 1) rfl,
      by decide, utf8 "sock", by decide⟩, (members _).2 ⟨by decide, _, List.mem_of_getElem? (i := 0) rfl,
      by decide, utf8 "sock", by decide⟩⟩, (extended tab_7 "sock" (by decide)).2,
    (ordered tab_7 bothTabs once).1, ?_, apart tab_7 tab_72 (by decide) _ _, _, left, run, rfl,
    fun e member => (removed tab_7 true _ left run e member _ foreign).1⟩
  exact ((ordered tab_7 bothTabs once).2.2 _).2 (.inr ⟨_, List.mem_of_getElem? (i := 2) rfl,
    ⟨by decide, utf8 "tmp", by decide⟩, rfl⟩)

end Nomux.RunNames
