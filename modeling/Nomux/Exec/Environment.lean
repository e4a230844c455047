import Nomux.Lib.Search
import Nomux.Wire.Fields

/-!
# The child's environment

`Program` of `exec.rs` and the block that `environment` hands to `execve`.
-/

namespace Nomux.Exec
open Wire

/-! ## The program to run -/

/-- The bytes of a string that ends at its first NUL. -/
structure CString where
  bytes : Bytes
  plain : 0 ∉ bytes
deriving DecidableEq

inductive ErrorKind
  | invalidInput
deriving DecidableEq, Repr

structure Program where
  path : CString
  args : List CString
  overrides : List CString
  dir : Option CString
deriving DecidableEq

def nulTerminated (bytes : Bytes) : Except ErrorKind CString :=
  if plain : 0 ∉ bytes then .ok ⟨bytes, plain⟩ else .error .invalidInput

def equals : UInt8 := 61

def keyOf (entry : Bytes) : Option Bytes := do
  let position ← entry.findIdx? (· == equals)
  return entry.take position

/-- A method that takes `&mut self`: on an error the program is what the method left. -/
abbrev Update := EStateM ErrorKind Program

def Update.lift {α : Type} : Except ErrorKind α → Update α
  | .ok value => pure value
  | .error kind => throw kind

namespace Program

def new (path argv0 : Bytes) : Except ErrorKind Program := do
  let path ← nulTerminated path
  let argv0 ← nulTerminated argv0
  return { path, args := [argv0], overrides := [], dir := none }

def env (key : String) (value : Bytes) : Update Unit := do
  if key.isEmpty || (utf8 key).contains equals then
    throw .invalidInput
  let entry ← Update.lift (nulTerminated (utf8 key ++ equals :: value))
  modify fun program => { program with
    overrides := program.overrides.filter fun held => keyOf held.bytes != some (utf8 key) }
  modify fun program => { program with overrides := program.overrides ++ [entry] }

end Program

/-! ## The block -/

def shadowed (entry : Bytes) (overrides : List CString) : Bool :=
  match keyOf entry with
  | none => false
  | some key => overrides.any fun held => keyOf held.bytes == some key

def environment (environ overrides : List CString) : List CString :=
  (environ.filter fun entry => !shadowed entry.bytes overrides) ++ overrides

/-- What libc answers for a variable: the rest of the first entry that begins `key=`. -/
def getenv (block : List CString) (key : Bytes) : Option Bytes :=
  block.findSome? fun entry =>
    if (key ++ [equals]).isPrefixOf entry.bytes then some (entry.bytes.drop (key.length + 1)) else none

/-! ## Keys -/

theorem keyOf_append {key : Bytes} (bare : equals ∉ key) (value : Bytes) :
    keyOf (key ++ equals :: value) = some key := by
  simp only [keyOf, Search.findIdx?_append bare, Option.bind_eq_bind, Option.bind_some, Option.pure_def]
  rw [List.take_left]

theorem keyOf_eq_some {entry key : Bytes} :
    keyOf entry = some key ↔ equals ∉ key ∧ ∃ value, entry = key ++ equals :: value := by
  constructor
  · intro named
    simp only [keyOf, Option.bind_eq_bind, Option.pure_def, Option.bind_eq_some_iff,
      Option.some.injEq] at named
    obtain ⟨position, found, rfl⟩ := named
    obtain ⟨bare, whole⟩ := Search.of_findIdx? found
    exact ⟨bare, _, whole⟩
  · rintro ⟨bare, value, rfl⟩
    exact keyOf_append bare value

theorem isPrefixOf_iff_keyOf {entry key : Bytes} (bare : equals ∉ key) :
    (key ++ [equals]).isPrefixOf entry = true ↔ keyOf entry = some key := by
  rw [List.isPrefixOf_iff_prefix, keyOf_eq_some]
  constructor
  · rintro ⟨value, rfl⟩
    exact ⟨bare, value, by simp⟩
  · rintro ⟨-, value, rfl⟩
    exact ⟨value, by simp⟩

/-! ## Sequences of settings -/

def Program.envs (calls : List (String × Bytes)) : Update Unit :=
  calls.forM fun call => Program.env call.1 call.2

def lastSet (calls : List (String × Bytes)) (key : String) : Option Bytes :=
  (calls.reverse.find? fun call => call.1 = key).map (·.2)

def Overridden (calls : List (String × Bytes)) (entry : CString) : Prop :=
  ∃ call ∈ calls, keyOf entry.bytes = some (utf8 call.1)

instance (calls : List (String × Bytes)) (entry : CString) : Decidable (Overridden calls entry) :=
  inferInstanceAs (Decidable (∃ call ∈ calls, _))

@[simp] theorem lastSet_nil (key : String) : lastSet [] key = none := rfl

theorem lastSet_snoc (calls : List (String × Bytes)) (set key : String) (value : Bytes) :
    lastSet (calls ++ [(set, value)]) key = if set = key then some value else lastSet calls key := by
  unfold lastSet
  rw [List.reverse_append, List.reverse_singleton, List.singleton_append, List.find?_cons]
  by_cases same : set = key
  · simp [same]
  · simp [same]

theorem overridden_iff {calls : List (String × Bytes)} {entry : CString} :
    Overridden calls entry ↔
      ∃ key value, lastSet calls key = some value ∧ keyOf entry.bytes = some (utf8 key) := by
  constructor
  · rintro ⟨call, member, named⟩
    have found : (calls.reverse.find? fun other => other.1 = call.1).isSome := by
      apply List.find?_isSome.2
      exact ⟨call, List.mem_reverse.2 member, by simp⟩
    obtain ⟨last, last_eq⟩ := Option.isSome_iff_exists.1 found
    exact ⟨call.1, last.2, by simp [lastSet, last_eq], named⟩
  · rintro ⟨key, value, last, named⟩
    obtain ⟨call, found, -⟩ := Option.map_eq_some_iff.1 last
    have same : call.1 = key := by simpa using List.find?_some found
    exact ⟨call, List.mem_reverse.1 (List.mem_of_find?_eq_some found), same ▸ named⟩

/-! ## One call -/

theorem env_ok {key : String} {value : Bytes} {program set : Program}
    (done : (Program.env key value).run program = .ok () set) :
    equals ∉ utf8 key ∧ ∃ entry : CString, entry.bytes = utf8 key ++ equals :: value ∧
      set = { program with
        overrides := (program.overrides.filter fun held => keyOf held.bytes != some (utf8 key)) ++ [entry] } := by
  unfold Program.env at done
  by_cases refused : (key.isEmpty || (utf8 key).contains equals) = true
  · rw [if_pos refused] at done
    cases done
  · rw [if_neg refused] at done
    have bare : equals ∉ utf8 key := by simp_all
    by_cases plain : 0 ∉ utf8 key ++ equals :: value
    · simp only [nulTerminated, dif_pos plain] at done
      cases done
      exact ⟨bare, ⟨_, plain⟩, rfl, rfl⟩
    · simp only [nulTerminated, dif_neg plain] at done
      cases done

theorem env_refused {key : String} {value : Bytes} {program left : Program} {kind : ErrorKind}
    (refused : (Program.env key value).run program = .error kind left) : left = program := by
  unfold Program.env at refused
  by_cases bad : (key.isEmpty || (utf8 key).contains equals) = true
  · rw [if_pos bad] at refused
    cases refused
    rfl
  · rw [if_neg bad] at refused
    by_cases plain : 0 ∉ utf8 key ++ equals :: value
    · simp only [nulTerminated, dif_pos plain] at refused
      cases refused
    · simp only [nulTerminated, dif_neg plain] at refused
      cases refused
      rfl

/-! ## The overrides after a sequence -/

/-- Each variable the calls set is overridden once, by the value set last, and nothing else is. -/
structure Settled (calls : List (String × Bytes)) (overrides : List CString) : Prop where
  bare : ∀ key value, lastSet calls key = some value → equals ∉ utf8 key
  once : ∀ key value, lastSet calls key = some value →
    (overrides.filter fun held => keyOf held.bytes = some (utf8 key)).map CString.bytes =
      [utf8 key ++ equals :: value]
  latest : ∀ held ∈ overrides, ∃ key value,
    lastSet calls key = some value ∧ held.bytes = utf8 key ++ equals :: value

theorem settled_nil : Settled [] [] where
  bare := by simp
  once := by simp
  latest := by simp

theorem Settled.set {calls : List (String × Bytes)} {overrides : List CString}
    (settled : Settled calls overrides) {key : String} {value : Bytes} (bare : equals ∉ utf8 key)
    {entry : CString} (bytes : entry.bytes = utf8 key ++ equals :: value) :
    Settled (calls ++ [(key, value)])
      ((overrides.filter fun held => keyOf held.bytes != some (utf8 key)) ++ [entry]) := by
  have names : keyOf entry.bytes = some (utf8 key) := by
    rw [bytes]
    exact keyOf_append bare value
  constructor
  · intro other last set
    rw [lastSet_snoc] at set
    by_cases same : key = other
    · exact same ▸ bare
    · rw [if_neg same] at set
      exact settled.bare other last set
  · intro other last set
    rw [lastSet_snoc] at set
    rw [List.filter_append, List.filter_filter]
    by_cases same : key = other
    · -- every earlier setting of this key was dropped
      subst same
      rw [if_pos rfl] at set
      cases set
      rw [List.filter_eq_nil_iff.2 (by simp), List.filter_cons_of_pos (by simp [names])]
      simp [bytes]
    · -- neither the dropped entries nor the new one name `other`
      rw [if_neg same] at set
      have apart : utf8 key ≠ utf8 other := fun equal => same (utf8_injective equal)
      rw [← settled.once other last set, List.map_append]
      have kept : ∀ held ∈ overrides, (decide (keyOf held.bytes = some (utf8 other)) &&
          keyOf held.bytes != some (utf8 key)) = decide (keyOf held.bytes = some (utf8 other)) := by
        intro held _
        by_cases named : keyOf held.bytes = some (utf8 other)
        · simp [named, Ne.symm apart]
        · simp [named]
      rw [List.filter_congr kept]
      simp [names, apart]
  · intro held member
    rcases List.mem_append.1 member with earlier | new
    · obtain ⟨earlier, unnamed⟩ := List.mem_filter.1 earlier
      obtain ⟨other, last, set, other_bytes⟩ := settled.latest held earlier
      use other, last, ?_, other_bytes
      rw [lastSet_snoc, if_neg]
      · exact set
      · intro same
        rw [other_bytes, ← same, keyOf_append bare] at unnamed
        simp at unnamed
    · cases List.mem_singleton.1 new
      exact ⟨key, value, by rw [lastSet_snoc, if_pos rfl], bytes⟩

theorem Settled.envs {calls before : List (String × Bytes)} {program final : Program}
    (settled : Settled before program.overrides)
    (done : (Program.envs calls).run program = .ok () final) :
    Settled (before ++ calls) final.overrides := by
  induction calls generalizing before program with
  | nil =>
      cases done
      rwa [List.append_nil]
  | cons call calls ih =>
      change EStateM.bind (Program.env call.1 call.2) (fun _ => Program.envs calls) program = _ at done
      unfold EStateM.bind at done
      cases first : Program.env call.1 call.2 program with
      | error kind left =>
          rw [first] at done
          cases done
      | ok _ set =>
          rw [first] at done
          obtain ⟨bare, entry, bytes, rfl⟩ := env_ok first
          have := ih (settled.set bare bytes) done
          rwa [List.append_assoc] at this

/-! ## The rendered block -/

theorem shadowed_iff {calls : List (String × Bytes)} {overrides : List CString}
    (settled : Settled calls overrides) (entry : CString) :
    shadowed entry.bytes overrides = true ↔ Overridden calls entry := by
  rw [overridden_iff]
  unfold shadowed
  cases named : keyOf entry.bytes with
  | none => simp
  | some name =>
      simp only [List.any_eq_true, beq_iff_eq, Option.some.injEq]
      constructor
      · rintro ⟨held, member, same⟩
        obtain ⟨key, value, last, bytes⟩ := settled.latest held member
        rw [bytes, keyOf_append (settled.bare key value last)] at same
        exact ⟨key, value, last, (Option.some.inj same).symm⟩
      · rintro ⟨key, value, last, rfl⟩
        have once := settled.once key value last
        obtain ⟨held, kept, -⟩ := List.map_eq_singleton_iff.1 once
        have member : held ∈ overrides.filter fun held => keyOf held.bytes = some (utf8 key) := by
          rw [kept]
          exact List.mem_singleton_self held
        obtain ⟨member, names⟩ := List.mem_filter.1 member
        exact ⟨held, member, by simpa using names⟩

theorem environment_eq {calls : List (String × Bytes)} {overrides : List CString}
    (settled : Settled calls overrides) (inherited : List CString) :
    environment inherited overrides =
      (inherited.filter fun entry => ¬ Overridden calls entry) ++ overrides := by
  unfold environment
  congr 1
  apply List.filter_congr
  intro entry _
  rw [decide_not, ← Bool.decide_coe (shadowed entry.bytes overrides)]
  simp only [shadowed_iff settled entry]

theorem getenv_of_once {block : List CString} {key value : Bytes} (bare : equals ∉ key)
    (once : (block.filter fun entry => keyOf entry.bytes = some key).map CString.bytes =
      [key ++ equals :: value]) : getenv block key = some value := by
  induction block with
  | nil => cases once
  | cons entry block ih =>
      unfold getenv
      rw [List.findSome?_cons]
      by_cases named : keyOf entry.bytes = some key
      · rw [if_pos ((isPrefixOf_iff_keyOf bare).2 named)]
        rw [List.filter_cons_of_pos (by simpa using named), List.map_cons, List.cons.injEq] at once
        rw [once.1]
        simp
      · rw [if_neg (fun found => named ((isPrefixOf_iff_keyOf bare).1 found))]
        apply ih
        rwa [List.filter_cons_of_neg (by simpa using named)] at once

theorem new_overrides {path argv0 : Bytes} {program : Program}
    (created : Program.new path argv0 = .ok program) : program.overrides = [] := by
  unfold Program.new at created
  cases path_ok : nulTerminated path with
  | error kind =>
      rw [path_ok] at created
      cases created
  | ok _ =>
      cases argv0_ok : nulTerminated argv0 with
      | error kind =>
          rw [path_ok, argv0_ok] at created
          cases created
      | ok _ =>
          rw [path_ok, argv0_ok] at created
          cases created
          rfl

theorem environment_overrides {path argv0 : Bytes} {fresh program : Program}
    {calls : List (String × Bytes)} (created : Program.new path argv0 = .ok fresh)
    (done : (Program.envs calls).run fresh = .ok () program) (inherited : List CString) :
    (∀ key value, lastSet calls key = some value →
      ((environment inherited program.overrides).filter fun entry =>
        keyOf entry.bytes = some (utf8 key)).map CString.bytes = [utf8 key ++ equals :: value] ∧
      getenv (environment inherited program.overrides) (utf8 key) = some value) ∧
    ((environment inherited program.overrides).filter fun entry => ¬ Overridden calls entry) =
      inherited.filter (fun entry => ¬ Overridden calls entry) ∧
    (∀ entry ∈ environment inherited program.overrides,
      entry ∈ inherited ∧ ¬ Overridden calls entry ∨
      ∃ key value, lastSet calls key = some value ∧ entry.bytes = utf8 key ++ equals :: value) ∧
    ∀ key value kind left, (Program.env key value).run program = .error kind left →
      left.overrides = program.overrides := by
  have settled : Settled calls program.overrides := by
    have := settled_nil
    rw [← new_overrides created] at this
    exact this.envs done
  have named : ∀ held ∈ program.overrides, Overridden calls held := by
    intro held member
    obtain ⟨key, value, last, bytes⟩ := settled.latest held member
    apply overridden_iff.2
    exact ⟨key, value, last, by rw [bytes, keyOf_append (settled.bare key value last)]⟩
  rw [environment_eq settled]
  refine ⟨?_, ?_, ?_, ?_⟩
  · intro key value last
    have once := settled.once key value last
    have kept : (inherited.filter fun entry => ¬ Overridden calls entry).filter
        (fun entry => keyOf entry.bytes = some (utf8 key)) = [] := by
      apply List.filter_eq_nil_iff.2
      intro entry member same
      have unset := (List.mem_filter.1 member).2
      apply of_decide_eq_true unset
      exact overridden_iff.2 ⟨key, value, last, of_decide_eq_true same⟩
    have whole : (((inherited.filter fun entry => ¬ Overridden calls entry) ++ program.overrides).filter
        fun entry => keyOf entry.bytes = some (utf8 key)).map CString.bytes =
          [utf8 key ++ equals :: value] := by
      rw [List.filter_append, kept, List.nil_append]
      exact once
    exact ⟨whole, getenv_of_once (settled.bare key value last) whole⟩
  · have none : program.overrides.filter (fun entry => ¬ Overridden calls entry) = [] := by
      apply List.filter_eq_nil_iff.2
      intro held member
      simpa using named held member
    rw [List.filter_append, none, List.append_nil, List.filter_filter]
    simp only [Bool.and_self]
  · intro entry member
    rcases List.mem_append.1 member with kept | set
    · left
      obtain ⟨kept, unset⟩ := List.mem_filter.1 kept
      exact ⟨kept, of_decide_eq_true unset⟩
    · right
      exact settled.latest entry set
  · intro key value kind left refused
    rw [env_refused refused]

theorem environment_overrides_twice :
    ∃ fresh program, Program.new [47] [45] = .ok fresh ∧
      (Program.envs [("TERM", [100]), ("LANG", []), ("TERM", [120])]).run fresh = .ok () program ∧
      getenv (environment [⟨[84, 69, 82, 77, 61, 111], by decide⟩, ⟨[84], by decide⟩] program.overrides)
        (utf8 "TERM") = some [120] := by
  have created : Program.new [47] [45] = .ok ⟨⟨[47], by decide⟩, [⟨[45], by decide⟩], [], none⟩ := rfl
  obtain ⟨program, done⟩ : ∃ program, (Program.envs [("TERM", [100]), ("LANG", []), ("TERM", [120])]).run
      ⟨⟨[47], by decide⟩, [⟨[45], by decide⟩], [], none⟩ = .ok () program := ⟨_, rfl⟩
  exact ⟨_, program, created, done,
    ((environment_overrides created done _).1 "TERM" [120] (by decide)).2⟩

end Nomux.Exec
