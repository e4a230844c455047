import Nomux.Exec.Report
import Nomux.Cli.CommandLine

/-!
# What a daemon starts with

`close_inherited_descriptors` of `startup.rs`, with and without `close_range`, on what the `execve`
behind `spawn_daemon` has left open.
-/

namespace Nomux.Spawn
open Wire Program Descriptor Table

variable {α : Type}

/-- What the kernel offers: whether it takes a range to close, and what it lists of a process. -/
structure Host (α : Type) where
  accepts : Nat → Nat → Bool
  scan : Open α → Except Errno (List (Except Errno Bytes))

def u32Max : Nat := 2 ^ 32 - 1

def toU32 (fd : Int) : Option Nat := if 0 ≤ fd then some fd.toNat else none

def dropRange (t : Open α) (first last : Nat) : Open α :=
  t.mapIdx fun fd entry => if first ≤ fd ∧ fd ≤ last then none else entry

def closeRange (host : Host α) (t : Open α) (first last : Nat) : Bool × Open α :=
  if last < first then (true, t)
  else if host.accepts first last then (true, dropRange t first last)
  else (false, t)

/-- The number a listed name adds to those to close. -/
def listed (keep : Option Nat) (name : Bytes) : Option Int :=
  ((toStr name).bind parseI32).filter fun fd => 2 < fd ∧ keep ≠ toU32 fd

/-- The numbers to close, or why the listing could not be read to its end. -/
def inherited (keep : Option Nat) : List (Except Errno Bytes) → Except Errno (List Int)
  | [] => .ok []
  | .error e :: _ => .error e
  | .ok name :: rest => (inherited keep rest).map fun later => (listed keep name).toList ++ later

def closeEach (t : Open α) (fds : List Int) : Open α := fds.foldl (fun t fd => t.close fd.toNat) t

def closeRanges (host : Host α) (t : Open α) : (keep : Option Nat) → Bool × Open α
  | none => closeRange host t (stderrFileno + 1) u32Max
  | some fd =>
      let below := closeRange host t (stderrFileno + 1) (fd - 1)
      if below.1 then closeRange host below.2 (min (fd + 1) u32Max) u32Max else below

def closeInheritedDescriptors (host : Host α) (t : Open α) (keep : Option Int) :
    Except Errno Unit × Open α :=
  let keep := keep.bind toU32
  let (closed, t) := closeRanges host t keep
  if closed then (.ok (), t)
  else
    match (host.scan t).bind (inherited keep) with
    | .error e => (.error e, t)
    | .ok fds => (.ok (), closeEach t fds)

/-- The `setup` of `spawn_daemon`: a session of its own, and the lock that outlives the `execve`. -/
def daemonSetup (lock : Fd) : List Setup := [.work, .clearCloexec lock]

/-! ## What stays open -/

def Kept (keep : Option Nat) (fd : Fd) : Prop := fd ≤ stderrFileno ∨ keep = some fd

/-- Some descriptors are closed, none of those to keep. -/
structure Trims (keep : Option Nat) (t t' : Open α) : Prop where
  kept : ∀ fd, Kept keep fd → t'.held fd = t.held fd
  gone : ∀ fd, t'.held fd = t.held fd ∨ t'.held fd = none

theorem Trims.refl (keep : Option Nat) (t : Open α) : Trims keep t t := ⟨fun _ _ => rfl, fun _ => .inl rfl⟩

theorem Trims.trans {keep : Option Nat} {t t' t'' : Open α} (h : Trims keep t t')
    (h' : Trims keep t' t'') : Trims keep t t'' := by
  refine ⟨fun fd kept => (h'.kept fd kept).trans (h.kept fd kept), fun fd => ?_⟩
  rcases h'.gone fd with same | none
  · exact (h.gone fd).imp same.trans same.trans
  · exact .inr none

theorem held_dropRange (t : Open α) (low high fd : Nat) :
    (dropRange t low high).held fd = if low ≤ fd ∧ fd ≤ high then none else t.held fd := by
  rw [held, held, dropRange, List.getElem?_mapIdx]
  cases t[fd]? with
  | none => split <;> rfl
  | some entry =>
      rw [Option.map_some, Option.join_some]
      rfl

theorem closeRange_trims (host : Host α) (t : Open α) {keep : Option Nat} {low high : Nat}
    (apart : ∀ fd, low ≤ fd → fd ≤ high → ¬ Kept keep fd) :
    Trims keep t (closeRange host t low high).2 ∧ ((closeRange host t low high).1 = true →
      ∀ fd, low ≤ fd → fd ≤ high → (closeRange host t low high).2.held fd = none) := by
  unfold closeRange
  split
  · exact ⟨.refl keep t, fun _ fd from' to' => by omega⟩
  · split
    · refine ⟨⟨fun fd kept => ?_, fun fd => ?_⟩, fun _ fd from' to' => ?_⟩
      · rw [held_dropRange, if_neg fun both => apart fd both.1 both.2 kept]
      · rw [held_dropRange]
        split
        · exact .inr rfl
        · exact .inl rfl
      · rw [held_dropRange, if_pos ⟨from', to'⟩]
    · exact ⟨.refl keep t, fun no => by cases no⟩

theorem Trims.none {keep : Option Nat} {t t' : Open α} (h : Trims keep t t') {fd : Fd}
    (closed : t.held fd = none) : t'.held fd = none := by
  rcases h.gone fd with same | none
  · exact same.trans closed
  · exact none

/-- A descriptor is an `i32`, and the lock is none of the first three. -/
theorem closeRanges_trims (host : Host α) {t : Open α} {keep : Option Nat}
    (small : ∀ fd : Nat, 2 ^ 31 ≤ fd → t.held fd = none)
    (lock : ∀ fd, keep = some fd → 2 < fd ∧ fd < 2 ^ 31) :
    Trims keep t (closeRanges host t keep).2 ∧ ((closeRanges host t keep).1 = true →
      ∀ fd, ¬ Kept keep fd → (closeRanges host t keep).2.held fd = none) := by
  have bounded : ∀ fd, u32Max < fd → t.held fd = none := by
    intro fd high
    exact small fd (le_trans (by decide) high.le)
  cases keep with
  | none =>
      have apart : ∀ fd, stderrFileno + 1 ≤ fd → fd ≤ u32Max → ¬ Kept none fd := by
        rintro fd low - (stdio | none)
        · exact absurd low (Nat.not_le.2 (Nat.lt_succ_of_le stdio))
        · cases none
      obtain ⟨trims, closed⟩ := closeRange_trims host t apart
      refine ⟨trims, fun done fd other => ?_⟩
      rcases Nat.lt_or_ge u32Max fd with high | low
      · exact trims.none (bounded fd high)
      · exact closed done fd (Nat.lt_of_not_le fun stdio => other (.inl stdio)) low
  | some lock' =>
      obtain ⟨above, fits⟩ := lock lock' rfl
      have apart : ∀ fd, stderrFileno + 1 ≤ fd → fd ≤ lock' - 1 → ¬ Kept (some lock') fd := by
        rintro fd low high (stdio | same)
        · exact absurd low (Nat.not_le.2 (Nat.lt_succ_of_le stdio))
        · obtain rfl : lock' = fd := Option.some.inj same
          exact absurd high (Nat.not_le.2 (Nat.sub_lt (Nat.zero_lt_of_lt above) Nat.one_pos))
      have cap : min (lock' + 1) u32Max = lock' + 1 := Nat.min_eq_left (by unfold u32Max; omega)
      have apart' : ∀ fd, min (lock' + 1) u32Max ≤ fd → fd ≤ u32Max → ¬ Kept (some lock') fd := by
        rw [cap]
        rintro fd low - (stdio | same)
        · exact absurd (low.trans stdio) (Nat.not_le.2 (above.trans (Nat.lt_succ_self _)))
        · obtain rfl : lock' = fd := Option.some.inj same
          exact absurd low (Nat.not_succ_le_self _)
      obtain ⟨trims, closed⟩ := closeRange_trims host t apart
      obtain ⟨trims', closed'⟩ :=
        closeRange_trims host (closeRange host t (stderrFileno + 1) (lock' - 1)).2 apart'
      cases first : (closeRange host t (stderrFileno + 1) (lock' - 1)).1 with
      | false =>
          simp only [closeRanges, first, Bool.false_eq_true, if_false]
          exact ⟨trims, fun no => by cases no⟩
      | true =>
          simp only [closeRanges, first, if_true]
          refine ⟨trims.trans trims', fun done fd other => ?_⟩
          have high : stderrFileno < fd := Nat.lt_of_not_le fun stdio => other (.inl stdio)
          have differ : lock' ≠ fd := fun same => other (.inr (congrArg some same))
          rcases Nat.lt_or_ge fd lock' with below | beyond
          · exact trims'.none (closed first fd high (Nat.le_sub_one_of_lt below))
          · rcases Nat.lt_or_ge u32Max fd with high | low
            · exact (trims.trans trims').none (bounded fd high)
            · exact closed' done fd (cap.trans_le (Nat.lt_of_le_of_ne beyond differ)) low

theorem inherited_ok {keep : Option Nat} {entries : List (Except Errno Bytes)} {fds : List Int}
    (ok : inherited keep entries = .ok fds) {fd : Int} :
    fd ∈ fds ↔ ∃ name, .ok name ∈ entries ∧ listed keep name = some fd := by
  induction entries generalizing fds with
  | nil =>
      cases ok
      simp
  | cons entry rest ih =>
      cases entry with
      | error e => cases ok
      | ok name =>
          cases later : inherited keep rest with
          | error e =>
              rw [inherited, later] at ok
              cases ok
          | ok found =>
              rw [inherited, later] at ok
              cases ok
              rw [List.mem_append, Option.mem_toList, ih later]
              simp only [List.mem_cons, Except.ok.injEq]
              constructor
              · rintro (here | ⟨name', there, listed'⟩)
                · exact ⟨name, .inl rfl, here⟩
                · exact ⟨name', .inr there, listed'⟩
              · rintro ⟨name', rfl | there, listed'⟩
                · exact .inl listed'
                · exact .inr ⟨name', there, listed'⟩

theorem listed_of_kept {keep : Option Nat} {name : Bytes} {fd : Int} (listed' : listed keep name = some fd) :
    ¬ Kept keep fd.toNat := by
  obtain ⟨-, passes⟩ := Option.filter_eq_some_iff.1 listed'
  obtain ⟨above, other⟩ := of_decide_eq_true passes
  rintro (stdio | same)
  · exact absurd stdio (Nat.not_le.2 (by unfold stderrFileno; omega))
  · exact other (same.trans (if_pos (by omega)).symm)

theorem listed_of_other {keep : Option Nat} {fd : Nat} (fits : fd < 2 ^ 31) (other : ¬ Kept keep fd) :
    listed keep (i32ToString fd) = some (fd : Int) := by
  have above : 2 < fd := Nat.lt_of_not_le fun stdio => other (.inl stdio)
  unfold listed
  rw [toStr_ascii (i32ToString_ascii fd).1, Option.bind_some, parseI32_toString (by omega) (by omega),
    Option.filter_some, if_pos]
  rw [decide_eq_true_eq]
  refine ⟨by omega, fun same => other (.inr ?_)⟩
  rw [same, toU32, if_pos (by omega), Int.toNat_natCast]

theorem held_closeEach (t : Open α) (fds : List Int) (fd : Fd) :
    (closeEach t fds).held fd = if ∃ n ∈ fds, n.toNat = fd then none else t.held fd := by
  induction fds generalizing t with
  | nil => simp [closeEach]
  | cons n fds ih =>
      rw [closeEach, List.foldl_cons, ← closeEach, ih, held_close]
      by_cases later : ∃ n ∈ fds, n.toNat = fd
      · obtain ⟨m, inside, same⟩ := later
        rw [if_pos ⟨m, inside, same⟩, if_pos ⟨m, List.mem_cons_of_mem _ inside, same⟩]
      · rw [if_neg later]
        by_cases same : fd = n.toNat
        · rw [if_pos same, if_pos ⟨n, List.mem_cons_self, same.symm⟩]
        · rw [if_neg same, if_neg]
          rintro ⟨m, _ | ⟨_, inside⟩, here⟩
          · exact same here.symm
          · exact later ⟨m, inside, here⟩

/-- What the kernel lists of a process names all it has open. -/
def Host.Complete (host : Host α) : Prop :=
  ∀ t entries, host.scan t = .ok entries →
    ∀ fd : Nat, (t.held fd).isSome → .ok (i32ToString fd) ∈ entries

/-- The first three descriptors and the lock stay as they are, and where no error is returned all else
is closed, whether the kernel knows `close_range`, knows it half, or does not. -/
theorem closeInheritedDescriptors_exact {host : Host α} (complete : host.Complete) {t : Open α}
    {keep : Option Int} (small : ∀ fd : Nat, 2 ^ 31 ≤ fd → t.held fd = none)
    (lock : ∀ fd, keep = some fd → 2 < fd ∧ fd < 2 ^ 31) :
    (∀ fd : Nat, fd ≤ stderrFileno ∨ keep = some (fd : Int) →
      (closeInheritedDescriptors host t keep).2.held fd = t.held fd) ∧
    ((closeInheritedDescriptors host t keep).1 = .ok () →
      ∀ fd : Nat, ¬ (fd ≤ stderrFileno ∨ keep = some (fd : Int)) →
        (closeInheritedDescriptors host t keep).2.held fd = none) := by
  have kept : ∀ fd : Nat, Kept (keep.bind toU32) fd ↔ fd ≤ stderrFileno ∨ keep = some (fd : Int) := by
    intro fd
    refine or_congr_right ?_
    cases keep with
    | none => simp
    | some n =>
        obtain ⟨above, -⟩ := lock n rfl
        rw [Option.bind_some, toU32, if_pos (by omega), Option.some.injEq, Option.some.injEq]
        omega
  simp only [← kept]
  have lock' : ∀ fd, keep.bind toU32 = some fd → 2 < fd ∧ fd < 2 ^ 31 := by
    intro fd same
    cases keep with
    | none => cases same
    | some n =>
        obtain ⟨above, fits⟩ := lock n rfl
        rw [Option.bind_some, toU32, if_pos (by omega), Option.some.injEq] at same
        omega
  obtain ⟨trims, closed⟩ := closeRanges_trims host small lock'
  unfold closeInheritedDescriptors
  dsimp only
  split
  · next done => exact ⟨trims.kept, fun _ => closed done⟩
  · split
    · exact ⟨trims.kept, fun no => by cases no⟩
    · next fds found =>
        obtain ⟨entries, scanned, found⟩ : ∃ entries,
            host.scan (closeRanges host t (keep.bind toU32)).2 = .ok entries ∧
              inherited (keep.bind toU32) entries = .ok fds := by
          cases scanned : host.scan (closeRanges host t (keep.bind toU32)).2 with
          | error e =>
              rw [scanned] at found
              cases found
          | ok entries =>
              rw [scanned] at found
              exact ⟨entries, rfl, found⟩
        refine ⟨fun fd keeps => ?_, fun _ fd other => ?_⟩
        · rw [held_closeEach, if_neg, trims.kept fd keeps]
          rintro ⟨n, inside, rfl⟩
          obtain ⟨name, -, listed'⟩ := (inherited_ok found).1 inside
          exact listed_of_kept listed' keeps
        · rw [held_closeEach]
          split
          · rfl
          · next missing =>
              by_contra open'
              obtain ⟨d, open'⟩ := Option.ne_none_iff_exists'.1 open'
              have fits : fd < 2 ^ 31 := by
                by_contra large
                rw [trims.none (small fd (Nat.le_of_not_lt large))] at open'
                cases open'
              apply missing
              refine ⟨fd, (inherited_ok found).2 ⟨_, complete _ _ scanned fd ?_,
                listed_of_other fits other⟩, Int.toNat_natCast fd⟩
              rw [open']
              rfl

def carried (table : Table α) (fd : Fd) : Option (Descriptor (Object α)) :=
  (table.held fd).map fun d => ⟨.outside d.object, false⟩

def daemonHolds (table : Table α) (null diagnostics lock fd : Fd) : Option (Descriptor (Object α)) :=
  if fd = 0 ∨ fd = 1 then carried table null
  else if fd = 2 then carried table diagnostics
  else if fd = lock then carried table lock
  else none

theorem map_stays_outside (table : Table α) (fd : Fd) :
    ((outside table).held fd).map stays = carried table fd := by
  rw [held_outside, Option.map_map]
  rfl

/-- However much a relay leaves open, the daemon it starts has four descriptors once it has closed what
it inherited: `/dev/null` twice, the pipe its complaints go down, and the lock, at the lock's own number. -/
theorem State.Reaches.daemon_starts_with [DecidableEq α] {table : Table α}
    {null diagnostics lock : Fd} {s : State α} {c : Child α} {host : Host α}
    (null' : (table.held null).isSome)
    (diagnostics' : (table.held diagnostics).isSome) (lock' : (table.held lock).isSome) (above : 2 < lock)
    (small : ∀ fd : Nat, 2 ^ 31 ≤ fd → table.held fd = none) (complete : host.Complete)
    (run : (start table ⟨null, null, diagnostics⟩ (daemonSetup lock) false).Reaches s)
    (child : s.child = some c) (program : c.stage = .program)
    (ok : (closeInheritedDescriptors host c.table (some lock)).1 = .ok ()) (fd : Fd) :
    (closeInheritedDescriptors host c.table (some lock)).2.held fd =
      daemonHolds table null diagnostics lock fd := by
  obtain ⟨role, sound⟩ := run.sound null' null' diagnostics' fun fd cleared => by
    simp only [daemonSetup, List.mem_cons, List.not_mem_nil, or_false, reduceCtorEq, false_or,
      Setup.clearCloexec.injEq] at cleared
    rwa [cleared]
  have given := sound.child c child
  obtain ⟨opened, stage, refused⟩ := c
  obtain rfl : stage = .program := program
  have handed' : ∀ fd, opened.held fd = handed (outside table) _ (daemonSetup lock) fd := given.2
  have fits : lock < 2 ^ 31 := by
    by_contra large
    rw [small lock (Nat.le_of_not_lt large)] at lock'
    cases lock'
  have small' : ∀ fd : Nat, 2 ^ 31 ≤ fd → opened.held fd = none := by
    intro fd large
    obtain ⟨fd, rfl⟩ := Nat.exists_eq_add_of_le' (le_trans (by decide : 3 ≤ 2 ^ 31) large)
    rw [handed' (fd + 3)]
    change (((outside table).held (fd + 3)).filter _).map stays = none
    rw [held_outside, small _ large]
    rfl
  have lock'' : ∀ fd : Int, some (lock : Int) = some fd → 2 < fd ∧ fd < 2 ^ 31 := by
    rintro fd same
    cases same
    exact ⟨by exact_mod_cast above, by exact_mod_cast fits⟩
  obtain ⟨kept, closed⟩ := closeInheritedDescriptors_exact complete small' lock''
  rcases fd with _ | _ | _ | fd
  · exact (kept 0 (.inl (Nat.zero_le _))).trans ((handed' 0).trans (map_stays_outside ..))
  · exact (kept 1 (.inl (Nat.le_succ _))).trans ((handed' 1).trans (map_stays_outside ..))
  · exact (kept 2 (.inl le_rfl)).trans ((handed' 2).trans (map_stays_outside ..))
  · by_cases same : fd + 3 = lock
    · subst same
      rw [kept (fd + 3) (.inr rfl), handed' (fd + 3)]
      change (((outside table).held (fd + 3)).filter fun d =>
        !d.cloexec || .clearCloexec (fd + 3) ∈ daemonSetup (fd + 3)).map stays = _
      obtain ⟨d, open'⟩ := Option.isSome_iff_exists.1 lock'
      rw [held_outside, open']
      simp [daemonSetup, daemonHolds, carried, open', Option.filter, stays]
    · rw [closed ok (fd + 3)]
      · simp [daemonHolds, same]
      · rintro (stdio | held)
        · exact absurd stdio (by unfold stderrFileno; omega)
        · have same' : (lock : Int) = (fd + 3 : Nat) := Option.some.inj held
          exact same (by exact_mod_cast same'.symm)

/-- A kernel with a complete listing, and with `close_range` or without. -/
def completeHost (closesRanges : Bool) : Host Nat where
  accepts _ _ := closesRanges
  scan t := .ok (((List.range t.length).filter fun fd => (t.held fd).isSome).map fun (fd : Nat) =>
    .ok (i32ToString fd))

theorem completeHost_complete (closesRanges : Bool) : (completeHost closesRanges).Complete := by
  rintro t entries scanned fd open'
  cases scanned
  obtain ⟨d, held⟩ := Option.isSome_iff_exists.1 open'
  exact List.mem_map.2 ⟨fd, List.mem_filter.2 ⟨List.mem_range.2 (lt_of_held held), open'⟩, rfl⟩

/-- What the launcher of the relay left at 3 is gone, and the lock is still at 5, whether the kernel closes
ranges or each number has to be read off the listing. -/
theorem State.Reaches.daemon_starts_with_lock :
    let s := (start relayTable ⟨4, 4, 6⟩ (daemonSetup 5) false).run (parentMoves 12 ++ childMoves 6)
    ∃ c, s.child = some c ∧ c.table.held 3 = some ⟨.outside 3, false⟩ ∧ ∀ closesRanges fd,
      (closeInheritedDescriptors (completeHost closesRanges) c.table (some 5)).2.held fd =
        daemonHolds relayTable 4 6 5 fd := by
  intro s
  have born : s.child.isSome := by rfl
  have child : s.child = some (s.child.get born) := (Option.some_get born).symm
  have small : ∀ fd : Nat, 2 ^ 31 ≤ fd → relayTable.held fd = none :=
    fun fd large => held_of_le (le_trans (by decide) large)
  have closed : ∀ closesRanges, (closeInheritedDescriptors (completeHost closesRanges)
      (s.child.get born).table (some 5)).1 = .ok () := by
    intro closesRanges
    cases closesRanges <;> rfl
  refine ⟨_, child, by rfl, fun closesRanges fd => ?_⟩
  exact State.Reaches.daemon_starts_with (by rfl) (by rfl) (by rfl) (by decide) small
    (completeHost_complete closesRanges) (State.reaches_run _ _) child (by rfl) (closed closesRanges) fd

end Nomux.Spawn
