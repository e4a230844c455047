import Nomux.Exec.Spawn

/-!
# The halves of a `spawn`

What the parent and its child each keep to, whatever the other one does: the parent closes what it
opened and reads only once it can no longer write to the pipe itself, and the child can report until it
has, and hands on what it is meant to.
-/

namespace Nomux.Spawn
open Wire Program Descriptor Table

theorem length_toNeBytes (e : Errno) : (toNeBytes e).length = 4 := by
  rw [toNeBytes, List.length_reverse, BigEndian.length_bytes]

theorem fromNeBytes_toNeBytes (e : Errno) : fromNeBytes (toNeBytes e) = e := by
  have small : e.toNat < 256 ^ 4 := e.toNat_lt
  rw [fromNeBytes, toNeBytes, List.reverse_reverse, BigEndian.value_bytes small]
  exact UInt32.ofNat_toNat

/-! ## What is opened on the way -/

variable {α : Type}

/-- `t` is `first` with more open, all of it `CLOEXEC`, at numbers that were free. -/
structure Over (first t : Open α) (extra : List (Fd × Object α)) : Prop where
  length : t.length = first.length
  new : ∀ e ∈ extra, t.held e.1 = some ⟨e.2, true⟩ ∧ first.held e.1 = none
  once : (extra.map Prod.fst).Nodup
  old : ∀ fd, (∀ e ∈ extra, e.1 ≠ fd) → t.held fd = first.held fd

namespace Over

variable {first t : Open α} {extra : List (Fd × Object α)}

theorem refl (t : Open α) : Over t t [] :=
  ⟨rfl, fun _ none => absurd none List.not_mem_nil, List.nodup_nil, fun _ _ => rfl⟩

theorem eq (h : Over first t []) : t = first :=
  Table.ext h.length fun fd => h.old fd fun _ none => absurd none List.not_mem_nil

theorem kept (h : Over first t extra) {fd : Fd} {d : Descriptor (Object α)}
    (before : first.held fd = some d) : t.held fd = some d := by
  rw [h.old fd, before]
  rintro e inside rfl
  rw [(h.new e inside).2] at before
  cases before

theorem cases (h : Over first t extra) {fd : Fd} {d : Descriptor (Object α)}
    (now : t.held fd = some d) : first.held fd = some d ∨ d.cloexec = true ∧ first.held fd = none := by
  by_cases inside : ∃ e ∈ extra, e.1 = fd
  · obtain ⟨e, inside, rfl⟩ := inside
    obtain ⟨same, free⟩ := h.new e inside
    rw [now, Option.some.injEq] at same
    exact .inr ⟨by rw [same], free⟩
  · push Not at inside
    exact .inl (h.old fd inside ▸ now)

theorem opened (h : Over first t extra) {n : Fd} (free : t.held n = none) (bound : n < t.length)
    (object : Object α) : Over first (t.set n (some ⟨object, true⟩)) ((n, object) :: extra) := by
  have apart : ∀ e ∈ extra, e.1 ≠ n := by
    rintro e inside rfl
    rw [(h.new e inside).1] at free
    cases free
  refine ⟨List.length_set.trans h.length, ?_, ?_, fun fd others => ?_⟩
  · rintro e (_ | ⟨_, inside⟩)
    · refine ⟨held_set_self bound _, ?_⟩
      rw [← h.old n apart]
      exact free
    · rw [held_set_of_ne t (apart e inside)]
      exact h.new e inside
  · rw [List.map_cons, List.nodup_cons]
    refine ⟨?_, h.once⟩
    intro inside
    obtain ⟨e, inside, same⟩ := List.mem_map.1 inside
    exact apart e inside same
  · rw [held_set_of_ne t (others _ List.mem_cons_self).symm]
    exact h.old fd fun e inside => others e (List.mem_cons_of_mem _ inside)

theorem close (before : List (Fd × Object α)) {after : List (Fd × Object α)} {n : Fd} {object : Object α}
    (h : Over first t (before ++ (n, object) :: after)) : Over first (t.close n) (before ++ after) := by
  have once := h.once
  rw [List.map_append, List.map_cons, List.nodup_middle, ← List.map_append, List.nodup_cons] at once
  have apart : ∀ e ∈ before ++ after, e.1 ≠ n := by
    rintro e inside rfl
    exact once.1 (List.mem_map.2 ⟨e, inside, rfl⟩)
  have inside : ∀ e ∈ before ++ after, e ∈ before ++ (n, object) :: after := by
    intro e inside
    rw [List.mem_append] at inside ⊢
    exact inside.imp_right (List.mem_cons_of_mem _)
  refine ⟨(length_close t n).trans h.length, fun e here => ?_, once.2, fun fd others => ?_⟩
  · rw [held_close, if_neg (apart e here)]
    exact h.new e (inside e here)
  · rw [held_close]
    split
    · next same =>
        rw [same]
        exact (h.new (n, object) (List.mem_append_right _ List.mem_cons_self)).2.symm
    · next other =>
        apply h.old fd
        intro e here
        rw [List.mem_append, List.mem_cons] at here
        rcases here with here | rfl | here
        · exact others e (List.mem_append_left _ here)
        · exact fun same => other same.symm
        · exact others e (List.mem_append_right _ here)

theorem dropped {raised : Stdio} {input output diagnostics : Object α}
    (h : Over first t [(raised.diagnostics, diagnostics), (raised.output, output),
      (raised.input, input)]) :
    ((t.close raised.input).close raised.output).close raised.diagnostics = first :=
  (((h.close [_, _]).close [_]).close []).eq

end Over

/-! ## The parent -/

structure Parent (α : Type) where
  table : Open α
  received : Bytes := []
  forked : Bool := false
  /-- Whether the last `read` gave nothing. -/
  ended : Bool := false
  reaped : Bool := false

def Parent.after (role : Parent α) : (c : Call) → Reply c → Parent α
  | .dupAbove fd, .ok n =>
      { role with table := role.table.set n ((role.table.held fd).map fun d => ⟨d.object, true⟩) }
  | .pipe, .ok (report, bound) => { role with
      table := (role.table.set report (some ⟨.report, true⟩)).set bound (some ⟨.failure, true⟩) }
  | .close fd, _ => { role with table := role.table.close fd }
  | .fork _, .ok _ => { role with forked := true }
  | .read _ _, .ok chunk => { role with received := role.received ++ chunk, ended := chunk = [] }
  | .read _ _, .error _ => { role with ended := true }
  | .wait, _ => { role with reaped := true }
  | _, _ => role

/-- The numbers that a call of the parent can be given, and the bytes. -/
def Parent.Gives (role : Parent α) : (c : Call) → Reply c → Prop
  | .dupAbove _, .ok n => role.table.lowest (stderrFileno + 1) = some n
  | .pipe, .ok (report, bound) => role.table.lowest 0 = some report ∧
      Table.lowest (role.table.set report (some ⟨.report, true⟩)) 0 = some bound
  | .read _ len, .ok chunk => chunk.length ≤ len
  | _, _ => True

structure Inherits (first : Open α) (stdio : Stdio) (ready : Ready) (t : Open α) : Prop where
  beyond : ∃ extra, Over first t extra
  input : ∃ d, first.held stdio.input = some d ∧ t.held ready.stdio.input = some ⟨d.object, true⟩
  output : ∃ d, first.held stdio.output = some d ∧ t.held ready.stdio.output = some ⟨d.object, true⟩
  diagnostics : ∃ d, first.held stdio.diagnostics = some d ∧
    t.held ready.stdio.diagnostics = some ⟨d.object, true⟩
  fail : t.held ready.fail = some ⟨.failure, true⟩
  above : ∀ fd ∈ [ready.stdio.input, ready.stdio.output, ready.stdio.diagnostics, ready.fail],
    stderrFileno < fd

section

variable [DecidableEq α] (first : Open α) (stdio : Stdio) (setup : List Setup) (dir : Bool)

def Parent.Allows (role : Parent α) : Call → Prop
  | .fork ready => role.forked = false ∧ role.received = [] ∧ role.ended = false ∧ role.reaped = false ∧
      ready.setup = setup ∧ ready.dir = dir ∧ Inherits first stdio ready role.table
  | .read _ len => role.forked = true ∧ role.table.has .failure = false ∧ 0 < len
  | .wait => role.received.length = 4
  | .dupAbove _ | .pipe | .close _ => True
  | _ => False

def Parent.Ends (role : Parent α) (result : Except Errno Pid) : Prop :=
  role.table = first ∧ match result with
    | .ok _ => role.forked = true ∧ role.received.length ≠ 4 ∧ role.ended = true
    | .error e => role.forked = true → role.received.length = 4 ∧ e = fromNeBytes role.received ∧
        role.reaped = true

variable {first stdio setup dir}

abbrev ParentFollows {β : Type} (first : Open α) (stdio : Stdio) (setup : List Setup) (dir : Bool)
    (program : Run β) (role : Parent α) (post : Parent α → β → Prop) : Prop :=
  program.FollowsIn Parent.after Parent.Gives (Parent.Allows first stdio setup dir) role post

theorem aboveStdio_follows {t : Open α} {extra : List (Fd × Object α)} {fd : Fd}
    {d : Descriptor (Object α)} (h : Over first t extra) (open' : t.held fd = some d) :
    ParentFollows first stdio setup dir (aboveStdio fd) { table := t } fun role reply =>
      match reply with
      | .error _ => role = { table := t }
      | .ok n => ∃ t', role = { table := t' } ∧ Over first t' ((n, d.object) :: extra) ∧
          stderrFileno < n := by
  refine ⟨trivial, fun reply given => ?_⟩
  cases reply with
  | error e => exact rfl
  | ok n =>
      obtain ⟨above, bound, free⟩ := lowest_eq_some given
      refine ⟨t.set n (some ⟨d.object, true⟩), ?_, h.opened free bound _, above⟩
      simp only [Parent.after, open', Option.map_some]

theorem raise_follows {input output diagnostics : Descriptor (Object α)}
    (input' : first.held stdio.input = some input) (output' : first.held stdio.output = some output)
    (diagnostics' : first.held stdio.diagnostics = some diagnostics) :
    ParentFollows first stdio setup dir (raise stdio) { table := first } fun role reply =>
      match reply with
      | .error _ => role = { table := first }
      | .ok raised => ∃ t, role = { table := t } ∧ Over first t
          [(raised.diagnostics, diagnostics.object), (raised.output, output.object),
            (raised.input, input.object)] ∧
          stderrFileno < raised.input ∧ stderrFileno < raised.output ∧
          stderrFileno < raised.diagnostics := by
  apply (aboveStdio_follows (.refl first) input').bind
  intro role reply held
  cases reply with
  | error e => exact held
  | ok input =>
      obtain ⟨t, rfl, beyond, above⟩ := held
      apply (aboveStdio_follows beyond (beyond.kept output')).bind
      intro role reply held
      cases reply with
      | error e =>
          subst held
          refine .ask trivial fun _ _ => ?_
          exact congrArg (Parent.mk · [] false false false) (beyond.close []).eq
      | ok output =>
          obtain ⟨t, rfl, beyond, above'⟩ := held
          apply (aboveStdio_follows beyond (beyond.kept diagnostics')).bind
          intro role reply held
          cases reply with
          | error e =>
              subst held
              refine .ask trivial fun _ _ => .ask trivial fun _ _ => ?_
              exact congrArg (Parent.mk · [] false false false) ((beyond.close []).close []).eq
          | ok diagnostics =>
              obtain ⟨t, rfl, beyond, above''⟩ := held
              exact ⟨t, rfl, beyond, above, above', above''⟩

theorem dropStdio_follows (raised : Stdio) (role : Parent α) :
    ParentFollows first stdio setup dir (dropStdio raised) role fun role' _ =>
      role' = { role with
        table := ((role.table.close raised.input).close raised.output).close raised.diagnostics } :=
  .ask trivial fun _ _ => .ask trivial fun _ _ => ⟨trivial, fun _ _ => rfl⟩

theorem has_failure_of_over {t : Open α} {extra : List (Fd × Object α)} (h : Over first t extra)
    (clean : first.has .failure = false) (apart : ∀ e ∈ extra, e.2 ≠ .failure) :
    t.has .failure = false := by
  rw [has_eq_false] at clean ⊢
  intro fd d now
  by_cases inside : ∃ e ∈ extra, e.1 = fd
  · obtain ⟨e, inside, rfl⟩ := inside
    have same := (h.new e inside).1
    rw [now, Option.some.injEq] at same
    rw [same]
    exact apart e inside
  · push Not at inside
    exact clean fd d (h.old fd inside ▸ now)

theorem readReport_follows {role : Parent α} (report : Fd) {rounds : Nat}
    (forked : role.forked = true) (clean : role.table.has .failure = false)
    (enough : 4 ≤ role.received.length + rounds) (short : role.received.length ≤ 4) :
    ParentFollows first stdio setup dir (readReport report rounds role.received) role fun role' raw =>
      role'.table = role.table ∧ role'.forked = true ∧ raw = role'.received ∧
        (raw.length = 4 ∨ raw.length ≠ 4 ∧ role'.ended = true) := by
  induction rounds generalizing role with
  | zero => exact ⟨rfl, forked, rfl, .inl (by omega)⟩
  | succ rounds ih =>
      rw [readReport]
      split
      · next missing =>
          refine .ask ⟨forked, clean, by omega⟩ fun reply given => ?_
          cases reply with
          | error e => exact ⟨rfl, forked, rfl, .inr ⟨missing.ne, rfl⟩⟩
          | ok chunk =>
              have fits : chunk.length ≤ 4 - role.received.length := given
              by_cases none : chunk = []
              · subst none
                refine ⟨rfl, forked, ?_, .inr ⟨missing.ne, rfl⟩⟩
                exact (List.append_nil _).symm
              · have some_bytes := List.length_pos_iff.2 none
                change FollowsIn _ _ _ (ite _ _ _) _ _
                rw [if_neg none]
                refine @ih (role.after (.read report (4 - role.received.length)) (.ok chunk)) forked clean
                  ?_ ?_
                · change 4 ≤ (role.received ++ chunk).length + rounds
                  rw [List.length_append]
                  omega
                · change (role.received ++ chunk).length ≤ 4
                  rw [List.length_append]
                  omega
      · next full => exact ⟨rfl, forked, rfl, .inl (by omega)⟩

theorem await_follows {role : Parent α} {report : Fd} {object : Object α} (pid : Pid)
    (forked : role.forked = true) (received : role.received = [])
    (clean : role.table.has .failure = false) (beyond : Over first role.table [(report, object)]) :
    ParentFollows first stdio setup dir (await report pid) role (Parent.Ends first) := by
  have follows : ParentFollows first stdio setup dir (readReport report 4 role.received) role
      fun role' raw => role'.table = role.table ∧ role'.forked = true ∧ raw = role'.received ∧
        (raw.length = 4 ∨ raw.length ≠ 4 ∧ role'.ended = true) := by
    apply readReport_follows report forked clean
    · omega
    · rw [received]
      exact Nat.zero_le 4
  rw [received] at follows
  apply follows.bind
  rintro role' raw ⟨table, forked', rfl, whole⟩
  have closed : role'.table.close report = first := by
    rw [table]
    exact (beyond.close []).eq
  split
  · next full => exact .ask full fun _ _ => .ask trivial fun _ _ => ⟨closed, fun _ => ⟨full, rfl, rfl⟩⟩
  · next part =>
      refine .ask trivial fun _ _ => ⟨closed, forked', part, ?_⟩
      rcases whole with full | ⟨-, ended⟩
      · exact absurd full part
      · exact ended

theorem launch_follows {t : Open α} {raised : Stdio} {report bound : Fd}
    {input output diagnostics : Descriptor (Object α)}
    (clean : first.has .failure = false) (input' : first.held stdio.input = some input)
    (output' : first.held stdio.output = some output)
    (diagnostics' : first.held stdio.diagnostics = some diagnostics)
    (beyond : Over first t [(bound, .failure), (report, .report), (raised.diagnostics, diagnostics.object),
      (raised.output, output.object), (raised.input, input.object)])
    (above : stderrFileno < raised.input ∧ stderrFileno < raised.output ∧
      stderrFileno < raised.diagnostics) :
    ParentFollows first stdio setup dir (launch raised report bound setup dir) { table := t }
      (Parent.Ends first) := by
  apply (aboveStdio_follows beyond (beyond.new _ List.mem_cons_self).1).bind
  intro role reply held
  cases reply with
  | error e =>
      subst held
      refine .ask trivial fun _ _ => .ask trivial fun _ _ => ?_
      apply (dropStdio_follows raised _).bind
      rintro _ _ rfl
      exact ⟨((beyond.close []).close []).dropped, fun forked => by cases forked⟩
  | ok failure =>
      obtain ⟨t', rfl, beyond, above'⟩ := held
      have unbound := beyond.close [_]
      refine .ask trivial fun _ _ => ?_
      refine .ask ⟨rfl, rfl, rfl, rfl, rfl, rfl, ?_⟩ fun reply _ => ?_
      · constructor
        · exact ⟨_, unbound⟩
        · exact ⟨input, input', (unbound.new (raised.input, input.object) (by simp)).1⟩
        · exact ⟨output, output', (unbound.new (raised.output, output.object) (by simp)).1⟩
        · exact ⟨diagnostics, diagnostics',
            (unbound.new (raised.diagnostics, diagnostics.object) (by simp)).1⟩
        · exact (unbound.new (failure, .failure) (by simp)).1
        · simp [above.1, above.2.1, above.2.2, above']
      · cases reply with
        | error e =>
            refine .ask trivial fun _ _ => .ask trivial fun _ _ => ?_
            apply (dropStdio_follows raised _).bind
            rintro _ _ rfl
            exact ⟨((unbound.close []).close []).dropped, fun forked => by cases forked⟩
        | ok pid =>
            apply (dropStdio_follows raised _).bind
            rintro _ _ rfl
            refine .ask trivial fun _ _ => ?_
            have reading := (((unbound.close [_, _, _, _]).close [_, _, _]).close [_, _]).close []
            apply await_follows pid rfl rfl ?_ reading
            apply has_failure_of_over reading clean
            simp

theorem spawn_follows (clean : first.has .failure = false)
    (input : ∃ d, first.held stdio.input = some d) (output : ∃ d, first.held stdio.output = some d)
    (diagnostics : ∃ d, first.held stdio.diagnostics = some d) :
    ParentFollows first stdio setup dir (spawn stdio setup dir) { table := first }
      (Parent.Ends first) := by
  obtain ⟨input, input'⟩ := input
  obtain ⟨output, output'⟩ := output
  obtain ⟨diagnostics, diagnostics'⟩ := diagnostics
  apply (raise_follows input' output' diagnostics').bind
  intro role reply held
  cases reply with
  | error e =>
      subst held
      exact ⟨rfl, fun forked => by cases forked⟩
  | ok raised =>
      obtain ⟨t, rfl, beyond, above⟩ := held
      refine .ask trivial fun reply given => ?_
      cases reply with
      | error e =>
          apply (dropStdio_follows raised _).bind
          rintro _ _ rfl
          exact ⟨beyond.dropped, fun forked => by cases forked⟩
      | ok ends =>
          obtain ⟨report, bound⟩ := ends
          obtain ⟨-, within, free⟩ := lowest_eq_some given.1
          obtain ⟨-, within', free'⟩ := lowest_eq_some given.2
          exact launch_follows clean input' output' diagnostics'
            ((beyond.opened free within .report).opened free' within' .failure) above

end

/-! ## The child -/

def stays (d : Descriptor (Object α)) : Descriptor (Object α) := { d with cloexec := false }

def handed (first : Open α) (stdio : Stdio) (setup : List Setup) : Fd → Option (Descriptor (Object α))
  | 0 => (first.held stdio.input).map stays
  | 1 => (first.held stdio.output).map stays
  | 2 => (first.held stdio.diagnostics).map stays
  | fd => ((first.held fd).filter fun d => !d.cloexec || .clearCloexec fd ∈ setup).map stays

structure ChildRole (α : Type) where
  table : Open α
  refused : Option Errno := none
  wrote : Bool := false

def ChildRole.opens (t : Open α) : (c : Call) → Reply c → Open α
  | .dup2 fd slot, .ok _ => t.dup2 fd slot
  | .clearCloexec fd, .ok _ => t.clearCloexec fd
  | _, _ => t

def Call.reports : Call → Bool
  | .write _ _ => true
  | _ => false

def ChildRole.after (role : ChildRole α) (c : Call) (reply : Reply c) : ChildRole α where
  table := opens role.table c reply
  refused := (refusal c reply).or role.refused
  wrote := role.wrote || c.reports

def ChildRole.Gives (role : ChildRole α) : (c : Call) → Reply c → Prop
  | .dup2 _ slot, .ok _ => slot < role.table.length
  | _, _ => True

/-- What the child calls, which means to hand `goal` on, before its one report. -/
def ChildRole.Allows (fail : Fd) (goal : Fd → Option (Descriptor (Object α))) (role : ChildRole α)
    (c : Call) : Prop :=
  role.wrote = false ∧ role.table.held fail = some ⟨.failure, true⟩ ∧ match c with
    | .work | .clearCloexec _ | .dup2 _ _ | .chdir => True
    | .execve => ∀ fd, role.table.exec.held fd = goal fd
    | .write _ raw => ∃ e, role.refused = some e ∧ raw = toNeBytes e
    | _ => False

section

variable {fail : Fd} {goal : Fd → Option (Descriptor (Object α))} {role : ChildRole α}

abbrev ChildFollows {β : Type} (fail : Fd) (goal : Fd → Option (Descriptor (Object α)))
    (program : Run β) (role : ChildRole α) (post : ChildRole α → β → Prop) : Prop :=
  program.FollowsIn ChildRole.after ChildRole.Gives (ChildRole.Allows fail goal) role post

def Able (fail : Fd) (role : ChildRole α) : Prop :=
  role.wrote = false ∧ role.table.held fail = some ⟨.failure, true⟩

theorem held_dup2 {t : Open α} {fd slot : Fd} (within : slot < t.length) (other : Fd) :
    (t.dup2 fd slot).held other = if other = slot then (t.held fd).map stays else t.held other := by
  rw [Table.dup2, held_set]
  by_cases same : other = slot
  · rw [if_pos same, if_pos ⟨same.symm, within⟩]
    rfl
  · rw [if_neg same, if_neg fun both => same both.1.symm]

theorem held_clearCloexec (t : Open α) (fd other : Fd) :
    (t.clearCloexec fd).held other = if other = fd then (t.held other).map stays else t.held other := by
  by_cases within : fd < t.length
  · rw [Table.clearCloexec, held_dup2 within]
    split
    · next same => rw [same]
    · rfl
  · have nothing := held_of_le (Nat.le_of_not_lt within)
    rw [Table.clearCloexec, Table.dup2, List.set_eq_of_length_le (Nat.le_of_not_lt within)]
    split
    · next same =>
        rw [same, nothing]
        rfl
    · rfl

def released (steps : List Setup) (fd : Fd) (d : Descriptor (Object α)) : Descriptor (Object α) :=
  { d with cloexec := d.cloexec && !(Setup.clearCloexec fd ∈ steps) }

theorem released_cons (step : Setup) (steps : List Setup) (fd : Fd) (d : Descriptor (Object α)) :
    released steps fd (released [step] fd d) = released (step :: steps) fd d := by
  simp [released, Bool.and_assoc]

theorem Able.after (able : Able fail role) {c : Call} {reply : Reply c} (quiet : c.reports = false)
    (kept : (ChildRole.opens role.table c reply).held fail = role.table.held fail) :
    Able fail (role.after c reply) := by
  refine ⟨?_, kept.trans able.2⟩
  change (role.wrote || c.reports) = false
  rw [able.1, quiet]
  rfl

theorem made_follows {step : Setup} (apart : Setup.clearCloexec fail ≠ step) (able : Able fail role) :
    ChildFollows fail goal (runSetup.made step) role fun role' reply => Able fail role' ∧
      match reply with
      | .error e => role'.refused = some e
      | .ok _ => ∀ fd, role'.table.held fd = (role.table.held fd).map (released [step] fd) := by
  cases step with
  | work =>
      refine ⟨⟨able.1, able.2, trivial⟩, fun reply _ => ?_⟩
      cases reply with
      | error e => exact ⟨able.after rfl rfl, rfl⟩
      | ok _ =>
          refine ⟨able.after rfl rfl, fun fd => ?_⟩
          change role.table.held fd = _
          cases role.table.held fd with
          | none => rfl
          | some d => simp [released]
  | clearCloexec cleared =>
      refine ⟨⟨able.1, able.2, trivial⟩, fun reply _ => ?_⟩
      cases reply with
      | error e => exact ⟨able.after rfl rfl, rfl⟩
      | ok _ =>
          have other : fail ≠ cleared := fun same => apart (congrArg Setup.clearCloexec same)
          refine ⟨able.after rfl ?_, fun fd => ?_⟩
          · exact (held_clearCloexec ..).trans (if_neg other)
          · change (role.table.clearCloexec cleared).held fd = _
            rw [held_clearCloexec]
            cases role.table.held fd with
            | none => split <;> rfl
            | some d =>
                split
                · next same => simp [released, stays, same]
                · next other => simp [released, other]

theorem runSetup_follows {steps : List Setup} (apart : Setup.clearCloexec fail ∉ steps)
    (able : Able fail role) :
    ChildFollows fail goal (runSetup steps) role fun role' reply => Able fail role' ∧
      match reply with
      | .error e => role'.refused = some e
      | .ok _ => ∀ fd, role'.table.held fd = (role.table.held fd).map (released steps fd) := by
  induction steps generalizing role with
  | nil =>
      refine ⟨able, fun fd => ?_⟩
      cases role.table.held fd with
      | none => rfl
      | some d => simp [released]
  | cons step steps ih =>
      rw [List.mem_cons, not_or] at apart
      apply (made_follows apart.1 able).bind
      rintro role' reply ⟨able', made⟩
      cases reply with
      | error e => exact ⟨able', made⟩
      | ok _ =>
          apply FollowsIn.mono (ih apart.2 able')
          rintro role'' reply ⟨able'', later⟩
          refine ⟨able'', ?_⟩
          cases reply with
          | error e => exact later
          | ok _ =>
              intro fd
              rw [later fd, made fd, Option.map_map]
              congr 1
              funext d
              exact released_cons step steps fd d

theorem place_follows {pairs : List (Fd × Fd)} (able : Able fail role) (above : stderrFileno < fail)
    (sources : ∀ p ∈ pairs, stderrFileno < p.1) (slots : ∀ p ∈ pairs, p.2 ≤ stderrFileno)
    (once : (pairs.map Prod.snd).Nodup) :
    ChildFollows fail goal (place pairs) role fun role' reply => Able fail role' ∧
      match reply with
      | .error e => role'.refused = some e
      | .ok _ => (∀ p ∈ pairs, role'.table.held p.2 = (role.table.held p.1).map stays) ∧
          ∀ fd, (∀ p ∈ pairs, p.2 ≠ fd) → role'.table.held fd = role.table.held fd := by
  induction pairs generalizing role with
  | nil => exact ⟨able, fun _ none => absurd none List.not_mem_nil, fun _ _ => rfl⟩
  | cons pair later ih =>
      obtain ⟨source, slot⟩ := pair
      rw [List.map_cons, List.nodup_cons] at once
      have low : slot ≤ stderrFileno := slots _ List.mem_cons_self
      have laterSources := fun p inside => sources p (List.mem_cons_of_mem _ inside)
      have laterSlots := fun p inside => slots p (List.mem_cons_of_mem _ inside)
      refine .ask ⟨able.1, able.2, trivial⟩ fun reply given => ?_
      cases reply with
      | error e => exact ⟨able.after rfl rfl, rfl⟩
      | ok _ =>
          have placed : ∀ fd, (role.table.dup2 source slot).held fd =
              if fd = slot then (role.table.held source).map stays else role.table.held fd :=
            held_dup2 given
          have able' : Able fail (role.after (.dup2 source slot) (.ok ())) :=
            able.after rfl ((placed fail).trans (if_neg (low.trans_lt above).ne'))
          apply FollowsIn.mono (ih able' laterSources laterSlots once.2)
          rintro role' reply ⟨able'', rest⟩
          refine ⟨able'', ?_⟩
          cases reply with
          | error e => exact rest
          | ok _ =>
              obtain ⟨there, others⟩ := rest
              constructor
              · rintro p (_ | ⟨_, inside⟩)
                · have final : ∀ p ∈ later, p.2 ≠ slot := by
                    rintro p inside rfl
                    exact once.1 (List.mem_map.2 ⟨p, inside, rfl⟩)
                  exact (others slot final).trans ((placed slot).trans (if_pos rfl))
                · have high : p.1 ≠ slot := (low.trans_lt (laterSources p inside)).ne'
                  rw [there p inside]
                  exact congrArg _ ((placed p.1).trans (if_neg high))
              · intro fd apart
                rw [others fd fun p inside => apart p (List.mem_cons_of_mem _ inside)]
                exact (placed fd).trans (if_neg (apart _ List.mem_cons_self).symm)

theorem exec_eq_handed {first inherited prepared placed : Open α} {stdio : Stdio} {setup : List Setup}
    {ready : Ready} (inherits : Inherits first stdio ready inherited)
    (owned : ∀ fd, .clearCloexec fd ∈ setup → (first.held fd).isSome)
    (released : ∀ fd, prepared.held fd = (inherited.held fd).map (released setup fd))
    (slots : ∀ p ∈ [(ready.stdio.input, 0), (ready.stdio.output, 1), (ready.stdio.diagnostics, 2)],
      placed.held p.2 = (prepared.held p.1).map stays)
    (others : ∀ fd, stderrFileno < fd → placed.held fd = prepared.held fd) (fd : Fd) :
    placed.exec.held fd = handed first stdio setup fd := by
  have slot : ∀ {source slot d raised}, first.held source = some d →
      inherited.held raised = some ⟨d.object, true⟩ →
      placed.held slot = (prepared.held raised).map stays →
      placed.exec.held slot = (first.held source).map stays := by
    intro source slot d raised before raised' placed'
    rw [held_exec, placed', released, raised', before]
    rfl
  obtain ⟨input, input', inputRaised⟩ := inherits.input
  obtain ⟨output, output', outputRaised⟩ := inherits.output
  obtain ⟨diagnostics, diagnostics', diagnosticsRaised⟩ := inherits.diagnostics
  rcases fd with _ | _ | _ | fd
  · exact slot input' inputRaised (slots (_, 0) (by simp))
  · exact slot output' outputRaised (slots (_, 1) (by simp))
  · exact slot diagnostics' diagnosticsRaised (slots (_, 2) (by simp))
  · obtain ⟨extra, beyond⟩ := inherits.beyond
    change _ = ((first.held (fd + 3)).filter fun d =>
      !d.cloexec || .clearCloexec (fd + 3) ∈ setup).map stays
    rw [held_exec, others (fd + 3) (by simp [stderrFileno]), released]
    cases before : first.held (fd + 3) with
    | some d =>
        rw [beyond.kept before, Option.map_some]
        obtain ⟨object, cloexec⟩ := d
        by_cases cleared : .clearCloexec (fd + 3) ∈ setup
        · simp only [Spawn.released, cleared, decide_true, Bool.not_true, Bool.and_false, Bool.or_true]
          rfl
        · simp only [Spawn.released, cleared, decide_false, Bool.not_false, Bool.and_true, Bool.or_false]
          cases cloexec <;> rfl
    | none =>
        cases now : inherited.held (fd + 3) with
        | none => rfl
        | some d =>
            have kept : .clearCloexec (fd + 3) ∉ setup := by
              intro cleared
              have open' := owned _ cleared
              rw [before] at open'
              cases open'
            rcases beyond.cases now with same | ⟨cloexec, -⟩
            · rw [before] at same
              cases same
            · simp [Spawn.released, kept, cloexec]

theorem child_follows [DecidableEq α] {first inherited : Open α} {stdio : Stdio} {setup : List Setup} {ready : Ready}
    (clean : first.has .failure = false) (inherits : Inherits first stdio ready inherited)
    (setup' : ready.setup = setup) (owned : ∀ fd, .clearCloexec fd ∈ setup → (first.held fd).isSome) :
    ChildFollows ready.fail (handed first stdio setup) (child ready) { table := inherited }
      fun role _ => role.wrote = true ∧ role.table.held ready.fail = some ⟨.failure, true⟩ := by
  have above := inherits.above
  simp only [List.mem_cons, List.not_mem_nil, or_false, forall_eq_or_imp, forall_eq] at above
  have apart : Setup.clearCloexec ready.fail ∉ setup := by
    intro cleared
    obtain ⟨extra, beyond⟩ := inherits.beyond
    obtain ⟨d, before⟩ := Option.isSome_iff_exists.1 (owned _ cleared)
    have now := beyond.kept before
    rw [inherits.fail, Option.some.injEq] at now
    exact has_eq_false.1 clean _ _ before (by rw [← now])
  have prepared : ChildFollows ready.fail (handed first stdio setup) (prepare ready)
      { table := inherited } fun role e => Able ready.fail role ∧ role.refused = some e := by
    unfold prepare
    rw [setup']
    apply (runSetup_follows apart ⟨rfl, inherits.fail⟩).bind
    rintro role reply ⟨able, made⟩
    cases reply with
    | error e => exact ⟨able, made⟩
    | ok _ =>
        apply (place_follows able above.2.2.2 (by simp [above]) (by simp [stderrFileno]) (by simp)).bind
        rintro role' reply ⟨able', placed⟩
        cases reply with
        | error e => exact ⟨able', placed⟩
        | ok _ =>
            have apart : ∀ fd : Nat, 2 < fd → ∀ p ∈ [(ready.stdio.input, 0),
                (ready.stdio.output, 1), (ready.stdio.diagnostics, 2)], p.2 ≠ fd := by
              intro fd high
              simp only [List.mem_cons, List.not_mem_nil, or_false, forall_eq_or_imp, forall_eq]
              omega
            have handed := exec_eq_handed inherits owned made placed.1 fun fd high =>
              placed.2 fd (apart fd high)
            cases dir : ready.dir with
            | false => exact ⟨⟨able'.1, able'.2, handed⟩, fun _ _ => ⟨able'.after rfl rfl, rfl⟩⟩
            | true =>
                refine .ask ⟨able'.1, able'.2, trivial⟩ fun reply _ => ?_
                cases reply with
                | error e => exact ⟨able'.after rfl rfl, rfl⟩
                | ok _ =>
                    have able'' : Able ready.fail (role'.after .chdir (.ok ())) := able'.after rfl rfl
                    exact ⟨⟨able''.1, able''.2, handed⟩, fun _ _ => ⟨able''.after rfl rfl, rfl⟩⟩
  apply prepared.bind
  rintro role e ⟨able, refused⟩
  exact ⟨⟨able.1, able.2, e, refused, rfl⟩, fun _ _ => ⟨Bool.or_true _, able.2⟩⟩

end

/-! ## What the calls do -/

section

variable {first : Open α} {stdio : Stdio} {setup : List Setup} {dir : Bool}

theorem serve_parent [DecidableEq α] {role : Parent α} {c : Call} (allowed : role.Allows first stdio setup dir c)
    (queued : Bytes) (o : Oracle) : role.Gives c (serve role.table queued o c).1 ∧
      (role.after c (serve role.table queued o c).1).table = (serve role.table queued o c).2 := by
  cases fault : o.fault with
  | some e => cases c <;> simp_all [Parent.Allows, serve, Parent.Gives, Parent.after]
  | none =>
      cases c with
      | dupAbove fd =>
          simp only [serve, fault, Option.elim_none, dupAbove]
          cases open' : role.table.held fd with
          | none => exact ⟨trivial, rfl⟩
          | some d =>
              cases found : role.table.lowest (stderrFileno + 1) with
              | none => exact ⟨trivial, rfl⟩
              | some n => simp only [Parent.Gives, Parent.after, found, open', Option.map_some, and_self]
      | pipe =>
          simp only [serve, fault, Option.elim_none, pipe]
          cases found : role.table.lowest 0 with
          | none => exact ⟨trivial, rfl⟩
          | some report =>
              dsimp only
              cases found' : Table.lowest (role.table.set report (some ⟨.report, true⟩)) 0 with
              | none => exact ⟨trivial, rfl⟩
              | some bound => exact ⟨⟨found, found'⟩, rfl⟩
      | close fd => exact ⟨trivial, rfl⟩
      | fork ready => simp [serve, fault, Parent.Gives, Parent.after]
      | read fd len =>
          simp only [serve, fault, Option.elim_none]
          split
          · exact ⟨(List.length_take_le _ _).trans (min_le_left _ _), rfl⟩
          · exact ⟨trivial, rfl⟩
      | wait => exact ⟨trivial, rfl⟩
      | _ => exact allowed.elim

theorem serve_child {fail : Fd} {goal : Fd → Option (Descriptor (Object α))} {role : ChildRole α}
    {c : Call} (allowed : role.Allows fail goal c) (queued : Bytes) (o : Oracle) :
    role.Gives c (serve role.table queued o c).1 ∧
      ChildRole.opens role.table c (serve role.table queued o c).1 = (serve role.table queued o c).2 := by
  obtain ⟨-, -, allowed⟩ := allowed
  cases fault : o.fault with
  | some e => cases c <;> simp_all [serve, ChildRole.Gives, ChildRole.opens]
  | none =>
      cases c with
      | clearCloexec fd =>
          simp only [serve, fault, Option.elim_none]
          split <;> exact ⟨trivial, rfl⟩
      | dup2 fd slot =>
          simp only [serve, fault, Option.elim_none]
          split
          · next fits => exact ⟨fits.2, rfl⟩
          · exact ⟨trivial, rfl⟩
      | work => simp [serve, fault, ChildRole.Gives, ChildRole.opens]
      | chdir => simp [serve, fault, ChildRole.Gives, ChildRole.opens]
      | execve => exact ⟨trivial, rfl⟩
      | write fd raw => simp [serve, fault, ChildRole.Gives, ChildRole.opens]
      | _ => exact allowed.elim

end

end Nomux.Spawn
