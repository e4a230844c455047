import Nomux.Exec.Halves

/-!
# What a `spawn` answers

In every interleaving of the parent with its child: the parent is told that the child failed exactly
where it did, the program has open what it is meant to, and the parent neither keeps a descriptor nor
waits for nothing.
-/

namespace Nomux.Spawn
open Wire Program Descriptor Table

variable {α : Type}

/-- What came through the pipe is the child's one report, or nothing of a child that has not reported
or was kept from it. -/
def Sent (refused : Option Errno) (wrote faulted : Bool) (sent : Bytes) : Prop :=
  sent = [] ∧ (wrote = true → faulted = true) ∨
    wrote = true ∧ ∃ e, refused = some e ∧ sent = toNeBytes e

def ChildSound (first : Open α) (stdio : Stdio) (setup : List Setup) (c : Child α) (sent : Bytes)
    (faulted : Bool) : Prop :=
  match c.stage with
  | .preparing left => ∃ fail wrote, Sent c.refused wrote faulted sent ∧
      ChildFollows fail (handed first stdio setup) left ⟨c.table, c.refused, wrote⟩ fun role _ =>
        role.wrote = true ∧ role.table.held fail = some ⟨.failure, true⟩
  | .program => sent = [] ∧ ∀ fd, c.table.held fd = handed first stdio setup fd
  | .exited => c.table = [] ∧ Sent c.refused true faulted sent

variable {first : Open α} {stdio : Stdio} {setup : List Setup} {dir : Bool} {s : State α}
  {role : Parent α}

theorem ChildSound.fault {c : Child α} {sent : Bytes} {faulted : Bool}
    (h : ChildSound first stdio setup c sent faulted) : ChildSound first stdio setup c sent true := by
  have sent' : ∀ {refused wrote}, Sent refused wrote faulted sent → Sent refused wrote true sent :=
    fun sent => sent.imp (fun none => ⟨none.1, fun _ => rfl⟩) id
  obtain ⟨table, stage, refused⟩ := c
  cases stage with
  | preparing left =>
      obtain ⟨fail, wrote, sent, follows⟩ := h
      exact ⟨fail, wrote, sent' sent, follows⟩
  | program => exact h
  | exited => exact ⟨h.1, sent' h.2⟩

theorem Sent.none_of_unwritten {refused : Option Errno} {faulted : Bool} {sent : Bytes}
    (h : Sent refused false faulted sent) : sent = [] := by
  rcases h with ⟨none, -⟩ | ⟨wrote, -⟩
  · exact none
  · cases wrote

theorem sent_after {fail : Fd} {goal : Fd → Option (Descriptor (Object α))} {table : Open α}
    {refused : Option Errno} {c : Call} {received queued : Bytes} {faulted : Bool}
    (allowed : ChildRole.Allows fail goal ⟨table, refused, false⟩ c)
    (sent : Sent refused false faulted (received ++ queued)) (reply : Reply c) :
    Sent ((refusal c reply).or refused) c.reports (failed c reply || faulted)
      (received ++ through queued c reply) := by
  have nothing := sent.none_of_unwritten
  obtain ⟨-, -, allowed⟩ := allowed
  cases c with
  | write fd raw =>
      obtain ⟨e, same, rfl⟩ := allowed
      obtain rfl : refused = some e := same
      cases reply with
      | error e => exact .inl ⟨nothing, fun _ => rfl⟩
      | ok _ =>
          refine .inr ⟨rfl, e, rfl, ?_⟩
          change received ++ (queued ++ toNeBytes e) = toNeBytes e
          rw [← List.append_assoc, nothing, List.nil_append]
  | work => cases reply <;> exact .inl ⟨nothing, fun wrote => by cases wrote⟩
  | clearCloexec fd => cases reply <;> exact .inl ⟨nothing, fun wrote => by cases wrote⟩
  | dup2 fd slot => cases reply <;> exact .inl ⟨nothing, fun wrote => by cases wrote⟩
  | chdir => cases reply <;> exact .inl ⟨nothing, fun wrote => by cases wrote⟩
  | execve => exact .inl ⟨nothing, fun wrote => by cases wrote⟩
  | _ => exact allowed.elim

theorem read_chunk {t : Open α} {queued chunk : Bytes} {o : Oracle} {fd : Fd} {len : Nat}
    (read : (serve t queued o (.read fd len)).1 = .ok chunk) :
    chunk = queued.take (min len (o.short + 1)) := by
  simp only [serve] at read
  cases fault : o.fault with
  | some e =>
      rw [fault] at read
      cases read
  | none =>
      rw [fault, Option.elim_none] at read
      split at read
      · exact (Except.ok.inj read).symm
      · cases read

theorem held_outside (table : Table α) (fd : Fd) :
    (outside table).held fd = (table.held fd).map fun d => ⟨.outside d.object, d.cloexec⟩ := by
  rw [outside, held, held, List.getElem?_map]
  cases table[fd]? <;> rfl

/-! ## The two together -/

variable [DecidableEq α]

structure Sound (first : Open α) (stdio : Stdio) (setup : List Setup) (dir : Bool) (s : State α)
    (role : Parent α) : Prop where
  table : role.table = s.parent
  follows : ParentFollows first stdio setup dir s.left role (Parent.Ends first)
  forked : role.forked = s.child.isSome
  unforked : s.child = none →
    role.received = [] ∧ s.queued = [] ∧ role.ended = false ∧ role.reaped = false
  child : ∀ c, s.child = some c → ChildSound first stdio setup c (role.received ++ s.queued) s.faulted
  ended : role.ended = true →
    s.faulted = true ∨ ∃ c, s.child = some c ∧ c.stage.over = true ∧ s.queued = []
  waited : s.reaped = role.reaped
  reaped : role.reaped = true → ∃ c, s.child = some c ∧ c.stage = .exited

theorem ChildSound.has_failure {c : Child α} {sent : Bytes} {faulted : Bool}
    (h : ChildSound first stdio setup c sent faulted) (preparing : c.stage.over = false) :
    c.table.has .failure = true := by
  obtain ⟨table, stage, refused⟩ := c
  cases stage with
  | preparing left =>
      obtain ⟨fail, wrote, -, follows⟩ := h
      rw [has_eq_true]
      cases left with
      | done _ => exact ⟨fail, _, follows.2, rfl⟩
      | call c rest => exact ⟨fail, _, follows.1.2.1, rfl⟩
  | program => cases preparing
  | exited => cases preparing

theorem Sound.of_child (h : Sound first stdio setup dir s role) {c c' : Child α} {queued : Bytes}
    {faulted : Bool} (child : s.child = some c) (preparing : c.stage.over = false)
    (fault : s.faulted = true → faulted = true)
    (sound : ChildSound first stdio setup c' (role.received ++ queued) faulted) :
    Sound first stdio setup dir { s with child := some c', queued, faulted } role where
  table := h.table
  follows := h.follows
  forked := by rw [h.forked, child]; rfl
  unforked := fun none => by cases none
  child := fun d same => by
    cases same
    exact sound
  ended := fun ended => by
    rcases h.ended ended with faulted | ⟨d, same, over', -⟩
    · exact .inl (fault faulted)
    · rw [child, Option.some.injEq] at same
      rw [same, over'] at preparing
      cases preparing
  waited := h.waited
  reaped := fun reaped => by
    obtain ⟨d, same, exited⟩ := h.reaped reaped
    rw [child, Option.some.injEq] at same
    rw [same, exited] at preparing
    cases preparing

theorem Sound.advanceChild (h : Sound first stdio setup dir s role) (o : Oracle) {table : Open α}
    {refused : Option Errno} {c : Call} {rest : Reply c → Run Unit}
    (child : s.child = some ⟨table, .preparing (.call c rest), refused⟩) :
    Sound first stdio setup dir (s.advanceChild o table refused c rest) role := by
  obtain ⟨fail, wrote, sent, allowed, onward⟩ := h.child _ child
  obtain rfl : wrote = false := allowed.1
  obtain ⟨given, opens⟩ := serve_child allowed s.queued o
  have follows := onward _ given
  refine h.of_child child rfl (fun faulted => by rw [faulted, Bool.or_true]) ⟨fail, c.reports, ?_, ?_⟩
  · exact sent_after allowed sent _
  · change FollowsIn _ _ _ _ (ChildRole.mk (serve table s.queued o c).2 _ _) _
    rw [← opens]
    exact follows

theorem Sound.exec (h : Sound first stdio setup dir s role) {table : Open α}
    {refused : Option Errno} {rest : Reply .execve → Run Unit}
    (child : s.child = some ⟨table, .preparing (.call .execve rest), refused⟩) :
    Sound first stdio setup dir { s with child := some ⟨table.exec, .program, refused⟩ } role := by
  obtain ⟨fail, wrote, sent, allowed, -⟩ := h.child _ child
  obtain rfl : wrote = false := allowed.1
  exact h.of_child child rfl id ⟨sent.none_of_unwritten, allowed.2.2⟩

theorem Sound.exit (h : Sound first stdio setup dir s role) {table : Open α} {refused : Option Errno}
    (child : s.child = some ⟨table, .preparing (.done ()), refused⟩) :
    Sound first stdio setup dir { s with child := some ⟨[], .exited, refused⟩ } role := by
  obtain ⟨fail, wrote, sent, done, -⟩ := h.child _ child
  obtain rfl : wrote = true := done
  exact h.of_child child rfl id ⟨rfl, sent⟩

theorem Sound.kill (h : Sound first stdio setup dir s role) {table : Open α} {refused : Option Errno}
    {left : Run Unit} (child : s.child = some ⟨table, .preparing left, refused⟩) :
    Sound first stdio setup dir
      { s with child := some ⟨[], .exited, refused⟩, faulted := true } role := by
  obtain ⟨fail, wrote, sent, -⟩ := h.child _ child
  refine h.of_child child rfl (fun _ => rfl) ⟨rfl, ?_⟩
  rcases sent with ⟨none, -⟩ | ⟨-, reported⟩
  · exact .inl ⟨none, fun _ => rfl⟩
  · exact .inr ⟨rfl, reported⟩

theorem Sound.childMoves (h : Sound first stdio setup dir s role) (o : Oracle) :
    Sound first stdio setup dir (s.next (.child o)) role := by
  cases child : s.child with
  | none =>
      simp only [State.next, child]
      exact h
  | some c =>
      obtain ⟨table, stage, refused⟩ := c
      cases stage with
      | program =>
          simp only [State.next, child]
          exact h
      | exited =>
          simp only [State.next, child]
          exact h
      | preparing left =>
          cases left with
          | done _ =>
              simp only [State.next, child]
              exact h.exit child
          | call c rest =>
              simp only [State.next, child]
              split
              · exact h
              · split
                · next called =>
                    obtain ⟨rfl, -⟩ := called
                    exact h.exec child
                · exact h.advanceChild o child

theorem Sound.killed (h : Sound first stdio setup dir s role) :
    Sound first stdio setup dir (s.next .kill) role := by
  cases child : s.child with
  | none =>
      simp only [State.next, child]
      exact h
  | some c =>
      obtain ⟨table, stage, refused⟩ := c
      cases stage with
      | preparing left =>
          simp only [State.next, child]
          exact h.kill child
      | _ =>
          simp only [State.next, child]
          exact h

theorem Sound.of_parent (h : Sound first stdio setup dir s role) {t : Open α}
    {left : Run (Except Errno Pid)}
    (follows : ParentFollows first stdio setup dir left { role with table := t } (Parent.Ends first)) :
    Sound first stdio setup dir { s with parent := t, left } { role with table := t } :=
  ⟨rfl, follows, h.forked, h.unforked, h.child, h.ended, h.waited, h.reaped⟩

theorem Sound.childless (h : Sound first stdio setup dir s role) (unforked : role.forked = false) :
    s.child = none := by
  rw [h.forked] at unforked
  cases child : s.child with
  | none => rfl
  | some c =>
      rw [child] at unforked
      cases unforked

theorem Sound.forks (h : Sound first stdio setup dir s role) (clean : first.has .failure = false)
    (owned : ∀ fd, .clearCloexec fd ∈ setup → (first.held fd).isSome) {ready : Ready} {pid : Pid}
    {left : Run (Except Errno Pid)} (allowed : role.Allows first stdio setup dir (.fork ready))
    (follows : ParentFollows first stdio setup dir left (role.after (.fork ready) (.ok pid))
      (Parent.Ends first)) :
    Sound first stdio setup dir { s with
        left
        child := some { table := s.parent, stage := .preparing (Spawn.child ready) } }
      (role.after (.fork ready) (.ok pid)) := by
  obtain ⟨unforked, received, ended, reaped, setup', -, inherits⟩ := allowed
  obtain ⟨-, queued, -, -⟩ := h.unforked (h.childless unforked)
  refine ⟨h.table, follows, rfl, fun none => (by cases none), fun c same => ?_, fun ended' => ?_,
    h.waited, fun reaped' => ?_⟩
  · cases same
    rw [h.table] at inherits
    refine ⟨ready.fail, false, .inl ⟨?_, fun wrote => by cases wrote⟩, ?_⟩
    · change role.received ++ s.queued = []
      rw [received, queued, List.nil_append]
    · exact child_follows clean inherits setup' owned
  · rw [show role.ended = true from ended'] at ended
    cases ended
  · rw [show role.reaped = true from reaped'] at reaped
    cases reaped

theorem Sound.over_of_silent (h : Sound first stdio setup dir s role) (forked : role.forked = true)
    (silent : s.writers = false) : ∃ c, s.child = some c ∧ c.stage.over = true := by
  rw [h.forked] at forked
  obtain ⟨c, child⟩ := Option.isSome_iff_exists.1 forked
  refine ⟨c, child, ?_⟩
  by_contra preparing
  have writes := (h.child c child).has_failure (Bool.eq_false_of_not_eq_true preparing)
  simp [State.writers, child, writes] at silent

theorem Sound.reads (h : Sound first stdio setup dir s role) {fd : Fd} {len : Nat} {o : Oracle}
    {left : Run (Except Errno Pid)} (allowed : role.Allows first stdio setup dir (.read fd len))
    (unblocked : s.blocks (.read fd len) = false) {reply : Except Errno Bytes}
    (read : (serve s.parent s.queued o (.read fd len)).1 = reply)
    (follows : ParentFollows first stdio setup dir left (role.after (.read fd len) reply)
      (Parent.Ends first)) :
    Sound first stdio setup dir { s with
        left
        queued := through s.queued (.read fd len) reply
        faulted := failed (.read fd len) reply || s.faulted } (role.after (.read fd len) reply) := by
  obtain ⟨forked, -, positive⟩ := allowed
  have born : s.child ≠ none := by
    intro none
    rw [h.forked, none] at forked
    cases forked
  cases reply with
  | error e =>
      exact ⟨h.table, follows, h.forked, fun none => absurd none born,
        fun c child => (h.child c child).fault, fun _ => .inl rfl, h.waited, h.reaped⟩
  | ok chunk =>
      have taken := read_chunk read
      have whole : chunk ++ s.queued.drop chunk.length = s.queued := by
        obtain ⟨rest, same⟩ : chunk <+: s.queued := taken ▸ List.take_prefix ..
        rw [← same, List.drop_left]
      refine ⟨h.table, follows, h.forked, fun none => absurd none born, fun c child => ?_,
        fun ended => ?_, h.waited, h.reaped⟩
      · change ChildSound _ _ _ c (role.received ++ chunk ++ s.queued.drop chunk.length) s.faulted
        rw [List.append_assoc, whole]
        exact h.child c child
      · have none : chunk = [] := of_decide_eq_true ended
        have empty : s.queued = [] := by
          rw [none] at taken
          rcases List.take_eq_nil_iff.1 taken.symm with zero | empty
          · omega
          · exact empty
        have silent : s.writers = false := by
          simpa [State.blocks, empty] using unblocked
        obtain ⟨c, child, over'⟩ := h.over_of_silent forked silent
        refine .inr ⟨c, child, over', ?_⟩
        change s.queued.drop chunk.length = []
        rw [empty, List.drop_nil]

theorem Sound.reaps (h : Sound first stdio setup dir s role) {left : Run (Except Errno Pid)}
    (allowed : role.Allows first stdio setup dir .wait) (unblocked : s.blocks .wait = false)
    (follows : ParentFollows first stdio setup dir left (role.after .wait ()) (Parent.Ends first)) :
    Sound first stdio setup dir { s with left, reaped := true } (role.after .wait ()) := by
  have full : role.received.length = 4 := allowed
  refine ⟨h.table, follows, h.forked, fun none => ?_, h.child, h.ended, rfl, fun _ => ?_⟩
  · rw [(h.unforked none).1] at full
    cases full
  · cases child : s.child with
    | none =>
        rw [(h.unforked child).1] at full
        cases full
    | some c =>
        obtain ⟨table, stage, refused⟩ := c
        refine ⟨_, rfl, ?_⟩
        simp only [State.blocks, child, Option.any_some] at unblocked
        cases stage with
        | exited => rfl
        | _ => cases unblocked

theorem Sound.advance (h : Sound first stdio setup dir s role) (clean : first.has .failure = false)
    (owned : ∀ fd, .clearCloexec fd ∈ setup → (first.held fd).isSome) (o : Oracle) {c : Call}
    {rest : Reply c → Run (Except Errno Pid)} (left : s.left = .call c rest)
    (unblocked : s.blocks c = false) : ∃ role, Sound first stdio setup dir (s.advance o c rest) role := by
  have follows := h.follows
  rw [left] at follows
  obtain ⟨allowed, onward⟩ := follows
  obtain ⟨given, table⟩ := serve_parent allowed s.queued o
  have follows := onward _ given
  refine ⟨role.after c (serve s.parent s.queued o c).1, ?_⟩
  rw [h.table] at table follows
  unfold State.advance
  dsimp only
  rw [← table]
  cases c with
  | fork ready =>
      cases reply : (serve s.parent s.queued o (.fork ready)).1 with
      | error e =>
          rw [reply] at follows
          exact ⟨rfl, follows, h.forked, h.unforked, h.child, h.ended, h.waited, h.reaped⟩
      | ok pid =>
          rw [reply] at follows
          have same : (role.after (.fork ready) (.ok pid)).table = s.parent := h.table
          rw [same]
          exact h.forks clean owned allowed follows
  | read fd len =>
      have same : ∀ reply, (role.after (.read fd len) reply).table = s.parent := by
        intro reply
        cases reply <;> exact h.table
      rw [same]
      exact h.reads allowed unblocked rfl follows
  | wait =>
      have same : (role.after .wait ()).table = s.parent := h.table
      change Sound _ _ _ _
        { s with parent := (role.after .wait ()).table, left := rest (), reaped := true } _
      rw [same]
      exact h.reaps allowed unblocked follows
  | dupAbove fd =>
      cases reply : (serve s.parent s.queued o (.dupAbove fd)).1 with
      | error e =>
          rw [reply] at follows
          exact h.of_parent follows
      | ok n =>
          rw [reply] at follows
          exact h.of_parent follows
  | pipe =>
      cases reply : (serve s.parent s.queued o .pipe).1 with
      | error e =>
          rw [reply] at follows
          exact h.of_parent follows
      | ok ends =>
          rw [reply] at follows
          exact h.of_parent follows
  | close fd => exact h.of_parent follows
  | _ => exact allowed.elim

theorem Sound.next (h : Sound first stdio setup dir s role) (clean : first.has .failure = false)
    (owned : ∀ fd, .clearCloexec fd ∈ setup → (first.held fd).isSome) (move : Move) :
    ∃ role, Sound first stdio setup dir (s.next move) role := by
  cases move with
  | child o => exact ⟨role, h.childMoves o⟩
  | kill => exact ⟨role, h.killed⟩
  | parent o =>
      cases left : s.left with
      | done _ =>
          simp only [State.next, left]
          exact ⟨role, h⟩
      | call c rest =>
          simp only [State.next, left]
          split
          · exact ⟨role, h⟩
          · next free =>
              rw [Bool.or_eq_true, not_or, Bool.not_eq_true] at free
              exact h.advance clean owned o left free.1

/-! ## From the start -/

theorem outside_clean (table : Table α) (object : Object α) (ours : ∀ a, object ≠ .outside a) :
    (outside table).has object = false := by
  rw [has_eq_false]
  rintro fd d now rfl
  rw [held_outside] at now
  obtain ⟨before, -, same⟩ := Option.map_eq_some_iff.1 now
  exact ours before.object (by rw [← same])

theorem State.Reaches.sound {table : Table α} {stdio : Stdio} {setup : List Setup} {dir : Bool}
    {s : State α} (input : (table.held stdio.input).isSome) (output : (table.held stdio.output).isSome)
    (diagnostics : (table.held stdio.diagnostics).isSome)
    (owned : ∀ fd, .clearCloexec fd ∈ setup → (table.held fd).isSome)
    (run : (start table stdio setup dir).Reaches s) :
    ∃ role, Sound (outside table) stdio setup dir s role := by
  have clean := outside_clean table .failure fun _ same => by cases same
  have opened : ∀ {fd}, (table.held fd).isSome → ∃ d, (outside table).held fd = some d := by
    intro fd open'
    obtain ⟨d, open'⟩ := Option.isSome_iff_exists.1 open'
    exact ⟨_, by rw [held_outside, open']; rfl⟩
  induction run with
  | refl =>
      refine ⟨_, rfl, spawn_follows clean (opened input) (opened output) (opened diagnostics), rfl,
        fun _ => ⟨rfl, rfl, rfl, rfl⟩, fun c child => ?_, fun ended => ?_, rfl, fun reaped => ?_⟩
      · cases child
      · cases ended
      · cases reaped
  | tail _ step ih =>
      obtain ⟨role, sound⟩ := ih
      obtain ⟨move, rfl⟩ := step
      exact sound.next clean (fun fd cleared => Option.isSome_iff_exists.2 (opened (owned fd cleared))) move

theorem Sound.refused (h : Sound first stdio setup dir s role) {e : Errno}
    (left : s.left = .done (.error e)) : s.parent = first ∧
      ∀ c, s.child = some c → c.stage = .exited ∧ c.refused = some e ∧ s.reaped = true := by
  have ends := h.follows
  rw [left] at ends
  obtain ⟨table, told⟩ := ends
  refine ⟨h.table.symm.trans table, fun c child => ?_⟩
  obtain ⟨full, same, reaped⟩ := told (by rw [h.forked, child]; rfl)
  have waited : s.reaped = true := h.waited.trans reaped
  obtain ⟨c', child', exited⟩ := h.reaped reaped
  rw [child, Option.some.injEq] at child'
  subst child'
  have sound := h.child c child
  obtain ⟨table, stage, refused⟩ := c
  obtain rfl : stage = .exited := exited
  refine ⟨rfl, ?_, waited⟩
  obtain ⟨-, ⟨none, -⟩ | ⟨-, e', refused, sent⟩⟩ := sound
  · have received := List.append_eq_nil_iff.1 none
    rw [received.1] at full
    cases full
  · have lengths := congrArg List.length sent
    rw [List.length_append, length_toNeBytes, full] at lengths
    have empty : s.queued = [] := List.length_eq_zero_iff.1 (by omega)
    rw [empty, List.append_nil] at sent
    rw [same, sent, fromNeBytes_toNeBytes]
    exact refused

theorem Sound.started (h : Sound first stdio setup dir s role) {pid : Pid}
    (left : s.left = .done (.ok pid)) : s.parent = first ∧
      (s.faulted = false → ∃ c, s.child = some c ∧ c.stage = .program) := by
  have ends := h.follows
  rw [left] at ends
  obtain ⟨table, forked, part, ended⟩ := ends
  refine ⟨h.table.symm.trans table, fun faultless => ?_⟩
  rcases h.ended ended with faulted | ⟨c, child, over', empty⟩
  · rw [faultless] at faulted
    cases faulted
  · refine ⟨c, child, ?_⟩
    have sound := h.child c child
    obtain ⟨table, stage, refused⟩ := c
    cases stage with
    | preparing left => cases over'
    | program => rfl
    | exited =>
        obtain ⟨-, ⟨-, fault⟩ | ⟨-, e, -, sent⟩⟩ := sound
        · rw [faultless] at fault
          cases fault rfl
        · rw [empty, List.append_nil] at sent
          rw [sent, length_toNeBytes] at part
          exact absurd rfl part

theorem handed_ours {table : Table α} {stdio : Stdio} {setup : List Setup} {fd : Fd}
    {d : Descriptor (Object α)} (given : handed (outside table) stdio setup fd = some d) :
    d.object ≠ .failure := by
  have clean := has_eq_false.1 (outside_clean table .failure fun _ same => by cases same)
  have same : ∃ fd d', (outside table).held fd = some d' ∧ stays d' = d := by
    rcases fd with _ | _ | _ | fd
    · exact ⟨_, Option.map_eq_some_iff.1 given⟩
    · exact ⟨_, Option.map_eq_some_iff.1 given⟩
    · exact ⟨_, Option.map_eq_some_iff.1 given⟩
    · obtain ⟨d', kept, same⟩ := Option.map_eq_some_iff.1 given
      exact ⟨_, d', (Option.filter_eq_some_iff.1 kept).1, same⟩
  obtain ⟨fd, d', before, rfl⟩ := same
  exact clean fd d' before

/-- The parent waits only for a child that has its `execve` or its report still before it. -/
theorem Sound.blocked {table : Table α} (h : Sound (outside table) stdio setup dir s role) {c : Call}
    {rest : Reply c → Run (Except Errno Pid)} (left : s.left = .call c rest)
    (blocked : s.blocks c = true) :
    ∃ child left, s.child = some child ∧ child.stage = .preparing left := by
  have follows := h.follows
  rw [left] at follows
  have allowed := follows.1
  cases c with
  | read fd len =>
      obtain ⟨-, clean, -⟩ := allowed
      rw [State.blocks, Bool.and_eq_true, State.writers, ← h.table, clean, Bool.false_or,
        Option.any_eq_true] at blocked
      obtain ⟨-, child, child', writes⟩ := blocked
      obtain ⟨fd, d, open', object⟩ := has_eq_true.1 writes
      have sound := h.child child child'
      obtain ⟨table, stage, refused⟩ := child
      cases stage with
      | preparing left => exact ⟨_, left, child', rfl⟩
      | program => exact absurd object (handed_ours ((sound.2 fd).symm.trans open'))
      | exited =>
          rw [show table = [] from sound.1] at open'
          cases open'
  | wait =>
      obtain ⟨child, child', waits⟩ := (Option.any_eq_true _ _).1 blocked
      have sound := h.child child child'
      obtain ⟨table, stage, refused⟩ := child
      cases stage with
      | preparing left => exact ⟨_, left, child', rfl⟩
      | program =>
          have full : role.received.length = 4 := allowed
          rw [(List.append_eq_nil_iff.1 sound.1).1] at full
          cases full
      | exited => cases waits
  | _ => cases blocked

/-- In every interleaving of a `spawn` with its child: a refusal leaves no child but one that has exited
over that very refusal and been waited for; where nothing else failed the parent is told of a program
only if there is one; the program has the three descriptors it is given, what was open and not `CLOEXEC`,
what `setup` kept, and nothing else; the parent ends with what it had open; and it waits only for a child
that still runs. -/
theorem State.Reaches.spawn_answers {table : Table α} {stdio : Stdio} {setup : List Setup} {dir : Bool}
    {s : State α} (input : (table.held stdio.input).isSome) (output : (table.held stdio.output).isSome)
    (diagnostics : (table.held stdio.diagnostics).isSome)
    (owned : ∀ fd, .clearCloexec fd ∈ setup → (table.held fd).isSome)
    (run : (start table stdio setup dir).Reaches s) :
    (∀ e, s.left = .done (.error e) → s.parent = outside table ∧
      ∀ c, s.child = some c → c.stage = .exited ∧ c.refused = some e ∧ s.reaped = true) ∧
    (∀ pid, s.left = .done (.ok pid) → s.parent = outside table ∧
      (s.faulted = false → ∃ c, s.child = some c ∧ c.stage = .program)) ∧
    (∀ c, s.child = some c → c.stage = .program →
      ∀ fd, c.table.held fd = handed (outside table) stdio setup fd) ∧
    ∀ c rest, s.left = .call c rest → s.blocks c = true →
      ∃ child left, s.child = some child ∧ child.stage = .preparing left := by
  obtain ⟨role, sound⟩ := run.sound input output diagnostics owned
  refine ⟨fun e left => sound.refused left, fun pid left => sound.started left, ?_, ?_⟩
  · intro c child program
    have given := sound.child c child
    obtain ⟨table, stage, refused⟩ := c
    obtain rfl : stage = .program := program
    exact given.2
  · exact fun c rest left blocked => sound.blocked left blocked

theorem State.reaches_run (s : State α) (moves : List Move) : s.Reaches (s.run moves) := by
  induction moves generalizing s with
  | nil => exact .refl
  | cons move moves ih => exact .head ⟨move, rfl⟩ (ih _)

/-- A relay with `/dev/null` at 4, a lock at 5, a pipe at 6, and something of its launcher's at 3. -/
def relayTable : Table Nat :=
  [some ⟨0, false⟩, some ⟨1, false⟩, some ⟨2, false⟩, some ⟨3, false⟩, some ⟨4, true⟩, some ⟨5, true⟩,
    some ⟨6, true⟩, none, none, none, none, none, none, none, none, none]

def parentMoves (n : Nat) : List Move := List.replicate n (.parent {})

def childMoves (n : Nat) : List Move := List.replicate n (.child {})

/-- The `execve` fails with `ENOENT`, which is what the parent is told. -/
theorem State.Reaches.spawn_answers_missing :
    let s := (start relayTable ⟨4, 4, 6⟩ [.work, .clearCloexec 5] false).run
      (parentMoves 12 ++ childMoves 5 ++ .child { fault := some 2 } :: childMoves 2 ++ parentMoves 4)
    s.left = .done (.error 2) ∧ s.parent = outside relayTable ∧
      ∃ c, s.child = some c ∧ c.stage = .exited ∧ c.refused = some 2 ∧ s.reaped = true := by
  intro s
  have left : s.left = .done (.error 2) := by rfl
  have owned : ∀ fd, Setup.clearCloexec fd ∈ [.work, .clearCloexec 5] → (relayTable.held fd).isSome := by
    intro fd cleared
    simp only [List.mem_cons, List.not_mem_nil, or_false, reduceCtorEq, false_or,
      Setup.clearCloexec.injEq] at cleared
    subst cleared
    rfl
  obtain ⟨refused, -⟩ := State.Reaches.spawn_answers (by rfl) (by rfl) (by rfl) owned
    (State.reaches_run (start relayTable ⟨4, 4, 6⟩ [.work, .clearCloexec 5] false) _)
  obtain ⟨parent, told⟩ := refused 2 left
  have child : s.child.isSome := by rfl
  obtain ⟨c, child⟩ := Option.isSome_iff_exists.1 child
  exact ⟨left, parent, c, child, told c child⟩

end Nomux.Spawn
