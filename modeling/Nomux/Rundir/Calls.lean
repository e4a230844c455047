import Nomux.Rundir.OneDaemon

/-!
# What the calls of a session show

A run of `spawn`, `daemon`, `kill` and `list` processes by the calls that are made in it, each with
its answer. When a daemon serves can be told from these alone, and so can what nobody else calls in
the meantime.
-/

namespace Nomux.Rundir
open Program

namespace Living

inductive Act
  | call (errand : Errand) (c : Call) (reply : Reply c)
  | exit

structure Event where
  proc : Proc
  act : Act

/-- A daemon serves from its bind to the scan that its own removal begins with. -/
def Act.serving (serving : Option Sock) : Act → Option Sock
  | .call _ c reply => servingAfter serving c reply
  | .exit => none

def Event.serving (p : Proc) (serving : Option Sock) (e : Event) : Option Sock :=
  if p = e.proc then e.act.serving serving else serving

def servingIn (p : Proc) (calls : List Event) : Option Sock := calls.foldl (Event.serving p) none

namespace State

/-- A process that moves shows the call it makes, or its exit. While the number a fork is to give is
taken, there is no call. -/
def shows (s : State) (p : Proc) (move : Move) : Option Event :=
  match move, s.process p with
  | .go o rounds label, some ⟨errand, .call c _⟩ =>
      if (offspring o rounds label c).isSome && (s.process o.child).isSome then none
      else some ⟨p, .call errand c (s.fs.serve p o c).1⟩
  | .exit, some _ => some ⟨p, .exit⟩
  | _, _ => none

def calls (s : State) : List (Proc × Move) → List Event
  | [] => []
  | (p, move) :: moves => (s.shows p move).toList ++ (s.next p move).calls moves

end State

/-- The calls of a run that starts in a directory, and where it leads. -/
inductive Runs (fs : Fs) : List Event → State → Prop
  | start : Runs fs [] { fs }
  | move {calls : List Event} {s : State} (run : Runs fs calls s) (p : Proc) (move : Move) :
      Runs fs (calls ++ (s.shows p move).toList) (s.next p move)

variable {fs : Fs} {calls : List Event} {s : State}

theorem Runs.follow (run : Runs fs calls s) (moves : List (Proc × Move)) :
    Runs fs (calls ++ s.calls moves) (s.run moves) := by
  induction moves generalizing calls s with
  | nil =>
      rw [State.calls, List.append_nil]
      exact run
  | cons move moves ih =>
      rw [State.calls, ← List.append_assoc]
      exact ih (run.move move.1 move.2)

theorem Runs.of_moves (fs : Fs) (moves : List (Proc × Move)) :
    Runs fs (State.calls { fs } moves) (State.run { fs } moves) := Runs.start.follow moves

theorem Runs.reaches (run : Runs fs calls s) : State.Reaches { fs } s := by
  induction run with
  | start => exact .refl
  | move _ p move ih => exact ih.tail ⟨p, move, rfl⟩

theorem servingIn_append (p : Proc) (calls : List Event) (e : Option Event) :
    servingIn p (calls ++ e.toList) = e.elim (servingIn p calls) (Event.serving p (servingIn p calls)) := by
  cases e with
  | none => exact congrArg (servingIn p) (List.append_nil calls)
  | some e => exact List.foldl_concat ..

theorem State.make_serving (s : State) (p q : Proc) (o : Oracle) (errand : Errand) (c : Call)
    (rest : Reply c → Run Unit) : (s.make p o errand c rest).serving q =
      Event.serving q (s.serving q) ⟨p, .call errand c (s.fs.serve p o c).1⟩ := by
  change Function.update s.serving p _ q = if q = p then _ else _
  rcases eq_or_ne q p with rfl | other
  · rw [Function.update_self, if_pos rfl]
    rfl
  · rw [Function.update_of_ne other, if_neg other]

theorem State.next_serving (s : State) (p q : Proc) (move : Move) :
    (s.next p move).serving q = (s.shows p move).elim (s.serving q) (Event.serving q (s.serving q)) := by
  unfold next shows
  cases process : s.process p with
  | none => cases move <;> rfl
  | some process' =>
      obtain ⟨errand, left⟩ := process'
      cases move with
      | begin errand patience rounds label => rfl
      | exit => exact Function.update_apply ..
      | go o rounds label =>
          cases left with
          | done _ => rfl
          | call c rest =>
              dsimp only
              cases offspring o rounds label c with
              | none => exact s.make_serving p q o errand c rest
              | some child =>
                  cases s.process o.child with
                  | none => exact s.make_serving p q o errand c rest
                  | some _ => rfl

theorem Runs.serving (run : Runs fs calls s) (p : Proc) : s.serving p = servingIn p calls := by
  induction run with
  | start => rfl
  | move _ q move ih => rw [servingIn_append, State.next_serving, ih]

theorem Runs.split {before after : List Event} {e : Event} (run : Runs fs calls s)
    (same : calls = before ++ e :: after) :
    ∃ s p move, Runs fs before s ∧ s.shows p move = some e := by
  induction run generalizing after with
  | start =>
      have size := congrArg List.length same
      simp at size
  | move run p move ih =>
      cases shown : State.shows _ p move with
      | none =>
          rw [shown, Option.toList_none, List.append_nil] at same
          exact ih same
      | some last =>
          rw [shown, Option.toList_some] at same
          rcases List.eq_nil_or_concat after with rfl | ⟨after, last', rfl⟩
          · obtain ⟨rfl, rfl⟩ : _ = before ∧ last = e := by
              simpa using List.append_inj' same rfl
            exact ⟨_, p, move, run, shown⟩
          · rw [List.concat_eq_append, ← List.cons_append, ← List.append_assoc] at same
            exact ih (List.append_inj' same rfl).1

theorem State.process_of_shows {p q : Proc} {move : Move} {errand : Errand} {c : Call} {reply : Reply c}
    (shown : s.shows p move = some ⟨q, .call errand c reply⟩) :
    q = p ∧ ∃ next, s.process p = some ⟨errand, .call c next⟩ := by
  unfold shows at shown
  split at shown
  · rename_i process
    split at shown
    · cases shown
    · cases shown
      exact ⟨rfl, _, process⟩
  · cases shown
  · cases shown

/-- In every run of the processes of one session, by its calls: at most one of them ever serves, its
socket is at the name as long as it does, and in the meantime nobody else calls `unlink` on that name.
Nobody binds, starts a daemon, or removes anything for `kill` or `list` while the session is served, and
only the lock is made as a file. -/
theorem Runs.session_kept (rest : fs.AtRest)
    (lock : ∀ node, fs.name .lock = some node → node.kind = .regular) (run : Runs fs calls s) :
    (∀ p q, servingIn p calls ≠ none → servingIn q calls ≠ none → p = q) ∧
    (∀ p t, servingIn p calls = some t → s.fs.name .socket = some ⟨t, .socket⟩) ∧
    ∀ before p errand c reply after, calls = before ++ ⟨p, .call errand c reply⟩ :: after →
      (c = .unlink .socket → ∀ q, servingIn q before ≠ none → q = p) ∧
      (errand.Disrupts c → ∀ q, servingIn q before = none) ∧
      ∀ n, c = .create n → n = .lock := by
  obtain ⟨role, sound⟩ := run.reaches.sound rest lock
  refine ⟨fun p q serves serves' => ?_, fun p t serves => ?_, ?_⟩
  · rw [← run.serving] at serves serves'
    exact sound.alone serves serves'
  · exact sound.serves ((run.serving p).trans serves)
  · intro before p errand c reply after same
    obtain ⟨s, p', move, run, shown⟩ := run.split same
    obtain ⟨rfl, next, process⟩ := State.process_of_shows shown
    obtain ⟨role, sound⟩ := run.reaches.sound rest lock
    have coupled := sound.coupled p
    rw [process] at coupled
    obtain ⟨allowed, -⟩ := coupled
    have guards := (Errand.allows errand allowed).2
    refine ⟨?_, fun disrupts q => ?_, ?_⟩
    · rintro rfl q serves
      rw [← run.serving, sound.serving] at serves
      exact sound.secure.alone p q guards.2 serves
    · rw [← run.serving]
      exact sound.unserved (sound.licensed allowed disrupts) q
    · rintro n rfl
      exact guards

def served : List (Proc × Move) := (0, .begin .spawn 3 3 true) :: goes 0 9 ++ goes 1 24

/-- Both are ended, and a `list` finds that nobody listens. -/
def swept : List (Proc × Move) :=
  served ++ (0, .exit) :: (1, .exit) :: (2, .begin .list 3 3 true) :: goes 2 16

def Event.sweeps : Event → Bool
  | ⟨_, .call .list (.unlink .socket) (.ok ())⟩ => true
  | _ => false

theorem Runs.session_kept_swept :
    servingIn 1 (State.calls { fs := vacant } served) = some 1 ∧
    (∀ q, servingIn q (State.calls { fs := vacant } served) ≠ none → q = 1) ∧
    (State.run { fs := vacant } served).fs.name .socket = some ⟨1, .socket⟩ ∧
    (State.calls { fs := vacant } swept).any Event.sweeps ∧
    ∀ before reply after, State.calls { fs := vacant } swept =
        before ++ ⟨2, .call .list (.unlink .socket) reply⟩ :: after →
      ∀ q, servingIn q before = none := by
  have lock : ∀ node, vacant.name .lock = some node → node.kind = .regular := by
    intro node named
    cases named
  have serves : servingIn 1 (State.calls { fs := vacant } served) = some 1 := by decide +kernel
  obtain ⟨alone, named, -⟩ := (Runs.of_moves vacant served).session_kept vacant_atRest lock
  obtain ⟨-, -, called⟩ := (Runs.of_moves vacant swept).session_kept vacant_atRest lock
  refine ⟨serves, fun q serves' => alone q 1 serves' ?_, named 1 1 serves, by decide +kernel, ?_⟩
  · rw [serves]
    exact Option.some_ne_none 1
  · intro before reply after whole
    exact (called before 2 .list (.unlink .socket) reply after whole).2.1 trivial

end Living

end Nomux.Rundir
