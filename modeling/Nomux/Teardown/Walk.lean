import Nomux.Teardown.Stat
import Nomux.Control.Pids

/-!
# Walking a session

`walk_session` of `pty.rs` with what it calls, what it is asked for, and what an answer that nothing
is left rests on. The clock is asked only whether the deadline has passed.
-/

namespace Nomux.Teardown
open Wire Program
open Control (Pid Proc Pidfd fromRaw)

abbrev Signal := Nat

inductive Errno
  | noent
  | srch
  | other (n : Nat)
deriving DecidableEq

/-- An open `stat`, by the process whose line it is. -/
structure StatFile where
  proc : Proc
deriving DecidableEq

/-- A `stat` is opened by the name that its directory has. -/
inductive Call
  | deadlinePassed
  | readDir
  | openStat (name : Bytes)
  | readToEnd (file : StatFile)
  | pidfdOpen (pid : Pid)
  | pidfdSendSignal (pidfd : Pidfd) (sig : Signal)
  | killProcessGroup (pid : Pid) (sig : Signal)

@[reducible] def Reply : Call → Type
  | .deadlinePassed => Bool
  | .readDir => Except Errno (List (Except Errno Bytes))
  | .openStat _ => Except Errno StatFile
  | .readToEnd _ => Except Errno Bytes
  | .pidfdOpen _ => Except Errno Pidfd
  | .pidfdSendSignal _ _ | .killProcessGroup _ _ => Except Errno Unit

abbrev Run := Program Reply

abbrev sys (c : Call) : Run (Reply c) := ask c

/-! ## The walk -/

def asPid (id : Nat) : Pid := if id < 2 ^ 31 then id else 0

def numeric (name : Bytes) : Option Pid := (toStr name).bind parseI32

inductive Membership
  | isIn
  | isOut
  | unseen
deriving DecidableEq

def classify (sid : Int) : Except Errno Bytes → Membership
  | .ok stat =>
      match statSession stat with
      | none => .unseen
      | some (session, zombie) => if session = sid ∧ zombie = false then .isIn else .isOut
  | .error .noent => .isOut
  | .error .srch => .isOut
  | .error (.other _) => .unseen

def membership (sid : Int) (name : Bytes) : Run Membership := do
  match ← sys (.openStat name) with
  | .error e => pure (classify sid (.error e))
  | .ok file => return classify sid (← sys (.readToEnd file))

def pinnedMember (sid : Int) (pid : Pid) (name : Bytes) : Run (Option Pidfd) :=
  match fromRaw pid with
  | none => pure none
  | some pid => do
      match ← sys (.pidfdOpen pid) with
      | .error _ => pure none
      | .ok pidfd => return if (← membership sid name) = .isIn then some pidfd else none

/-- Only where the walk is to pin what it finds. -/
def pinnedIf (pin : Bool) (sid : Int) (pid : Pid) (name : Bytes) : Run (Option Pidfd) :=
  if pin then pinnedMember sid pid name else pure none

def deadlinePassed (timed : Bool) : Run Bool :=
  if timed then sys .deadlinePassed else pure false

section

variable {σ : Type} (self sid : Int) (pin timed : Bool)
  (visit : σ → Pid → Option Pidfd → Run (Bool × σ))

/-- The entries that are left. `complete` is whether every process before them has answered. -/
def walkEntries : List (Except Errno Bytes) → (complete : Bool) → σ → Run (Bool × σ)
  | [], complete, seen => pure (complete, seen)
  | entry :: entries, complete, seen => do
      if ← deadlinePassed timed then pure (false, seen)
      else
        match entry with
        | .error _ => pure (false, seen)
        | .ok name =>
            match numeric name with
            | none => walkEntries entries complete seen
            | some pid =>
                if pid = self then walkEntries entries complete seen
                else do
                  match ← membership sid name with
                  | .isOut => walkEntries entries complete seen
                  | .unseen => walkEntries entries false seen
                  | .isIn => do
                      let pinned ← pinnedIf pin sid pid name
                      let (more, seen) ← visit seen pid pinned
                      if more then walkEntries entries complete seen else pure (true, seen)

def walkSession (seen : σ) : Run (Bool × σ) := do
  if ← deadlinePassed timed then pure (false, seen)
  else
    match ← sys .readDir with
    | .error _ => pure (false, seen)
    | .ok entries => walkEntries self sid pin timed visit entries true seen

end

inductive Reach
  | group (pid : Pid)
  | pinned (pidfd : Pidfd)

def reach (target : Reach) (sig : Signal) : Run Unit := do
  match target with
  | .group pid =>
      let _ ← sys (.killProcessGroup pid sig)
  | .pinned pidfd =>
      let _ ← sys (.pidfdSendSignal pidfd sig)

def signalSession (id : Nat) (sid : Int) (sig : Signal) : Run Unit := do
  let _ ← walkSession (asPid id) sid true true (fun seen _ pinned => do
    match pinned with
    | some pidfd => reach (.pinned pidfd) sig
    | none => pure ()
    return (true, seen)) ()

def sessionIsEmpty (id : Nat) (sid : Int) (timed : Bool) : Run Bool := do
  let (scanned, empty) ← walkSession (asPid id) sid false timed (fun _ _ _ => pure (false, false)) true
  return scanned && empty

/-! ## What an empty session rests on -/

abbrev Answered := Σ c, Reply c

/-- What is asked of one process where it is neither a live member nor unseen. -/
inductive LooksOut (sid : Int) (name : Bytes) : List Answered → Prop
  | vanished {e : Errno} (gone : e = .noent ∨ e = .srch) :
      LooksOut sid name [⟨.openStat name, .error e⟩]
  | ended {file : StatFile} {e : Errno} (gone : e = .noent ∨ e = .srch) :
      LooksOut sid name [⟨.openStat name, .ok file⟩, ⟨.readToEnd file, .error e⟩]
  | other {file : StatFile} {stat : Bytes} {session : Int} {zombie : Bool}
      (line : statSession stat = some (session, zombie)) (not : session ≠ sid ∨ zombie = true) :
      LooksOut sid name [⟨.openStat name, .ok file⟩, ⟨.readToEnd file, .ok stat⟩]

/-- The deadline is asked about and has not passed. -/
def inTime (timed : Bool) : List Answered := if timed then [⟨.deadlinePassed, false⟩] else []

/-- Every entry was read before the deadline, and every process but this one answered. -/
inductive AllOut (self sid : Int) (timed : Bool) : List (Except Errno Bytes) → List Answered → Prop
  | done : AllOut self sid timed [] []
  | skip {name : Bytes} {entries : List (Except Errno Bytes)} {trace : List Answered}
      (not : ∀ pid, numeric name = some pid → pid = self)
      (rest : AllOut self sid timed entries trace) :
      AllOut self sid timed (.ok name :: entries) (inTime timed ++ trace)
  | out {name : Bytes} {pid : Pid} {entries : List (Except Errno Bytes)} {said trace : List Answered}
      (names : numeric name = some pid) (looked : LooksOut sid name said)
      (rest : AllOut self sid timed entries trace) :
      AllOut self sid timed (.ok name :: entries) (inTime timed ++ (said ++ trace))

section

variable {self sid : Int} {timed : Bool}

theorem deadlinePassed_runs {passed : Bool} {trace : List Answered}
    (run : Runs (deadlinePassed timed) trace (.done passed)) :
    passed = true ∨ trace = inTime timed := by
  unfold deadlinePassed at run
  cases timed with
  | true =>
      have asked := Runs.of_ask run
      cases passed with
      | true => exact .inl rfl
      | false => exact .inr asked
  | false => exact .inr (Runs.of_pure run).1

theorem classify_unread {stat : Bytes} (line : statSession stat = none) :
    classify sid (.ok stat) = .unseen := by
  unfold classify
  dsimp only
  rw [line]

theorem classify_line {stat : Bytes} {session : Int} {zombie : Bool}
    (line : statSession stat = some (session, zombie)) :
    classify sid (.ok stat) = if session = sid ∧ zombie = false then .isIn else .isOut := by
  unfold classify
  dsimp only
  rw [line]

theorem classify_isOut {reply : Except Errno Bytes} (out : classify sid reply = .isOut) :
    (∃ e, reply = .error e ∧ (e = .noent ∨ e = .srch)) ∨
      ∃ stat session zombie, reply = .ok stat ∧ statSession stat = some (session, zombie) ∧
        (session ≠ sid ∨ zombie = true) := by
  match reply with
  | .error .noent => exact .inl ⟨_, rfl, .inl rfl⟩
  | .error .srch => exact .inl ⟨_, rfl, .inr rfl⟩
  | .error (.other n) => cases out
  | .ok stat =>
      right
      cases line : statSession stat with
      | none =>
          rw [classify_unread line] at out
          cases out
      | some fields =>
          obtain ⟨session, zombie⟩ := fields
          use stat, session, zombie, rfl, line
          rw [classify_line line] at out
          by_cases here : session = sid ∧ zombie = false
          · rw [if_pos here] at out
            cases out
          · rcases not_and_or.1 here with elsewhere | dead
            · exact .inl elsewhere
            · exact .inr (by simpa using dead)

theorem membership_runs {name : Bytes} {trace : List Answered}
    (run : Runs (membership sid name) trace (.done .isOut)) : LooksOut sid name trace := by
  obtain ⟨opened, before, after, first, second, rfl⟩ := Runs.of_bind run
  cases Runs.of_ask first
  cases opened with
  | error e =>
      obtain ⟨rfl, out⟩ := Runs.of_pure second
      rcases classify_isOut out with ⟨e', same, gone⟩ | ⟨_, _, _, same, -⟩
      · cases same
        exact .vanished gone
      · cases same
  | ok file =>
      obtain ⟨reply, asked, rest, read, last, rfl⟩ := Runs.of_bind second
      cases Runs.of_ask read
      obtain ⟨rfl, out⟩ := Runs.of_pure last
      rcases classify_isOut out with ⟨e, rfl, gone⟩ | ⟨stat, session, zombie, rfl, line, not⟩
      · exact .ended gone
      · exact .other line not

theorem walkEntries_empty {entries : List (Except Errno Bytes)} {complete : Bool} {trace : List Answered}
    (run : Runs (walkEntries self sid false timed (fun _ _ _ => pure (false, false)) entries complete true)
      trace (.done (true, true))) : complete = true ∧ AllOut self sid timed entries trace := by
  induction entries generalizing complete trace with
  | nil =>
      obtain ⟨rfl, same⟩ := Runs.of_pure run
      cases same
      exact ⟨rfl, .done⟩
  | cons entry entries ih =>
      obtain ⟨passed, before, after, first, second, rfl⟩ := Runs.of_bind run
      cases passed with
      | true => cases (Runs.of_pure second).2
      | false =>
          obtain early | rfl := deadlinePassed_runs first
          · cases early
          · cases entry with
            | error e => cases (Runs.of_pure second).2
            | ok name =>
                simp only [Bool.false_eq_true, if_false] at second
                cases names : numeric name with
                | none =>
                    rw [names] at second
                    obtain ⟨rfl, rest⟩ := ih second
                    exact ⟨rfl, .skip (by simp [names]) rest⟩
                | some pid =>
                    simp only [names] at second
                    by_cases own : pid = self
                    · rw [if_pos own] at second
                      obtain ⟨rfl, rest⟩ := ih second
                      exact ⟨rfl, .skip (by simp [names, own]) rest⟩
                    · rw [if_neg own] at second
                      obtain ⟨membership, said, after, looked, onward, rfl⟩ := Runs.of_bind second
                      cases membership with
                      | isOut =>
                          obtain ⟨rfl, rest⟩ := ih onward
                          exact ⟨rfl, .out names (membership_runs looked) rest⟩
                      | unseen => cases (ih onward).1
                      | isIn => cases (Runs.of_pure onward).2

theorem sessionIsEmpty_runs {id : Nat} {trace : List Answered}
    (run : Runs (sessionIsEmpty id sid timed) trace (.done true)) :
    ∃ entries rest, trace = inTime timed ++ ⟨.readDir, .ok entries⟩ :: rest ∧
      AllOut (asPid id) sid timed entries rest := by
  obtain ⟨⟨scanned, empty⟩, walked, last, walk, conclude, rfl⟩ := Runs.of_bind run
  obtain ⟨rfl, both⟩ := Runs.of_pure conclude
  obtain ⟨rfl, rfl⟩ := Bool.and_eq_true_iff.1 both
  obtain ⟨passed, before, after, first, second, rfl⟩ := Runs.of_bind walk
  cases passed with
  | true => cases (Runs.of_pure second).2
  | false =>
      obtain early | rfl := deadlinePassed_runs first
      · cases early
      · obtain ⟨reply, asked, rest, read, onward, rfl⟩ := Runs.of_bind second
        cases Runs.of_ask read
        cases reply with
        | error e => cases (Runs.of_pure onward).2
        | ok entries =>
            refine ⟨entries, rest, by simp, ?_⟩
            exact (walkEntries_empty onward).2

end

end Nomux.Teardown
