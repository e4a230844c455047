import Nomux.Control.Case
import Mathlib.Logic.Relation

/-!
# Signals reach the daemon or nobody

Processes exit, are reaped, and their numbers are given to others between any two calls of `kill`. A
number that was read, tested and pinned may by then be another process's; the descriptor is not.
-/

namespace Nomux.Control
open Program

/-- Which process holds a number. A process that has exited holds its number until it is reaped. -/
structure Pids where
  holder : Pid → Option Proc
  alive : Proc → Bool
  /-- No process has this number yet, or a greater one. -/
  fresh : Proc
  numbered : ∀ n p, holder n = some p → p < fresh

namespace Pids

def exit (w : Pids) (p : Proc) : Pids := { w with alive := Function.update w.alive p false }

def reap (w : Pids) (n : Pid) : Pids := { w with
  holder := Function.update w.holder n none
  numbered := fun m p held => by
    rcases eq_or_ne m n with rfl | other
    · simp at held
    · rw [Function.update_of_ne other] at held
      exact w.numbered m p held }

def assign (w : Pids) (n : Pid) : Pids := { w with
  holder := Function.update w.holder n (some w.fresh)
  alive := Function.update w.alive w.fresh true
  fresh := w.fresh + 1
  numbered := fun m p held => by
    rcases eq_or_ne m n with rfl | other
    · rw [Function.update_self, Option.some.injEq] at held
      exact held ▸ Nat.lt_succ_self _
    · rw [Function.update_of_ne other] at held
      exact Nat.lt_succ_of_lt (w.numbered m p held) }

inductive Step : Pids → Pids → Prop
  | exit (w : Pids) (p : Proc) : Step w (w.exit p)
  | reap (w : Pids) (n : Pid) (dead : ∀ p, w.holder n = some p → w.alive p = false) :
      Step w (w.reap n)
  | assign (w : Pids) (n : Pid) (free : w.holder n = none) : Step w (w.assign n)

/-- A process that is alive has been alive before, and under the same number. -/
structure Later (w w' : Pids) : Prop where
  fresh : w.fresh ≤ w'.fresh
  alive : ∀ p < w.fresh, w'.alive p = true → w.alive p = true
  holder : ∀ n p, w.holder n = some p → w'.alive p = true → w'.holder n = some p

theorem Later.refl (w : Pids) : Later w w := ⟨le_rfl, fun _ _ alive => alive, fun _ _ held _ => held⟩

theorem Later.trans {w w' w'' : Pids} (h : Later w w') (next : Later w' w'') : Later w w'' := by
  refine ⟨h.fresh.trans next.fresh, fun p before alive => ?_, fun n p held alive => ?_⟩
  · exact h.alive p before (next.alive p (before.trans_le h.fresh) alive)
  · have between := next.alive p ((w.numbered n p held).trans_le h.fresh) alive
    exact next.holder n p (h.holder n p held between) alive

theorem Step.later {w w' : Pids} (h : Step w w') : Later w w' := by
  cases h with
  | exit p =>
      refine ⟨le_rfl, fun q _ alive => ?_, fun _ _ held _ => held⟩
      change Function.update w.alive p false q = true at alive
      rcases eq_or_ne q p with rfl | other
      · simp at alive
      · rwa [Function.update_of_ne other] at alive
  | reap n dead =>
      refine ⟨le_rfl, fun _ _ alive => alive, fun m p held alive => ?_⟩
      rcases eq_or_ne m n with rfl | other
      · have alive : w.alive p = true := alive
        rw [dead p held] at alive
        cases alive
      · exact (Function.update_of_ne other ..).trans held
  | assign n free =>
      refine ⟨Nat.le_succ _, fun p before alive => ?_, fun m p held _ => ?_⟩
      · change Function.update w.alive w.fresh true p = true at alive
        rwa [Function.update_of_ne before.ne] at alive
      · have other : m ≠ n := by
          rintro rfl
          rw [free] at held
          cases held
        exact (Function.update_of_ne other ..).trans held

end Pids

/-- A call with its answer, and who held which number when it was made. -/
abbrev Entry := Pids × Σ c, Reply c

/-- A descriptor is of the process that holds the number. Anything else may be answered, and any call
may fail. -/
def Answers (w : Pids) : (c : Call) → Reply c → Prop
  | .pidfdOpen pid, .ok pidfd => w.holder pid = some pidfd.proc
  | _, _ => True

def evidence (id : Bytes) : Guarded Case Entry where
  init := {}
  step s e := s.after e.2.1 e.2.2
  Legal s e := s.Allows id e.2.1 ∧ Answers e.1 e.2.1 e.2.2

/-! ## Runs -/

structure System where
  pids : Pids
  left : Program Reply (Except Halt Unit)
  history : List Entry := []

inductive System.Step : System → System → Prop
  | elsewhere (s : System) {pids : Pids} (h : s.pids.Step pids) : Step s { s with pids }
  | call (s : System) {c : Call} {rest : Reply c → Program Reply (Except Halt Unit)}
      (next : s.left = .call c rest) (reply : Reply c) (answers : Answers s.pids c reply) :
      Step s { s with left := rest reply, history := s.history ++ [(s.pids, ⟨c, reply⟩)] }

def Reachable (id : Bytes) (fuel : Nat) (s : System) : Prop :=
  ∃ pids, Relation.ReflTransGen System.Step { pids, left := kill id fuel } s

structure Sound (id : Bytes) (s : System) : Prop where
  follows : s.left.Follows Case.after (Case.Allows id) ((evidence id).state s.history) fun _ _ => True
  lawful : (evidence id).Lawful s.history
  later : (s.history.map (·.1)).Pairwise Pids.Later
  now : ∀ e ∈ s.history, e.1.Later s.pids

theorem Sound.step {id : Bytes} {s s' : System} (h : Sound id s) (step : s.Step s') : Sound id s' := by
  cases step with
  | elsewhere moved =>
      exact { h with now := fun e past => (h.now e past).trans moved.later }
  | call next reply answers =>
      have follows := h.follows
      rw [next] at follows
      refine ⟨?_, .snoc h.lawful ⟨follows.1, answers⟩, ?_, ?_⟩
      · rw [Guarded.state_snoc]
        exact follows.2 reply
      · rw [List.map_append, List.pairwise_append]
        refine ⟨h.later, by simp, fun w past w' now => ?_⟩
        obtain ⟨e, member, rfl⟩ := List.mem_map.1 past
        rw [List.map_singleton, List.mem_singleton] at now
        rw [now]
        exact h.now e member
      · intro e member
        rcases List.mem_append.1 member with past | now
        · exact h.now e past
        · rw [List.mem_singleton.1 now]
          exact .refl _

theorem Reachable.sound {id : Bytes} {fuel : Nat} {s : System} (h : Reachable id fuel s) :
    Sound id s := by
  obtain ⟨pids, run⟩ := h
  induction run with
  | refl =>
      have follows : (kill id fuel).run.Follows Case.after (Case.Allows id) {} fun _ _ => True := by
        apply Follows.mono (kill_keeps id fuel)
        · exact fun _ _ allowed => allowed
        · exact fun _ _ _ => trivial
      exact ⟨follows, .nil, .nil, by simp⟩
  | tail _ step ih => exact ih.step step

/-! ## Where the evidence comes from -/

namespace Case

variable {s : Case} {c : Call} {reply : Reply c}

theorem after_pinned (other : ∀ pid, c ≠ .pidfdOpen pid) : (s.after c reply).pinned = s.pinned := by
  cases c <;> first | rfl | exact absurd rfl (other _)

theorem after_locked (other : c ≠ .lockSpawnUntil) : (s.after c reply).locked = s.locked := by
  cases c <;> first | rfl | exact absurd rfl other

theorem after_stale (other : c ≠ .connect) : (s.after c reply).stale = s.stale := by
  cases c <;> first | rfl | exact absurd rfl other

theorem after_file (other : ∀ file, c ≠ .openRead file) :
    (s.after c reply).reading.map (·.1) = s.reading.map (·.1) := by
  cases c with
  | openRead file => exact absurd rfl (other file)
  | read len =>
      show (s.reading.map _).map _ = _
      rw [Option.map_map]
      rfl
  | _ => rfl

theorem after_attempted (other : ∀ pidfd, c ≠ .pidfdSendSignal pidfd .term) :
    (s.after c reply).accepted.isSome = s.accepted.isSome := by
  cases c with
  | connect =>
      show (if _ then _ else _ : Option Bool).isSome = _
      split
      · exact Option.isSome_map
      · rfl
  | pidfdSendSignal pidfd sig =>
      cases sig with
      | term => exact absurd rfl (other pidfd)
      | kill => rfl
  | _ => rfl

end Case

section

variable {id : Bytes} {t : List Entry}

theorem pinned_at {pid : Pid} {reach : Except Errno Pidfd}
    (held : ((evidence id).state t).pinned = some (pid, reach)) :
    ∃ early w mid, t = early ++ (w, ⟨.pidfdOpen pid, reach⟩) :: mid := by
  obtain ⟨early, ⟨w, c, reply⟩, mid, rfl, ⟨pid', rfl⟩, set, -⟩ :=
    (evidence id).latest (P := fun s => s.pinned = some (pid, reach))
      (E := fun e => ∃ pid, e.2.1 = .pidfdOpen pid)
      (fun s e other held => (Case.after_pinned fun pid kind => other ⟨pid, kind⟩).symm.trans held)
      (by simp [evidence]) held
  cases set
  exact ⟨early, w, mid, rfl⟩

/-- The number is what a pidfile that was read whole says, and a process was then found under it. -/
def ReadFromPidfile (id : Bytes) (t : List Entry) (pid : Pid) : Prop :=
  ∃ early w mid body, t = early ++ (w, ⟨.testKill pid, .ok ()⟩) :: mid ∧
    ((evidence id).state early).reading = some (.pidfile, .whole body) ∧
    (parsePid body).bind fromRaw = some pid

theorem number_eq_some {reading : Option (File × Reading)} {pid : Pid}
    (named : Case.number reading = some pid) :
    ∃ body, reading = some (.pidfile, .whole body) ∧ (parsePid body).bind fromRaw = some pid := by
  rcases reading with _ | ⟨_ | _, _ | _ | _⟩
  case some.pidfile.whole body => exact ⟨body, rfl, named⟩
  all_goals cases named

theorem filed_at {pid : Pid} (lawful : (evidence id).Lawful t)
    (held : ((evidence id).state t).filed = some pid) : ReadFromPidfile id t pid := by
  obtain ⟨early, ⟨w, c, reply⟩, mid, rfl, kind, -, -⟩ :=
    (evidence id).latest (P := fun s => s.filed = some pid)
      (E := fun e => e.2 = ⟨.testKill pid, .ok ()⟩) (by
        rintro s ⟨w, c, reply⟩ other held
        cases c with
        | openRead file =>
            cases file with
            | pidfile => cases held
            | cmdline => exact held
        | testKill pid' =>
            rcases reply with e | _
            · exact held
            · cases held
              exact absurd rfl other
        | _ => exact held) (by simp [evidence]) held
  cases kind
  obtain ⟨body, whole, named⟩ := number_eq_some lawful.moment.1
  exact ⟨early, w, mid, body, rfl, whole, named⟩

theorem cmdline_at {pid : Pid} (held : ((evidence id).state t).reading.map (·.1) = some (.cmdline pid)) :
    ∃ early w reply mid, t = early ++ (w, ⟨.openRead (.cmdline pid), reply⟩) :: mid := by
  obtain ⟨early, ⟨w, c, reply⟩, mid, rfl, ⟨file, rfl⟩, set, -⟩ :=
    (evidence id).latest (P := fun s => s.reading.map (·.1) = some (.cmdline pid))
      (E := fun e => ∃ file, e.2.1 = .openRead file)
      (fun s e other held => (Case.after_file fun file kind => other ⟨file, kind⟩).symm.trans held)
      (by simp [evidence]) held
  cases set
  exact ⟨early, w, reply, mid, rfl⟩

theorem locked_at (held : ((evidence id).state t).locked = true) :
    ∃ e ∈ t, e.2 = ⟨.lockSpawnUntil, .ok ()⟩ := by
  obtain ⟨early, ⟨w, c, reply⟩, mid, rfl, rfl, set, -⟩ :=
    (evidence id).latest (P := fun s => s.locked = true) (E := fun e => e.2.1 = .lockSpawnUntil)
      (fun s e other held => (Case.after_locked other).symm.trans held) (by simp [evidence]) held
  refine ⟨(w, ⟨.lockSpawnUntil, reply⟩), by simp, ?_⟩
  rcases reply with e | _
  · cases set
  · rfl

theorem stale_at (held : ((evidence id).state t).stale = true) :
    ∃ early w reply mid, t = early ++ (w, ⟨.connect, reply⟩) :: mid ∧ Case.isStale reply = true ∧
      ((evidence id).state early).locked = true ∧ ∀ f ∈ mid, f.2.1 ≠ .connect := by
  obtain ⟨early, ⟨w, c, reply⟩, mid, rfl, rfl, set, last⟩ :=
    (evidence id).latest (P := fun s => s.stale = true) (E := fun e => e.2.1 = .connect)
      (fun s e other held => (Case.after_stale other).symm.trans held) (by simp [evidence]) held
  obtain ⟨locked, stale⟩ := Bool.and_eq_true_iff.1 set
  exact ⟨early, w, reply, mid, rfl, stale, locked, last⟩

theorem attempted_at (held : ((evidence id).state t).accepted.isSome = true) :
    ∃ early w pidfd reply mid, t = early ++ (w, ⟨.pidfdSendSignal pidfd .term, reply⟩) :: mid := by
  obtain ⟨early, ⟨w, c, reply⟩, mid, rfl, ⟨pidfd, rfl⟩, -, -⟩ :=
    (evidence id).latest (P := fun s => s.accepted.isSome = true)
      (E := fun e => ∃ pidfd, e.2.1 = .pidfdSendSignal pidfd .term)
      (fun s e other held =>
        (Case.after_attempted fun pidfd kind => other ⟨pidfd, kind⟩).symm.trans held)
      (by simp [evidence]) held
  exact ⟨early, w, pidfd, reply, mid, rfl⟩

theorem accepted_at (held : ((evidence id).state t).accepted = some true) :
    ∃ early w mid, t = early ++ (w, ⟨.connect, .ok true⟩) :: mid ∧
      ((evidence id).state early).accepted.isSome = true := by
  obtain ⟨early, ⟨w, c, reply⟩, mid, rfl, kind, set, -⟩ :=
    (evidence id).latest (P := fun s => s.accepted = some true)
      (E := fun e => e.2 = ⟨.connect, .ok true⟩) (by
        rintro s ⟨w, c, reply⟩ other held
        cases c with
        | connect =>
            rcases reply with e | _ | _
            · exact held
            · exact held
            · exact absurd rfl other
        | pidfdSendSignal pidfd sig =>
            cases sig with
            | term => cases held
            | kill => exact held
        | _ => exact held) (by simp [evidence]) held
  cases kind
  have set : ((evidence id).state early).accepted.map (fun _ => true) = some true := set
  refine ⟨early, w, mid, rfl, ?_⟩
  rw [← Option.isSome_map, set]
  rfl

theorem pinned_stays {before after : List Entry} {pinned : Pid × Except Errno Pidfd}
    (lawful : (evidence id).Lawful (before ++ after))
    (held : ((evidence id).state before).pinned = some pinned) :
    ((evidence id).state (before ++ after)).pinned = some pinned := by
  apply lawful.persists (P := fun s => s.pinned = some pinned) _ held
  rintro s ⟨w, c, reply⟩ legal held
  cases c with
  | pidfdOpen pid =>
      have unpinned := legal.1.1
      rw [held] at unpinned
      cases unpinned
  | _ => exact held

theorem signal_at {before : List Entry} {pidfd : Pidfd} {pid : Pid}
    (lawful : (evidence id).Lawful before)
    (pinned : ((evidence id).state before).pinned = some (pid, .ok pidfd))
    (cleared : ((evidence id).state before).Cleared id pid) :
    ∃ early w mid w' reply late, before =
      early ++ (w, ⟨.pidfdOpen pid, .ok pidfd⟩) :: (mid ++ (w', ⟨.openRead (.cmdline pid), reply⟩) :: late) := by
  have file : ((evidence id).state before).reading.map (·.1) = some (.cmdline pid) := by
    rcases cleared with failed | ⟨body, whole, -⟩
    · rw [failed]
      rfl
    · rw [whole]
      rfl
  obtain ⟨sofar, w', reply, late, rfl⟩ := cmdline_at file
  obtain ⟨reach, before⟩ := lawful.moment.1
  have same := pinned_stays lawful before
  rw [pinned, Option.some.injEq, Prod.mk.injEq] at same
  rw [← same.2] at before
  obtain ⟨early, w, mid, rfl⟩ := pinned_at before
  exact ⟨early, w, mid, w', reply, late, by simp⟩

theorem no_failed_pin {before : List Entry} {pid : Pid} {pidfd : Pidfd}
    (lawful : (evidence id).Lawful before)
    (pinned : ((evidence id).state before).pinned = some (pid, .ok pidfd)) {f : Entry}
    (member : f ∈ before) (pid' : Pid) (e : Errno) : f.2 ≠ ⟨.pidfdOpen pid', .error e⟩ := by
  intro failed
  obtain ⟨w, call⟩ := f
  cases failed
  obtain ⟨early, late, rfl⟩ := List.append_of_mem member
  have held : ((evidence id).state (early ++ [(w, ⟨.pidfdOpen pid', .error e⟩)])).pinned =
      some (pid', .error e) := by
    rw [Guarded.state_snoc]
    rfl
  rw [← List.singleton_append, ← List.append_assoc] at lawful pinned
  rw [pinned_stays lawful held] at pinned
  cases pinned

theorem kill_at {before : List Entry} {pid : Pid} {pidfd : Pidfd}
    (lawful : (evidence id).Lawful before)
    (pinned : ((evidence id).state before).pinned = some (pid, .ok pidfd))
    (accepted : ((evidence id).state before).accepted = some true) :
    ∃ early w reply mid w' late, before =
      early ++ (w, ⟨.pidfdSendSignal pidfd .term, reply⟩) :: (mid ++ (w', ⟨.connect, .ok true⟩) :: late) := by
  obtain ⟨sofar, w', late, rfl, attempted⟩ := accepted_at accepted
  obtain ⟨early, w, pidfd', reply, mid, rfl⟩ := attempted_at attempted
  rw [List.append_assoc, List.cons_append] at lawful pinned
  obtain ⟨pid', before, -⟩ := lawful.moment.1
  have same := pinned_stays lawful before
  rw [pinned] at same
  cases same
  exact ⟨early, w, reply, mid, w', late, by simp⟩

end

/-- A signal that reaches a process: it is alive, and the call succeeds. -/
def Entry.Delivers (e : Entry) (sig : Signal) (p : Proc) : Prop :=
  e.1.alive p = true ∧ e.2 = ⟨.pidfdSendSignal ⟨p⟩ sig, .ok ()⟩

theorem Reachable.kill_safe {id : Bytes} {fuel : Nat} {s : System} (h : Reachable id fuel s)
    {before after : List Entry} {e : Entry} (moment : s.history = before ++ e :: after) :
    (∀ sig p, e.Delivers sig p → ∃ early pins mid opens late pid,
      before = early ++ pins :: (mid ++ opens :: late) ∧
      pins.2 = ⟨.pidfdOpen pid, .ok ⟨p⟩⟩ ∧ pins.1.holder pid = some p ∧
      ((evidence id).state early).filed = some pid ∧ ReadFromPidfile id early pid ∧
      opens.2.1 = .openRead (.cmdline pid) ∧ opens.1.holder pid = some p ∧
      ((evidence id).state before).Cleared id pid) ∧
    (∀ pidfd sig, e.2.1 = .pidfdSendSignal pidfd sig →
      ∀ f ∈ before, ∀ pid why, f.2 ≠ ⟨.pidfdOpen pid, .error why⟩) ∧
    (∀ pidfd, e.2.1 = .pidfdSendSignal pidfd .kill → ∃ early term mid accept late,
      before = early ++ term :: (mid ++ accept :: late) ∧
      term.2.1 = .pidfdSendSignal pidfd .term ∧ accept.2 = ⟨.connect, .ok true⟩) ∧
    (e.2.1 = .unlinkAllLocked → ∃ early probe late reply,
      before = early ++ probe :: late ∧ probe.2 = ⟨.connect, reply⟩ ∧
      Case.isStale reply = true ∧ (∀ f ∈ late, f.2.1 ≠ .connect) ∧
      ∃ f ∈ early, f.2 = ⟨.lockSpawnUntil, .ok ()⟩) := by
  have sound := h.sound
  have lawful := sound.lawful
  rw [moment] at lawful
  have sofar := lawful.of_append
  have legal := lawful.moment
  refine ⟨?_, ?_, ?_, ?_⟩
  · rintro sig p ⟨alive, call⟩
    obtain ⟨w, _⟩ := e
    cases call
    obtain ⟨pid, pinned, cleared, -⟩ := legal.1
    obtain ⟨early, w₀, mid, w₁, reply, late, rfl⟩ := signal_at sofar pinned cleared
    have pins := sofar.moment
    have later := sound.later
    rw [moment] at later
    simp only [List.map_append, List.map_cons, List.append_assoc, List.cons_append,
      List.pairwise_append, List.pairwise_cons] at later
    have toRead : w₀.Later w₁ := later.2.1.1 w₁ (by simp)
    have toSignal : w₁.Later w := later.2.1.2.2.1.1 w (by simp)
    have held : w₀.holder pid = some p := pins.2
    refine ⟨early, _, mid, _, late, pid, rfl, rfl, held, pins.1.2, filed_at sofar.of_append pins.1.2,
      rfl, ?_, cleared⟩
    apply toRead.holder pid p held
    exact toSignal.alive p ((w₀.numbered pid p held).trans_le toRead.fresh) alive
  · intro pidfd sig kind f member pid why
    obtain ⟨w, c, reply⟩ := e
    cases kind
    obtain ⟨pid, pinned, -⟩ := legal.1
    exact no_failed_pin sofar pinned member _ why
  · intro pidfd kind
    obtain ⟨w, c, reply⟩ := e
    cases kind
    obtain ⟨pid, pinned, -, due⟩ := legal.1
    rcases due with ⟨⟨⟩, -⟩ | ⟨-, accepted⟩
    obtain ⟨early, w₀, reply, mid, w₁, late, split⟩ := kill_at sofar pinned accepted
    exact ⟨early, _, mid, _, late, split, rfl, rfl⟩
  · intro kind
    obtain ⟨w, c, reply⟩ := e
    cases kind
    obtain ⟨early, w₀, reply, late, rfl, refused, locked, last⟩ := stale_at legal.1.2
    exact ⟨early, _, late, reply, rfl, rfl, refused, last, locked_at locked⟩

theorem reachable_of_runs {id : Bytes} {fuel : Nat} {pids : Pids} {trace : List (Σ c, Reply c)}
    {left : Program Reply (Except Halt Unit)} (run : Runs (kill id fuel) trace left)
    (answers : ∀ e ∈ trace, Answers pids e.1 e.2) :
    Reachable id fuel ⟨pids, left, trace.map fun e => (pids, e)⟩ := by
  have onward : ∀ (program : Program Reply (Except Halt Unit)) (history : List Entry),
      Runs program trace left → Relation.ReflTransGen System.Step ⟨pids, program, history⟩
        ⟨pids, left, history ++ trace.map fun e => (pids, e)⟩ := by
    clear run
    intro program history run
    induction run generalizing history with
    | stop => simp [Relation.ReflTransGen.refl]
    | @call c reply rest trace left run ih =>
        have first : System.Step ⟨pids, .call c rest, history⟩
            ⟨pids, rest reply, history ++ [(pids, ⟨c, reply⟩)]⟩ :=
          .call _ rfl reply (answers ⟨c, reply⟩ (by simp))
        have later := ih (fun e member => answers e (by simp [member])) (history ++ [(pids, ⟨c, reply⟩)])
        rw [List.append_assoc] at later
        exact .head first later
  exact ⟨pids, onward _ [] run⟩

/-- The pidfile names 7, which is pinned; `/proc` cannot be read, and the `SIGTERM` arrives. -/
theorem kill_safe_unread : ∃ (s : System) (before : List Entry) (e : Entry), Reachable [115] 2 s ∧
    s.history = before ++ [e] ∧ e.Delivers .term 1 ∧ ∃ early pins mid opens late pid,
      before = early ++ pins :: (mid ++ opens :: late) ∧
      pins.2 = ⟨.pidfdOpen pid, .ok ⟨1⟩⟩ ∧ pins.1.holder pid = some 1 ∧
      ((evidence [115]).state early).filed = some pid ∧ ReadFromPidfile [115] early pid ∧
      opens.2.1 = .openRead (.cmdline pid) ∧ opens.1.holder pid = some 1 ∧
      ((evidence [115]).state before).Cleared [115] pid := by
  let pids : Pids := ⟨fun n => if n = 7 then some 1 else none, fun _ => true, 2, fun n p held => by
    split at held
    · cases held
      exact Nat.lt_succ_self _
    · cases held⟩
  let before : List (Σ c, Reply c) := [⟨.sessionPaths, .ok ()⟩, ⟨.checkRunDir, .ok true⟩,
    ⟨.lockSpawnUntil, .ok ()⟩, ⟨.connect, .ok true⟩, ⟨.openRead .pidfile, .ok true⟩,
    ⟨.read 32, .ok ⟨[0x37, 0x0a], by decide⟩⟩, ⟨.read 30, .ok ⟨[], by decide⟩⟩,
    ⟨.testKill 7, .ok ()⟩, ⟨.pidfdOpen 7, .ok ⟨1⟩⟩, ⟨.openRead (.cmdline 7), .error .noent⟩]
  let last : Σ c, Reply c := ⟨.pidfdSendSignal ⟨1⟩ .term, .ok ()⟩
  have run : ∃ left, Runs (kill [115] 2) (before ++ [last]) left :=
    ⟨_, .call (.call (.call (.call (.call (.call (.call (.call (.call (.call (.call .stop))))))))))⟩
  obtain ⟨left, run⟩ := run
  have answers : ∀ e ∈ before ++ [last], Answers pids e.1 e.2 := by
    intro e member
    simp only [before, last, List.cons_append, List.nil_append, List.mem_cons, List.not_mem_nil,
      or_false] at member
    rcases member with rfl | rfl | rfl | rfl | rfl | rfl | rfl | rfl | rfl | rfl | rfl <;> trivial
  have reachable := reachable_of_runs run answers
  rw [List.map_append] at reachable
  have delivers : Entry.Delivers (pids, last) .term 1 := ⟨rfl, rfl⟩
  exact ⟨_, _, _, reachable, rfl, delivers, (reachable.kill_safe rfl).1 _ _ delivers⟩

end Nomux.Control
