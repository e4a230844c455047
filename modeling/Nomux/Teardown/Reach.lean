import Nomux.Teardown.Walk
import Nomux.Lib.Interleaving

/-!
# Who a teardown reaches

What the calls of a walk have established about the process that is held, the signals that this
allows, and, over a world where processes come and go between any two calls, whom they reach.
-/

namespace Nomux.Teardown
open Wire Program
open Control (Pid Proc Pidfd fromRaw Pids)

/-! ## Evidence -/

structure Evidence where
  pinned : Option (Pid × Pidfd) := none
  /-- The `stat` that was opened since the pin. -/
  opened : Option (Bytes × StatFile) := none
  /-- The line that was read from it names a live member. -/
  member : Bool := false

namespace Evidence

def after (sid : Int) (s : Evidence) : (c : Call) → Reply c → Evidence
  | .pidfdOpen pid, reply => { pinned := reply.toOption.map fun pidfd => (pid, pidfd) }
  | .openStat name, reply => { s with
      opened := reply.toOption.map fun file => (name, file)
      member := false }
  | .readToEnd file, reply => { s with
      member := s.opened.map (·.2) = some file ∧ classify sid reply = .isIn }
  | _, _ => s

/-- The descriptor was pinned, and the process behind its number has answered since. -/
def Holds (s : Evidence) (pidfd : Pidfd) : Prop :=
  ∃ pid name file, s.pinned = some (pid, pidfd) ∧ s.opened = some (name, file) ∧
    numeric name = some pid ∧ s.member = true

def Allows (self : Pid) (s : Evidence) : Call → Prop
  | .pidfdOpen pid => pid ≠ self
  | .pidfdSendSignal pidfd _ => s.Holds pidfd
  | .killProcessGroup _ _ => False
  | _ => True

end Evidence

section

variable {self : Pid} {sid : Int} {α : Type} {s : Evidence}

abbrev Keeps (self : Pid) (sid : Int) (program : Run α) (s : Evidence)
    (post : Evidence → α → Prop) : Prop :=
  program.Follows (Evidence.after sid) (Evidence.Allows self) s post

theorem membership_keeps (name : Bytes) :
    Keeps self sid (membership sid name) s fun s' result => s'.pinned = s.pinned ∧
      (result = .isIn → ∃ file, s'.opened = some (name, file) ∧ s'.member = true) := by
  apply follows_bind.2
  apply follows_ask.2
  constructor
  · trivial
  · intro opened
    cases opened with
    | error e =>
        apply follows_pure.2
        constructor
        · rfl
        · intro here
          cases e <;> cases here
    | ok file =>
        apply follows_bind.2
        apply follows_ask.2
        constructor
        · trivial
        · intro reply
          apply follows_pure.2
          constructor
          · rfl
          · intro here
            use file, rfl
            exact decide_eq_true ⟨rfl, here⟩

theorem pinnedMember_keeps {pid : Pid} {name : Bytes} (other : pid ≠ self)
    (names : numeric name = some pid) :
    Keeps self sid (pinnedMember sid pid name) s fun s' result =>
      ∀ pidfd, result = some pidfd → s'.Holds pidfd := by
  unfold pinnedMember fromRaw
  by_cases zero : pid = 0
  · rw [if_pos zero]
    apply follows_pure.2
    intro pidfd none
    cases none
  · rw [if_neg zero]
    apply follows_bind.2
    apply follows_ask.2
    constructor
    · exact other
    · intro reply
      cases reply with
      | error e =>
          apply follows_pure.2
          intro pidfd none
          cases none
      | ok held =>
          apply Follows.bind (membership_keeps name)
          rintro s' result ⟨pinned, inside⟩
          apply follows_pure.2
          intro pidfd same
          by_cases here : result = .isIn
          · rw [if_pos here] at same
            cases same
            obtain ⟨file, opened, member⟩ := inside here
            exact ⟨pid, name, file, pinned, opened, names, member⟩
          · rw [if_neg here] at same
            cases same

theorem pinnedIf_keeps (pin : Bool) {pid : Pid} {name : Bytes} (other : pid ≠ self)
    (names : numeric name = some pid) :
    Keeps self sid (pinnedIf pin sid pid name) s fun s' result =>
      ∀ pidfd, result = some pidfd → s'.Holds pidfd := by
  cases pin with
  | true => exact pinnedMember_keeps other names
  | false =>
      apply follows_pure.2
      intro pidfd none
      cases none

theorem deadlinePassed_keeps (timed : Bool) :
    Keeps self sid (deadlinePassed timed) s fun s' _ => s' = s := by
  cases timed with
  | true => exact follows_ask.2 ⟨trivial, fun _ => rfl⟩
  | false => exact follows_pure.2 rfl

section

variable {σ : Type} {timed : Bool} {visit : σ → Pid → Option Pidfd → Run (Bool × σ)}

theorem walkEntries_keeps (pin : Bool)
    (visits : ∀ s seen pid pinned, (∀ pidfd, pinned = some pidfd → s.Holds pidfd) →
      Keeps self sid (visit seen pid pinned) s fun _ _ => True)
    (entries : List (Except Errno Bytes)) (complete : Bool) (seen : σ) :
    Keeps self sid (walkEntries self sid pin timed visit entries complete seen) s fun _ _ => True := by
  induction entries generalizing complete seen s with
  | nil => exact follows_pure.2 trivial
  | cons entry entries ih =>
      unfold walkEntries
      apply Follows.bind (deadlinePassed_keeps timed)
      rintro _ passed rfl
      split
      · exact follows_pure.2 trivial
      · split
        · exact follows_pure.2 trivial
        · rename_i name
          split
          · exact ih complete seen
          · rename_i pid names
            split
            · exact ih complete seen
            · rename_i other
              apply Follows.bind (membership_keeps name)
              rintro s' result -
              split
              · exact ih complete seen
              · exact ih false seen
              · apply Follows.bind (pinnedIf_keeps pin other names)
                intro s'' pinned held
                apply (visits s'' seen pid pinned held).bind
                rintro s''' ⟨more, seen⟩ -
                cases more with
                | true => exact ih complete seen
                | false => exact follows_pure.2 trivial

theorem walkSession_keeps (pin : Bool)
    (visits : ∀ s seen pid pinned, (∀ pidfd, pinned = some pidfd → s.Holds pidfd) →
      Keeps self sid (visit seen pid pinned) s fun _ _ => True) (seen : σ) :
    Keeps self sid (walkSession self sid pin timed visit seen) s fun _ _ => True := by
  unfold walkSession
  apply Follows.bind (deadlinePassed_keeps timed)
  rintro _ passed rfl
  split
  · exact follows_pure.2 trivial
  · apply follows_bind.2
    apply follows_ask.2
    constructor
    · trivial
    · intro reply
      cases reply with
      | error e => exact follows_pure.2 trivial
      | ok entries => exact walkEntries_keeps pin visits entries true seen

end

theorem signalSession_keeps (id : Nat) (sig : Signal) :
    Keeps (asPid id) sid (signalSession id sid sig) {} fun _ _ => True := by
  unfold signalSession
  apply Follows.bind (walkSession_keeps true _ ())
  · intro _ _ _
    exact follows_pure.2 trivial
  · intro s seen pid pinned held
    cases pinned with
    | none => exact follows_pure.2 trivial
    | some pidfd =>
        apply follows_bind.2
        apply follows_bind.2
        apply follows_ask.2
        constructor
        · exact held pidfd rfl
        · intro _
          apply follows_pure.2
          exact follows_pure.2 trivial

end

/-! ## The world -/

def Apart (w : Pids) : Prop := ∀ n m p, w.holder n = some p → w.holder m = some p → n = m

theorem Apart.step {w w' : Pids} (apart : Apart w) (moved : w.Step w') : Apart w' := by
  cases moved with
  | exit p => exact apart
  | reap n dead =>
      intro a b p first second
      change Function.update w.holder n none a = some p at first
      change Function.update w.holder n none b = some p at second
      rcases eq_or_ne a n with rfl | a_other
      · simp at first
      · rcases eq_or_ne b n with rfl | b_other
        · simp at second
        · rw [Function.update_of_ne a_other] at first
          rw [Function.update_of_ne b_other] at second
          exact apart a b p first second
  | assign n free =>
      intro a b p first second
      change Function.update w.holder n (some w.fresh) a = some p at first
      change Function.update w.holder n (some w.fresh) b = some p at second
      rcases eq_or_ne a n with rfl | a_other
      · rcases eq_or_ne b a with rfl | b_other
        · rfl
        · rw [Function.update_self, Option.some.injEq] at first
          rw [Function.update_of_ne b_other, ← first] at second
          exact absurd (w.numbered b w.fresh second) (Nat.lt_irrefl _)
      · rw [Function.update_of_ne a_other] at first
        rcases eq_or_ne b n with rfl | b_other
        · rw [Function.update_self, Option.some.injEq] at second
          rw [← second] at first
          exact absurd (w.numbered a w.fresh first) (Nat.lt_irrefl _)
        · rw [Function.update_of_ne b_other] at second
          exact apart a b p first second

structure Later (w w' : Pids) : Prop where
  pids : w.Later w'
  apart : Apart w → Apart w'

theorem Later.refl (w : Pids) : Later w w := ⟨.refl w, id⟩

theorem Later.trans {w w' w'' : Pids} (h : Later w w') (next : Later w' w'') : Later w w'' :=
  ⟨h.pids.trans next.pids, fun apart => next.apart (h.apart apart)⟩

theorem Later.of_step {w w' : Pids} (moved : w.Step w') : Later w w' :=
  ⟨moved.later, fun apart => apart.step moved⟩

/-- What is opened under a name, or held by a number, is the process that has the number. -/
def Answers (w : Pids) : (c : Call) → Reply c → Prop
  | .openStat name, .ok file => ∃ n, name = i32ToString n ∧ w.holder n = some file.proc
  | .pidfdOpen pid, .ok pidfd => w.holder pid = some pidfd.proc
  | _, _ => True

/-- The daemon, and the kernel's bound on numbers. -/
structure Daemon where
  id : Nat
  proc : Proc
  capped : id ≤ 2 ^ 22

def rules (daemon : Daemon) : Interleaving.Rules Pids Reply where
  Moves := Pids.Step
  Runs w := w.alive daemon.proc = true
  Answers := Answers

abbrev System := Interleaving.System Pids Reply Unit

abbrev Event := Interleaving.Event Pids Reply

def Reachable (daemon : Daemon) (sid : Int) (sig : Signal) (s : System) : Prop :=
  ∃ pids : Pids, pids.holder daemon.id = some daemon.proc ∧ Apart pids ∧
    Interleaving.Reachable (rules daemon) { world := pids, left := signalSession daemon.id sid sig } s

/-- A signal that reaches a process: it is alive, and the call succeeds. -/
def Delivers (e : Event) (sig : Signal) (p : Proc) : Prop :=
  e.1.alive p = true ∧ e.2 = ⟨.pidfdSendSignal ⟨p⟩ sig, .ok ()⟩

/-! ## Where the evidence comes from -/

section

variable {sid : Int} {self : Pid} {daemon : Daemon} {pid : Pid} {pidfd : Pidfd} {name : Bytes}
  {file : StatFile} {t : List Event}

abbrev gathered (daemon : Daemon) (sid : Int) : Guarded Evidence Event :=
  Interleaving.evidence (rules daemon) {} (Evidence.after sid) (Evidence.Allows (asPid daemon.id))

theorem classify_isIn {reply : Except Errno Bytes} (inside : classify sid reply = .isIn) :
    ∃ stat, reply = .ok stat ∧ statSession stat = some (sid, false) := by
  match reply with
  | .error .noent => cases inside
  | .error .srch => cases inside
  | .error (.other n) => cases inside
  | .ok stat =>
      use stat, rfl
      cases line : statSession stat with
      | none =>
          rw [classify_unread line] at inside
          cases inside
      | some fields =>
          obtain ⟨session, zombie⟩ := fields
          rw [classify_line line] at inside
          by_cases here : session = sid ∧ zombie = false
          · rw [here.1, here.2]
          · rw [if_neg here] at inside
            cases inside

theorem read_at (pinned : ((gathered daemon sid).state t).pinned = some (pid, pidfd))
    (opened : ((gathered daemon sid).state t).opened = some (name, file))
    (member : ((gathered daemon sid).state t).member = true) :
    ∃ early w stat late, t = early ++ (w, ⟨.readToEnd file, .ok stat⟩) :: late ∧
      statSession stat = some (sid, false) ∧
      ((gathered daemon sid).state early).pinned = some (pid, pidfd) ∧
      ((gathered daemon sid).state early).opened = some (name, file) := by
  obtain ⟨early, ⟨w, c, reply⟩, late, rfl, ⟨file', rfl⟩, ⟨pinned, opened, member⟩, -⟩ :=
    (gathered daemon sid).latest
      (P := fun s => s.pinned = some (pid, pidfd) ∧ s.opened = some (name, file) ∧ s.member = true)
      (E := fun e => ∃ file, e.2.1 = .readToEnd file) (by
        rintro s ⟨w, c, reply⟩ other ⟨pinned, opened, member⟩
        cases c with
        | readToEnd file => exact absurd ⟨file, rfl⟩ other
        | openStat name => cases member
        | pidfdOpen pid => cases member
        | _ => exact ⟨pinned, opened, member⟩)
      (by rintro ⟨-, -, member⟩; cases member) ⟨pinned, opened, member⟩
  have opened : ((gathered daemon sid).state early).opened = some (name, file) := opened
  obtain ⟨same, inside⟩ := of_decide_eq_true member
  rw [opened, Option.map_some, Option.some.injEq] at same
  cases same
  obtain ⟨stat, rfl, line⟩ := classify_isIn inside
  exact ⟨early, w, stat, late, rfl, line, pinned, opened⟩

theorem opened_at (pinned : ((gathered daemon sid).state t).pinned = some (pid, pidfd))
    (opened : ((gathered daemon sid).state t).opened = some (name, file)) :
    ∃ early w late, t = early ++ (w, ⟨.openStat name, .ok file⟩) :: late ∧
      ((gathered daemon sid).state early).pinned = some (pid, pidfd) := by
  obtain ⟨early, ⟨w, c, reply⟩, late, rfl, ⟨name', rfl⟩, ⟨pinned, opened⟩, -⟩ :=
    (gathered daemon sid).latest
      (P := fun s => s.pinned = some (pid, pidfd) ∧ s.opened = some (name, file))
      (E := fun e => ∃ name, e.2.1 = .openStat name) (by
        rintro s ⟨w, c, reply⟩ other ⟨pinned, opened⟩
        cases c with
        | openStat name => exact absurd ⟨name, rfl⟩ other
        | pidfdOpen pid => cases opened
        | _ => exact ⟨pinned, opened⟩)
      (by rintro ⟨pinned, -⟩; cases pinned) ⟨pinned, opened⟩
  cases reply with
  | error e => cases opened
  | ok file' =>
      cases opened
      exact ⟨early, w, late, rfl, pinned⟩

theorem pinned_at (pinned : ((gathered daemon sid).state t).pinned = some (pid, pidfd)) :
    ∃ early w late, t = early ++ (w, ⟨.pidfdOpen pid, .ok pidfd⟩) :: late := by
  obtain ⟨early, ⟨w, c, reply⟩, late, rfl, ⟨pid', rfl⟩, pinned, -⟩ :=
    (gathered daemon sid).latest (P := fun s => s.pinned = some (pid, pidfd))
      (E := fun e => ∃ pid, e.2.1 = .pidfdOpen pid) (by
        rintro s ⟨w, c, reply⟩ other pinned
        cases c with
        | pidfdOpen pid => exact absurd ⟨pid, rfl⟩ other
        | _ => exact pinned)
      (by intro pinned; cases pinned) pinned
  cases reply with
  | error e => cases pinned
  | ok pidfd' =>
      cases pinned
      exact ⟨early, w, late, rfl⟩

theorem signal_at (holds : ((gathered daemon sid).state t).Holds pidfd) :
    ∃ early w₀ mid w₁ mid' w₂ late pid name file stat, t = early ++
      (w₀, ⟨.pidfdOpen pid, .ok pidfd⟩) :: (mid ++ (w₁, ⟨.openStat name, .ok file⟩) ::
        (mid' ++ (w₂, ⟨.readToEnd file, .ok stat⟩) :: late)) ∧
      numeric name = some pid ∧ statSession stat = some (sid, false) := by
  obtain ⟨pid, name, file, pinned, opened, names, member⟩ := holds
  obtain ⟨to_read, w₂, stat, late, rfl, line, pinned₁, opened₁⟩ := read_at pinned opened member
  obtain ⟨to_open, w₁, mid', rfl, pinned₀⟩ := opened_at pinned₁ opened₁
  obtain ⟨early, w₀, mid, rfl⟩ := pinned_at pinned₀
  exact ⟨early, w₀, mid, w₁, mid', w₂, late, pid, name, file, stat, by simp, names, line⟩

end

theorem asPid_id (daemon : Daemon) : asPid daemon.id = daemon.id := by
  have capped := daemon.capped
  unfold asPid
  rw [if_pos (by omega)]

theorem numeric_name {n pid : Int} (names : numeric (i32ToString n) = some pid) : n = pid := by
  unfold numeric at names
  rw [toStr_ascii (i32ToString_ascii n).1, Option.bind_some, parseI32_i32ToString] at names
  exact Option.some.inj (Option.filter_eq_some_iff.1 names).1

theorem Reachable.sound {daemon : Daemon} {sid : Int} {sig : Signal} {s : System}
    (h : Reachable daemon sid sig s) : ∃ pids : Pids, pids.holder daemon.id = some daemon.proc ∧ Apart pids ∧
      Interleaving.Sound (rules daemon) {} (Evidence.after sid) (Evidence.Allows (asPid daemon.id)) Later
        pids (fun _ _ => True) s := by
  obtain ⟨pids, own, apart, reached⟩ := h
  refine ⟨pids, own, apart, ?_⟩
  exact Interleaving.Reachable.sound Later.refl Later.trans Later.of_step
    (signalSession_keeps daemon.id sig) reached

theorem signal_reaches_member {daemon : Daemon} {sid : Int} {sig : Signal} {s : System}
    (h : Reachable daemon sid sig s) {before after : List Event} {e : Event}
    (moment : s.history = before ++ e :: after) {sig' : Signal} {p : Proc} (delivers : Delivers e sig' p) :
    p ≠ daemon.proc ∧ ∃ early pins mid opens mid' reads late pid name stat,
      before = early ++ pins :: (mid ++ opens :: (mid' ++ reads :: late)) ∧
      pins.2 = ⟨.pidfdOpen pid, .ok ⟨p⟩⟩ ∧ pins.1.holder pid = some p ∧
      opens.2 = ⟨.openStat name, .ok ⟨p⟩⟩ ∧ reads.2 = ⟨.readToEnd ⟨p⟩, .ok stat⟩ ∧
      statSession stat = some (sid, false) := by
  obtain ⟨pids, own, apart, sound⟩ := h.sound
  obtain ⟨w, c⟩ := e
  obtain ⟨alive, rfl⟩ := delivers
  have lawful := sound.lawful
  rw [moment] at lawful
  obtain ⟨holds, -, -⟩ := lawful.moment
  obtain ⟨early, w₀, mid, w₁, mid', w₂, late, pid, name, file, stat, rfl, names, line⟩ := signal_at holds
  have sofar := lawful.of_append
  have later := sound.later
  have since := sound.from_first
  rw [moment] at later since
  simp only [List.map_append, List.map_cons, List.append_assoc, List.cons_append,
    List.pairwise_append, List.pairwise_cons] at later
  have toOpen : Later w₀ w₁ := later.2.1.1 w₁ (by simp)
  have toSignal : Later w₁ w := later.2.1.2.2.1.1 w (by simp)
  obtain ⟨other, runs, held⟩ := sofar.moment
  have held : w₀.holder pid = some p := held
  -- the name is the pinned process's own
  rw [← List.cons_append, ← List.append_assoc] at sofar
  obtain ⟨-, -, n, rfl, opens⟩ := sofar.moment
  cases numeric_name names
  have alive_then : w₁.alive p = true :=
    toSignal.pids.alive p ((w₀.numbered pid p held).trans_le toOpen.pids.fresh) alive
  have same := toOpen.pids.holder pid p held alive_then
  rw [opens, Option.some.injEq] at same
  obtain ⟨file⟩ := file
  cases same
  constructor
  · -- the daemon has its own number and no other
    rintro rfl
    have first : Later pids w₀ := since (w₀, ⟨.pidfdOpen pid, .ok ⟨daemon.proc⟩⟩) (by simp)
    have mine := first.pids.holder _ _ own runs
    apply other
    rw [asPid_id]
    exact first.apart apart pid daemon.id _ held mine
  · exact ⟨early, _, mid, _, mid', _, late, pid, _, stat, rfl, rfl, held, rfl, rfl, line⟩

theorem no_signal_by_number {daemon : Daemon} {sid : Int} {sig : Signal} {s : System}
    (h : Reachable daemon sid sig s) {e : Event} (member : e ∈ s.history) (pid : Pid) (sig' : Signal) :
    e.2.1 ≠ .killProcessGroup pid sig' := by
  intro by_number
  obtain ⟨pids, own, apart, sound⟩ := h.sound
  obtain ⟨before, after, moment⟩ := List.append_of_mem member
  have lawful := sound.lawful
  rw [moment] at lawful
  obtain ⟨allowed, -⟩ := lawful.moment
  rw [by_number] at allowed
  exact allowed

/-- What a teardown signals, what it takes for the end of a session, and how it reads a line. -/
theorem session_teardown :
    (∀ daemon sid sig s, Reachable daemon sid sig s → ∀ before e after, s.history = before ++ e :: after →
      (∀ pid sig', e.2.1 ≠ .killProcessGroup pid sig') ∧
      ∀ sig' p, Delivers e sig' p → p ≠ daemon.proc ∧
        ∃ early pins mid opens mid' reads late pid name stat,
          before = early ++ pins :: (mid ++ opens :: (mid' ++ reads :: late)) ∧
          pins.2 = ⟨.pidfdOpen pid, .ok ⟨p⟩⟩ ∧ pins.1.holder pid = some p ∧
          opens.2 = ⟨.openStat name, .ok ⟨p⟩⟩ ∧ reads.2 = ⟨.readToEnd ⟨p⟩, .ok stat⟩ ∧
          statSession stat = some (sid, false)) ∧
    (∀ id sid timed trace, Runs (sessionIsEmpty id sid timed) trace (.done true) →
      ∃ entries rest, trace = inTime timed ++ ⟨.readDir, .ok entries⟩ :: rest ∧
        AllOut (asPid id) sid timed entries rest) ∧
    ∀ line : StatLine, closeParen ∉ utf8 (String.ofList line.tail) →
      statSession line.bytes = some (line.session, decide (line.state = ['Z'])) := by
  constructor
  · intro daemon sid sig s h before e after moment
    constructor
    · exact no_signal_by_number h (by simp [moment])
    · intro sig' p delivers
      exact signal_reaches_member h moment delivers
  · constructor
    · intro id sid timed trace run
      exact sessionIsEmpty_runs run
    · intro line last
      exact statSession_line line last

/-- Process 7 is a member of session 5, and is signalled. -/
theorem session_teardown_seven : ∃ (daemon : Daemon) (s : System) (before : List Event) (e : Event),
    Reachable daemon 5 9 s ∧ s.history = before ++ [e] ∧ Delivers e 9 1 ∧ 1 ≠ daemon.proc ∧
    ∃ early pins mid opens mid' reads late pid name stat,
      before = early ++ pins :: (mid ++ opens :: (mid' ++ reads :: late)) ∧
      pins.2 = ⟨.pidfdOpen pid, .ok ⟨1⟩⟩ ∧ pins.1.holder pid = some 1 ∧
      opens.2 = ⟨.openStat name, .ok ⟨1⟩⟩ ∧ reads.2 = ⟨.readToEnd ⟨1⟩, .ok stat⟩ ∧
      statSession stat = some (5, false) := by
  let pids : Pids := ⟨fun n => if n = 1 then some 0 else if n = 7 then some 1 else none, fun _ => true, 2,
    fun n p held => by
      split at held
      · cases held
        decide
      · split at held
        · cases held
          decide
        · cases held⟩
  let daemon : Daemon := ⟨1, 0, by decide⟩
  let line := utf8 "7 (a) S 1 1 5"
  let before : List Answered := [⟨.deadlinePassed, false⟩, ⟨.readDir, .ok [.ok [0x37]]⟩,
    ⟨.deadlinePassed, false⟩, ⟨.openStat [0x37], .ok ⟨1⟩⟩, ⟨.readToEnd ⟨1⟩, .ok line⟩,
    ⟨.pidfdOpen 7, .ok ⟨1⟩⟩, ⟨.openStat [0x37], .ok ⟨1⟩⟩, ⟨.readToEnd ⟨1⟩, .ok line⟩]
  let last : Answered := ⟨.pidfdSendSignal ⟨1⟩ 9, .ok ()⟩
  have inside : (Program.done (.ok line)).bind (fun read => (pure (classify 5 read) : Run Membership)) =
      .done .isIn :=
    congrArg Program.done (by decide +kernel)
  have run : Runs (signalSession 1 5 9) (before ++ [last]) (.done ()) := by
    refine .call (.call (.call (.call (.call ?_))))
    dsimp only [done_bind]
    rw [inside]
    refine .call (.call (.call ?_))
    dsimp only [done_bind]
    rw [inside]
    exact .call .stop
  have answers : ∀ e ∈ before ++ [last], (rules daemon).Answers pids e.1 e.2 := by
    intro e member
    simp only [before, last, List.cons_append, List.nil_append, List.mem_cons, List.not_mem_nil,
      or_false] at member
    rcases member with rfl | rfl | rfl | rfl | rfl | rfl | rfl | rfl | rfl
    · trivial
    · trivial
    · trivial
    · exact ⟨7, rfl, rfl⟩
    · trivial
    · rfl
    · exact ⟨7, rfl, rfl⟩
    · trivial
    · trivial
  have numbers : ∀ n p, pids.holder n = some p → n = if p = 0 then 1 else 7 := by
    intro n p held
    change (if n = 1 then some 0 else if n = 7 then some 1 else none) = some p at held
    split at held
    · cases held
      assumption
    · split at held
      · cases held
        assumption
      · cases held
  have apart : Apart pids := by
    intro n m p first second
    rw [numbers n p first, numbers m p second]
  have runs : (rules daemon).Runs pids := rfl
  have reached := Interleaving.reachable_of_runs run runs answers []
  rw [List.nil_append, List.map_append] at reached
  have reachable : Reachable daemon 5 9 _ := ⟨pids, rfl, apart, reached⟩
  have delivers : Delivers (pids, last) 9 1 := ⟨rfl, rfl⟩
  exact ⟨daemon, _, _, (pids, last), reachable, rfl, delivers,
    (session_teardown.1 daemon 5 9 _ reachable _ (pids, last) [] rfl).2 9 1 delivers⟩

end Nomux.Teardown
