import Nomux.Control.Kill
import Nomux.Lib.GuardedTrace

/-!
# What `kill` has established

The evidence that its calls have gathered, and the calls that the evidence allows. The program keeps
to it, whatever it is answered.
-/

namespace Nomux.Control
open Program

/-- A file that is being read: the bytes so far, all there is to it, or nothing after a failure. -/
inductive Reading
  | partway (bytes : Bytes)
  | whole (bytes : Bytes)
  | failed

/-- What a `read` into the rest of the buffer makes of a file that is being read. -/
def Reading.reads (bound : Nat) (reading : Reading) (reply : Except Errno Bytes) : Reading :=
  match reading, reply with
  | .partway bytes, .ok chunk =>
      if chunk = [] ∨ bound ≤ (bytes ++ chunk).length then .whole (bytes ++ chunk)
      else .partway (bytes ++ chunk)
  | .partway bytes, .error .intr => .partway bytes
  | .partway _, .error _ => .failed
  | reading, _ => reading

structure Case where
  locked : Bool := false
  /-- The last connect was made under the lock and found nothing listening. -/
  stale : Bool := false
  reading : Option (File × Reading) := none
  /-- The number in the pidfile, where it names a process that may be signalled. -/
  filed : Option Pid := none
  pinned : Option (Pid × Except Errno Pidfd) := none
  /-- Once a `SIGTERM` was attempted, whether a connect was accepted since. -/
  accepted : Option Bool := none

namespace Case

def isStale : Except Errno Bool → Bool
  | .error .refused | .error .noent => true
  | _ => false

def connects (s : Case) (reply : Except Errno Bool) : Case :=
  { s with
    stale := s.locked && isStale reply
    accepted := if reply matches .ok true then s.accepted.map fun _ => true else s.accepted }

def opens (s : Case) (file : File) (reply : Except Errno Bool) : Case :=
  { s with
    reading := some (file, if reply matches .ok true then .partway [] else .failed)
    filed := if file = .pidfile then none else s.filed }

def reads (s : Case) (reply : Except Errno Bytes) : Case :=
  { s with reading := s.reading.map fun (file, reading) => (file, reading.reads file.bound reply) }

def number : Option (File × Reading) → Option Pid
  | some (.pidfile, .whole body) => (parsePid body).bind fromRaw
  | _ => none

def after (s : Case) : (c : Call) → Reply c → Case
  | .connect, reply => s.connects reply
  | .openRead file, reply => s.opens file reply
  | .read _, reply => s.reads (reply.map (·.1))
  | .testKill pid, reply =>
      { s with filed := if reply matches .ok () then some pid else s.filed }
  | .pidfdOpen pid, reply => { s with pinned := some (pid, reply) }
  | .pidfdSendSignal _ sig, _ =>
      { s with accepted := if sig = .term then some false else s.accepted }
  | .lockSpawnUntil, reply => { s with locked := reply matches .ok () }
  | _, _ => s

/-- What the `/proc` read that followed the pin says of the session. -/
def Cleared (s : Case) (id : Bytes) (pid : Pid) : Prop :=
  s.reading = some (.cmdline pid, .failed) ∨
    ∃ body, s.reading = some (.cmdline pid, .whole body) ∧ daemonVerdict body id ≠ some false

/-- The number is pinned before its process is identified, and identified before it is signalled; it
is killed where a connect was accepted after the `SIGTERM`; and the files go under the lock, on a
probe that found nothing listening. -/
def Allows (id : Bytes) (s : Case) : Call → Prop
  | .openRead .pidfile => s.pinned = none
  | .openRead (.cmdline pid) => ∃ reach, s.pinned = some (pid, reach)
  | .testKill pid => number s.reading = some pid
  | .pidfdOpen pid => s.pinned = none ∧ s.filed = some pid
  | .pidfdSendSignal pidfd sig => ∃ pid, s.pinned = some (pid, .ok pidfd) ∧ s.Cleared id pid ∧
      (sig = .term ∧ s.accepted = none ∨ sig = .kill ∧ s.accepted = some true)
  | .unlinkAllLocked => s.locked = true ∧ s.stale = true
  | _ => True

end Case

/-- Nothing is said of how `kill` fails. -/
abbrev Keeps {α : Type} (id : Bytes) (program : Run α) (s : Case) (post : Case → α → Prop) : Prop :=
  FollowsOr Case.after (Case.Allows id) (fun _ _ => True) program s post

variable {id : Bytes}

theorem keeps_sys {c : Call} {s : Case} {post : Case → Reply c → Prop} :
    Keeps id (sys c) s post ↔ s.Allows id c ∧ ∀ reply, post (s.after c reply) reply := .rfl

theorem keeps_check {α : Type} {reply : Except Errno α} {s : Case} {post : Case → α → Prop}
    (fine : ∀ value, reply = .ok value → post s value) : Keeps id (check reply) s post := by
  cases reply with
  | ok value => exact fine value rfl
  | error e => trivial

/-! ## Probes -/

structure Probed (s : Case) (found : Liveness) (s' : Case) : Prop where
  locked : s'.locked = s.locked
  reading : s'.reading = s.reading
  filed : s'.filed = s.filed
  pinned : s'.pinned = s.pinned
  alive : found = .alive → s'.accepted = s.accepted.map fun _ => true
  other : found ≠ .alive → s'.accepted = s.accepted
  stale : s.locked = true → ∀ e, found = .stale e → s'.stale = true

theorem connectWithin_keeps (fuel : Nat) (s : Case) :
    Keeps id (connectWithin fuel) s fun s' outcome =>
      ∃ reply, s' = s.connects reply ∧
        (outcome = .ok () ↔ reply = .ok true) ∧
        ∀ e, outcome = .error e → nothingIsListening e = true → Case.isStale reply = true := by
  induction fuel generalizing s with
  | zero => trivial
  | succ fuel ih =>
      have unsettled (e : Errno) : Keeps id (unsettled e (connectWithin fuel))
          (s.connects (.error e)) fun s' outcome => ∃ reply, s' = s.connects reply ∧
            (outcome = .ok () ↔ reply = .ok true) ∧
            ∀ e, outcome = .error e → nothingIsListening e = true → Case.isStale reply = true := by
        apply followsOr_bind.2
        apply keeps_sys.2
        refine ⟨trivial, fun passed => ?_⟩
        cases passed with
        | true => exact ⟨.error e, rfl, by simp, by rintro _ ⟨⟩ nothing; cases nothing⟩
        | false =>
            apply followsOr_bind.2
            apply keeps_sys.2
            refine ⟨trivial, fun _ => ?_⟩
            exact (ih (s.connects (.error e))).mono fun _ _ settled => settled
      apply followsOr_bind.2
      apply keeps_sys.2
      refine ⟨trivial, fun reply => ?_⟩
      rcases reply with (_ | _ | _ | _ | _) | ours
      case error.again => exact unsettled .again
      case error.intr => exact unsettled .intr
      case error.refused => exact ⟨_, rfl, by simp, fun _ _ _ => rfl⟩
      case error.noent => exact ⟨_, rfl, by simp, fun _ _ _ => rfl⟩
      case error.other => exact ⟨_, rfl, by simp, by rintro _ ⟨⟩ nothing; cases nothing⟩
      case ok =>
        cases ours with
        | true => exact ⟨_, rfl, by simp, by simp⟩
        | false => exact ⟨_, rfl, by simp, by rintro _ ⟨⟩ nothing; cases nothing⟩

theorem liveness_keeps (fuel : Nat) (s : Case) :
    Keeps id (liveness fuel) s fun s' found => Probed s found s' := by
  apply (connectWithin_keeps fuel s).bind
  rintro s' outcome ⟨reply, rfl, took, refused⟩
  rcases outcome with e | _
  · have unaccepted : (s.connects reply).accepted = s.accepted := by
      have := took.not.1 (by simp)
      rcases reply with e | ours
      · rfl
      · cases ours with
        | true => exact absurd rfl this
        | false => rfl
    show Probed s (if _ then _ else _) _
    split
    · rename_i nothing
      refine ⟨rfl, rfl, rfl, rfl, by simp, fun _ => unaccepted, fun locked _ _ => ?_⟩
      exact Bool.and_eq_true_iff.2 ⟨locked, refused e rfl nothing⟩
    · exact ⟨rfl, rfl, rfl, rfl, by simp, fun _ => unaccepted, fun _ => by simp⟩
  · cases took.1 rfl
    exact ⟨rfl, rfl, rfl, rfl, fun _ => rfl, by simp, fun _ => by simp⟩

/-! ## Files -/

def ReadOf (s : Case) (file : File) (s' : Case) : Except ReadError Bytes → Prop
  | .ok body => s' = { s with reading := some (file, .whole body) }
  | .error _ => s' = { s with reading := some (file, .failed) }

theorem fillFrom_keeps (file : File) (fuel : Nat) {filled : Bytes} {s : Case}
    (reading : s.reading = some (file, if filled.length < file.bound then .partway filled
      else .whole filled)) :
    Keeps id (fillFrom file fuel filled) s fun s' outcome => ReadOf s file s' outcome := by
  induction fuel generalizing filled s with
  | zero => trivial
  | succ fuel ih =>
      unfold fillFrom
      split
      case isFalse full =>
        rw [if_neg full] at reading
        show s = { s with reading := some (file, .whole filled) }
        rw [← reading]
      case isTrue room =>
        rw [if_pos room] at reading
        apply followsOr_bind.2
        apply keeps_sys.2
        refine ⟨trivial, fun reply => ?_⟩
        have after : s.after (.read _) reply = { s with
            reading := some (file, (Reading.partway filled).reads file.bound (reply.map (·.1))) } := by
          show s.reads _ = _
          rw [Case.reads, reading]
          rfl
        rw [after]
        rcases reply with (_ | _ | _ | _ | _) | chunk
        case error.intr =>
          apply (ih (s := { s with reading := some (file, .partway filled) }) _).mono
          · intro s' outcome settled
            exact settled
          · rw [if_pos room]
        case ok =>
          show Keeps id (if _ then _ else _) _ _
          by_cases ended : chunk.1 = []
          · rw [if_pos ended]
            show _ = _
            simp [Except.map, Reading.reads, ended]
          · rw [if_neg ended]
            apply (ih _).mono
            · intro s' outcome settled
              exact settled
            · simp only [Except.map, Reading.reads, ended, false_or]
              split <;> split <;> first | rfl | omega
        all_goals exact rfl

def Case.opened (s : Case) (file : File) : Case :=
  { s with filed := if file = .pidfile then none else s.filed }

theorem readPrefix_keeps (file : File) (fuel : Nat) {s : Case} (allowed : s.Allows id (.openRead file)) :
    Keeps id (readPrefix file fuel) s fun s' outcome => ReadOf (s.opened file) file s' outcome := by
  apply followsOr_bind.2
  apply keeps_sys.2
  refine ⟨allowed, fun reply => ?_⟩
  rcases reply with e | regular
  · exact rfl
  · cases regular with
    | false => exact rfl
    | true =>
        have room : 0 < file.bound := by cases file <;> simp [File.bound, MAX_PID_LEN, maxCmdlineLen]
        exact fillFrom_keeps file fuel (by simp [Case.after, Case.opens, room])

/-- What the pidfile names is what is filed. -/
structure Filed (s : Case) (outcome : Except ReadError (Option Pid × Bytes)) (s' : Case) : Prop where
  locked : s'.locked = s.locked
  pinned : s'.pinned = s.pinned
  accepted : s'.accepted = s.accepted
  filed : ∀ pid body, outcome = .ok (some pid, body) → s'.filed = some pid

theorem pidfile_keeps (fuel : Nat) {s : Case} (unpinned : s.pinned = none) :
    Keeps id (pidfile fuel) s fun s' outcome => Filed s outcome s' := by
  have allowed : s.Allows id (.openRead .pidfile) := unpinned
  apply (readPrefix_keeps .pidfile fuel allowed).bind
  rintro s' (e | body) rfl
  · exact ⟨rfl, rfl, rfl, by simp⟩
  · dsimp only
    split
    · exact ⟨rfl, rfl, rfl, by simp⟩
    · rename_i pid named
      apply followsOr_bind.2
      apply keeps_sys.2
      refine ⟨named, fun reply => ?_⟩
      rcases reply with e | _
      · exact ⟨rfl, rfl, rfl, by simp⟩
      · exact ⟨rfl, rfl, rfl, by rintro _ _ ⟨⟩; rfl⟩

/-! ## Processes -/

/-- A process has been pinned, and what its command line says read. -/
structure Named (id : Bytes) (s : Case) (c : Chosen) : Prop where
  pinned : s.pinned = some (c.pid, c.reach)
  cleared : s.Cleared id c.pid

theorem isDaemonFor_keeps (fuel : Nat) {pid : Pid} {reach : Except Errno Pidfd} {s : Case}
    (pinned : s.pinned = some (pid, reach)) :
    Keeps id (isDaemonFor pid id fuel) s fun s' verdict =>
      s'.locked = s.locked ∧ s'.accepted = s.accepted ∧ s'.pinned = s.pinned ∧
        (verdict ≠ some false → s'.Cleared id pid) := by
  have allowed : s.Allows id (.openRead (.cmdline pid)) := ⟨reach, pinned⟩
  apply (readPrefix_keeps (.cmdline pid) fuel allowed).bind
  rintro s' (e | body) rfl
  · exact ⟨rfl, rfl, rfl, fun _ => .inl rfl⟩
  · exact ⟨rfl, rfl, rfl, fun cleared => .inr ⟨body, rfl, cleared⟩⟩

theorem chosen_keeps (filed : Option Pid) (fuel : Nat) {s : Case} (unpinned : s.pinned = none)
    (isFiled : ∀ pid, filed = some pid → s.filed = some pid) :
    Keeps id (chosen id filed fuel) s fun s' outcome =>
      s'.locked = s.locked ∧ s'.accepted = s.accepted ∧ ∀ c, outcome = some c → Named id s' c := by
  cases filed with
  | none => exact ⟨rfl, rfl, by simp⟩
  | some pid =>
      apply followsOr_bind.2
      apply keeps_sys.2
      refine ⟨⟨unpinned, isFiled pid rfl⟩, fun reach => ?_⟩
      apply followsOr_bind.2
      apply followsOr_bind.2
      have pinned : (s.after (.pidfdOpen pid) reach).pinned = some (pid, reach) := rfl
      apply (isDaemonFor_keeps fuel pinned).mono
      rintro s' verdict ⟨locked, accepted, still, cleared⟩
      refine ⟨locked, accepted, ?_⟩
      intro c named
      show Named id s' c
      by_cases other : verdict = some false
      · simp [other] at named
      · simp only [ne_eq, other, not_false_eq_true, if_true, Option.map_some, Option.some.injEq] at named
        cases named
        exact ⟨still, cleared other⟩

/-- Where the process was reached, a `SIGTERM` has been attempted on it. -/
structure Termed (id : Bytes) (s : Case) (c : Chosen) : Prop extends Named id s c where
  attempted : ∀ pidfd, c.reach = .ok pidfd → s.accepted.isSome = true

theorem signal_keeps {c : Chosen} {sig : Signal} {s : Case} (named : Named id s c)
    (due : ∀ pidfd, c.reach = .ok pidfd →
      sig = .term ∧ s.accepted = none ∨ sig = .kill ∧ s.accepted = some true) :
    Keeps id (c.signal sig) s fun s' _ => s'.locked = s.locked ∧ Termed id s' c := by
  obtain ⟨pid, reach⟩ := c
  cases reach with
  | error e => exact ⟨rfl, named, by rintro _ ⟨⟩⟩
  | ok pidfd =>
      apply keeps_sys.2
      refine ⟨⟨pid, named.pinned, named.cleared, due pidfd rfl⟩, fun reply => ?_⟩
      cases sig with
      | term => exact ⟨rfl, ⟨named.pinned, named.cleared⟩, fun _ _ => rfl⟩
      | kill =>
          rcases due pidfd rfl with ⟨⟨⟩, -⟩ | ⟨-, accepted⟩
          refine ⟨rfl, named, fun _ _ => ?_⟩
          show s.accepted.isSome = true
          rw [accepted]
          rfl

/-! ## The whole of it -/

theorem Named.probed {s s' : Case} {c : Chosen} {found : Liveness} (h : Named id s c)
    (probed : Probed s found s') : Named id s' c :=
  ⟨probed.pinned.trans h.pinned, by
    have := h.cleared
    unfold Case.Cleared at this ⊢
    rwa [probed.reading]⟩

structure Unchosen (s s' : Case) : Prop where
  locked : s'.locked = s.locked
  pinned : s'.pinned = none
  accepted : s'.accepted = none

def Resolved (id : Bytes) (s s' : Case) (outcome : Option Chosen) : Prop :=
  s'.locked = s.locked ∧ ∀ c, outcome = some c → Named id s' c ∧ s'.accepted = none

theorem awaitPid_keeps {unprobed : Option ConnectError} {waitingOn : Problem}
    {again : Run (Option Chosen)} {s s' : Case} (onward : Keeps id again s' (Resolved id s)) :
    Keeps id (awaitPid unprobed waitingOn again) s' (Resolved id s) := by
  apply followsOr_bind.2
  apply keeps_sys.2
  refine ⟨trivial, fun passed => ?_⟩
  cases passed with
  | true => trivial
  | false =>
      apply followsOr_bind.2
      apply keeps_sys.2
      exact ⟨trivial, fun _ => onward⟩

theorem resolveNamed_keeps (unprobed : Option ConnectError) (fuel : Nat) {again : Run (Option Chosen)}
    {s s' : Case} (h : Unchosen s s')
    (onward : ∀ s', Unchosen s s' → Keeps id again s' (Resolved id s)) :
    Keeps id (resolveNamed id unprobed fuel again) s' (Resolved id s) := by
  apply (pidfile_keeps fuel h.pinned).bind
  rintro s'' outcome filed
  have waits : Unchosen s s'' := ⟨filed.locked.trans h.locked, filed.pinned.trans h.pinned,
    filed.accepted.trans h.accepted⟩
  rcases outcome with ((_ | _ | _ | _ | _) | _) | ⟨pid, body⟩
  case error.errno.noent => exact awaitPid_keeps (onward s'' waits)
  case ok =>
    show Keeps id (if _ then _ else _) _ _
    split
    · exact awaitPid_keeps (onward s'' waits)
    · have isFiled : ∀ named, pid = some named → s''.filed = some named := by
        rintro named rfl
        exact filed.filed named body rfl
      apply (chosen_keeps pid fuel waits.pinned isFiled).bind
      rintro s₃ (_ | c) ⟨locked, accepted, named⟩
      · trivial
      · refine ⟨locked.trans waits.locked, ?_⟩
        rintro _ ⟨⟩
        exact ⟨named c rfl, accepted.trans waits.accepted⟩
  all_goals trivial

theorem resolve_keeps (fuel rounds : Nat) {s s' : Case} (h : Unchosen s s') :
    Keeps id (resolve id fuel rounds) s' (Resolved id s) := by
  induction rounds generalizing s' with
  | zero => trivial
  | succ rounds ih =>
      apply (liveness_keeps fuel s').bind
      rintro s'' found probed
      have accepted : s''.accepted = none := by
        by_cases alive : found = .alive
        · rw [probed.alive alive, h.accepted, Option.map_none]
        · rw [probed.other alive, h.accepted]
      have onward : Unchosen s s'' :=
        ⟨probed.locked.trans h.locked, probed.pinned.trans h.pinned, accepted⟩
      cases found with
      | stale e => exact ⟨onward.locked, by rintro _ ⟨⟩⟩
      | alive => exact resolveNamed_keeps none fuel onward fun _ => ih
      | unknown e => exact resolveNamed_keeps (some e) fuel onward fun _ => ih

theorem awaitEnd_keeps {c : Chosen} (term : Except Errno Unit) (fuel rounds : Nat)
    {killed : Option (Except Errno Unit)} {s : Case} (h : Termed id s c) :
    Keeps id (awaitEnd c term fuel rounds killed) s fun s' _ => s'.locked = s.locked := by
  induction rounds generalizing s killed with
  | zero => trivial
  | succ rounds ih =>
      apply (liveness_keeps fuel s).bind
      rintro s' found probed
      cases found with
      | stale e => exact probed.locked
      | unknown e => trivial
      | alive =>
          have accepted := probed.alive rfl
          have termed : Termed id s' c := by
            refine ⟨h.toNamed.probed probed, fun pidfd reached => ?_⟩
            rw [accepted, Option.isSome_map]
            exact h.attempted pidfd reached
          apply followsOr_bind.2
          apply keeps_sys.2
          refine ⟨trivial, fun passed => ?_⟩
          cases passed with
          | false =>
              apply followsOr_bind.2
              apply keeps_sys.2
              exact ⟨trivial, fun _ => (ih termed).mono fun _ _ same => same.trans probed.locked⟩
          | true =>
              cases killed with
              | some kill => trivial
              | none =>
                  have due : ∀ pidfd, c.reach = .ok pidfd → Signal.kill = .term ∧ s'.accepted = none ∨
                      Signal.kill = .kill ∧ s'.accepted = some true := by
                    intro pidfd reached
                    obtain ⟨before, some⟩ := Option.isSome_iff_exists.1 (h.attempted pidfd reached)
                    rw [accepted, some]
                    exact .inr ⟨rfl, rfl⟩
                  apply (signal_keeps termed.toNamed due).bind
                  rintro s'' kill ⟨locked, termed⟩
                  apply followsOr_bind.2
                  apply keeps_sys.2
                  refine ⟨trivial, fun _ => (ih termed).mono fun _ _ same => ?_⟩
                  exact same.trans (locked.trans probed.locked)

/-- What `killLocked` does last, with what the probe found. -/
def unlinkStale : Liveness → Run Unit
  | .stale _ => do check (← sys .unlinkAllLocked)
  | .alive => throw (.refused .boundSince)
  | .unknown e => throw (.refused (.unprobeable e))

theorem unlinkStale_keeps (found : Liveness) {s s' : Case} (probed : Probed s found s')
    (locked : s.locked = true) : Keeps id (unlinkStale found) s' fun _ _ => True := by
  cases found with
  | alive | unknown e => trivial
  | stale e =>
      apply followsOr_bind.2
      apply keeps_sys.2
      refine ⟨⟨probed.locked.trans locked, probed.stale locked e rfl⟩, fun reply => ?_⟩
      exact keeps_check fun _ _ => trivial

theorem killLocked_keeps (fuel : Nat) {s : Case} (h : Unchosen s s) (locked : s.locked = true) :
    Keeps id (killLocked id fuel) s fun _ _ => True := by
  have finish : ∀ s', s'.locked = s.locked →
      Keeps id (liveness fuel >>= unlinkStale) s' fun _ _ => True := by
    intro s' same
    apply (liveness_keeps fuel s').bind
    intro s'' found probed
    exact unlinkStale_keeps found probed (same.trans locked)
  apply (resolve_keeps fuel fuel h).bind
  rintro s' outcome ⟨same, resolved⟩
  cases outcome with
  | none => exact finish s' same
  | some c =>
      obtain ⟨named, accepted⟩ := resolved c rfl
      apply (signal_keeps named fun _ _ => .inl ⟨rfl, accepted⟩).bind
      rintro s'' term ⟨still, termed⟩
      apply (awaitEnd_keeps term fuel fuel termed).bind
      rintro s₃ - last
      exact finish s₃ (last.trans (still.trans same))

theorem kill_keeps (id : Bytes) (fuel : Nat) : Keeps id (kill id fuel) {} fun _ _ => True := by
  apply followsOr_bind.2
  apply keeps_sys.2
  refine ⟨trivial, fun paths => ?_⟩
  apply followsOr_bind.2
  apply keeps_check
  rintro _ -
  apply followsOr_bind.2
  apply keeps_sys.2
  refine ⟨trivial, fun dir => ?_⟩
  apply followsOr_bind.2
  apply keeps_check
  rintro (_ | _) -
  · trivial
  · apply followsOr_bind.2
    apply keeps_sys.2
    refine ⟨trivial, fun lock => ?_⟩
    apply followsOr_bind.2
    apply keeps_check
    rintro _ rfl
    exact killLocked_keeps fuel ⟨rfl, rfl, rfl⟩ rfl

end Nomux.Control
