import Nomux.Cli.CommandLine

/-!
# Verdicts on a command line that was cut off

`/proc` is read into a buffer, and a command line can be longer. What is left of it is some of its
arguments, whole, and a piece of the next.
-/

namespace Nomux
open Wire

theorem splitOn_plain (line : Bytes) : ∀ arg ∈ line.splitOn 0, 0 ∉ arg := by
  induction line with
  | nil => simp
  | cons byte line ih =>
      rw [List.splitOn_cons_eq_if_modifyHead]
      split
      · intro arg inside
        rcases List.mem_cons.1 inside with rfl | inside
        · simp
        · exact ih arg inside
      · rename_i nonzero
        obtain ⟨first, rest, split⟩ := List.exists_cons_of_ne_nil (List.splitOn_ne_nil 0 line)
        rw [split] at ih ⊢
        intro arg inside zero
        rcases List.mem_cons.1 inside with rfl | inside
        · rcases List.mem_cons.1 zero with rfl | zero
          · simp at nonzero
          · exact ih first (by simp) zero
        · exact ih arg (List.mem_cons_of_mem _ inside) zero

/-! ## What is read of a session -/

theorem firstWord_some {args : List Bytes} {session : Option Bytes} {word : Bytes}
    (found : session = some word) : firstWord args session = some word := by
  induction args, session using firstWord.induct with
  | case1 session => rwa [firstWord]
  | case2 arg session option =>
      rw [firstWord, if_pos option]
      exact found
  | case3 arg session option value rest ih =>
      rw [firstWord, if_pos option]
      exact ih found
  | case4 arg rest session other bare ih =>
      rw [firstWord.eq_def]
      simp only [if_neg other, if_pos bare]
      apply ih
      rw [found]
      rfl
  | case5 arg rest session other dash ih =>
      rw [firstWord.eq_def]
      simp only [if_neg other, if_neg dash]
      exact ih found

theorem firstWord_append {args : List Bytes} {session : Option Bytes} {word : Bytes}
    (named : firstWord args session = some word) (more : List Bytes) :
    firstWord (args ++ more) session = some word := by
  induction args, session using firstWord.induct with
  | case1 session =>
      rw [firstWord] at named
      exact firstWord_some named
  | case2 arg session option =>
      rw [firstWord, if_pos option] at named
      exact firstWord_some named
  | case3 arg session option value rest ih =>
      rw [firstWord, if_pos option] at named
      rw [List.cons_append, List.cons_append, firstWord, if_pos option]
      exact ih named
  | case4 arg rest session other bare ih =>
      rw [firstWord.eq_def] at named ⊢
      simp only [List.cons_append, if_neg other, if_pos bare] at named ⊢
      exact ih named
  | case5 arg rest session other dash ih =>
      rw [firstWord.eq_def] at named ⊢
      simp only [List.cons_append, if_neg other, if_neg dash] at named ⊢
      exact ih named

/-- The session that arguments name, where they are a daemon's. -/
def namedIn : List Bytes → Option Bytes
  | _ :: mode :: args => if mode = daemonMode then firstWord args none else none
  | _ => none

theorem sessionNamed_intercalate {args : List Bytes} (plain : ∀ arg ∈ args, 0 ∉ arg) :
    sessionNamed ([0].intercalate args) = namedIn args := by
  rcases args with _ | ⟨argv0, _ | ⟨mode, args⟩⟩
  · rfl
  · unfold sessionNamed
    rw [List.splitOn_intercalate 0 plain (by simp)]
    rfl
  · unfold sessionNamed
    rw [List.splitOn_intercalate 0 plain (by simp)]
    rfl

theorem namedIn_append {args : List Bytes} {word : Bytes} (named : namedIn args = some word)
    (more : List Bytes) : namedIn (args ++ more) = some word := by
  rcases args with _ | ⟨argv0, _ | ⟨mode, args⟩⟩
  · cases named
  · cases named
  · by_cases daemon : mode = daemonMode
    · simp only [namedIn, if_pos daemon] at named
      simp only [List.cons_append, namedIn, if_pos daemon]
      exact firstWord_append named more
    · simp [namedIn, if_neg daemon] at named

/-! ## What is left of a command line -/

theorem take_cmdline (args : List Bytes) (plain : ∀ arg ∈ args, 0 ∉ arg) (n : Nat) :
    ∃ front behind piece, args = front ++ behind ∧ (cmdline args).take n = cmdline front ++ piece ∧
      0 ∉ piece := by
  induction args generalizing n with
  | nil => exact ⟨[], [], [], rfl, by simp [cmdline], by simp⟩
  | cons arg args ih =>
      have split : cmdline (arg :: args) = (arg ++ [0]) ++ cmdline args := rfl
      by_cases inside : n ≤ arg.length
      · refine ⟨[], arg :: args, arg.take n, rfl, ?_, fun zero => ?_⟩
        · rw [split, List.append_assoc, List.take_append_of_le_length inside]
          rfl
        · exact plain arg (by simp) (List.mem_of_mem_take zero)
      · obtain ⟨front, behind, piece, rfl, cut, whole⟩ :=
          ih (fun arg inside => plain arg (List.mem_cons_of_mem _ inside)) (n - (arg ++ [0]).length)
        refine ⟨arg :: front, behind, piece, rfl, ?_, whole⟩
        have past : (arg ++ [0]).length ≤ n := by
          rw [List.length_append, List.length_singleton]
          omega
        rw [split, List.take_append, List.take_of_length_le past, cut, ← List.append_assoc]
        rfl

theorem wholeArgs_cmdline {front : List Bytes} {piece : Bytes} (cut : 0 ∉ piece) :
    wholeArgs (cmdline front ++ piece) = [0].intercalate front := by
  have skips : ∀ byte ∈ piece.reverse, decide (byte ≠ 0) = true := by
    intro byte inside
    rw [decide_eq_true_iff]
    rintro rfl
    exact cut (List.mem_reverse.1 inside)
  unfold wholeArgs
  rw [List.reverse_append, List.dropWhile_append_of_pos skips]
  rcases eq_or_ne front [] with rfl | some_args
  · rfl
  · rw [cmdline_eq some_args]
    simp

/-- What a verdict goes by: the arguments that were read whole, and whether the buffer was filled. -/
theorem daemonVerdict_eq {front : List Bytes} {piece : Bytes} (plain : ∀ arg ∈ front, 0 ∉ arg)
    (cut : 0 ∉ piece) (id : Bytes) :
    daemonVerdict (cmdline front ++ piece) id =
      if namedIn front = some id then some true
      else if (cmdline front ++ piece).length < maxCmdlineLen then some false
      else match front with
        | _ :: mode :: _ =>
            if (namedIn front).isNone && mode = daemonMode then none else some false
        | _ => none := by
  unfold daemonVerdict
  dsimp only
  rw [wholeArgs_cmdline cut, sessionNamed_intercalate plain]
  split
  · rfl
  · split
    · rfl
    · rcases front with _ | ⟨argv0, _ | ⟨mode, args⟩⟩
      · rfl
      · have single : [0].intercalate [argv0] = argv0 := by simp
        rw [single]
        simp [plain argv0 (by simp)]
      · have zero : ([0].intercalate (argv0 :: mode :: args)).contains 0 = true := by
          simp [List.intercalate_cons_cons]
        rw [List.splitOn_intercalate 0 plain (by simp), zero]
        cases (namedIn (argv0 :: mode :: args)).isNone <;> by_cases daemon : mode = daemonMode <;>
          simp [daemon]

theorem namedIn_settled {argv0 mode : Bytes} {args : List Bytes} (more : List Bytes)
    (settled : ¬ ((namedIn (argv0 :: mode :: args)).isNone && mode = daemonMode) = true) :
    namedIn (argv0 :: mode :: args ++ more) = namedIn (argv0 :: mode :: args) := by
  cases named : namedIn (argv0 :: mode :: args) with
  | some word => exact namedIn_append named more
  | none =>
      rw [named] at settled
      have other : mode ≠ daemonMode := by simpa using settled
      simp only [List.cons_append, namedIn, if_neg other]

theorem nothing_behind {front behind : List Bytes} {piece : Bytes} (clean : 0 ∉ piece)
    (cut : (cmdline (front ++ behind)).take maxCmdlineLen = cmdline front ++ piece)
    (short : (cmdline front ++ piece).length < maxCmdlineLen) : behind = [] := by
  have all : (cmdline (front ++ behind)).take maxCmdlineLen = cmdline (front ++ behind) := by
    apply List.take_of_length_le
    rw [← cut, List.length_take] at short
    omega
  have apart : cmdline (front ++ behind) = cmdline front ++ cmdline behind := List.flatMap_append
  rw [all, apart, List.append_cancel_left_eq] at cut
  cases behind with
  | nil => rfl
  | cons arg behind =>
      rw [← cut] at clean
      exact absurd (by simp [cmdline]) clean

theorem verdict_of_cut (line id : Bytes) (b : Bool)
    (verdict : daemonVerdict ((line ++ [0]).take maxCmdlineLen) id = some b) :
    b = true ↔ sessionNamed line = some id := by
  have plain := splitOn_plain line
  have whole : [0].intercalate (line.splitOn 0) = line := List.intercalate_splitOn 0
  have terminated : line ++ [0] = cmdline (line.splitOn 0) := by
    rw [cmdline_eq (List.splitOn_ne_nil 0 line), whole]
  have named := sessionNamed_intercalate plain
  rw [whole] at named
  rw [named]
  obtain ⟨front, behind, piece, split, cut, clean⟩ := take_cmdline _ plain maxCmdlineLen
  rw [terminated, cut, daemonVerdict_eq (fun arg inside => plain arg (by simp [split, inside])) clean]
    at verdict
  rw [split] at cut ⊢
  by_cases same : namedIn front = some id
  · rw [if_pos same] at verdict
    cases verdict
    simp [namedIn_append same]
  · rw [if_neg same] at verdict
    have other : namedIn (front ++ behind) = namedIn front → b = false →
        (b = true ↔ namedIn (front ++ behind) = some id) := by
      rintro settled rfl
      simp [settled, same]
    by_cases short : (cmdline front ++ piece).length < maxCmdlineLen
    · rw [if_pos short] at verdict
      cases verdict
      rw [nothing_behind clean cut short, List.append_nil] at other ⊢
      exact other rfl rfl
    · rw [if_neg short] at verdict
      rcases front with _ | ⟨argv0, _ | ⟨mode, args⟩⟩
      · cases verdict
      · cases verdict
      · dsimp only at verdict
        split at verdict
        · cases verdict
        · rename_i settled
          cases verdict
          exact other (namedIn_settled behind settled) rfl

/-! ## A daemon's own command line -/

theorem split_cmdline (body : Bytes) : ∃ front piece, body = cmdline front ++ piece ∧
    (∀ arg ∈ front, 0 ∉ arg) ∧ 0 ∉ piece := by
  have plain := splitOn_plain body
  have whole : [0].intercalate (body.splitOn 0) = body := List.intercalate_splitOn 0
  rcases List.eq_nil_or_concat (body.splitOn 0) with none | ⟨front, piece, split⟩
  · exact absurd none (List.splitOn_ne_nil 0 body)
  · rw [split] at plain whole
    have terminated := @cmdline_eq (front.concat piece) (by simp)
    rw [whole] at terminated
    refine ⟨front, piece, ?_, fun arg inside => plain arg (by simp [inside]), plain piece (by simp)⟩
    have apart : cmdline (front.concat piece) = cmdline front ++ (piece ++ [0]) := by
      simp [cmdline]
    rw [apart, ← List.append_assoc] at terminated
    exact (List.append_cancel_right terminated).symm

/-- The buffer holds the longest path, the mode and the longest id. -/
theorem verdict_of_daemon {argv0 id : Bytes} (path : 0 ∉ argv0) (fits : argv0.length ≤ pathMax)
    (valid : isValidSessionId id) (more other : Bytes) :
    daemonVerdict ((cmdline [argv0, daemonMode, id] ++ more).take maxCmdlineLen) other =
      some (decide (other = id)) := by
  have bytes := idBytes valid
  have short : id.length ≤ maxSessionIdLen := by
    simp only [isValidSessionId, Bool.and_eq_true, decide_eq_true_eq] at valid
    exact valid.1.1.2
  have room : (cmdline [argv0, daemonMode, id]).length ≤ maxCmdlineLen := by
    simp [cmdline, maxCmdlineLen]
    omega
  obtain ⟨front, piece, behind, plain, clean⟩ :=
    split_cmdline (more.take (maxCmdlineLen - (cmdline [argv0, daemonMode, id]).length))
  have body : (cmdline [argv0, daemonMode, id] ++ more).take maxCmdlineLen =
      cmdline (argv0 :: daemonMode :: id :: front) ++ piece := by
    rw [List.take_append, List.take_of_length_le room, behind, ← List.append_assoc]
    simp [cmdline]
  have all : ∀ arg ∈ argv0 :: daemonMode :: id :: front, 0 ∉ arg := by
    simp only [List.mem_cons]
    rintro arg (rfl | rfl | rfl | inside)
    · exact path
    · exact modes_plain.1
    · exact bytes.no_nul
    · exact plain arg inside
  have named : namedIn (argv0 :: daemonMode :: id :: front) = some id := by
    obtain ⟨label, lockFd⟩ := bare_not_option bytes.bare
    show firstWord (id :: front) none = some id
    rw [firstWord.eq_def]
    simp only [label, lockFd, bytes.bare, decide_false, Bool.or_self, Bool.false_eq_true, if_false,
      Bool.not_false, if_true, Option.none_or]
    exact firstWord_some rfl
  rw [body, daemonVerdict_eq all clean, named]
  by_cases same : other = id
  · simp [same]
  · simp [same, Ne.symm same]

theorem verdict_truthful :
    (∀ (line id : Bytes) (b : Bool),
      daemonVerdict ((line ++ [0]).take maxCmdlineLen) id = some b →
        (b = true ↔ sessionNamed line = some id)) ∧
    ∀ (argv0 id : Bytes) (args : List Bytes),
      0 ∉ argv0 → argv0.length ≤ pathMax → isValidSessionId id →
        daemonVerdict ((cmdline (argv0 :: daemonMode :: id :: args)).take maxCmdlineLen) id =
          some true ∧
        ∀ other, other ≠ id →
          daemonVerdict ((cmdline (argv0 :: daemonMode :: id :: args)).take maxCmdlineLen) other =
            some false := by
  refine ⟨verdict_of_cut, fun argv0 id args path fits valid => ?_⟩
  have verdict := verdict_of_daemon path fits valid (cmdline args)
  have whole : cmdline [argv0, daemonMode, id] ++ cmdline args =
      cmdline (argv0 :: daemonMode :: id :: args) := List.flatMap_append.symm
  rw [whole] at verdict
  refine ⟨?_, fun other ne => ?_⟩
  · rw [verdict id, decide_eq_true rfl]
  · rw [verdict other, decide_eq_false ne]

/-- A label behind the id so long that the line is cut inside it. -/
theorem verdict_truthful_cut :
    let line := cmdline [utf8 "/bin/nomux", daemonMode, utf8 "one", labelOption] ++
      List.replicate maxCmdlineLen 0x61
    maxCmdlineLen < (line ++ [0]).length ∧
    daemonVerdict ((line ++ [0]).take maxCmdlineLen) (utf8 "one") = some true ∧
    daemonVerdict ((line ++ [0]).take maxCmdlineLen) (utf8 "two") = some false ∧
    sessionNamed line = some (utf8 "one") := by
  intro line
  have whole : line ++ [0] = cmdline [utf8 "/bin/nomux", daemonMode, utf8 "one", labelOption,
      List.replicate maxCmdlineLen 0x61] := by
    simp [line, cmdline]
  have long : maxCmdlineLen < (line ++ [0]).length := by
    simp only [line, List.length_append, List.length_replicate, List.length_singleton]
    omega
  obtain ⟨named, other⟩ := verdict_truthful.2 (utf8 "/bin/nomux") (utf8 "one")
    [labelOption, List.replicate maxCmdlineLen 0x61] (by decide +kernel) (by decide +kernel)
    (by decide +kernel)
  rw [← whole] at named other
  exact ⟨long, named, other _ (by decide +kernel), (verdict_truthful.1 line _ true named).1 rfl⟩

end Nomux
