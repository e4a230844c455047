import Nomux.Cli.Args

/-!
# The readings of a command line agree

What the strict parser accepts names the same session to the reader of `/proc`, and what is written
for a daemon is parsed back as it was meant.
-/

namespace Nomux
open Wire

/-- What the kernel shows of arguments: each with its NUL behind it. -/
def cmdline (args : List Bytes) : Bytes := args.flatMap (· ++ [0])

theorem cmdline_eq {args : List Bytes} (some_args : args ≠ []) :
    cmdline args = [0].intercalate args ++ [0] := by
  induction args with
  | nil => exact (some_args rfl).elim
  | cons first args ih =>
      cases args with
      | nil => simp [cmdline]
      | cons second args =>
          have rest := ih (by simp)
          unfold cmdline at rest ⊢
          rw [List.flatMap_cons, rest]
          simp [List.intercalate_cons_cons]

theorem wholeArgs_snoc (s : Bytes) : wholeArgs (s ++ [0]) = s := by
  simp [wholeArgs]

/-! ## The strict reading and the lenient one -/

theorem splitOnce_some {text key value : Bytes} (h : splitOnce text = some (key, value)) :
    text = key ++ 0x3d :: value := by
  induction text generalizing key with
  | nil => cases h
  | cons byte rest ih =>
      rw [splitOnce] at h
      split at h
      · rename_i equals
        cases h
        rw [equals]
        rfl
      · obtain ⟨⟨front, value'⟩, again, same⟩ := Option.map_eq_some_iff.1 h
        cases same
        rw [ih again]
        rfl

theorem joined_some {option text value : Bytes} (h : joined option text = some value) :
    text = option ++ 0x3d :: value := by
  unfold joined at h
  split at h
  · rename_i key value' split_at
    split at h
    · rename_i same
      cases h
      rw [splitOnce_some split_at, same]
    · cases h
  · cases h

theorem options_plain : startsWithDash labelOption ∧ startsWithDash lockFdOption ∧
    0x3d ∉ labelOption ∧ 0x3d ∉ lockFdOption := by
  decide +kernel

theorem bare_not_option {arg : Bytes} (bare : startsWithDash arg = false) :
    arg ≠ labelOption ∧ arg ≠ lockFdOption := by
  constructor
  · rintro rfl
    rw [options_plain.1] at bare
    cases bare
  · rintro rfl
    rw [options_plain.2.1] at bare
    cases bare

theorem startsWithDash_append {text : Bytes} (dash : startsWithDash text) (more : Bytes) :
    startsWithDash (text ++ more) := by
  cases text with
  | nil => cases dash
  | cons byte text => exact dash

theorem joined_option {option value : Bytes} (dash : startsWithDash option) :
    startsWithDash (option ++ 0x3d :: value) ∧ option ++ 0x3d :: value ≠ labelOption ∧
      option ++ 0x3d :: value ≠ lockFdOption := by
  obtain ⟨-, -, label, lockFd⟩ := options_plain
  refine ⟨startsWithDash_append dash _, ?_, ?_⟩
  · intro same
    exact label (same ▸ by simp)
  · intro same
    exact lockFd (same ▸ by simp)

theorem parseLockFd_session {value : Bytes} {parsed parsed' : SessionArgs}
    (h : parseLockFd value parsed = .ok parsed') : parsed'.session = parsed.session := by
  unfold parseLockFd at h
  split at h
  · cases h
  · split at h
    · cases h
    · cases h
      rfl

theorem parseLabel_session {value : Bytes} {parsed parsed' : SessionArgs}
    (h : parseLabel value parsed = .ok parsed') : parsed'.session = parsed.session := by
  unfold parseLabel at h
  split at h
  · cases h
  · cases h
    rfl

/-- One round of the parser, where it goes on. -/
inductive Parsed (privateOptionsOk : Bool) (arg : Bytes) (rest : List Bytes) (parsed : SessionArgs) :
    List Bytes → SessionArgs → Prop
  | joined {parsed' : SessionArgs} (dash : startsWithDash arg) (label : arg ≠ labelOption)
      (lockFd : arg ≠ lockFdOption) (same : parsed'.session = parsed.session) :
      Parsed privateOptionsOk arg rest parsed rest parsed'
  | apart {value : Bytes} {rest' : List Bytes} {parsed' : SessionArgs}
      (option : arg = labelOption ∨ arg = lockFdOption) (behind : rest = value :: rest')
      (same : parsed'.session = parsed.session) :
      Parsed privateOptionsOk arg rest parsed rest' parsed'
  | word (bare : startsWithDash arg = false) (first : parsed.session = none) :
      Parsed privateOptionsOk arg rest parsed rest { parsed with session := some arg }

theorem toStr_some {arg text : Bytes} (h : toStr arg = some text) : text = arg := by
  unfold toStr at h
  split at h
  · exact (Option.some.inj h).symm
  · cases h

theorem bind_ok {α β : Type} {x : Except ArgsError α} {f : α → Except ArgsError β} {b : β}
    (h : x.bind f = .ok b) : ∃ a, x = .ok a ∧ f a = .ok b := by
  cases x with
  | error e => cases h
  | ok a => exact ⟨a, rfl, h⟩

theorem parseFrom_cons {privateOptionsOk : Bool} {arg : Bytes} {rest : List Bytes}
    {parsed result : SessionArgs} (h : parseFrom privateOptionsOk (arg :: rest) parsed = .ok result) :
    ∃ rest' parsed', Parsed privateOptionsOk arg rest parsed rest' parsed' ∧
      rest'.length ≤ rest.length ∧ parseFrom privateOptionsOk rest' parsed' = .ok result := by
  obtain ⟨dashLabel, dashLockFd, -, -⟩ := options_plain
  unfold parseFrom at h
  split at h
  · cases h
  · rename_i text utf8
    cases toStr_some utf8
    split at h
    · rename_i value eq
      obtain ⟨parsed', took, rest_ok⟩ := bind_ok h
      have spelled : arg = lockFdOption ++ 0x3d :: value := by
        split at eq
        · exact joined_some eq
        · cases eq
      obtain ⟨dash, label, lockFd⟩ := @joined_option _ value dashLockFd
      rw [← spelled] at dash label lockFd
      exact ⟨rest, parsed', .joined dash label lockFd (parseLockFd_session took), Nat.le_refl _, rest_ok⟩
    · split at h
      · rename_i value eq
        obtain ⟨parsed', took, rest_ok⟩ := bind_ok h
        have spelled := joined_some eq
        obtain ⟨dash, label, lockFd⟩ := @joined_option _ value dashLabel
        rw [← spelled] at dash label lockFd
        exact ⟨rest, parsed', .joined dash label lockFd (parseLabel_session took), Nat.le_refl _, rest_ok⟩
      · split at h
        · rename_i option
          rw [Bool.and_eq_true, decide_eq_true_eq] at option
          split at h
          · cases h
          · split at h
            · cases h
            · obtain ⟨parsed', took, rest_ok⟩ := bind_ok h
              exact ⟨_, parsed', .apart (.inr option.2) rfl (parseLockFd_session took),
                Nat.le_succ _, rest_ok⟩
        · split at h
          · rename_i option
            split at h
            · cases h
            · split at h
              · cases h
              · obtain ⟨parsed', took, rest_ok⟩ := bind_ok h
                exact ⟨_, parsed', .apart (.inl option) rfl (parseLabel_session took),
                  Nat.le_succ _, rest_ok⟩
          · split at h
            · cases h
            · rename_i bare
              split at h
              · rename_i first
                exact ⟨rest, _, .word (Bool.eq_false_iff.2 bare) (Option.isNone_iff_eq_none.1 first),
                  Nat.le_refl _, h⟩
              · cases h

theorem firstWord_of_parse {privateOptionsOk : Bool} {args : List Bytes} {parsed result : SessionArgs}
    (h : parseFrom privateOptionsOk args parsed = .ok result) :
    firstWord args parsed.session = result.session := by
  induction size : args.length using Nat.strong_induction_on generalizing args parsed with
  | h n ih =>
      cases args with
      | nil =>
          unfold parseFrom at h
          cases h
          rfl
      | cons arg rest =>
          obtain ⟨rest', parsed', step, shorter, rest_ok⟩ := parseFrom_cons h
          have behind := ih rest'.length (by rw [← size, List.length_cons]; omega) rest_ok rfl
          unfold firstWord
          cases step with
          | joined dash label lockFd same =>
              rw [same] at behind
              simp only [label, lockFd, dash, decide_false, Bool.or_self, Bool.false_eq_true, if_false,
                Bool.not_true]
              exact behind
          | apart option split same =>
              rw [same] at behind
              subst split
              have skips : (decide (arg = labelOption) || decide (arg = lockFdOption)) = true := by
                simpa using option
              simp only [skips, if_true]
              exact behind
          | word bare first =>
              obtain ⟨label, lockFd⟩ := bare_not_option bare
              simp only [label, lockFd, bare, decide_false, Bool.or_self, Bool.false_eq_true, if_false,
                Bool.not_false, if_true, first, Option.none_or]
              exact behind

theorem sessionNamed_joined {argv0 : Bytes} {args : List Bytes}
    (plain : ∀ arg ∈ argv0 :: daemonMode :: args, 0 ∉ arg) :
    sessionNamed ([0].intercalate (argv0 :: daemonMode :: args)) = firstWord args none := by
  unfold sessionNamed
  rw [List.splitOn_intercalate 0 plain (by simp)]
  simp only [List.drop_succ_cons, List.drop_zero, if_true]

theorem daemonVerdict_whole {argv0 : Bytes} {args : List Bytes} {named : Option Bytes}
    (plain : ∀ arg ∈ argv0 :: daemonMode :: args, 0 ∉ arg)
    (same : firstWord args none = named)
    (short : (cmdline (argv0 :: daemonMode :: args)).length < maxCmdlineLen) (id : Bytes) :
    daemonVerdict (cmdline (argv0 :: daemonMode :: args)) id = some (decide (named = some id)) := by
  unfold daemonVerdict
  dsimp only
  rw [if_pos short, cmdline_eq (by simp), wholeArgs_snoc, sessionNamed_joined plain, same]
  by_cases here : named = some id
  · rw [if_pos here, decide_eq_true here]
  · rw [if_neg here, decide_eq_false here]

/-! ## What is written for a daemon -/

theorem toStr_utf8 (text : String) : toStr (utf8 text) = some (utf8 text) := by
  have whole : fromUtf8 (utf8 text) = some text := (fromUtf8_eq_some ..).2 rfl
  unfold toStr
  rw [whole]
  rfl

theorem parseI32_i32ToString (n : Int) :
    parseI32 (i32ToString n) = (some n).filter fun n => -2 ^ 31 ≤ n ∧ n < 2 ^ 31 := by
  cases n with
  | ofNat n =>
      have digits := Decimal.print_digits n
      show parseI32 (Decimal.print n) = _
      unfold parseI32
      dsimp only
      split
      · rename_i rest printed
        rw [printed] at digits
        exact absurd (digits 0x2b (by simp)) (by decide)
      · rename_i rest printed
        rw [printed] at digits
        exact absurd (digits 0x2d (by simp)) (by decide)
      · rw [Decimal.read_print, Option.map_some]
  | negSucc n =>
      show Option.filter _ ((Decimal.read (Decimal.print (n + 1))).map fun n => -Int.ofNat n) = _
      rw [Decimal.read_print, Option.map_some]
      rfl

theorem parseI32_toString {n : Int} (low : -2 ^ 31 ≤ n) (high : n < 2 ^ 31) :
    parseI32 (i32ToString n) = some n := by
  rw [parseI32_i32ToString, Option.filter_some, if_pos (by simpa using ⟨low, high⟩)]

theorem utf8EncodeChar_ascii {byte : UInt8} (ascii : byte < 0x80) :
    String.utf8EncodeChar (Char.ofNat byte.toNat) = [byte] := by
  have small : byte.toNat < 0x80 := UInt8.lt_iff_toNat_lt.1 ascii
  have valid : byte.toNat.isValidChar := Or.inl (by omega)
  have value : (Char.ofNat byte.toNat).val.toNat = byte.toNat := by
    rw [Char.ofNat, dif_pos valid]
    rfl
  unfold String.utf8EncodeChar
  dsimp only
  rw [value, if_pos (by omega), UInt8.ofNat_toNat]

def ofAscii (text : Bytes) : List Char := text.map fun byte => Char.ofNat byte.toNat

theorem utf8_ofAscii {text : Bytes} (ascii : ∀ byte ∈ text, byte < 0x80) :
    utf8 (String.ofList (ofAscii text)) = text := by
  rw [utf8_eq, String.toList_ofList, ofAscii, List.flatMap_map]
  conv_rhs => rw [← List.flatMap_singleton' text]
  apply List.flatMap_congr
  intro byte inside
  exact utf8EncodeChar_ascii (ascii byte inside)

theorem toStr_ascii {text : Bytes} (ascii : ∀ byte ∈ text, byte < 0x80) : toStr text = some text := by
  have round := toStr_utf8 (String.ofList (ofAscii text))
  rwa [utf8_ofAscii ascii] at round

structure IdBytes (id : Bytes) : Prop where
  ascii : ∀ byte ∈ id, byte < 0x80
  no_nul : 0 ∉ id
  no_equals : 0x3d ∉ id
  bare : startsWithDash id = false

theorem idBytes {id : Bytes} (valid : isValidSessionId id) : IdBytes id := by
  simp only [isValidSessionId, Bool.and_eq_true, Bool.not_eq_true', decide_eq_true_eq] at valid
  obtain ⟨⟨-, bare⟩, bytes⟩ := valid
  have each : ∀ byte ∈ id, byte < 0x80 ∧ byte ≠ 0 ∧ byte ≠ 0x3d := by
    intro byte inside
    have good := List.all_eq_true.1 bytes byte inside
    simp only [Bool.or_eq_true, Bool.and_eq_true, decide_eq_true_eq, UInt8.le_iff_toNat_le,
      ← UInt8.toNat_inj, UInt8.reduceToNat] at good
    simp only [UInt8.lt_iff_toNat_lt, ne_eq, ← UInt8.toNat_inj, UInt8.reduceToNat]
    omega
  exact ⟨fun byte inside => (each byte inside).1, fun nul => (each 0 nul).2.1 rfl,
    fun equals => (each 0x3d equals).2.2 rfl, bare⟩

theorem joined_none {text : Bytes} (no_equals : 0x3d ∉ text) (option : Bytes) :
    joined option text = none := by
  unfold joined
  cases again : splitOnce text with
  | none => rfl
  | some split =>
      obtain ⟨key, value⟩ := split
      rw [splitOnce_some again] at no_equals
      exact (no_equals (by simp)).elim

theorem options_differ : labelOption ≠ lockFdOption := by
  decide +kernel

theorem parseFrom_lockFd {value : Bytes} (text : toStr value = some value) (rest : List Bytes)
    (parsed : SessionArgs) : parseFrom true (lockFdOption :: value :: rest) parsed =
      (parseLockFd value parsed).bind (parseFrom true rest) := by
  have option : toStr lockFdOption = some lockFdOption := toStr_utf8 "--lock-fd"
  obtain ⟨-, -, -, no_equals⟩ := options_plain
  rw [parseFrom.eq_def]
  simp only [option, if_true, joined_none no_equals, decide_true, Bool.and_self, text]

theorem parseFrom_label {value : Bytes} (text : toStr value = some value) (rest : List Bytes)
    (parsed : SessionArgs) : parseFrom true (labelOption :: value :: rest) parsed =
      (parseLabel value parsed).bind (parseFrom true rest) := by
  have option : toStr labelOption = some labelOption := toStr_utf8 "--label"
  obtain ⟨-, -, no_equals, -⟩ := options_plain
  rw [parseFrom.eq_def]
  simp only [option, if_true, joined_none no_equals, options_differ, decide_false, Bool.and_false,
    Bool.false_eq_true, if_false, text]

theorem parseFrom_word {id : Bytes} (plain : IdBytes id) (rest : List Bytes) :
    parseFrom true (id :: rest) {} = parseFrom true rest { session := some id } := by
  obtain ⟨label, lockFd⟩ := bare_not_option plain.bare
  rw [parseFrom.eq_def]
  simp only [toStr_ascii plain.ascii, if_true, joined_none plain.no_equals, lockFd, label, plain.bare,
    decide_false, Bool.and_false, Bool.false_eq_true, if_false, Option.isNone_none]

def daemonArgs (id : Bytes) (label : Option String) (lockFd : Int) : List Bytes :=
  id :: lockFdOption :: i32ToString lockFd ::
    ((label.map sanitizeLabel).filter (!·.isEmpty)).elim [] fun label => [labelOption, utf8 label]

theorem i32ToString_bytes (n : Int) :
    ∀ byte ∈ i32ToString n, byte = 0x2d ∨ 0x30 ≤ byte.toNat ∧ byte.toNat ≤ 0x39 := by
  intro byte inside
  cases n with
  | ofNat n => exact .inr (Decimal.print_digits n byte inside)
  | negSucc n =>
      rcases List.mem_cons.1 inside with dash | digit
      · exact .inl dash
      · exact .inr (Decimal.print_digits (n + 1) byte digit)

theorem i32ToString_ascii (n : Int) :
    (∀ byte ∈ i32ToString n, byte < 0x80) ∧ 0 ∉ i32ToString n := by
  constructor
  · intro byte inside
    rcases i32ToString_bytes n byte inside with rfl | ⟨-, high⟩
    · decide
    · exact UInt8.lt_iff_toNat_lt.2 (by simp only [UInt8.reduceToNat]; omega)
  · intro nul
    rcases i32ToString_bytes n 0 nul with dash | ⟨low, -⟩
    · exact absurd dash (by decide)
    · exact absurd low (by decide)

theorem parse_daemonArgs {id : Bytes} (valid : isValidSessionId id) (label : Option String) {lockFd : Int}
    (above : 2 < lockFd) (fits : lockFd < 2 ^ 31) :
    parseSessionArgs true (daemonArgs id label lockFd) =
      .ok { session := some id, lockFd := some lockFd
            label := ((label.map sanitizeLabel).filter (!·.isEmpty)).map utf8 } := by
  have plain := idBytes valid
  have text := toStr_ascii (i32ToString_ascii lockFd).1
  have fd : parseLockFd (i32ToString lockFd) { session := some id } =
      .ok { session := some id, lockFd := some lockFd } := by
    unfold parseLockFd
    rw [parseI32_toString (by omega) fits, Option.filter_some, if_pos (by simpa using above)]
    rfl
  unfold parseSessionArgs daemonArgs
  rw [parseFrom_word plain, parseFrom_lockFd text, fd, Except.bind]
  cases (label.map sanitizeLabel).filter (!·.isEmpty) with
  | none => simp [parseFrom]
  | some label =>
      show parseFrom true [labelOption, utf8 label] _ = _
      rw [parseFrom_label (toStr_utf8 label)]
      simp [parseLabel, Except.bind, parseFrom]

theorem programArg_plain {text : Bytes} (plain : 0 ∉ text) (program : List Bytes) :
    programArg program text = some (program ++ [text]) := by
  unfold programArg
  rw [if_neg (by simpa using plain)]

theorem modes_plain : 0 ∉ daemonMode ∧ 0 ∉ labelOption ∧ 0 ∉ lockFdOption := by
  decide +kernel

theorem label_plain {label : Option String} {kept : String}
    (here : (label.map sanitizeLabel).filter (!·.isEmpty) = some kept) : 0 ∉ utf8 kept := by
  obtain ⟨mapped, -⟩ := Option.filter_eq_some_iff.1 here
  obtain ⟨text, -, rfl⟩ := Option.map_eq_some_iff.1 mapped
  exact sanitizeLabel_no_nul text

theorem daemonProgram_eq {argv0 id : Bytes} (path : 0 ∉ argv0) (valid : isValidSessionId id)
    (label : Option String) (lockFd : Int) :
    daemonProgram argv0 id label lockFd = some (argv0 :: daemonMode :: daemonArgs id label lockFd) := by
  have plain := idBytes valid
  obtain ⟨mode, labelOption_plain, lockFdOption_plain⟩ := modes_plain
  have digits := (i32ToString_ascii lockFd).2
  unfold daemonProgram daemonArgs
  rw [programArg_plain path]
  simp only [Option.bind_eq_bind, Option.bind_some, programArg_plain mode, programArg_plain plain.no_nul,
    programArg_plain lockFdOption_plain, programArg_plain digits]
  cases here : (label.map sanitizeLabel).filter (!·.isEmpty) with
  | none => rfl
  | some kept =>
      simp only [programArg_plain labelOption_plain, Option.bind_some, programArg_plain (label_plain here)]
      rfl

/-- The three readings of a daemon's command line agree, whatever arguments the parser accepts; and the
command line written for a daemon is one of those, and is parsed back as it was meant. -/
theorem commandLine_agrees :
    (∀ (argv0 : Bytes) (args : List Bytes) (parsed : SessionArgs) (id : Bytes),
      (∀ arg ∈ argv0 :: args, 0 ∉ arg) → parseSessionArgs true args = .ok parsed →
      parsed.session = some id →
        sessionNamed ([0].intercalate (argv0 :: daemonMode :: args)) = some id ∧
        ((cmdline (argv0 :: daemonMode :: args)).length < maxCmdlineLen →
          daemonVerdict (cmdline (argv0 :: daemonMode :: args)) id = some true ∧
          ∀ other, other ≠ id →
            daemonVerdict (cmdline (argv0 :: daemonMode :: args)) other = some false)) ∧
    ∀ (argv0 id : Bytes) (label : Option String) (lockFd : Int),
      0 ∉ argv0 → isValidSessionId id → 2 < lockFd → lockFd < 2 ^ 31 →
        ∃ args, daemonProgram argv0 id label lockFd = some (argv0 :: daemonMode :: args) ∧
          parseSessionArgs true args =
            .ok { session := some id, lockFd := some lockFd
                  label := ((label.map sanitizeLabel).filter (!·.isEmpty)).map utf8 } := by
  constructor
  · intro argv0 args parsed id plain accepted named
    have whole : ∀ arg ∈ argv0 :: daemonMode :: args, 0 ∉ arg := by
      intro arg inside
      rcases List.mem_cons.1 inside with rfl | inside
      · exact plain _ (by simp)
      · rcases List.mem_cons.1 inside with rfl | inside
        · exact modes_plain.1
        · exact plain arg (List.mem_cons_of_mem _ inside)
    have first : firstWord args none = some id := (firstWord_of_parse accepted).trans named
    refine ⟨(sessionNamed_joined whole).trans first, fun short => ⟨?_, fun other ne => ?_⟩⟩
    · rw [daemonVerdict_whole whole first short]
      simp
    · rw [daemonVerdict_whole whole first short]
      simp [ne.symm]
  · intro argv0 id label lockFd path valid above fits
    exact ⟨daemonArgs id label lockFd, daemonProgram_eq path valid label lockFd,
      parse_daemonArgs valid label above fits⟩

/-- A label ahead of the id, worded like a daemon of another session. -/
theorem commandLine_agrees_labelled :
    sessionNamed ([0].intercalate [utf8 "nomux", daemonMode, labelOption, utf8 "daemon two", utf8 "one",
      utf8 "--lock-fd=7"]) = some (utf8 "one") := by
  refine (commandLine_agrees.1 (utf8 "nomux") [labelOption, utf8 "daemon two", utf8 "one",
    utf8 "--lock-fd=7"] { session := some (utf8 "one"), label := some (utf8 "daemon two")
                          lockFd := some 7 } (utf8 "one") ?_ ?_ rfl).1
  · decide +kernel
  · decide +kernel

end Nomux
