import Nomux.Control.Kill
import Nomux.Cli.CommandLine
import Nomux.Rundir.Label
import Mathlib.Logic.Relation

/-!
# The pidfile, written and read at once

`write_private` of `rundir.rs` beside `read_prefix`, call by call, where any number of processes publish
their pids at one name, any number read it, and anybody takes it away.
-/

namespace Nomux.Pidfile
open Wire Program Control

/-! ## `write_private` -/

inductive WriteCall
  | removeFile
  | openExcl
  | write (bytes : Bytes)

@[reducible] def WriteReply : WriteCall → Type
  | .removeFile | .openExcl => Except Errno Unit
  | .write _ => Except Errno Nat

inductive Left
  | errno (e : Errno)
  | writeZero
  | unfinished

abbrev Writing := ExceptT Left (Program WriteReply)

def put (c : WriteCall) : Writing (WriteReply c) := ExceptT.lift (ask c)

def writeAll : (fuel : Nat) → Bytes → Writing Unit
  | 0, bytes => if bytes = [] then pure () else throw .unfinished
  | fuel + 1, bytes =>
      if bytes = [] then pure ()
      else do
        match ← put (.write bytes) with
        | .ok 0 => throw .writeZero
        | .ok n => writeAll fuel (bytes.drop n)
        | .error .intr => writeAll fuel bytes
        | .error e => throw (.errno e)

def writePrivate (body : Bytes) (fuel : Nat) : Writing Unit := do
  let _ ← put .removeFile
  match ← put .openExcl with
  | .error e => throw (.errno e)
  | .ok () => writeAll fuel body

def pidBody (pid : Nat) : Bytes := Decimal.print pid ++ [0x0a]

def writePid (pid fuel : Nat) : Writing Unit := writePrivate (pidBody pid) fuel

/-! ## What is read back -/

theorem trim_line {text : List Char} {ch : Char} (filled : text ≠ [])
    (plain : ∀ ch ∈ text, isWhitespace ch = false) (blank : isWhitespace ch = true) :
    trim (text ++ [ch]) = text := by
  obtain ⟨first, rest, rfl⟩ := List.exists_cons_of_ne_nil filled
  have starts : (first :: rest ++ [ch]).dropWhile isWhitespace = first :: rest ++ [ch] :=
    List.dropWhile_cons_of_neg (by simp [plain first List.mem_cons_self])
  rw [trim, starts, trimEnd, List.reverse_append]
  show (List.dropWhile isWhitespace (ch :: (first :: rest).reverse)).reverse = _
  rw [List.dropWhile_cons_of_pos blank]
  apply trimEnd_of_ends
  exact fun ch last => plain ch (List.mem_of_getLast? last)

theorem isWhitespace_digit {byte : UInt8} (digit : 0x30 ≤ byte.toNat ∧ byte.toNat ≤ 0x39) :
    isWhitespace (Char.ofNat byte.toNat) = false := by
  have valid : byte.toNat.isValidChar := Or.inl (by omega)
  have value : (Char.ofNat byte.toNat).toNat = byte.toNat := by
    rw [Char.ofNat, dif_pos valid]
    rfl
  simp only [isWhitespace, value, Bool.or_eq_false_iff, Bool.and_eq_false_iff, decide_eq_false_iff_not]
  omega

theorem pidBody_ascii (pid : Nat) : ∀ byte ∈ pidBody pid, byte < 0x80 := by
  intro byte inside
  rcases List.mem_append.1 inside with digit | line
  · have := (Decimal.print_digits pid byte digit).2
    exact UInt8.lt_iff_toNat_lt.2 (by simp only [UInt8.reduceToNat]; omega)
  · rw [List.mem_singleton.1 line]
    decide

theorem length_pidBody {pid : Nat} (small : pid < 2 ^ 31) : (pidBody pid).length < MAX_PID_LEN := by
  have digits : (Decimal.print pid).length ≤ 10 := Decimal.length_print (by omega)
  rw [pidBody, List.length_append, List.length_singleton, MAX_PID_LEN]
  omega

theorem parsePid_pidBody {pid : Nat} (positive : 0 < pid) (small : pid < 2 ^ 31) :
    parsePid (pidBody pid) = some (pid : Int) := by
  have short := length_pidBody small
  have last : (pidBody pid).getLast? = some 0x0a := List.getLast?_concat ..
  have text : fromUtf8 (pidBody pid) = some (String.ofList (ofAscii (pidBody pid))) :=
    (fromUtf8_eq_some ..).2 (utf8_ofAscii (pidBody_ascii pid)).symm
  have split : ofAscii (pidBody pid) = ofAscii (Decimal.print pid) ++ ['\n'] := List.map_append ..
  have trimmed : trim (ofAscii (pidBody pid)) = ofAscii (Decimal.print pid) := by
    rw [split]
    apply trim_line
    · simpa [ofAscii] using Decimal.print_ne_nil pid
    · intro ch inside
      obtain ⟨byte, digit, rfl⟩ := List.mem_map.1 inside
      exact isWhitespace_digit (Decimal.print_digits pid byte digit)
    · decide
  have digits : utf8 (String.ofList (ofAscii (Decimal.print pid))) = Decimal.print pid :=
    utf8_ofAscii fun byte digit => pidBody_ascii pid byte (List.mem_append_left _ digit)
  have number : parseI32 (Decimal.print pid) = some (pid : Int) :=
    parseI32_toString (n := pid) (by omega) (by omega)
  rw [parsePid, if_neg (by simp [last, short]), text, Option.bind_some, String.toList_ofList, trimmed,
    digits, number, Option.filter_some, if_pos (by simpa using positive)]

/-- What is cut off before its newline is no pid. -/
theorem parsePid_front {pid : Nat} {body : Bytes} {n : Int} (front : body <+: pidBody pid)
    (parsed : parsePid body = some n) : body = pidBody pid := by
  have last : body.getLast? = some 0x0a := by
    by_contra other
    rw [parsePid, if_pos (by simp [other])] at parsed
    cases parsed
  rcases List.prefix_concat_iff.1 front with whole | cut
  · exact whole
  · have digit := Decimal.print_digits pid _ (cut.subset (List.mem_of_getLast? last))
    exact absurd digit (by decide)

/-! ## The files -/

abbrev Node := Nat

structure Files where
  /-- What the name is of. -/
  name : Option Node
  body : Node → Bytes
  made : Nat

/-- What a call does beside what the files decide. -/
structure Oracle where
  fault : Option Errno := none
  /-- How much of what there is a read or a write is about. -/
  count : Nat := 2 ^ 20

def splice (old : Bytes) (pos : Nat) (bytes : Bytes) : Bytes :=
  old.take pos ++ bytes ++ old.drop (pos + bytes.length)

structure Writer where
  left : Program WriteReply (Except Left Unit)
  node : Option Node := none
  pos : Nat := 0

structure Reader where
  left : Program Reply (Except Halt (Except ReadError Bytes))
  node : Option Node := none
  pos : Nat := 0
  /-- What was in the file when it was opened. -/
  found : Bytes := []

structure State where
  files : Files
  writers : Nat → Writer
  readers : Nat → Reader

def EBADF : Errno := .other 9

def EEXIST : Errno := .other 17

def Files.removed (files : Files) (o : Oracle) : Files × Except Errno Unit :=
  match o.fault, files.name with
  | some e, _ => (files, .error e)
  | none, none => (files, .error .noent)
  | none, some _ => ({ files with name := none }, .ok ())

def Files.fresh (files : Files) : Files :=
  { name := some files.made, body := Function.update files.body files.made [], made := files.made + 1 }

def Files.written (files : Files) (node : Node) (pos : Nat) (bytes : Bytes) : Files :=
  { files with body := Function.update files.body node (splice (files.body node) pos bytes) }

def Writer.next (w : Writer) (files : Files) (o : Oracle) : Files × Writer :=
  match w.left with
  | .done _ => (files, w)
  | .call .removeFile rest => ((files.removed o).1, { w with left := rest (files.removed o).2 })
  | .call .openExcl rest =>
      match o.fault, files.name with
      | some e, _ => (files, { w with left := rest (.error e) })
      | none, some _ => (files, { w with left := rest (.error EEXIST) })
      | none, none => (files.fresh, ⟨rest (.ok ()), some files.made, 0⟩)
  | .call (.write bytes) rest =>
      match o.fault, w.node with
      | some e, _ => (files, { w with left := rest (.error e) })
      | none, none => (files, { w with left := rest (.error EBADF) })
      | none, some node =>
          let chunk := bytes.take o.count
          (files.written node w.pos chunk,
            ⟨rest (.ok chunk.length), w.node, w.pos + chunk.length⟩)

/-- What a `read` of `len` gets, which is nothing only at the end of the file. -/
def Files.chunk (files : Files) (node : Node) (pos len : Nat) (o : Oracle) : Bytes :=
  ((files.body node).drop pos).take (min len (o.count + 1))

theorem Files.chunk_fits (files : Files) (node : Node) (pos len : Nat) (o : Oracle) :
    (files.chunk node pos len o).length ≤ len :=
  (List.length_take_le ..).trans (Nat.min_le_left ..)

def Reader.next (r : Reader) (files : Files) (o : Oracle) : Reader :=
  match r.left with
  | .call (.openRead _) rest =>
      match o.fault, files.name with
      | some e, _ => { r with left := rest (.error e) }
      | none, none => { r with left := rest (.error .noent) }
      | none, some node => ⟨rest (.ok true), some node, 0, files.body node⟩
  | .call (.read len) rest =>
      match o.fault, r.node with
      | some e, _ => { r with left := rest (.error e) }
      | none, none => { r with left := rest (.error EBADF) }
      | none, some node =>
          let chunk := files.chunk node r.pos len o
          { r with
            left := rest (.ok ⟨chunk, files.chunk_fits node r.pos len o⟩)
            pos := r.pos + chunk.length }
  | _ => r

inductive Move
  | write (i : Nat) (o : Oracle)
  | read (j : Nat) (o : Oracle)
  /-- Somebody clears the name. -/
  | clear

def State.next (s : State) : Move → State
  | .write i o =>
      let (files, w) := (s.writers i).next s.files o
      { s with files, writers := Function.update s.writers i w }
  | .read j o => { s with readers := Function.update s.readers j ((s.readers j).next s.files o) }
  | .clear => { s with files := { s.files with name := none } }

def State.Reaches : State → State → Prop := Relation.ReflTransGen fun s t => ∃ move, s.next move = t

def State.run (s : State) (moves : List Move) : State := moves.foldl State.next s

/-- A pidfile that is there already is file 0. -/
def start (pids : Nat → Nat) (old : Option Bytes) (fuel : Nat) : State where
  files := ⟨old.map fun _ => 0, fun _ => old.getD [], 1⟩
  writers i := { left := (writePid (pids i) fuel).run }
  readers _ := { left := (Control.readPrefix .pidfile fuel).run }

/-! ## What each keeps to -/

structure WriteRole where
  opened : Bool := false
  written : Bytes := []

def WriteRole.after (role : WriteRole) : (c : WriteCall) → WriteReply c → WriteRole
  | .openExcl, .ok _ => { role with opened := true }
  | .write bytes, .ok n => { role with written := role.written ++ bytes.take n }
  | _, _ => role

/-- What is written is what is left of the body. -/
def WriteRole.Allows (body : Bytes) (role : WriteRole) : WriteCall → Prop
  | .removeFile => role.opened = false
  | .openExcl => role.opened = false ∧ role.written = []
  | .write bytes => role.opened = true ∧ role.written ++ bytes = body

def WriteRole.Full (body : Bytes) (role : WriteRole) : Prop :=
  role.opened = true ∧ role.written = body

abbrev Writes (body : Bytes) (program : Writing Unit) (role : WriteRole) : Prop :=
  FollowsOr WriteRole.after (WriteRole.Allows body) (fun _ _ => True) program role fun role _ =>
    role.Full body

theorem writeAll_writes {body : Bytes} (fuel : Nat) {role : WriteRole} {bytes : Bytes}
    (opened : role.opened = true) (rest : role.written ++ bytes = body) :
    Writes body (writeAll fuel bytes) role := by
  induction fuel generalizing role bytes with
  | zero =>
      unfold writeAll
      split
      · next none =>
          subst none
          exact ⟨opened, by rw [← rest, List.append_nil]⟩
      · trivial
  | succ fuel ih =>
      unfold writeAll
      split
      · next none =>
          subst none
          exact ⟨opened, by rw [← rest, List.append_nil]⟩
      · apply followsOr_bind.2
        refine ⟨⟨opened, rest⟩, fun reply => ?_⟩
        rcases reply with (_ | _ | _ | _ | _) | (_ | n)
        case ok.succ =>
          apply @ih { role with written := role.written ++ bytes.take (n + 1) } _ opened
          rw [List.append_assoc, List.take_append_drop, rest]
        case error.intr => exact ih opened rest
        all_goals trivial

theorem writePrivate_writes (body : Bytes) (fuel : Nat) : Writes body (writePrivate body fuel) {} := by
  apply followsOr_bind.2
  refine ⟨rfl, fun reply => ?_⟩
  have same : WriteRole.after {} .removeFile reply = {} := by
    cases reply with
    | error e => rfl
    | ok value => rfl
  rw [same]
  apply followsOr_bind.2
  refine ⟨⟨rfl, rfl⟩, fun reply => ?_⟩
  cases reply with
  | error e => trivial
  | ok value => exact writeAll_writes fuel rfl rfl

structure ReadRole where
  opened : Bool := false
  filled : Bytes := []
  /-- Whether the last `read` gave nothing. -/
  ended : Bool := false

def ReadRole.after (role : ReadRole) : (c : Call) → Reply c → ReadRole
  | .openRead _, .ok _ => { role with opened := true }
  | .read _, .ok chunk => { role with filled := role.filled ++ chunk.1, ended := chunk.1 = [] }
  | _, _ => role

def ReadRole.Allows (role : ReadRole) : Call → Prop
  | .openRead _ => role.opened = false ∧ role.filled = [] ∧ role.ended = false
  | .read len => role.opened = true ∧ role.ended = false ∧ 0 < len ∧
      role.filled.length + len ≤ MAX_PID_LEN
  | _ => False

/-- A read that succeeds has come to the end of the file, or of the buffer. -/
def ReadRole.Read (role : ReadRole) : Except ReadError Bytes → Prop
  | .ok body => role.opened = true ∧ body = role.filled ∧ body.length ≤ MAX_PID_LEN ∧
      (role.ended = true ∨ MAX_PID_LEN ≤ body.length)
  | .error _ => True

abbrev Reads (program : Run (Except ReadError Bytes)) (role : ReadRole) : Prop :=
  FollowsOr ReadRole.after ReadRole.Allows (fun _ _ => True) program role ReadRole.Read

theorem fillFrom_reads (fuel : Nat) {role : ReadRole} (opened : role.opened = true)
    (more : role.ended = false) (within : role.filled.length ≤ MAX_PID_LEN) :
    Reads (fillFrom .pidfile fuel role.filled) role := by
  induction fuel generalizing role with
  | zero => trivial
  | succ fuel ih =>
      unfold fillFrom
      split
      · next room =>
          have left : role.filled.length + (MAX_PID_LEN - role.filled.length) = MAX_PID_LEN :=
            Nat.add_sub_of_le within
          apply followsOr_bind.2
          refine ⟨⟨opened, more, Nat.sub_pos_of_lt room, left.le⟩, fun reply => ?_⟩
          rcases reply with (_ | _ | _ | _ | _) | chunk
          case error.intr => exact ih opened more within
          case ok =>
            by_cases none : chunk.1 = []
            · have ends : role.after (.read _) (.ok chunk) = { role with ended := true } := by
                simp [ReadRole.after, none]
              show Reads (if _ then _ else _) _
              rw [if_pos none, ends]
              exact ⟨opened, rfl, within, .inl rfl⟩
            · have fills : role.after (.read _) (.ok chunk) =
                  { role with filled := role.filled ++ chunk.1, ended := false } := by
                simp [ReadRole.after, none]
              show Reads (if _ then _ else _) _
              rw [if_neg none, fills]
              apply @ih { role with filled := role.filled ++ chunk.1, ended := false } opened rfl
              rw [List.length_append]
              exact (Nat.add_le_add_left chunk.2 _).trans left.le
          all_goals trivial
      · next full => exact ⟨opened, rfl, within, .inr (Nat.le_of_not_lt full)⟩

theorem readPrefix_reads (fuel : Nat) : Reads (Control.readPrefix .pidfile fuel) {} := by
  apply followsOr_bind.2
  refine ⟨⟨rfl, rfl, rfl⟩, fun reply => ?_⟩
  rcases reply with e | _ | _
  · trivial
  · trivial
  · exact @fillFrom_reads fuel { opened := true } rfl rfl (Nat.zero_le _)

/-! ## Every step -/

theorem splice_end (old bytes : Bytes) : splice old old.length bytes = old ++ bytes := by
  rw [splice, List.take_length, List.drop_of_length_le (Nat.le_add_right ..), List.append_nil]

/-- No file loses anything. -/
structure Grows (files files' : Files) : Prop where
  made : files.made ≤ files'.made
  body : ∀ f < files.made, files.body f <+: files'.body f

/-- What a writer has written is what is in its file. -/
def Writer.role (w : Writer) (files : Files) : WriteRole := ⟨w.node.isSome, w.node.elim [] files.body⟩

structure WriterSound (body : Bytes) (files : Files) (w : Writer) : Prop where
  writes : Writes body w.left (w.role files)
  pos : ∀ f, w.node = some f → w.pos = (files.body f).length
  front : ∀ f, w.node = some f → files.body f <+: body

inductive Wrote (files : Files) (w : Writer) : Files → Writer → Prop
  | same {files' : Files} {w' : Writer} (body : files'.body = files.body) (made : files'.made = files.made)
      (name : files'.name = none ∨ files'.name = files.name) (node : w'.node = w.node) :
      Wrote files w files' w'
  | fresh {w' : Writer} (first : w.node = none) (node : w'.node = some files.made) :
      Wrote files w files.fresh w'
  | more {f : Node} {w' : Writer} (chunk : Bytes) (before : w.node = some f) (node : w'.node = some f) :
      Wrote files w { files with body := Function.update files.body f (files.body f ++ chunk) } w'

theorem Writer.next_wrote {body : Bytes} {files : Files} {w : Writer} (h : WriterSound body files w)
    (o : Oracle) : Wrote files w (w.next files o).1 (w.next files o).2 ∧
      WriterSound body (w.next files o).1 (w.next files o).2 := by
  obtain ⟨left, node, pos⟩ := w
  obtain ⟨writes, pos', front⟩ := h
  cases left with
  | done result => exact ⟨.same rfl rfl (.inr rfl) rfl, writes, pos', front⟩
  | call c rest =>
      obtain ⟨allowed, onward⟩ := writes
      cases c with
      | removeFile =>
          obtain ⟨fault, count⟩ := o
          obtain ⟨name, bodies, made⟩ := files
          rcases fault with _ | e
          · rcases name with _ | f
            · exact ⟨.same rfl rfl (.inr rfl) rfl, onward (.error .noent), pos', front⟩
            · exact ⟨.same rfl rfl (.inl rfl) rfl, onward (.ok ()), pos', front⟩
          · exact ⟨.same rfl rfl (.inr rfl) rfl, onward (.error e), pos', front⟩
      | openExcl =>
          obtain ⟨fault, count⟩ := o
          obtain ⟨name, bodies, made⟩ := files
          rcases fault with _ | e
          · rcases name with _ | f
            · obtain rfl : node = none := by
                cases node with
                | none => rfl
                | some f => cases allowed.1
              have empty : Function.update bodies made [] made = [] := Function.update_self ..
              refine ⟨.fresh rfl rfl, ?_, ?_, ?_⟩
              · have opened := onward (.ok ())
                show Writes body _ ⟨true, Function.update bodies made [] made⟩
                rw [empty]
                exact opened
              · rintro f same
                cases same
                exact (congrArg List.length empty).symm
              · rintro f same
                cases same
                show Function.update bodies made [] made <+: body
                rw [empty]
                exact List.nil_prefix
            · exact ⟨.same rfl rfl (.inr rfl) rfl, onward (.error EEXIST), pos', front⟩
          · exact ⟨.same rfl rfl (.inr rfl) rfl, onward (.error e), pos', front⟩
      | write bytes =>
          obtain ⟨fault, count⟩ := o
          rcases fault with _ | e
          · rcases node with _ | f
            · cases allowed.1
            · obtain rfl : pos = (files.body f).length := pos' f rfl
              have next : files.written f (files.body f).length (bytes.take count) = { files with
                  body := Function.update files.body f (files.body f ++ bytes.take count) } := by
                rw [Files.written, splice_end]
              refine ⟨?_, ?_, ?_, ?_⟩
              · show Wrote files _ (files.written f _ _) _
                rw [next]
                exact .more _ rfl rfl
              · show Writes body _ ⟨true, (files.written f _ _).body f⟩
                rw [next]
                have written := onward (.ok (bytes.take count).length)
                have same : bytes.take (bytes.take count).length = bytes.take count := by
                  rw [List.length_take, List.take_eq_take_iff, Nat.min_assoc, Nat.min_self]
                show Writes body _ ⟨true, Function.update files.body f _ f⟩
                rw [Function.update_self]
                have kept : Writes body (rest (.ok (bytes.take count).length))
                    ⟨true, files.body f ++ bytes.take (bytes.take count).length⟩ := written
                rw [same] at kept
                exact kept
              · rintro f' inside
                cases inside
                show _ = ((files.written f _ _).body f).length
                rw [next]
                show _ = (Function.update files.body f _ f).length
                rw [Function.update_self, List.length_append]
                rfl
              · rintro f' inside
                cases inside
                show (files.written f _ _).body f <+: body
                rw [next]
                show Function.update files.body f _ f <+: body
                have rest' : files.body f ++ bytes = body := allowed.2
                rw [Function.update_self, ← rest']
                exact (List.prefix_append_right_inj _).2 (List.take_prefix ..)
          · exact ⟨.same rfl rfl (.inr rfl) rfl, onward (.error e), pos', front⟩

/-- What a reader has read is the front of its file, and once it has come to the end, all of what it
found there at first. -/
structure ReaderSound (old : Bytes) (files : Files) (r : Reader) (role : ReadRole) : Prop where
  reads : Reads r.left role
  opened : r.node.isSome = role.opened
  pos : r.pos = role.filled.length
  file : ∀ f, r.node = some f → f < files.made ∧ role.filled <+: files.body f ∧ r.found <+: files.body f
  ended : role.ended = true → r.found <+: role.filled
  old : r.node = some 0 → r.found = old

theorem ReaderSound.grows {old : Bytes} {files files' : Files} {r : Reader} {role : ReadRole}
    (h : ReaderSound old files r role) (grows : Grows files files') : ReaderSound old files' r role := by
  refine { h with file := fun f inside => ?_ }
  obtain ⟨made, filled, found⟩ := h.file f inside
  have front := grows.body f made
  exact ⟨made.trans_le grows.made, filled.trans front, found.trans front⟩

theorem ReaderSound.fault {old : Bytes} {files : Files} {r : Reader} {role : ReadRole}
    (h : ReaderSound old files r role) {left : Run (Except ReadError Bytes)} (reads : Reads left role) :
    ReaderSound old files { r with left := left } role := { h with reads }

theorem Reader.next_sound {old : Bytes} {files : Files} {r : Reader} {role : ReadRole}
    (h : ReaderSound old files r role) (named : ∀ f, files.name = some f → f < files.made)
    (first : files.body 0 = old) (o : Oracle) :
    ∃ role', ReaderSound old files (r.next files o) role' := by
  obtain ⟨left, node, pos, found⟩ := r
  cases left with
  | done result => exact ⟨role, h⟩
  | call c rest =>
      obtain ⟨allowed, onward⟩ := h.reads
      cases c with
      | openRead file =>
          obtain ⟨fault, count⟩ := o
          obtain ⟨name, bodies, made⟩ := files
          rcases fault with _ | e
          · rcases name with _ | f
            · exact ⟨role, h.fault (onward (.error .noent))⟩
            · obtain ⟨-, nothing, more⟩ := allowed
              refine ⟨{ role with opened := true }, onward (.ok true), rfl, ?_, ?_, ?_, ?_⟩
              · rw [nothing]
                rfl
              · rintro f' same
                cases same
                refine ⟨named f rfl, ?_, List.prefix_refl _⟩
                show role.filled <+: _
                rw [nothing]
                exact List.nil_prefix
              · intro ended
                exact absurd (ended.symm.trans more) (by decide)
              · rintro same
                cases same
                exact first
          · exact ⟨role, h.fault (onward (.error e))⟩
      | read len =>
          obtain ⟨fault, count⟩ := o
          rcases fault with _ | e
          · rcases node with _ | f
            · exact ⟨role, h.fault (onward (.error EBADF))⟩
            · obtain ⟨-, -, room, -⟩ := allowed
              obtain rfl : pos = role.filled.length := h.pos
              obtain ⟨made, ⟨rest', split⟩, front⟩ := h.file f rfl
              have chunk : files.chunk f role.filled.length len ⟨none, count⟩ =
                  rest'.take (min len (count + 1)) := by
                rw [Files.chunk, ← split, List.drop_left]
              refine ⟨role.after (.read len) (.ok ⟨_, files.chunk_fits f _ len ⟨none, count⟩⟩),
                onward _, h.opened, ?_, ?_, fun ended => ?_, h.old⟩
              · exact (List.length_append ..).symm
              · rintro f' same
                cases same
                refine ⟨made, ?_, front⟩
                show role.filled ++ files.chunk f _ len ⟨none, count⟩ <+: _
                rw [chunk, ← split]
                exact (List.prefix_append_right_inj _).2 (List.take_prefix ..)
              · have nothing : files.chunk f role.filled.length len ⟨none, count⟩ = [] := by
                  simpa [ReadRole.after] using ended
                show found <+: role.filled ++ files.chunk f _ len ⟨none, count⟩
                rw [nothing, List.append_nil]
                rw [chunk] at nothing
                have empty : rest' = [] := by
                  rcases List.take_eq_nil_iff.1 nothing with zero | empty
                  · omega
                  · exact empty
                rw [← split, empty, List.append_nil] at front
                exact front
          · exact ⟨role, h.fault (onward (.error e))⟩
      | _ => exact allowed.elim

/-! ## Runs -/

structure Sound (pids : Nat → Nat) (old : Option Bytes) (s : State) (reading : Nat → ReadRole) : Prop where
  writer : ∀ i, WriterSound (pidBody (pids i)) s.files (s.writers i)
  owned : ∀ i f, (s.writers i).node = some f → 0 < f ∧ f < s.files.made
  apart : ∀ i j f, (s.writers i).node = some f → (s.writers j).node = some f → i = j
  maker : ∀ f, 0 < f → f < s.files.made → ∃ i, (s.writers i).node = some f
  first : 0 < s.files.made
  named : ∀ f, s.files.name = some f → f < s.files.made
  kept : s.files.body 0 = old.getD []
  reader : ∀ j, ReaderSound (old.getD []) s.files (s.readers j) (reading j)

variable {pids : Nat → Nat} {old : Option Bytes} {s : State} {reading : Nat → ReadRole}

theorem WriterSound.frame {body : Bytes} {files files' : Files} {w : Writer}
    (h : WriterSound body files w) (same : ∀ f, w.node = some f → files'.body f = files.body f) :
    WriterSound body files' w := by
  obtain ⟨left, node, pos⟩ := w
  cases node with
  | none => exact ⟨h.writes, fun f inside => (by cases inside), fun f inside => (by cases inside)⟩
  | some f =>
      have kept := same f rfl
      refine ⟨?_, ?_, ?_⟩
      · show Writes body left ⟨true, files'.body f⟩
        rw [kept]
        exact h.writes
      · rintro f' inside
        cases inside
        rw [kept]
        exact h.pos f rfl
      · rintro f' inside
        cases inside
        rw [kept]
        exact h.front f rfl

theorem Wrote.grows {files files' : Files} {w w' : Writer} (h : Wrote files w files' w') :
    Grows files files' := by
  cases h with
  | same body made name node => exact ⟨made.ge, fun f _ => body ▸ List.prefix_refl _⟩
  | fresh first node =>
      refine ⟨Nat.le_succ _, fun f inside => ?_⟩
      show _ <+: Function.update files.body files.made [] f
      rw [Function.update_of_ne inside.ne]
  | @more f w' chunk before node =>
      refine ⟨le_rfl, fun f' _ => ?_⟩
      show _ <+: Function.update files.body f _ f'
      rcases eq_or_ne f' f with rfl | other
      · rw [Function.update_self]
        exact List.prefix_append ..
      · rw [Function.update_of_ne other]

theorem Wrote.other {files files' : Files} {w w' : Writer} (h : Wrote files w files' w') {f : Node}
    (made : f < files.made) (apart : w.node ≠ some f) : files'.body f = files.body f := by
  cases h with
  | same body made name node => rw [body]
  | fresh first node => exact Function.update_of_ne made.ne ..
  | more chunk before node =>
      apply Function.update_of_ne
      rintro rfl
      exact apart before

theorem Wrote.node {files files' : Files} {w w' : Writer} (h : Wrote files w files' w') {f : Node}
    (has : w'.node = some f) : w.node = some f ∨ f = files.made ∧ files'.made = files.made + 1 := by
  cases h with
  | same body made name node => exact .inl (node ▸ has)
  | fresh first node =>
      rw [node] at has
      cases has
      exact .inr ⟨rfl, rfl⟩
  | more chunk before node => exact .inl (before.trans (node.symm.trans has))

theorem Wrote.keeps {files files' : Files} {w w' : Writer} (h : Wrote files w files' w') {f : Node}
    (had : w.node = some f) : w'.node = some f := by
  cases h with
  | same body made name node => exact node.trans had
  | fresh first node =>
      rw [first] at had
      cases had
  | more chunk before node => exact node.trans (before.symm.trans had)

theorem Wrote.made {files files' : Files} {w w' : Writer} (h : Wrote files w files' w') {f : Node}
    (inside : f < files'.made) : f < files.made ∨ w'.node = some f := by
  cases h with
  | same body made name node => exact .inl (made ▸ inside)
  | fresh first node =>
      rcases Nat.lt_succ_iff_lt_or_eq.1 inside with before | rfl
      · exact .inl before
      · exact .inr node
  | more chunk before node => exact .inl inside

theorem Wrote.name {files files' : Files} {w w' : Writer} (h : Wrote files w files' w') {f : Node}
    (named : files'.name = some f) : files.name = some f ∨ w'.node = some f := by
  cases h with
  | same body made name node =>
      rcases name with gone | kept
      · rw [gone] at named
        cases named
      · exact .inl (kept ▸ named)
  | fresh first node => exact .inr (node.trans named)
  | more chunk before node => exact .inl named

theorem Sound.write (h : Sound pids old s reading) (i : Nat) (o : Oracle) :
    Sound pids old (s.next (.write i o)) reading := by
  obtain ⟨wrote, sound⟩ := Writer.next_wrote (h.writer i) o
  have grows := wrote.grows
  have node : ∀ j f, (Function.update s.writers i ((s.writers i).next s.files o).2 j).node = some f →
      (s.writers j).node = some f ∨ j = i ∧ f = s.files.made ∧
        ((s.writers i).next s.files o).1.made = s.files.made + 1 := by
    intro j f has
    rcases eq_or_ne j i with rfl | other
    · rw [Function.update_self] at has
      exact (wrote.node has).imp_right fun new => ⟨rfl, new⟩
    · rw [Function.update_of_ne other] at has
      exact .inl has
  have keeps : ∀ j f, (s.writers j).node = some f →
      (Function.update s.writers i ((s.writers i).next s.files o).2 j).node = some f := by
    intro j f had
    rcases eq_or_ne j i with rfl | other
    · rw [Function.update_self]
      exact wrote.keeps had
    · rw [Function.update_of_ne other]
      exact had
  have mine : (Function.update s.writers i ((s.writers i).next s.files o).2 i).node =
      ((s.writers i).next s.files o).2.node := by
    rw [Function.update_self]
  have made : ∀ j f, (Function.update s.writers i ((s.writers i).next s.files o).2 j).node = some f →
      0 < f ∧ f < ((s.writers i).next s.files o).1.made := by
    intro j f has
    rcases node j f has with before | ⟨rfl, rfl, more⟩
    · obtain ⟨positive, inside⟩ := h.owned j f before
      exact ⟨positive, inside.trans_le grows.made⟩
    · rw [more]
      exact ⟨h.first, Nat.lt_succ_self _⟩
  refine ⟨fun j => ?_, made, ?_, ?_, ?_, ?_, ?_, fun j => (h.reader j).grows grows⟩
  · show WriterSound _ ((s.writers i).next s.files o).1 (Function.update s.writers i _ j)
    rcases eq_or_ne j i with rfl | other
    · rw [Function.update_self]
      exact sound
    · rw [Function.update_of_ne other]
      exact (h.writer j).frame fun f has =>
        wrote.other (h.owned j f has).2 fun same => other (h.apart j i f has same)
  · intro j k f first second
    rcases node j f first with before | ⟨rfl, new, -⟩ <;>
      rcases node k f second with before' | ⟨rfl, new', -⟩
    · exact h.apart j k f before before'
    · exact absurd (new' ▸ (h.owned j f before).2) (lt_irrefl _)
    · exact absurd (new ▸ (h.owned k f before').2) (lt_irrefl _)
    · rfl
  · intro f positive inside
    rcases wrote.made inside with before | has
    · obtain ⟨j, has⟩ := h.maker f positive before
      exact ⟨j, keeps j f has⟩
    · exact ⟨i, mine.trans has⟩
  · exact h.first.trans_le grows.made
  · intro f named
    rcases wrote.name named with before | has
    · exact (h.named f before).trans_le grows.made
    · exact (made i f (mine.trans has)).2
  · exact (wrote.other h.first fun has => lt_irrefl 0 (h.owned i 0 has).1).trans h.kept

theorem State.Reaches.sound {fuel : Nat} (run : (start pids old fuel).Reaches s) :
    ∃ reading, Sound pids old s reading := by
  induction run with
  | refl =>
      refine ⟨fun _ => {}, ?_, ?_, ?_, ?_, Nat.one_pos, ?_, rfl, ?_⟩
      · exact fun i => ⟨writePrivate_writes _ fuel, fun f has => (by cases has),
          fun f has => (by cases has)⟩
      · exact fun i f has => by cases has
      · exact fun i j f has => by cases has
      · intro f positive inside
        have one : f < 1 := inside
        omega
      · intro f named
        obtain ⟨body, -, rfl⟩ := Option.map_eq_some_iff.1 named
        exact Nat.one_pos
      · refine fun j => ⟨readPrefix_reads fuel, rfl, rfl, fun f has => ?_, fun ended => ?_, fun has => ?_⟩
        · cases has
        · cases ended
        · cases has
  | @tail t u run step ih =>
      obtain ⟨reading, h⟩ := ih
      obtain ⟨move, rfl⟩ := step
      cases move with
      | write i o => exact ⟨reading, h.write i o⟩
      | clear =>
          exact ⟨reading, { h with
            writer := fun i => (h.writer i).frame fun f has => rfl
            named := fun f gone => by cases gone
            reader := fun j => (h.reader j).grows ⟨le_rfl, fun f _ => List.prefix_refl _⟩ }⟩
      | read j o =>
          obtain ⟨role, next⟩ := Reader.next_sound (h.reader j) h.named h.kept o
          refine ⟨Function.update reading j role, { h with reader := fun k => ?_ }⟩
          show ReaderSound _ t.files (Function.update t.readers j _ k) (Function.update reading j role k)
          rcases eq_or_ne k j with rfl | other
          · rw [Function.update_self, Function.update_self]
            exact next
          · rw [Function.update_of_ne other, Function.update_of_ne other]
            exact h.reader k

theorem Sound.finished (h : Sound pids old s reading) {i : Nat} (done : (s.writers i).left = .done (.ok ())) :
    ∃ f, (s.writers i).node = some f ∧ s.files.body f = pidBody (pids i) := by
  have full : WriteRole.Full (pidBody (pids i)) ((s.writers i).role s.files) := by
    have writes := (h.writer i).writes
    rw [done] at writes
    exact writes
  obtain ⟨opened, written⟩ := full
  obtain ⟨f, has⟩ := Option.isSome_iff_exists.1 opened
  refine ⟨f, has, ?_⟩
  rw [← written, Writer.role, has]
  rfl

/-- However a reader and the writers run into each other, a pid that is read is a whole one: that of the
process whose file was opened, which has written all of it. A file that was whole when it was opened is
read as such. -/
theorem State.Reaches.pid_whole {fuel : Nat} (fits : ∀ i, 0 < pids i ∧ pids i < 2 ^ 31)
    (run : (start pids old fuel).Reaches s) :
    (∀ i, (s.writers i).left = .done (.ok ()) →
      ∃ f, (s.writers i).node = some f ∧ s.files.body f = pidBody (pids i)) ∧
    ∀ j body, (s.readers j).left = .done (.ok (.ok body)) → ∃ f, (s.readers j).node = some f ∧
      (f = 0 ∧ body = (old.getD []).take MAX_PID_LEN ∨ ∃ i, (s.writers i).node = some f ∧
        (parsePid body = some (pids i : Int) ∧ s.files.body f = pidBody (pids i) ∨
          parsePid body = none ∧ (s.readers j).found ≠ pidBody (pids i))) := by
  obtain ⟨reading, h⟩ := run.sound
  refine ⟨fun i => h.finished, fun j body done => ?_⟩
  have sound := h.reader j
  have read : (reading j).Read (.ok body) := by
    have reads := sound.reads
    rw [done] at reads
    exact reads
  obtain ⟨opened, rfl, within, stopped⟩ := read
  obtain ⟨f, has⟩ := Option.isSome_iff_exists.1 (sound.opened.trans opened)
  obtain ⟨made, front, found⟩ := sound.file f has
  refine ⟨f, has, ?_⟩
  rcases Nat.eq_zero_or_pos f with rfl | positive
  · left
    refine ⟨rfl, ?_⟩
    rw [h.kept] at front
    rcases stopped with ended | full
    · have whole := sound.old has ▸ sound.ended ended
      have same := front.eq_of_length (le_antisymm front.length_le whole.length_le)
      rw [← same, List.take_of_length_le within]
    · obtain ⟨rest, split⟩ := front
      rw [← split, ← le_antisymm within full, List.take_left]
  · right
    obtain ⟨i, owner⟩ := h.maker f positive made
    obtain ⟨low, high⟩ := fits i
    have written := (h.writer i).front f owner
    have whole := parsePid_pidBody low high
    refine ⟨i, owner, ?_⟩
    cases parsed : parsePid (reading j).filled with
    | some n =>
        left
        have same := parsePid_front (front.trans written) parsed
        rw [same] at front parsed
        rw [whole] at parsed
        exact ⟨parsed.symm, written.eq_of_length (le_antisymm written.length_le front.length_le)⟩
    | none =>
        refine .inr ⟨rfl, fun all => ?_⟩
        have within := (front.trans written).length_le
        rcases stopped with ended | full
        · have again := sound.ended ended
          rw [all] at again
          have same := again.eq_of_length (le_antisymm again.length_le within)
          rw [← same, whole] at parsed
          cases parsed
        · exact absurd (within.trans_lt (length_pidBody high)) (not_lt.2 full)

theorem State.reaches_run (s : State) (moves : List Move) : s.Reaches (s.run moves) := by
  induction moves generalizing s with
  | nil => exact .refl
  | cons move moves ih => exact .head ⟨move, rfl⟩ (ih _)

/-- What is left by an earlier daemon is read as it is, what is being written is no pid yet, and a reader
that comes in the middle of it and stays reads the whole of it. -/
theorem State.Reaches.pid_whole_slow :
    let s := (start (fun _ => 417) (some [0x39, 0x0a]) 6).run
      [.read 0 {}, .write 0 {}, .write 0 {}, .write 0 { count := 2 }, .read 1 {}, .read 2 {}, .read 1 {},
        .read 2 {}, .read 1 {}, .read 0 {}, .read 0 {}, .write 0 {}, .read 2 {}, .read 2 {}]
    (s.writers 0).left = .done (.ok ()) ∧ (∃ f, (s.writers 0).node = some f ∧ s.files.body f = pidBody 417) ∧
    (s.readers 0).left = .done (.ok (.ok [0x39, 0x0a])) ∧ (s.readers 1).left = .done (.ok (.ok [0x34, 0x31])) ∧
    (s.readers 2).left = .done (.ok (.ok (pidBody 417))) := by
  intro s
  have done : (s.writers 0).left = .done (.ok ()) := by rfl
  have run : (start (fun _ => 417) (some [0x39, 0x0a]) 6).Reaches s := State.reaches_run _ _
  obtain ⟨finished, -⟩ := State.Reaches.pid_whole (fun _ => by decide) run
  exact ⟨done, finished 0 done, by rfl, by rfl, by rfl⟩

end Nomux.Pidfile
