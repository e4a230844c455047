import Nomux.Cli.CommandLine
import Nomux.Lib.Search

/-!
# `/proc/<pid>/stat`

The line is read from behind the last closing parenthesis: the name of the executable stands before
it and can hold anything.
-/

namespace Nomux.Teardown
open Wire

def closeParen : UInt8 := 0x29

def rposition (mark : UInt8) (bytes : Bytes) : Option Nat :=
  (bytes.reverse.findIdx? (· == mark)).map fun i => bytes.length - 1 - i

def splitWhitespace (text : List Char) : List (List Char) :=
  (text.splitOnP isWhitespace).filter (· ≠ [])

def statTail (stat : Bytes) : Option (List (List Char)) := do
  let close ← rposition closeParen stat
  let rest ← fromUtf8 (stat.drop (close + 1))
  return splitWhitespace rest.toList

/-- The session, and whether the process is a zombie. -/
def statSession (stat : Bytes) : Option (Int × Bool) := do
  let fields ← statTail stat
  let state ← fields[0]?
  let session ← fields[3]?
  let session ← parseI32 (utf8 (String.ofList session))
  return (session, state = ['Z'])

structure Token (text : List Char) : Prop where
  nonempty : text ≠ []
  plain : ∀ ch ∈ text, isWhitespace ch = false

/-- `pid (comm) state ppid pgrp session` and what follows. -/
structure StatLine where
  pid : Bytes
  comm : Bytes
  state : List Char
  ppid : List Char
  pgrp : List Char
  session : Int
  more : List Char
  state_token : Token state
  ppid_token : Token ppid
  pgrp_token : Token pgrp
  fits : -2 ^ 31 ≤ session ∧ session < 2 ^ 31
  apart : ∀ ch, more.head? = some ch → isWhitespace ch = true

namespace StatLine

def digits (line : StatLine) : List Char := ofAscii (i32ToString line.session)

def tail (line : StatLine) : List Char :=
  ' ' :: (line.state ++ ' ' :: (line.ppid ++ ' ' :: (line.pgrp ++ ' ' :: (line.digits ++ line.more))))

def bytes (line : StatLine) : Bytes :=
  line.pid ++ [0x20, 0x28] ++ line.comm ++ closeParen :: utf8 (String.ofList line.tail)

end StatLine

theorem rposition_append {mark : UInt8} {front tail : Bytes} (last : mark ∉ tail) :
    rposition mark (front ++ mark :: tail) = some front.length := by
  have reversed : (front ++ mark :: tail).reverse = tail.reverse ++ mark :: front.reverse := by
    simp
  unfold rposition
  rw [reversed, Search.findIdx?_append (by simpa using last)]
  simp

theorem splitWhitespace_blank {ch : Char} (blank : isWhitespace ch = true) (rest : List Char) :
    splitWhitespace (ch :: rest) = splitWhitespace rest := by
  unfold splitWhitespace
  have split := List.splitOnP_append_cons (p := isWhitespace) [] rest blank
  rw [List.nil_append] at split
  rw [split]
  simp

theorem Token.splitOnP {token : List Char} (h : Token token) :
    token.splitOnP isWhitespace = [token] :=
  List.splitOnP_eq_singleton h.plain

theorem Token.splitWhitespace {token : List Char} (h : Token token) {rest : List Char}
    (apart : ∀ ch, rest.head? = some ch → isWhitespace ch = true) :
    splitWhitespace (token ++ rest) = token :: splitWhitespace rest := by
  unfold Teardown.splitWhitespace
  cases rest with
  | nil => simp [h.splitOnP, h.nonempty]
  | cons ch rest =>
      have blank := apart ch rfl
      have first := List.splitOnP_append_cons (p := isWhitespace) token rest blank
      have second := List.splitOnP_append_cons (p := isWhitespace) [] rest blank
      rw [List.nil_append] at second
      rw [first, second, h.splitOnP]
      simp [h.nonempty]

theorem toNat_ofNat_byte (byte : UInt8) : (Char.ofNat byte.toNat).toNat = byte.toNat := by
  have valid : byte.toNat.isValidChar := Or.inl (by have := byte.toNat_lt; omega)
  rw [Char.ofNat, dif_pos valid]
  rfl

theorem digits_token (line : StatLine) : Token line.digits where
  nonempty := by
    unfold StatLine.digits ofAscii i32ToString
    cases line.session with
    | ofNat n => simpa using Decimal.print_ne_nil n
    | negSucc n => simp
  plain := by
    intro ch member
    obtain ⟨byte, inside, rfl⟩ := List.mem_map.1 member
    have range : 0x2d ≤ byte.toNat ∧ byte.toNat ≤ 0x39 := by
      rcases i32ToString_bytes line.session byte inside with rfl | ⟨low, high⟩
      · decide
      · omega
    unfold isWhitespace
    rw [toNat_ofNat_byte]
    simp
    omega

theorem splitWhitespace_tail (line : StatLine) :
    splitWhitespace line.tail =
      line.state :: line.ppid :: line.pgrp :: line.digits :: splitWhitespace line.more := by
  have next (rest : List Char) : ∀ ch, (' ' :: rest).head? = some ch → isWhitespace ch = true := by
    intro ch first
    cases first
    rfl
  unfold StatLine.tail
  rw [splitWhitespace_blank rfl, line.state_token.splitWhitespace (next _), splitWhitespace_blank rfl,
    line.ppid_token.splitWhitespace (next _), splitWhitespace_blank rfl,
    line.pgrp_token.splitWhitespace (next _), splitWhitespace_blank rfl,
    (digits_token line).splitWhitespace line.apart]

theorem statSession_line (line : StatLine) (last : closeParen ∉ utf8 (String.ofList line.tail)) :
    statSession line.bytes = some (line.session, decide (line.state = ['Z'])) := by
  have close : rposition closeParen line.bytes = some (line.pid ++ [0x20, 0x28] ++ line.comm).length :=
    rposition_append last
  have after : line.bytes.drop ((line.pid ++ [0x20, 0x28] ++ line.comm).length + 1) =
      utf8 (String.ofList line.tail) := by
    unfold StatLine.bytes
    rw [List.drop_append]
    simp
  have text : fromUtf8 (utf8 (String.ofList line.tail)) = some (String.ofList line.tail) :=
    (fromUtf8_eq_some ..).2 rfl
  have session : parseI32 (utf8 (String.ofList line.digits)) = some line.session := by
    unfold StatLine.digits
    rw [utf8_ofAscii (i32ToString_ascii line.session).1, parseI32_toString line.fits.1 line.fits.2]
  unfold statSession statTail
  simp only [Option.bind_eq_bind, close, Option.bind_some, after, text, Option.pure_def,
    String.toList_ofList, splitWhitespace_tail, List.getElem?_cons_zero, List.getElem?_cons_succ, session]

example : statSession (utf8 "42 (evil) 1 2 3) S 1 42 7 34816 99") = some (7, false) := by decide +kernel

end Nomux.Teardown
