import Nomux.Cli.Sanitize
import Nomux.Lib.Decimal

/-!
# The command line of a daemon

Who writes it and who reads it: `daemon_program` in `attach.rs`, `parse_session_args` in `main.rs`, and
`session_named` and `daemon_verdict` in `control.rs`. Arguments are bytes, and so is a `str`, which is
bytes that are UTF-8.
-/

namespace Nomux
open Wire

def maxSessionIdLen : Nat := 64

def pathMax : Nat := 4096

def daemonMode : Bytes := utf8 "daemon"

def labelOption : Bytes := utf8 "--label"

def lockFdOption : Bytes := utf8 "--lock-fd"

def startsWithDash (text : Bytes) : Bool := text.head? = some 0x2d

def isValidSessionId (id : Bytes) : Bool :=
  !id.isEmpty && id.length ≤ maxSessionIdLen && !startsWithDash id &&
    id.all fun byte =>
      (0x30 ≤ byte && byte ≤ 0x39) || (0x41 ≤ byte && byte ≤ 0x5a) ||
        (0x61 ≤ byte && byte ≤ 0x7a) || byte = 0x2d || byte = 0x5f

def toStr (arg : Bytes) : Option Bytes := if (fromUtf8 arg).isSome then some arg else none

def splitOnce : Bytes → Option (Bytes × Bytes)
  | [] => none
  | byte :: rest =>
      if byte = 0x3d then some ([], rest)
      else (splitOnce rest).map fun (key, value) => (byte :: key, value)

def i32ToString : Int → Bytes
  | .ofNat n => Decimal.print n
  | .negSucc n => 0x2d :: Decimal.print (n + 1)

def parseI32 (text : Bytes) : Option Int :=
  let value : Option Int :=
    match text with
    | 0x2b :: digits => (Decimal.read digits).map Int.ofNat
    | 0x2d :: digits => (Decimal.read digits).map fun n => -Int.ofNat n
    | digits => (Decimal.read digits).map Int.ofNat
  value.filter fun n => -2 ^ 31 ≤ n ∧ n < 2 ^ 31

structure SessionArgs where
  session : Option Bytes := none
  label : Option Bytes := none
  lockFd : Option Int := none
  deriving DecidableEq

inductive ArgsError where
  | notUtf8 (arg : Bytes)
  | missingLockFd
  | lockFdNotUtf8
  | invalidLockFd
  | secondLockFd
  | missingLabel
  | labelNotUtf8
  | secondLabel
  | unknownOption (text : Bytes)
  | unexpectedArgument (text : Bytes)
  deriving DecidableEq

def parseLockFd (value : Bytes) (parsed : SessionArgs) : Except ArgsError SessionArgs :=
  match (parseI32 value).filter (2 < ·) with
  | none => .error .invalidLockFd
  | some fd =>
      if parsed.lockFd.isSome then .error .secondLockFd else .ok { parsed with lockFd := some fd }

def parseLabel (value : Bytes) (parsed : SessionArgs) : Except ArgsError SessionArgs :=
  if parsed.label.isSome then .error .secondLabel else .ok { parsed with label := some value }

/-- The value of an option spelled `--option=value`. -/
def joined (option text : Bytes) : Option Bytes :=
  match splitOnce text with
  | some (key, value) => if key = option then some value else none
  | none => none

/-- The loop of `parse_session_args`, with what it has parsed so far. -/
def parseFrom (privateOptionsOk : Bool) :
    List Bytes → SessionArgs → Except ArgsError SessionArgs
  | [], parsed => .ok parsed
  | arg :: rest, parsed =>
      match toStr arg with
      | none => .error (.notUtf8 arg)
      | some text =>
          match if privateOptionsOk then joined lockFdOption text else none with
          | some value => (parseLockFd value parsed).bind (parseFrom privateOptionsOk rest)
          | none =>
          match joined labelOption text with
          | some value => (parseLabel value parsed).bind (parseFrom privateOptionsOk rest)
          | none =>
          if privateOptionsOk && text = lockFdOption then
            match rest with
            | [] => .error .missingLockFd
            | value :: rest =>
                match toStr value with
                | none => .error .lockFdNotUtf8
                | some value => (parseLockFd value parsed).bind (parseFrom privateOptionsOk rest)
          else if text = labelOption then
            match rest with
            | [] => .error .missingLabel
            | value :: rest =>
                match toStr value with
                | none => .error .labelNotUtf8
                | some value => (parseLabel value parsed).bind (parseFrom privateOptionsOk rest)
          else if startsWithDash text then .error (.unknownOption text)
          else if parsed.session.isNone then
            parseFrom privateOptionsOk rest { parsed with session := some text }
          else .error (.unexpectedArgument text)

def parseSessionArgs (privateOptionsOk : Bool) (args : List Bytes) : Except ArgsError SessionArgs :=
  parseFrom privateOptionsOk args {}

def maxCmdlineLen : Nat := pathMax + 1 + daemonMode.length + 1 + maxSessionIdLen + 1

/-- The loop of `session_named`, with the first bare word so far. -/
def firstWord : List Bytes → Option Bytes → Option Bytes
  | [], session => session
  | arg :: rest, session =>
      if arg = labelOption || arg = lockFdOption then
        match rest with
        | [] => session
        | _ :: rest => firstWord rest session
      else if !startsWithDash arg then firstWord rest (session.or (some arg))
      else firstWord rest session

def sessionNamed (whole : Bytes) : Option Bytes :=
  match (whole.splitOn 0).drop 1 with
  | mode :: args => if mode = daemonMode then firstWord args none else none
  | [] => none

/-- What is ahead of the last NUL, or nothing. -/
def wholeArgs (body : Bytes) : Bytes := ((body.reverse.dropWhile (· ≠ 0)).drop 1).reverse

def daemonVerdict (body : Bytes) (id : Bytes) : Option Bool :=
  let whole := wholeArgs body
  let named := sessionNamed whole
  if named = some id then some true
  else if body.length < maxCmdlineLen then some false
  else
    let cutBeforeTheId := named.isNone && (whole.splitOn 0)[1]? = some daemonMode
    if whole.contains 0 && !cutBeforeTheId then some false else none

/-- `Program::arg`, refused where the argument holds a NUL. -/
def programArg (program : List Bytes) (text : Bytes) : Option (List Bytes) :=
  if text.contains 0 then none else some (program ++ [text])

/-- The arguments of `daemon_program`, its own path being `argv0`. -/
def daemonProgram (argv0 sessionId : Bytes) (label : Option String) (lockFd : Int) :
    Option (List Bytes) := do
  let program ← programArg [] argv0
  let program ← programArg program daemonMode
  let program ← programArg program sessionId
  let program ← programArg program lockFdOption
  let program ← programArg program (i32ToString lockFd)
  let label := (label.map sanitizeLabel).filter (!·.isEmpty)
  match label with
  | none => pure program
  | some label =>
      let program ← programArg program labelOption
      programArg program (utf8 label)

end Nomux
