import Lox.Grammar.Error
import Lox.Scope.Resolution
import Lox.Token.Scan
import Lox.Value

/-!
# Failures

How a run can fail, what is reported about it and with which status a script then ends.

* `Failure` — the kinds of failures, with all their errors.
* `Failure.message` — the report: a line for each error, none behind the last.
* `Failure.exitStatus` — the status of a script that failed.
-/

namespace Lox

/-- Why a file that exists gives no program text. -/
inductive Unreadable where
  | notText
  | directory
  deriving DecidableEq

/-- How a run can fail. -/
inductive Failure where
  | scan (errors : List ScanError)
  | parse (errors : List ParseError)
  | resolve (errors : List ResolveError)
  | runtime (e : RuntimeError)
  /-- The fuel given to the run did not suffice. -/
  | outOfFuel
  | missingFile (path : String)
  | unreadableFile (path : String) (reason : Unreadable)

/-- A text in single quotes. -/
def quoteText (text : String) : String := "'" ++ text ++ "'"

/-- The mark of a line in front of a report. -/
def lineText (line : Nat) : String := "[line " ++ toString line ++ "] "

/-- The report of a scan error. -/
def ScanError.text (e : ScanError) : String :=
  "[line " ++ toString e.line ++ ", offset " ++ toString e.offset ++ "] " ++
    match e.cause with
    | .unexpectedCharacter c => "Unexpected character " ++ quoteText (String.singleton c)
    | .unterminatedString => "Unterminated string"

/-- The report of an error at a token. -/
def errorText (token : Token) (message : String) : String :=
  lineText token.line ++ "Error at " ++
    (if token.kind == .endOfInput then "end" else quoteText token.lexeme) ++ ": " ++ message

/-- The report of a syntax error. -/
def ParseError.text (e : ParseError) : String := errorText e.token e.cause.message

/-- The report of an error found in the scopes. -/
def ResolveError.text (e : ResolveError) : String := errorText e.token e.cause.message

/-- The report of an error of a running program, without the words in front of it. -/
def RuntimeError.text (e : RuntimeError) : String := lineText e.line ++ e.cause.message

/-- Why a file gives no program text. -/
def Unreadable.message : Unreadable → String
  | .notText => "stream did not contain valid UTF-8"
  | .directory => "Is a directory (os error 21)"

namespace Failure

/-- The report of a failure. -/
def message : Failure → String
  | .scan errors => String.intercalate "\n" (errors.map ScanError.text)
  | .parse errors => String.intercalate "\n" (errors.map ParseError.text)
  | .resolve errors => String.intercalate "\n" (errors.map ResolveError.text)
  | .runtime e => "Runtime error: " ++ e.text
  | .outOfFuel => "InternalError: The program did not come to an end"
  | .missingFile path => "file " ++ path ++ " does not exist"
  | .unreadableFile path reason =>
    "InternalError: Failed read source file " ++ path ++ ": " ++ reason.message

/-- The status of a script that failed: 65 for a faulty program, 66 for a missing file, 70 for
everything else. -/
def exitStatus : Failure → Nat
  | .scan _ | .parse _ | .resolve _ => 65
  | .missingFile _ => 66
  | .runtime _ | .outOfFuel | .unreadableFile _ _ => 70

end Failure

end Lox
