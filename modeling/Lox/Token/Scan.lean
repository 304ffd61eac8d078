import Lox.Token.Lexeme

/-!
# Scanning

From a program text to its tokens.

* `ScanError` — a place where no token can be read.
* `scanFrom` — the tokens and errors of a text in order.
* `scan` — the tokens of a program, or all its errors.
-/

namespace Lox

/-- Why no token could be read. -/
inductive ScanError.Cause where
  | unexpectedCharacter (c : Char)
  | unterminatedString
  deriving DecidableEq

/-- A place in a program text where no token can be read. -/
structure ScanError where
  cause : ScanError.Cause
  /-- The line reached after the unreadable characters, counted from 1. -/
  line : Nat
  /-- Where the unreadable characters start, counted in bytes from 0. -/
  offset : Nat
  deriving DecidableEq

/-- How many lines end in a text. -/
def lineEnds (cs : List Char) : Nat := cs.count '\n'

/-- How many bytes a text takes. -/
def byteSize : List Char → Nat
  | [] => 0
  | c :: cs => c.utf8Size + byteSize cs

/-- The tokens of a text that starts on line `line` at byte `offset`, in order, with an error
for each place that cannot be read. -/
def scanFrom (line offset : Nat) : List Char → List (Except ScanError Token)
  | [] => []
  | c :: cs =>
    let chars := (Piece.cut c cs).2.1
    let line' := line + lineEnds chars
    let rest := scanFrom line' (offset + byteSize chars) (Piece.cut c cs).2.2
    match (Piece.cut c cs).1 with
    | .token kind => .ok ⟨kind, String.ofList chars, line', offset⟩ :: rest
    | .layout => rest
    | .unexpected c => .error ⟨.unexpectedCharacter c, line', offset⟩ :: rest
    | .unterminated => .error ⟨.unterminatedString, line', offset⟩ :: rest
termination_by cs => cs.length
decreasing_by exact Piece.length_cut_lt c cs

/-- The tokens of a program; if any place in it cannot be read, all such places instead. -/
def scan (source : String) : Except (List ScanError) (List Token) :=
  let found := scanFrom 1 0 source.toList
  let errors := found.filterMap fun f => match f with | .error e => some e | .ok _ => none
  let tokens := found.filterMap Except.toOption
  if errors.isEmpty then .ok tokens else .error errors

end Lox
