import Lox.Grammar.Error
import Lox.Syntax

/-!
# Reading tokens

The steps that all rules of the grammar are made of.

* `Reader` — the tokens that are left, the errors noted, the nesting, the next free `RefId`.
* `Parse` — a computation on a `Reader` that may stop at a fault.
* `advance`, `sees`, `accept`, `expect` — looking at the next token and taking it.
* `note`, `fail` — an error that reading goes on after, and one that it does not.
* `deepen`, `nested` — keeping count of the nesting.
* `recover` — going on behind a fault.
-/

namespace Lox.Grammar

/-- How deep the parts of a program may nest. Reading fails to count the levels of calls of calls, so
that these may go deeper. -/
def maxNesting : Nat := 200

/-- How many arguments a call and parameters a function may have. -/
def maxArguments : Nat := 255

/-- The state of reading. -/
structure Reader where
  /-- The tokens that are left. -/
  rest : List Token
  /-- Stands for the next token when none is left. -/
  last : Token
  last_kind : last.kind = .endOfInput
  /-- The errors noted so far, in order. -/
  errors : Array ParseError
  /-- How deep the part nests that is being read. -/
  depth : Nat
  /-- How deep it may nest. -/
  limit : Nat
  /-- The next identity for a mention of a variable. -/
  nextId : RefId

/-- Why reading a part stops without a result. -/
inductive Stop where
  | fault (e : ParseError)
  /-- The bound on the number of steps was too low. It is chosen so that this never happens. -/
  | exhausted

/-- Reading some part of a program. -/
abbrev Parse := EStateM Stop Reader

namespace Reader

/-- The next token, or the one behind the last. -/
def next (r : Reader) : Token := r.rest.head?.getD r.last

/-- The next token is of this kind. -/
def sees (r : Reader) (kind : Kind) : Bool := r.rest.head?.any (·.kind == kind)

/-- An error at the next token. -/
def errorHere (r : Reader) (cause : ParseError.Cause) : ParseError := ⟨cause, r.next⟩

/-- The same reader with one more error noted. -/
def noting (r : Reader) (e : ParseError) : Reader := { r with errors := r.errors.push e }

end Reader

/-- Looks at the next token. -/
def peek : Parse Token := fun r => .ok r.next r

/-- Is the next token of this kind? -/
def sees (kind : Kind) : Parse Bool := fun r => .ok (r.sees kind) r

/-- No token is left. -/
def atEnd : Parse Bool := fun r => .ok r.rest.isEmpty r

/-- Takes the next token. -/
def advance : Parse Token := fun r => .ok r.next { r with rest := r.rest.tail }

/-- Takes the next token if it is of this kind. -/
def accept (kind : Kind) : Parse Bool := do
  if ← sees kind then
    let _ ← advance
    return true
  return false

/-- Stops with an error at the next token. -/
def fail {α : Type} (cause : ParseError.Cause) : Parse α :=
  fun r => .error (.fault (r.errorHere cause)) r

/-- Takes the next token, which must be of this kind. -/
def expect (kind : Kind) (cause : ParseError.Cause) : Parse Token := do
  if ← sees kind then advance else fail cause

/-- Notes an error and goes on. -/
def note (e : ParseError) : Parse Unit := fun r => .ok () (r.noting e)

/-- Notes an error at the next token and goes on. -/
def noteHere (cause : ParseError.Cause) : Parse Unit := fun r => .ok () (r.noting (r.errorHere cause))

/-- An identity that no mention of a variable has yet. -/
def freshId : Parse RefId := fun r => .ok r.nextId { r with nextId := r.nextId + 1 }

/-- The bound on the number of steps was too low. -/
def exhausted {α : Type} : Parse α := fun r => .error .exhausted r

/-- Goes one level deeper. -/
def deepen : Parse Unit := fun r =>
  if r.limit ≤ r.depth then .error (.fault (r.errorHere .tooMuchNesting)) r
  else .ok () { r with depth := r.depth + 1 }

/-- Comes back from one level. -/
def ascend : Parse Unit := fun r => .ok () { r with depth := r.depth - 1 }

/-- Reads a part that stands one level deeper. -/
def nested {α : Type} (part : Parse α) : Parse α := do
  deepen
  let a ← part
  ascend
  return a

/-- Reads a part that may go deeper, and comes back to where it started. -/
def levelled {α : Type} (part : Parse α) : Parse α := fun r =>
  match part r with
  | .ok a r' => .ok a { r' with depth := r.depth }
  | .error stop r' => .error stop r'

/-- The tokens from the next place on where a statement may begin: behind a semicolon, or in
front of a word that begins one. At least one token is left out. -/
def resume : List Token → List Token
  | [] => []
  | t :: rest =>
    if t.kind == .symbol .semicolon || rest.head?.any Token.startsStatement then rest
    else resume rest

/-- Reads a part; at a fault, notes it, gives the part up and goes on at the next place where a
statement may begin, as deep as before. -/
def recover {α : Type} (part : Parse α) : Parse (Option α) := fun r =>
  match part r with
  | .ok a r' => .ok (some a) r'
  | .error (.fault e) r' =>
    .ok none { r'.noting e with depth := r.depth, rest := resume r'.rest }
  | .error .exhausted r' => .error .exhausted r'

end Lox.Grammar
