import Lox.Grammar.Statement

/-!
# Programs

* `Program` — the statements of a program.
* `Program.ofTokens` — the program that some tokens make up, or all errors in it.
-/

namespace Lox

/-- The statements of a program in order. -/
abbrev Program := List Stmt

/-- The program that the tokens make up; if they make up none, the errors, in the order in which
they were noticed. Identities are given from `firstId` on; the first one that was not given comes
with the result, also when there is an error. -/
def Program.ofTokens (firstId : RefId) (tokens : List Token) :
    Except (List ParseError) Program × RefId :=
  let start : Grammar.Reader :=
    ⟨tokens, Token.endOf tokens, Token.kind_endOf tokens, #[], 0, Grammar.maxNesting, firstId⟩
  match Grammar.declarations (4 * (tokens.length + 1)) start with
  | .ok program r =>
    (if r.errors.isEmpty then .ok program else .error r.errors.toList, r.nextId)
  | .error _ r => (.error r.errors.toList, r.nextId)

end Lox
