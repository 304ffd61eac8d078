import Lox.Syntax

/-!
# Scopes

The names that are known at a place of a program. A block and a function each open a scope; the
top level has none, and what is declared there is global.

* `Scope` — the names declared in one scope so far.
* `Scopes` — the open scopes, the innermost first.
* `Scopes.distance?` — how many scopes out a name is bound.
* `Scopes.declare`, `Scopes.define` — a name becomes known, and then ready for use.
-/

namespace Lox

/-- The names declared in a scope, with whether their value is ready. The newest entry of a name
counts. -/
abbrev Scope := List (String × Bool)

/-- The scopes that are open at some place, the innermost first. -/
abbrev Scopes := List Scope

namespace Scopes

/-- The number of scopes between a place and the one that binds a name there; none for a
global name. -/
def distance? (scopes : Scopes) (name : String) : Option Nat :=
  scopes.findIdx? fun scope => (scope.lookup name).isSome

/-- The innermost scope has declared the name already. -/
def taken : Scopes → String → Bool
  | [], _ => false
  | scope :: _, name => (scope.lookup name).isSome

/-- The name belongs to the innermost scope, and its value is just being worked out. -/
def initializing : Scopes → String → Bool
  | [], _ => false
  | scope :: _, name => scope.lookup name == some false

/-- Adds a name to the innermost scope, not ready yet. A name that is there keeps its state. -/
def declare (scopes : Scopes) (name : String) : Scopes :=
  match scopes with
  | [] => []
  | scope :: outer =>
    if (scope.lookup name).isSome then scope :: outer else ((name, false) :: scope) :: outer

/-- Makes a name of the innermost scope ready. -/
def define (scopes : Scopes) (name : String) : Scopes :=
  match scopes with
  | [] => []
  | scope :: outer => ((name, true) :: scope) :: outer

end Scopes

end Lox
