import Lox.Syntax

/-!
# References

The mentions of variables in a program.

* `Reference` — a read of a variable, or an assignment to one.
* `Stmt.references` — all of a statement, in no particular order.
-/

namespace Lox

/-- A mention of a variable. -/
structure Reference where
  id : RefId
  name : Token
  /-- The variable is assigned, not read. -/
  assigns : Bool

mutual

/-- The references in an expression. -/
def Expr.references : Expr → List Reference
  | .literal _ => []
  | .grouping inner => inner.references
  | .unary _ right => right.references
  | .binary left _ right => left.references ++ right.references
  | .logical left _ right => left.references ++ right.references
  | .var id name => [⟨id, name, false⟩]
  | .assign id target value => ⟨id, target, true⟩ :: value.references
  | .call callee _ arguments => callee.references ++ Expr.referencesAll arguments

/-- The references in some expressions. -/
def Expr.referencesAll : List Expr → List Reference
  | [] => []
  | e :: es => e.references ++ Expr.referencesAll es

end

mutual

/-- The references in a statement. -/
def Stmt.references : Stmt → List Reference
  | .expression value => value.references
  | .print _ value => value.references
  | .var _ none => []
  | .var _ (some value) => value.references
  | .block body => Stmt.referencesAll body
  | .ifThen condition yes none => condition.references ++ yes.references
  | .ifThen condition yes (some no) => condition.references ++ yes.references ++ no.references
  | .whileDo condition body => condition.references ++ body.references
  | .function _ _ body => Stmt.referencesAll body
  | .ret _ none => []
  | .ret _ (some value) => value.references

/-- The references in some statements. -/
def Stmt.referencesAll : List Stmt → List Reference
  | [] => []
  | s :: ss => s.references ++ Stmt.referencesAll ss

end

end Lox
