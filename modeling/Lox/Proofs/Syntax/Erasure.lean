import Lox.Syntax

/-!
# Trees without identities

The identities of mentions depend on what was read before and are no part of what a program means.

* `Expr.erased`, `Stmt.erased` — the tree with the same identity at every mention. Two trees with
  the same erasure are the same up to identities.
-/

namespace Lox

mutual

/-- The expression without identities. -/
def Expr.erased : Expr → Expr
  | .literal value => .literal value
  | .grouping inner => .grouping inner.erased
  | .unary op right => .unary op right.erased
  | .binary left op right => .binary left.erased op right.erased
  | .logical left op right => .logical left.erased op right.erased
  | .var _ name => .var 0 name
  | .assign _ target value => .assign 0 target value.erased
  | .call callee closing arguments => .call callee.erased closing (Expr.erasedAll arguments)

/-- The expressions without identities. -/
def Expr.erasedAll : List Expr → List Expr
  | [] => []
  | e :: es => e.erased :: Expr.erasedAll es

end

/-- An expression that may be missing, without identities. -/
def Expr.erased? : Option Expr → Option Expr
  | none => none
  | some e => some e.erased

mutual

/-- The statement without identities. -/
def Stmt.erased : Stmt → Stmt
  | .expression value => .expression value.erased
  | .print keyword value => .print keyword value.erased
  | .var name initializer => .var name (Expr.erased? initializer)
  | .block body => .block (Stmt.erasedAll body)
  | .ifThen condition yes none => .ifThen condition.erased yes.erased none
  | .ifThen condition yes (some no) => .ifThen condition.erased yes.erased (some no.erased)
  | .whileDo condition body => .whileDo condition.erased body.erased
  | .function name parameters body => .function name parameters (Stmt.erasedAll body)
  | .ret keyword value => .ret keyword (Expr.erased? value)

/-- The statements without identities. -/
def Stmt.erasedAll : List Stmt → List Stmt
  | [] => []
  | s :: ss => s.erased :: Stmt.erasedAll ss

end

/-- A statement that may be missing, without identities. -/
def Stmt.erased? : Option Stmt → Option Stmt
  | none => none
  | some s => some s.erased

/-- Only a mention looks like one without its identity. -/
theorem Expr.eq_var_of_erased {e : Expr} {name : Token} (h : e.erased = .var 0 name) :
    ∃ id, e = .var id name := by
  cases e with
  | var id name' => cases h; exact ⟨id, rfl⟩
  | _ => cases h

end Lox
