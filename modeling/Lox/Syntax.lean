import Lox.Token

/-!
# Syntax trees

* `Expr` — expressions. Every node that names a variable carries a `RefId`, by which what is
  found out about this very occurrence can be looked up.
* `Stmt` — statements and declarations.
-/

namespace Lox

/-- Tells one mention of a variable from all others. -/
abbrev RefId := Nat

/-- A constant in a program. -/
inductive Literal where
  | nil
  | bool (value : Bool)
  | number (value : Number)
  | string (value : String)
  deriving DecidableEq

/-- The operators that may leave their right operand alone. -/
inductive Connective where
  | and
  | or
  deriving DecidableEq

/-- An expression. -/
inductive Expr where
  | literal (value : Literal)
  | grouping (inner : Expr)
  | unary (op : Token) (right : Expr)
  | binary (left : Expr) (op : Token) (right : Expr)
  | logical (left : Expr) (op : Connective) (right : Expr)
  | var (id : RefId) (name : Token)
  | assign (id : RefId) (target : Token) (value : Expr)
  /-- The closing parenthesis is where a failing call is reported. -/
  | call (callee : Expr) (closing : Token) (arguments : List Expr)

/-- A statement or declaration. -/
inductive Stmt where
  | expression (value : Expr)
  | print (keyword : Token) (value : Expr)
  | var (name : Token) (initializer : Option Expr)
  | block (body : List Stmt)
  | ifThen (condition : Expr) (yes : Stmt) (no : Option Stmt)
  | whileDo (condition : Expr) (body : Stmt)
  | function (name : Token) (parameters : List Token) (body : List Stmt)
  | ret (keyword : Token) (value : Option Expr)

end Lox
