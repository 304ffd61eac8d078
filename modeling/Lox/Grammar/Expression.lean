import Lox.Grammar.Reader

/-!
# Expressions

The grammar of expressions, loosest first:

    expression → assignment
    assignment → identifier = assignment | level 1
    level k    → level k+1 ( operator level k+1 )*      for each of `levels`, to the left
    unary      → ( ! | - ) unary | call
    call       → primary ( ( arguments? ) )*
    primary    → number | string | true | false | nil | identifier | ( expression )

* `Level`, `levels` — the operators that associate to the left, from loose to tight.
* `expression` — reads one expression.

Every rule gets a bound on the steps it may take, one less than the rule that called it.
`expression` sets it so high that the tokens are used up before.
-/

namespace Lox.Grammar

/-- Operators that bind equally tight. -/
inductive Level where
  | connective (c : Connective)
  | operators (symbols : List Symbol)

/-- The levels of operators that associate to the left, the loosest first. -/
def levels : List Level :=
  [.connective .or, .connective .and, .operators [.bangEqual, .equalEqual],
    .operators [.greater, .greaterEqual, .less, .lessEqual], .operators [.minus, .plus],
    .operators [.slash, .star]]

/-- A token of this kind is an operator of the level. -/
def Level.has : Level → Kind → Bool
  | .connective .or, .keyword .or => true
  | .connective .and, .keyword .and => true
  | .operators symbols, .symbol s => symbols.contains s
  | _, _ => false

/-- The expression that an operator of the level makes of its operands. -/
def Level.join (level : Level) (left : Expr) (op : Token) (right : Expr) : Expr :=
  match level with
  | .connective c => .logical left c right
  | .operators _ => .binary left op right

/-- Is the next token an operator of the level? -/
def seesLevel (level : Level) : Parse Bool :=
  fun r => .ok (r.rest.head?.any fun t => level.has t.kind) r

/-- The constant that a token of this kind stands for. -/
def literal? : Kind → Option Literal
  | .keyword .false => some (.bool false)
  | .keyword .true => some (.bool true)
  | .keyword .nil => some .nil
  | .number x => some (.number x)
  | .string s => some (.string s)
  | _ => none

/-- What an assignment to an expression is. Only a variable can be assigned to; to anything
else the assignment is an error, and the expression stands alone. -/
def assignTo (target : Expr) (equals : Token) (value : Expr) : Parse Expr := do
  match target with
  | .var _ name =>
    let id ← freshId
    return .assign id name value
  | target =>
    note ⟨.invalidTarget, equals⟩
    return target

mutual

/-- An assignment, or an expression of the loosest level. -/
def assignment : Nat → Parse Expr
  | 0 => exhausted
  | n + 1 => do
    let target ← leftAssociative n levels
    if ← sees (.symbol .equal) then
      let equals ← advance
      let value ← nested (assignment n)
      assignTo target equals value
    else
      return target

/-- An expression of the first of some levels. -/
def leftAssociative : Nat → List Level → Parse Expr
  | 0, _ => exhausted
  | n + 1, [] => unary n
  | n + 1, level :: tighter => levelled do
    let first ← leftAssociative n tighter
    operands n level tighter first

/-- The operators of a level and their right operands, as far as they go. Each operator makes
the tree one level deeper. -/
def operands : Nat → Level → List Level → Expr → Parse Expr
  | 0, _, _, _ => exhausted
  | n + 1, level, tighter, left => do
    if ← seesLevel level then
      deepen
      let op ← advance
      let right ← leftAssociative n tighter
      operands n level tighter (level.join left op right)
    else
      return left

/-- A call with any number of unary operators in front. -/
def unary : Nat → Parse Expr
  | 0 => exhausted
  | n + 1 => do
    if (← sees (.symbol .bang)) || (← sees (.symbol .minus)) then
      let op ← advance
      let right ← nested (unary n)
      return .unary op right
    else
      let callee ← primary n
      calls n callee

/-- The calls of an expression, as far as they go. -/
def calls : Nat → Expr → Parse Expr
  | 0, _ => exhausted
  | n + 1, callee => do
    if ← accept (.symbol .leftParen) then
      let arguments ← if ← sees (.symbol .rightParen) then pure [] else arguments n 0
      let closing ← expect (.symbol .rightParen) .argumentsClosing
      calls n (.call callee closing arguments)
    else
      return callee

/-- At least one argument; `count` of them were read before. -/
def arguments : Nat → Nat → Parse (List Expr)
  | 0, _ => exhausted
  | n + 1, count => do
    if maxArguments ≤ count then noteHere .tooManyArguments
    let first ← nested (assignment n)
    if ← accept (.symbol .comma) then
      let others ← arguments n (count + 1)
      return first :: others
    else
      return [first]

/-- A constant, a variable, or an expression in parentheses. -/
def primary : Nat → Parse Expr
  | 0 => exhausted
  | n + 1 => do
    let token ← peek
    match token.kind with
    | .identifier =>
      let name ← advance
      let id ← freshId
      return .var id name
    | .symbol .leftParen =>
      let _ ← advance
      let inner ← nested (assignment n)
      let _ ← expect (.symbol .rightParen) .groupClosing
      return .grouping inner
    | kind =>
      match literal? kind with
      | some value =>
        let _ ← advance
        return .literal value
      | none => fail .expression

end

/-- Reads an expression. Between two tokens at most eleven rules are entered. -/
def expression : Parse Expr := fun r => nested (assignment (11 * (r.rest.length + 1))) r

end Lox.Grammar
