import Lox.Grammar.Program

/-!
# Gauged reading

Reading while keeping account of the levels that are open. The account is kept apart from the reader:
every rule is told how many levels are open around it, and one more is open just for the part that
stands inside of a level. So the reader's own count of its depth can be compared with it. Nothing else
is different: what is found out about gauged reading is true of reading.

* `Rule` — the rules whose beginning and end are noted down.
* `Gauge.Moment` — what is noted down.
* `Gauge` — a computation on a reader with the moments so far.
* `Gauge.assignment`, `Gauge.statement`, `Gauge.declarations` — the rules of the grammar.
-/

namespace Lox.Grammar

/-- The rules of the grammar. -/
inductive Rule where
  | declaration
  | function
  | variable
  | statement
  | forLoop
  | ifThen
  | expressionStatement
  | block
  | expression
  | assignment
  /-- Operators of this level, with their operands. -/
  | operators (level : Level)
  | unary
  | call
  /-- The arguments of one call, with the parenthesis behind them. -/
  | arguments
  | primary

namespace Gauge

/-- Something that happens while tokens are read. -/
inductive Moment where
  /-- A rule begins, with so many levels open around it. -/
  | began (rule : Rule) (levels : Nat) (r : Reader)
  /-- A rule that has begun at the first reader comes to its end at the second one. -/
  | ended (rule : Rule) (r r' : Reader)
  /-- A step is taken, with so many levels open. -/
  | passed (levels : Nat) (r : Reader)
  /-- One of so many levels is left, which counts the depth down. -/
  | ascending (levels : Nat) (r : Reader)
  /-- With so many levels open, another one would be too many. -/
  | refused (levels : Nat) (r : Reader)

/-- A reader and what has happened so far, the last moment first. -/
structure State where
  reader : Reader
  moments : List Moment

end Gauge

/-- Reading some part of a program while moments are noted down. -/
abbrev Gauge := EStateM Stop Gauge.State

namespace Gauge

variable {α : Type}

/-- A step of reading. It is noted down from where it is taken. -/
def step (moment : Reader → Moment) (part : Parse α) : Gauge α := fun g =>
  match part g.reader with
  | .ok a r => .ok a ⟨r, moment g.reader :: g.moments⟩
  | .error stop r => .error stop ⟨r, moment g.reader :: g.moments⟩

/-- A step that does not change how deep the reader is. -/
def plain (levels : Nat) (part : Parse α) : Gauge α := step (.passed levels) part

/-- Goes one level deeper. -/
def deepen (levels : Nat) : Gauge Unit := fun g =>
  match Grammar.deepen g.reader with
  | .ok _ r => .ok () ⟨r, .passed levels g.reader :: g.moments⟩
  | .error stop r => .error stop ⟨r, .refused levels g.reader :: g.moments⟩

/-- Comes back from one level. -/
def ascend (levels : Nat) : Gauge Unit := step (.ascending levels) Grammar.ascend

/-- Reads a part inside of one more level. -/
def nested (part : Nat → Gauge α) (levels : Nat) : Gauge α := do
  deepen levels
  let a ← part (levels + 1)
  ascend (levels + 1)
  return a

/-- Reads a part that may go deeper, and comes back to where it started. -/
def levelled (part : Gauge α) : Gauge α := fun g =>
  match part g with
  | .ok a g' => .ok a ⟨{ g'.reader with depth := g.reader.depth }, g'.moments⟩
  | .error stop g' => .error stop g'

/-- Reads a part; at a fault, notes it, gives the part up and goes on at the next place where a
statement may begin, as deep as before. -/
def recover (part : Gauge α) : Gauge (Option α) := fun g =>
  match part g with
  | .ok a g' => .ok (some a) g'
  | .error (.fault e) g' =>
    .ok none ⟨{ g'.reader.noting e with depth := g.reader.depth, rest := resume g'.reader.rest },
      g'.moments⟩
  | .error .exhausted g' => .error .exhausted g'

/-- Reads a part that is a rule. Its beginning is noted down, and its end if it has a result. -/
def rule (name : Rule) (levels : Nat) (part : Gauge α) : Gauge α := fun g =>
  match part ⟨g.reader, .began name levels g.reader :: g.moments⟩ with
  | .ok a g' => .ok a ⟨g'.reader, .ended name g.reader g'.reader :: g'.moments⟩
  | .error stop g' => .error stop g'

/-! ## Expressions -/

mutual

/-- An assignment, or an expression of the loosest level. -/
def assignment : Nat → Nat → Gauge Expr
  | 0, levels => plain levels exhausted
  | n + 1, levels => rule .assignment levels do
    let target ← leftAssociative n Grammar.levels levels
    if ← plain levels (sees (.symbol .equal)) then
      let equals ← plain levels advance
      let value ← nested (assignment n) levels
      plain levels (assignTo target equals value)
    else
      return target

/-- An expression of the first of some levels of operators. -/
def leftAssociative : Nat → List Level → Nat → Gauge Expr
  | 0, _, levels => plain levels exhausted
  | n + 1, [], levels => unary n levels
  | n + 1, level :: tighter, levels => rule (.operators level) levels <| levelled do
    let first ← leftAssociative n tighter levels
    operands n level tighter first levels

/-- The operators of a level and their right operands, as far as they go. Each operator opens one
more level for all that follows. -/
def operands : Nat → Level → List Level → Expr → Nat → Gauge Expr
  | 0, _, _, _, levels => plain levels exhausted
  | n + 1, level, tighter, left, levels => do
    if ← plain levels (seesLevel level) then
      deepen levels
      let op ← plain (levels + 1) advance
      let right ← leftAssociative n tighter (levels + 1)
      operands n level tighter (level.join left op right) (levels + 1)
    else
      return left

/-- A call with any number of unary operators in front. -/
def unary : Nat → Nat → Gauge Expr
  | 0, levels => plain levels exhausted
  | n + 1, levels => rule .unary levels do
    if (← plain levels (sees (.symbol .bang))) || (← plain levels (sees (.symbol .minus))) then
      let op ← plain levels advance
      let right ← nested (unary n) levels
      return .unary op right
    else rule .call levels do
      let callee ← primary n levels
      calls n callee levels

/-- The calls of an expression, as far as they go. -/
def calls : Nat → Expr → Nat → Gauge Expr
  | 0, _, levels => plain levels exhausted
  | n + 1, callee, levels => do
    if ← plain levels (accept (.symbol .leftParen)) then
      let call ← rule .arguments levels do
        let arguments ← if ← plain levels (sees (.symbol .rightParen)) then pure []
          else arguments n 0 levels
        let closing ← plain levels (expect (.symbol .rightParen) .argumentsClosing)
        return .call callee closing arguments
      calls n call levels
    else
      return callee

/-- At least one argument; `count` of them were read before. -/
def arguments : Nat → Nat → Nat → Gauge (List Expr)
  | 0, _, levels => plain levels exhausted
  | n + 1, count, levels => do
    if maxArguments ≤ count then plain levels (noteHere .tooManyArguments)
    let first ← rule .expression levels (nested (assignment n) levels)
    if ← plain levels (accept (.symbol .comma)) then
      let others ← arguments n (count + 1) levels
      return first :: others
    else
      return [first]

/-- A constant, a variable, or an expression in parentheses. -/
def primary : Nat → Nat → Gauge Expr
  | 0, levels => plain levels exhausted
  | n + 1, levels => rule .primary levels do
    let token ← plain levels peek
    match token.kind with
    | .identifier =>
      let name ← plain levels advance
      let id ← plain levels freshId
      return .var id name
    | .symbol .leftParen =>
      let _ ← plain levels advance
      let inner ← rule .expression levels (nested (assignment n) levels)
      let _ ← plain levels (expect (.symbol .rightParen) .groupClosing)
      return .grouping inner
    | kind =>
      match literal? kind with
      | some value =>
        let _ ← plain levels advance
        return .literal value
      | none => plain levels (fail .expression)

end

/-- Reads an expression. -/
def expression (levels : Nat) : Gauge Expr := rule .expression levels fun g =>
  nested (assignment (11 * (g.reader.rest.length + 1))) levels g

/-! ## Statements -/

/-- An expression, unless the next token says that there is none. -/
def expressionUnless (kind : Kind) (levels : Nat) : Gauge (Option Expr) := do
  if ← plain levels (sees kind) then return none
  some <$> expression levels

/-- An expression with the semicolon behind it. -/
def expressionStatement (levels : Nat) : Gauge Stmt := rule .expressionStatement levels do
  let value ← expression levels
  let _ ← plain levels (expect (.symbol .semicolon) .expressionEnd)
  return .expression value

/-- The declaration of a variable, from its name on. -/
def variableDeclaration (levels : Nat) : Gauge Stmt := rule .variable levels do
  let name ← plain levels (expect .identifier .variableName)
  let initializer ← if ← plain levels (accept (.symbol .equal)) then some <$> expression levels
    else pure none
  let _ ← plain levels (expect (.symbol .semicolon) .declarationEnd)
  return .var name initializer

/-- At least one parameter; `count` of them were read before. -/
def parameters : Nat → Nat → Nat → Gauge (List Token)
  | 0, _, levels => plain levels exhausted
  | n + 1, count, levels => do
    if maxArguments ≤ count then plain levels (noteHere .tooManyParameters)
    let first ← plain levels (expect .identifier .parameterName)
    if ← plain levels (accept (.symbol .comma)) then
      let others ← parameters n (count + 1) levels
      return first :: others
    else
      return [first]

/-- The name and the parameters of a function, up to the brace that opens its body. -/
def signature (levels : Nat) : Gauge (Token × List Token) := do
  let name ← plain levels (expect .identifier .functionName)
  let _ ← plain levels (expect (.symbol .leftParen) .functionOpening)
  let parameters ← if ← plain levels (sees (.symbol .rightParen)) then pure []
    else fun g => parameters (g.reader.rest.length + 1) 0 levels g
  let _ ← plain levels (expect (.symbol .rightParen) .parametersClosing)
  let _ ← plain levels (expect (.symbol .leftBrace) .bodyOpening)
  return (name, parameters)

/-- The first clause of a `for` loop, with the semicolon behind it. -/
def firstClause (levels : Nat) : Gauge (Option Stmt) := do
  if ← plain levels (accept (.symbol .semicolon)) then return none
  if ← plain levels (accept (.keyword .var)) then some <$> variableDeclaration levels
  else some <$> expressionStatement levels

/-- A condition in parentheses. -/
def condition (opening closing : ParseError.Cause) (levels : Nat) : Gauge Expr := do
  let _ ← plain levels (expect (.symbol .leftParen) opening)
  let condition ← expression levels
  let _ ← plain levels (expect (.symbol .rightParen) closing)
  return condition

mutual

/-- A declaration or statement; none if it is faulty. -/
def declaration : Nat → Nat → Gauge (Option Stmt)
  | 0, levels => plain levels exhausted
  | n + 1, levels => rule .declaration levels <| recover do
    if ← plain levels (accept (.keyword .fun_)) then rule .function levels do
      let (name, parameters) ← signature levels
      let body ← nested (fun inner => rule .block inner (block n inner)) levels
      return .function name parameters body
    else if ← plain levels (accept (.keyword .var)) then variableDeclaration levels
    else if ← plain levels (sees (.keyword .class_)) then plain levels (fail .classesUnsupported)
    else statement n levels

/-- A statement. -/
def statement : Nat → Nat → Gauge Stmt
  | 0, levels => plain levels exhausted
  | n + 1, levels => rule .statement levels do
    let token ← plain levels peek
    match token.kind with
    | .keyword .for_ =>
      let _ ← plain levels advance
      rule .forLoop levels do
        let _ ← plain levels (expect (.symbol .leftParen) .forOpening)
        let first ← firstClause levels
        let condition ← expressionUnless (.symbol .semicolon) levels
        let _ ← plain levels (expect (.symbol .semicolon) .loopConditionEnd)
        let last ← expressionUnless (.symbol .rightParen) levels
        let _ ← plain levels (expect (.symbol .rightParen) .clausesClosing)
        let body ← nested (statement n) levels
        return desugarFor first condition last body
    | .keyword .if_ =>
      let _ ← plain levels advance
      rule .ifThen levels do
        let condition ← condition .ifOpening .ifClosing levels
        let yes ← nested (statement n) levels
        let no ← if ← plain levels (accept (.keyword .else_)) then
          some <$> nested (statement n) levels else pure none
        return .ifThen condition yes no
    | .keyword .print =>
      let keyword ← plain levels advance
      let value ← expression levels
      let _ ← plain levels (expect (.symbol .semicolon) .printEnd)
      return .print keyword value
    | .keyword .return_ =>
      let keyword ← plain levels advance
      let value ← expressionUnless (.symbol .semicolon) levels
      let _ ← plain levels (expect (.symbol .semicolon) .returnEnd)
      return .ret keyword value
    | .keyword .while_ =>
      let _ ← plain levels advance
      let condition ← condition .whileOpening .conditionClosing levels
      let body ← nested (statement n) levels
      return .whileDo condition body
    | .symbol .leftBrace =>
      let _ ← plain levels advance
      let body ← nested (fun inner => rule .block inner (block n inner)) levels
      return .block body
    | _ => expressionStatement levels

/-- The declarations of a block and the brace that closes it. -/
def block : Nat → Nat → Gauge (List Stmt)
  | 0, levels => plain levels exhausted
  | n + 1, levels => do
    if (← plain levels (sees (.symbol .rightBrace))) || (← plain levels atEnd) then
      let _ ← plain levels (expect (.symbol .rightBrace) .blockClosing)
      return []
    else
      let first ← declaration n levels
      let others ← block n levels
      return first.toList ++ others

end

/-- Declarations up to the end of the tokens. At the top level of a program no level is open. -/
def declarations : Nat → Gauge (List Stmt)
  | 0 => plain 0 exhausted
  | n + 1 => do
    if ← plain 0 atEnd then return []
    let first ← declaration n 0
    let others ← declarations n
    return first.toList ++ others

end Gauge

end Lox.Grammar
