import Lox.Grammar.Expression

/-!
# Statements and declarations

The grammar of statements:

    declaration → function | variable | statement
    function    → fun identifier ( parameters? ) block
    variable    → var identifier ( = expression )? ;
    statement   → expression ; | for | if | print | return | while | block
    for         → for ( ( variable | expression ; | ; ) expression? ; expression? ) statement
    if          → if ( expression ) statement ( else statement )?
    print       → print expression ;
    return      → return expression? ;
    while       → while ( expression ) statement
    block       → { declaration* }

* `desugarFor` — a `for` loop as a `while` loop.
* `declaration` — reads a declaration; a faulty one is left out.
* `declarations` — reads declarations up to the end of the tokens.
-/

namespace Lox.Grammar

/-- A `for` loop as a `while` loop: the first clause comes before it and in a block with it,
the last clause comes behind the body and in a block with it. -/
def desugarFor (first : Option Stmt) (condition : Option Expr) (last : Option Expr) (body : Stmt) :
    Stmt :=
  let body := match last with
    | some e => .block [body, .expression e]
    | none => body
  let loop := .whileDo (condition.getD (.literal (.bool true))) body
  match first with
  | some s => .block [s, loop]
  | none => loop

/-- An expression, unless the next token says that there is none. -/
def expressionUnless (kind : Kind) : Parse (Option Expr) := do
  if ← sees kind then return none
  some <$> expression

/-- An expression with the semicolon behind it. -/
def expressionStatement : Parse Stmt := do
  let value ← expression
  let _ ← expect (.symbol .semicolon) .expressionEnd
  return .expression value

/-- The declaration of a variable, from its name on. -/
def variableDeclaration : Parse Stmt := do
  let name ← expect .identifier .variableName
  let initializer ← if ← accept (.symbol .equal) then some <$> expression else pure none
  let _ ← expect (.symbol .semicolon) .declarationEnd
  return .var name initializer

/-- At least one parameter; `count` of them were read before. -/
def parameters : Nat → Nat → Parse (List Token)
  | 0, _ => exhausted
  | n + 1, count => do
    if maxArguments ≤ count then noteHere .tooManyParameters
    let first ← expect .identifier .parameterName
    if ← accept (.symbol .comma) then
      let others ← parameters n (count + 1)
      return first :: others
    else
      return [first]

/-- The name and the parameters of a function, up to the brace that opens its body. -/
def signature : Parse (Token × List Token) := do
  let name ← expect .identifier .functionName
  let _ ← expect (.symbol .leftParen) .functionOpening
  let parameters ← if ← sees (.symbol .rightParen) then pure []
    else fun r => parameters (r.rest.length + 1) 0 r
  let _ ← expect (.symbol .rightParen) .parametersClosing
  let _ ← expect (.symbol .leftBrace) .bodyOpening
  return (name, parameters)

/-- The first clause of a `for` loop, with the semicolon behind it. -/
def firstClause : Parse (Option Stmt) := do
  if ← accept (.symbol .semicolon) then return none
  if ← accept (.keyword .var) then some <$> variableDeclaration
  else some <$> expressionStatement

/-- A condition in parentheses. -/
def condition (opening closing : ParseError.Cause) : Parse Expr := do
  let _ ← expect (.symbol .leftParen) opening
  let condition ← expression
  let _ ← expect (.symbol .rightParen) closing
  return condition

mutual

/-- A declaration or statement; none if it is faulty. -/
def declaration : Nat → Parse (Option Stmt)
  | 0 => exhausted
  | n + 1 => recover do
    if ← accept (.keyword .fun_) then
      let (name, parameters) ← signature
      let body ← nested (block n)
      return .function name parameters body
    else if ← accept (.keyword .var) then variableDeclaration
    else if ← sees (.keyword .class_) then fail .classesUnsupported
    else statement n

/-- A statement. -/
def statement : Nat → Parse Stmt
  | 0 => exhausted
  | n + 1 => do
    let token ← peek
    match token.kind with
    | .keyword .for_ =>
      let _ ← advance
      let _ ← expect (.symbol .leftParen) .forOpening
      let first ← firstClause
      let condition ← expressionUnless (.symbol .semicolon)
      let _ ← expect (.symbol .semicolon) .loopConditionEnd
      let last ← expressionUnless (.symbol .rightParen)
      let _ ← expect (.symbol .rightParen) .clausesClosing
      let body ← nested (statement n)
      return desugarFor first condition last body
    | .keyword .if_ =>
      let _ ← advance
      let condition ← condition .ifOpening .ifClosing
      let yes ← nested (statement n)
      let no ← if ← accept (.keyword .else_) then some <$> nested (statement n) else pure none
      return .ifThen condition yes no
    | .keyword .print =>
      let keyword ← advance
      let value ← expression
      let _ ← expect (.symbol .semicolon) .printEnd
      return .print keyword value
    | .keyword .return_ =>
      let keyword ← advance
      let value ← expressionUnless (.symbol .semicolon)
      let _ ← expect (.symbol .semicolon) .returnEnd
      return .ret keyword value
    | .keyword .while_ =>
      let _ ← advance
      let condition ← condition .whileOpening .conditionClosing
      let body ← nested (statement n)
      return .whileDo condition body
    | .symbol .leftBrace =>
      let _ ← advance
      let body ← nested (block n)
      return .block body
    | _ => expressionStatement

/-- The declarations of a block and the brace that closes it. -/
def block : Nat → Parse (List Stmt)
  | 0 => exhausted
  | n + 1 => do
    if (← sees (.symbol .rightBrace)) || (← atEnd) then
      let _ ← expect (.symbol .rightBrace) .blockClosing
      return []
    else
      let first ← declaration n
      let others ← block n
      return first.toList ++ others

end

/-- Declarations up to the end of the tokens. -/
def declarations : Nat → Parse (List Stmt)
  | 0 => exhausted
  | n + 1 => do
    if ← atEnd then return []
    let first ← declaration n
    let others ← declarations n
    return first.toList ++ others

end Lox.Grammar
