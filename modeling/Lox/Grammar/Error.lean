import Lox.Token

/-!
# Syntax errors

* `ParseError.Cause` — what is wrong: something expected is missing, or a limit is exceeded.
* `ParseError` — a cause with the token it is reported at.
-/

namespace Lox

/-- What is wrong with a program's syntax. The causes that name a part of the grammar say that
this part is missing. -/
inductive ParseError.Cause where
  | functionName
  | functionOpening
  | parameterName
  | parametersClosing
  | bodyOpening
  | variableName
  | declarationEnd
  | printEnd
  | returnEnd
  | whileOpening
  | conditionClosing
  | forOpening
  | loopConditionEnd
  | clausesClosing
  | ifOpening
  | ifClosing
  | expressionEnd
  | blockClosing
  | argumentsClosing
  | groupClosing
  | expression
  | classesUnsupported
  | invalidTarget
  | tooManyParameters
  | tooManyArguments
  | tooMuchNesting
  deriving DecidableEq

/-- A syntax error and the token at which it was noticed. -/
structure ParseError where
  cause : ParseError.Cause
  token : Token
  deriving DecidableEq

/-- The error was noticed behind the last token. -/
def ParseError.atEnd (e : ParseError) : Bool := e.token.kind == .endOfInput

/-- The wording of a cause. -/
def ParseError.Cause.message : ParseError.Cause → String
  | .functionName => "Expect function name."
  | .functionOpening => "Expect '(' after function name."
  | .parameterName => "Expect parameter name."
  | .parametersClosing => "Expect ')' after parameters."
  | .bodyOpening => "Expect '\x7b' before function body."
  | .variableName => "Expect variable name."
  | .declarationEnd => "Expect ';' after variable declaration."
  | .printEnd => "Expect ';' after value."
  | .returnEnd => "Expect ';' after return value."
  | .whileOpening => "Expect '(' after 'while'."
  | .conditionClosing => "Expect ')' after condition."
  | .forOpening => "Expect '(' after 'for'."
  | .loopConditionEnd => "Expect ';' after loop condition."
  | .clausesClosing => "Expect ')' after for clauses."
  | .ifOpening => "Expect '(' after 'if'."
  | .ifClosing => "Expect ')' after if condition."
  | .expressionEnd => "Expect ';' after expression."
  | .blockClosing => "Expect '\x7d' after block."
  | .argumentsClosing => "Expect ')' after arguments."
  | .groupClosing => "Expect ')' after expression."
  | .expression => "Expect expression."
  | .classesUnsupported => "Classes are not supported."
  | .invalidTarget => "Invalid assignment target."
  | .tooManyParameters => "Can't have more than 255 parameters."
  | .tooManyArguments => "Can't have more than 255 arguments."
  | .tooMuchNesting => "Too much nesting."

end Lox
