import Lox.Syntax

/-!
# Prefix form

Syntax trees written with every operator in front of its operands and parentheses around both,
so that the text shows how a program was understood.

* `Expr.text` — an expression; strings stand in quotes as they are.
* `Stmt.text` — a statement; tokens that matter for reports show their place.
-/

namespace Lox

/-- A boolean as programs write it. -/
def boolText (b : Bool) : String := if b then "true" else "false"

/-- Texts in parentheses, one space apart. -/
def listText (items : List String) : String := "(" ++ String.intercalate " " items ++ ")"

/-- A constant as a program would write it. -/
def Literal.text : Literal → String
  | .nil => "nil"
  | .bool b => boolText b
  | .number x => x.text
  | .string s => "\"" ++ s ++ "\""

/-- The word for a connective. -/
def Connective.text : Connective → String
  | .and => "and"
  | .or => "or"

mutual

/-- The prefix form of an expression. -/
def Expr.text : Expr → String
  | .literal value => value.text
  | .grouping inner => listText ["group", inner.text]
  | .unary op right => listText [op.lexeme, right.text]
  | .binary left op right => listText [op.lexeme, left.text, right.text]
  | .logical left op right => listText [op.text, left.text, right.text]
  | .var _ name => name.lexeme
  | .assign _ target value => listText ["=", target.lexeme, value.text]
  | .call callee _ arguments => listText ("call" :: callee.text :: Expr.texts arguments)

/-- The prefix forms of expressions in order. -/
def Expr.texts : List Expr → List String
  | [] => []
  | e :: es => e.text :: Expr.texts es

end

/-- A place in a program as `line:offset`. -/
def Token.placeText (t : Token) : String := toString t.line ++ ":" ++ toString t.offset

/-- A token with its place. -/
def Token.placedText (t : Token) : String := t.lexeme ++ "@" ++ t.placeText

mutual

/-- The prefix form of a statement. -/
def Stmt.text : Stmt → String
  | .expression value => listText ["expr", value.text]
  | .print keyword value => listText ["print@" ++ keyword.placeText, value.text]
  | .var name none => listText ["var", name.placedText]
  | .var name (some value) => listText ["var", name.placedText, value.text]
  | .block body => listText ("block" :: Stmt.texts body)
  | .ifThen condition yes none => listText ["if", condition.text, yes.text]
  | .ifThen condition yes (some no) => listText ["if", condition.text, yes.text, no.text]
  | .whileDo condition body => listText ["while", condition.text, body.text]
  | .function name parameters body =>
    listText ("fun" :: name.placedText :: listText (parameters.map Token.placedText) ::
      Stmt.texts body)
  | .ret keyword none => listText ["return@" ++ keyword.placeText]
  | .ret keyword (some value) => listText ["return@" ++ keyword.placeText, value.text]

/-- The prefix forms of statements in order. -/
def Stmt.texts : List Stmt → List String
  | [] => []
  | s :: ss => s.text :: Stmt.texts ss

end

end Lox
