import Lox.Number.Shortest

/-!
# Tokens

What a program text is made of before it has any structure.

* `Symbol`, `Keyword` — the fixed lexemes, with their characters.
* `Kind` — what a token is; literals carry their value.
* `Token` — a kind with the lexeme it was read from and where that stands.
-/

namespace Lox

/-- Punctuation and operators. -/
inductive Symbol where
  | leftParen
  | rightParen
  | leftBrace
  | rightBrace
  | comma
  | dot
  | minus
  | plus
  | semicolon
  | slash
  | star
  | bang
  | bangEqual
  | equal
  | equalEqual
  | greater
  | greaterEqual
  | less
  | lessEqual
  deriving DecidableEq

/-- The reserved words. -/
inductive Keyword where
  | and
  | class_
  | else_
  | false
  | for_
  | fun_
  | if_
  | nil
  | or
  | print
  | return_
  | super
  | this
  | true
  | var
  | while_
  deriving DecidableEq

namespace Symbol

/-- Every symbol, the longer before the shorter ones that it starts with. -/
def all : List Symbol :=
  [.leftParen, .rightParen, .leftBrace, .rightBrace, .comma, .dot, .minus, .plus, .semicolon,
    .slash, .star, .bangEqual, .bang, .equalEqual, .equal, .greaterEqual, .greater, .lessEqual,
    .less]

/-- How a symbol is written. -/
def chars : Symbol → List Char
  | .leftParen => ['(']
  | .rightParen => [')']
  | .leftBrace => ['\x7b']
  | .rightBrace => ['\x7d']
  | .comma => [',']
  | .dot => ['.']
  | .minus => ['-']
  | .plus => ['+']
  | .semicolon => [';']
  | .slash => ['/']
  | .star => ['*']
  | .bang => ['!']
  | .bangEqual => ['!', '=']
  | .equal => ['=']
  | .equalEqual => ['=', '=']
  | .greater => ['>']
  | .greaterEqual => ['>', '=']
  | .less => ['<']
  | .lessEqual => ['<', '=']

end Symbol

namespace Keyword

/-- Every reserved word. -/
def all : List Keyword :=
  [.and, .class_, .else_, .false, .for_, .fun_, .if_, .nil, .or, .print, .return_, .super,
    .this, .true, .var, .while_]

/-- How a reserved word is written. -/
def chars : Keyword → List Char
  | .and => ['a', 'n', 'd']
  | .class_ => ['c', 'l', 'a', 's', 's']
  | .else_ => ['e', 'l', 's', 'e']
  | .false => ['f', 'a', 'l', 's', 'e']
  | .for_ => ['f', 'o', 'r']
  | .fun_ => ['f', 'u', 'n']
  | .if_ => ['i', 'f']
  | .nil => ['n', 'i', 'l']
  | .or => ['o', 'r']
  | .print => ['p', 'r', 'i', 'n', 't']
  | .return_ => ['r', 'e', 't', 'u', 'r', 'n']
  | .super => ['s', 'u', 'p', 'e', 'r']
  | .this => ['t', 'h', 'i', 's']
  | .true => ['t', 'r', 'u', 'e']
  | .var => ['v', 'a', 'r']
  | .while_ => ['w', 'h', 'i', 'l', 'e']

/-- The words that can only begin a declaration or a statement. -/
def startsStatement : Keyword → Bool
  | .class_ | .fun_ | .var | .for_ | .if_ | .while_ | .print | .return_ => Bool.true
  | _ => Bool.false

end Keyword

/-- What a token is. -/
inductive Kind where
  | symbol (s : Symbol)
  | keyword (k : Keyword)
  | identifier
  | string (text : String)
  | number (value : Number)
  /-- Stands behind the last token of a program and is never read from one. -/
  | endOfInput
  deriving DecidableEq

/-- A lexeme of a program with its meaning and its place. -/
structure Token where
  kind : Kind
  /-- The text the token was read from. -/
  lexeme : String
  /-- The line the lexeme ends on, counted from 1. -/
  line : Nat
  /-- Where the lexeme starts, counted in bytes from 0. -/
  offset : Nat
  deriving DecidableEq

namespace Token

/-- The token that stands behind the last of `tokens`. -/
def endOf (tokens : List Token) : Token :=
  match tokens.getLast? with
  | none => ⟨.endOfInput, "", 1, 0⟩
  | some last => ⟨.endOfInput, "", last.line, last.offset + last.lexeme.utf8ByteSize⟩

theorem kind_endOf (tokens : List Token) : (endOf tokens).kind = .endOfInput := by
  unfold endOf
  split <;> rfl

/-- The token begins a declaration or a statement. -/
def startsStatement (t : Token) : Bool :=
  match t.kind with
  | .keyword k => k.startsStatement
  | _ => false

end Token

end Lox
