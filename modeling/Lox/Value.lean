import Lox.Syntax.PrefixForm

/-!
# Values

What expressions stand for when a program runs, and what the operators make of them.

* `Value` — the values; a function remembers the surroundings it was declared in, as a
  rule the frame.
* `Value.text`, `Value.truthy`, `Value.same` — how a value is shown, tested and compared.
* `Value.unary`, `Value.binary` — the operators.
* `RuntimeError` — why a running program fails, and on which line.
-/

namespace Lox

/-- Tells one frame from all others. -/
abbrev FrameId := Nat

/-- A function together with the surroundings it was declared in. -/
structure Closure (Env : Type := FrameId) where
  /-- Tells this function from all others. -/
  identity : Nat
  name : Token
  parameters : List Token
  body : List Stmt
  env : Env

/-- A value of a running program. Functions have surroundings of this type. -/
inductive Value (Env : Type := FrameId) where
  | nil
  | bool (value : Bool)
  | number (value : Number)
  | string (value : String)
  | function (value : Closure Env)

/-- Why a running program fails. -/
inductive RuntimeError.Cause where
  | operandMustBeNumber (op : String)
  | operandsMustBeNumbers (op : String)
  | operandsNotComparable (op : String)
  | invalidAddition (op : String)
  | unsupportedOperator (op : String)
  | divisionByZero
  | undefinedVariable (name : String)
  /-- The text is that of the value that was called. -/
  | notCallable (text : String)
  | arityMismatch (expected got : Nat)
  | stackOverflow
  /-- The sink refused a text. -/
  | sinkFull
  deriving DecidableEq

/-- Why and on which line a running program fails. -/
structure RuntimeError where
  cause : RuntimeError.Cause
  line : Nat
  deriving DecidableEq

/-- The wording of a full sink. -/
def sinkFullText : String := "sink full"

/-- The wording of a cause. -/
def RuntimeError.Cause.message : RuntimeError.Cause → String
  | .operandMustBeNumber op => "Operand of '" ++ op ++ "' must be a number."
  | .operandsMustBeNumbers op => "Operands of '" ++ op ++ "' must be numbers."
  | .operandsNotComparable op =>
    "Operands of '" ++ op ++ "' must be two numbers or two strings."
  | .invalidAddition op =>
    "Operands of '" ++ op ++ "' must be two numbers, or a string followed by any value."
  | .unsupportedOperator op => "Unsupported binary operator '" ++ op ++ "'."
  | .divisionByZero => "Division by zero."
  | .undefinedVariable name => "Undefined variable '" ++ name ++ "'."
  | .notCallable text => "Can only call functions, not '" ++ text ++ "'."
  | .arityMismatch expected got =>
    "Expected " ++ toString expected ++ " arguments but got " ++ toString got ++ "."
  | .stackOverflow => "Stack overflow."
  | .sinkFull => "Failed to write output: " ++ sinkFullText

namespace Value

variable {Env : Type}

/-- The value of a constant. -/
def ofLiteral : Literal → Value Env
  | .nil => .nil
  | .bool b => .bool b
  | .number x => .number x
  | .string s => .string s

/-- How a value is shown. -/
def text : Value Env → String
  | .nil => "nil"
  | .bool b => boolText b
  | .number x => x.text
  | .string s => s
  | .function f => "<fn " ++ f.name.lexeme ++ ">"

/-- A condition holds for every value but `nil` and `false`. -/
def truthy : Value Env → Bool
  | .nil => false
  | .bool b => b
  | _ => true

/-- Equality. Values of different kinds are never equal, and a function equals itself only. -/
def same : Value Env → Value Env → Bool
  | .nil, .nil => true
  | .bool a, .bool b => a == b
  | .number x, .number y => x.same y
  | .string s, .string t => s == t
  | .function f, .function g => f.identity == g.identity
  | _, _ => false

/-- The order of two numbers or two strings. There is none between numbers of which one is not a
number. -/
def order? : Value Env → Value Env → Option (Option Ordering)
  | .number x, .number y => some (x.compare? y)
  | .string s, .string t => some (some (compare s t))
  | _, _ => none

/-- A comparison, by the orders for which it holds. -/
def comparison (op : String) (holds : Ordering → Bool) (left right : Value Env) :
    Except RuntimeError.Cause (Value Env) :=
  match left.order? right with
  | some order => .ok (.bool (order.any holds))
  | none => .error (.operandsNotComparable op)

/-- An operation on two numbers. -/
def arithmetic (op : String) (f : Number → Number → Number) :
    Value Env → Value Env → Except RuntimeError.Cause (Value Env)
  | .number x, .number y => .ok (.number (f x y))
  | _, _ => .error (.operandsMustBeNumbers op)

/-- Addition of numbers. A string on the left is continued by the text of any value. -/
def plus (op : String) : Value Env → Value Env → Except RuntimeError.Cause (Value Env)
  | .string s, right => .ok (.string (s ++ right.text))
  | .number x, .number y => .ok (.number (x.add y))
  | _, _ => .error (.invalidAddition op)

/-- Division of numbers, but not by zero. -/
def divide (op : String) : Value Env → Value Env → Except RuntimeError.Cause (Value Env)
  | .number x, .number y => if y.isZero then .error .divisionByZero else .ok (.number (x.div y))
  | _, _ => .error (.operandsMustBeNumbers op)

/-- A binary operator applied to its operands. -/
def binary (op : Token) (left right : Value Env) : Except RuntimeError.Cause (Value Env) :=
  match op.kind with
  | .symbol .plus => plus op.lexeme left right
  | .symbol .minus => arithmetic op.lexeme Number.sub left right
  | .symbol .star => arithmetic op.lexeme Number.mul left right
  | .symbol .slash => divide op.lexeme left right
  | .symbol .greater => comparison op.lexeme Ordering.isGT left right
  | .symbol .greaterEqual => comparison op.lexeme Ordering.isGE left right
  | .symbol .less => comparison op.lexeme Ordering.isLT left right
  | .symbol .lessEqual => comparison op.lexeme Ordering.isLE left right
  | .symbol .equalEqual => .ok (.bool (left.same right))
  | .symbol .bangEqual => .ok (.bool !(left.same right))
  | _ => .error (.unsupportedOperator op.lexeme)

/-- A unary operator applied to its operand. -/
def unary (op : Token) (right : Value Env) : Except RuntimeError.Cause (Value Env) :=
  match op.kind, right with
  | .symbol .minus, .number x => .ok (.number x.neg)
  | .symbol .bang, right => .ok (.bool !right.truthy)
  | _, _ => .error (.operandMustBeNumber op.lexeme)

end Value

end Lox
