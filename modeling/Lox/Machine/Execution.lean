import Lox.Machine

/-!
# Execution

What expressions and statements do when they run. Both are defined along the syntax; how a function
is invoked is a parameter, so that only invocations and the rounds of a loop take fuel.

* `Expr.evaluate` — the value of an expression.
* `Stmt.execute` — what a statement does, and whether it returns from the function around it.
* `repeatWhile` — the rounds of a loop.
* `invoke` — runs the body of a function, with so much fuel.
* `runProgram` — runs a program.
-/

namespace Lox

/-- How a statement ends. -/
inductive Flow (Env : Type := FrameId) where
  | normal
  /-- The function around the statement returns. -/
  | returned (value : Value Env)

/-- What a function returns whose body ends like this. -/
def Flow.result {Env : Type} : Flow Env → Value Env
  | .normal => .nil
  | .returned value => value

/-- The value of the left operand settles the value of the whole expression. -/
def Connective.settledBy {Env : Type} : Connective → Value Env → Bool
  | .or, left => left.truthy
  | .and, left => !left.truthy

/-- The variables of a call: every parameter with its argument. -/
def parameterBindings (parameters : List Token) (arguments : List Value) : Bindings :=
  (parameters.zip arguments).foldl (fun bindings p => bindings.insert p.1.lexeme p.2) []

/-- How to run the body of a function on some arguments. -/
abbrev Invoke := Closure → List Value → Eval Value

/-- Calls a function, if the arguments are as many as the parameters and there are not too many
active calls. -/
def Eval.call (invoke : Invoke) (closing : Token) (f : Closure) (arguments : List Value) :
    Eval Value := do
  if arguments.length ≠ f.parameters.length then
    Eval.fail closing.line (.arityMismatch f.parameters.length arguments.length)
  else if maxCalls ≤ (← get).depth then
    Eval.fail closing.line .stackOverflow
  else
    Eval.duringCall (invoke f arguments)

mutual

/-- The value of an expression. -/
def Expr.evaluate (invoke : Invoke) : Expr → Eval Value
  | .literal value => return .ofLiteral value
  | .grouping inner => inner.evaluate invoke
  | .unary op right => do
    let value ← right.evaluate invoke
    Eval.orFail op.line (Value.unary op value)
  | .binary left op right => do
    let a ← left.evaluate invoke
    let b ← right.evaluate invoke
    Eval.orFail op.line (Value.binary op a b)
  | .logical left op right => do
    let a ← left.evaluate invoke
    if op.settledBy a then return a else right.evaluate invoke
  | .var id name => Eval.read id name
  | .assign id target value => do
    let v ← value.evaluate invoke
    Eval.write id target v
    return v
  | .call callee closing arguments => do
    match ← callee.evaluate invoke with
    | .function f =>
      let values ← Expr.evaluateAll invoke arguments
      Eval.call invoke closing f values
    | other => Eval.fail closing.line (.notCallable other.text)

/-- The values of expressions, from left to right. -/
def Expr.evaluateAll (invoke : Invoke) : List Expr → Eval (List Value)
  | [] => return []
  | e :: es => do
    let value ← e.evaluate invoke
    let values ← Expr.evaluateAll invoke es
    return value :: values

end

/-- The value of an expression that may be missing. -/
def Expr.evaluate? (invoke : Invoke) : Option Expr → Eval Value
  | none => return .nil
  | some e => e.evaluate invoke

/-- Runs the body of a loop as long as the condition holds and the body does not return. There is
fuel for so many rounds. -/
def repeatWhile (condition : Eval Value) (body : Eval Flow) : Nat → Eval Flow
  | 0 => Eval.outOfFuel
  | fuel + 1 => do
    if (← condition).truthy then
      match ← body with
      | .returned value => return .returned value
      | .normal => repeatWhile condition body fuel
    else return .normal

mutual

/-- What a statement does. -/
def Stmt.execute (invoke : Invoke) (fuel : Nat) : Stmt → Eval Flow
  | .expression value => do
    let _ ← value.evaluate invoke
    return .normal
  | .print keyword value => do
    let v ← value.evaluate invoke
    Eval.print keyword.line v.text
    return .normal
  | .var name initializer => do
    let v ← Expr.evaluate? invoke initializer
    Eval.define name v
    return .normal
  | .block body => Eval.inNewFrame (Stmt.executeAll invoke fuel body)
  | .ifThen condition yes none => do
    if (← condition.evaluate invoke).truthy then yes.execute invoke fuel else return .normal
  | .ifThen condition yes (some no) => do
    if (← condition.evaluate invoke).truthy then yes.execute invoke fuel
    else no.execute invoke fuel
  | .whileDo condition body =>
    repeatWhile (condition.evaluate invoke) (body.execute invoke fuel) fuel
  | .function name parameters body => do
    let f ← Eval.closure name parameters body
    Eval.define name f
    return .normal
  | .ret _ value => do
    let v ← Expr.evaluate? invoke value
    return .returned v

/-- What statements do one after the other, until one returns. -/
def Stmt.executeAll (invoke : Invoke) (fuel : Nat) : List Stmt → Eval Flow
  | [] => return .normal
  | s :: ss => do
    match ← s.execute invoke fuel with
    | .returned value => return .returned value
    | .normal => Stmt.executeAll invoke fuel ss

end

/-- Runs the body of a function in a new frame inside the one it was declared in. The fuel bounds
the calls inside each other and the rounds of every loop. -/
def invoke : Nat → Invoke
  | 0 => fun _ _ => Eval.outOfFuel
  | fuel + 1 => fun f arguments => do
    let frame ← Eval.newFrame f.env (parameterBindings f.parameters arguments)
    let flow ← Eval.inFrame frame (Stmt.executeAll (invoke fuel) fuel f.body)
    return flow.result

/-- Runs the statements of a program one after the other. -/
def runProgram (fuel : Nat) : List Stmt → Eval Unit
  | [] => return ()
  | s :: ss => do
    let _ ← s.execute (invoke fuel) fuel
    runProgram fuel ss

end Lox
