import Lox.Session

/-!
# Lexical evaluation

Another way to run programs, which says what names mean without any distances: at every place of a
program there is a map from the local names that are visible there to cells, and whatever is not in
the map is global.

* `Env` — the map, or the top level, where declarations are global.
* `Lexical.Machine` — the cells, the globals and what else running programs change.
* `extend`, `fill` — a declaration makes a new cell, and then gives it its value.
* `evaluate`, `run`, `invoke` — expressions and statements; a function keeps the map of the place
  where it is declared, and a call goes on from there.
* `Lexical.Session.run`, `Lexical.Session.runAll` — check and run programs, like `Session.run` and
  `Session.runAll`.
-/

namespace Lox.Lexical

/-- Tells one cell from all others. -/
abbrev CellId := Nat

/-- The local names that are visible at some place and their cells, the innermost first. -/
abbrev Names := List (String × CellId)

/-- The surroundings of a part of a program. -/
inductive Env where
  /-- Outside of all blocks and functions. -/
  | top
  | inner (names : Names)

/-- The local names that are visible. -/
def Env.names : Env → Names
  | .top => []
  | .inner names => names

/-- The state of running programs. -/
structure Machine where
  /-- A cell has no value while the initializer of its variable runs. -/
  cells : Array (Option (Value Env))
  globals : Bindings Env
  sink : Sink
  depth : Nat
  nextIdentity : Nat

/-- No variables, and nothing printed. -/
def Machine.start (limit : Option Nat) : Machine := ⟨#[], [], Sink.empty limit, 0, 0⟩

/-- The value in a cell. -/
def Machine.value? (m : Machine) (cell : CellId) : Option (Value Env) := m.cells[cell]?.join

/-- What a name means, if it has a value: what is in its cell if it is visible as a local name, and
else the global. -/
def Machine.lookup (m : Machine) (env : Env) (name : String) : Option (Value Env) :=
  match env.names.lookup name with
  | some cell => m.value? cell
  | none => m.globals.lookup name

/-- A computation on a machine. -/
abbrev Act := EStateM Halt Machine

/-- Halts with an error of the program. -/
def fail {α : Type} (line : Nat) (cause : RuntimeError.Cause) : Act α :=
  fun m => .error (.failure ⟨cause, line⟩) m

/-- Halts for want of fuel. -/
def outOfFuel {α : Type} : Act α := fun m => .error .outOfFuel m

/-- A result, or an error of the program on this line. -/
def orFail {α : Type} (line : Nat) : Except RuntimeError.Cause α → Act α
  | .ok a => fun m => .ok a m
  | .error cause => fail line cause

/-- From here on the name means a new cell. At the top level no cell is needed. -/
def extend (env : Env) (name : Token) : Act Env := fun m =>
  match env with
  | .top => .ok .top m
  | .inner names =>
    .ok (.inner ((name.lexeme, m.cells.size) :: names)) { m with cells := m.cells.push none }

/-- Gives the declared name its value. -/
def fill (env : Env) (name : Token) (value : Value Env) : Act Unit := fun m =>
  match env.names.lookup name.lexeme with
  | some cell => .ok () { m with cells := m.cells.setIfInBounds cell (some value) }
  | none => .ok () { m with globals := m.globals.insert name.lexeme value }

/-- The value of a variable. -/
def read (env : Env) (name : Token) : Act (Value Env) := fun m =>
  match m.lookup env name.lexeme with
  | some value => .ok value m
  | none => fail name.line (.undefinedVariable name.lexeme) m

/-- Gives a variable that has a value another one. -/
def write (env : Env) (name : Token) (value : Value Env) : Act Unit := fun m =>
  if (m.lookup env name.lexeme).isSome then fill env name value m
  else fail name.line (.undefinedVariable name.lexeme) m

/-- The function that a declaration makes. -/
def closure (env : Env) (name : Token) (parameters : List Token) (body : List Stmt) :
    Act (Value Env) := fun m =>
  .ok (.function ⟨m.nextIdentity, name, parameters, body, env⟩)
    { m with nextIdentity := m.nextIdentity + 1 }

/-- Prints a text and ends the line. -/
def print (line : Nat) (text : String) : Act Unit := fun m =>
  let (fits, sink) := m.sink.write (text ++ "\n")
  let m := { m with sink := sink }
  if fits then .ok () m else fail line .sinkFull m

/-- A part of a run with one more call active. -/
def duringCall {α : Type} (part : Act α) : Act α := fun m =>
  let outside := m.depth
  match part { m with depth := outside + 1 } with
  | .ok a m' => .ok a { m' with depth := outside }
  | .error halt m' => .error halt { m' with depth := outside }

/-- How to run the body of a function on some arguments. -/
abbrev Invoke := Closure Env → List (Value Env) → Act (Value Env)

/-- Calls a function, if the arguments are as many as the parameters and there are not too many
active calls. -/
def call (invoke : Invoke) (closing : Token) (f : Closure Env) (arguments : List (Value Env)) :
    Act (Value Env) := do
  if arguments.length ≠ f.parameters.length then
    fail closing.line (.arityMismatch f.parameters.length arguments.length)
  else if maxCalls ≤ (← get).depth then
    fail closing.line .stackOverflow
  else
    duringCall (invoke f arguments)

mutual

/-- The value of an expression. -/
def evaluate (invoke : Invoke) (env : Env) : Expr → Act (Value Env)
  | .literal value => return .ofLiteral value
  | .grouping inner => evaluate invoke env inner
  | .unary op right => do
    let value ← evaluate invoke env right
    orFail op.line (Value.unary op value)
  | .binary left op right => do
    let a ← evaluate invoke env left
    let b ← evaluate invoke env right
    orFail op.line (Value.binary op a b)
  | .logical left op right => do
    let a ← evaluate invoke env left
    if op.settledBy a then return a else evaluate invoke env right
  | .var _ name => read env name
  | .assign _ target value => do
    let v ← evaluate invoke env value
    write env target v
    return v
  | .call callee closing arguments => do
    match ← evaluate invoke env callee with
    | .function f =>
      let values ← evaluateAll invoke env arguments
      call invoke closing f values
    | other => fail closing.line (.notCallable other.text)

/-- The values of expressions, from left to right. -/
def evaluateAll (invoke : Invoke) (env : Env) : List Expr → Act (List (Value Env))
  | [] => return []
  | e :: es => do
    let value ← evaluate invoke env e
    let values ← evaluateAll invoke env es
    return value :: values

end

/-- The value of an expression that may be missing. -/
def evaluate? (invoke : Invoke) (env : Env) : Option Expr → Act (Value Env)
  | none => return .nil
  | some e => evaluate invoke env e

/-- Runs the body of a loop as long as the condition holds and the body does not return. -/
def repeatWhile (condition : Act (Value Env)) (body : Act (Flow Env)) : Nat → Act (Flow Env)
  | 0 => outOfFuel
  | fuel + 1 => do
    if (← condition).truthy then
      match ← body with
      | .returned value => return .returned value
      | .normal => repeatWhile condition body fuel
    else return .normal

mutual

/-- What a statement does, and the surroundings behind it. -/
def run (invoke : Invoke) (fuel : Nat) (env : Env) : Stmt → Act (Flow Env × Env)
  | .expression value => do
    let _ ← evaluate invoke env value
    return (.normal, env)
  | .print keyword value => do
    let v ← evaluate invoke env value
    print keyword.line v.text
    return (.normal, env)
  | .var name initializer => do
    let env' ← extend env name
    let v ← evaluate? invoke env' initializer
    fill env' name v
    return (.normal, env')
  | .block body => do
    let flow ← runAll invoke fuel (.inner env.names) body
    return (flow, env)
  | .ifThen condition yes none => do
    if (← evaluate invoke env condition).truthy then
      let (flow, _) ← run invoke fuel env yes
      return (flow, env)
    else return (.normal, env)
  | .ifThen condition yes (some no) => do
    if (← evaluate invoke env condition).truthy then
      let (flow, _) ← run invoke fuel env yes
      return (flow, env)
    else
      let (flow, _) ← run invoke fuel env no
      return (flow, env)
  | .whileDo condition body => do
    let flow ← repeatWhile (evaluate invoke env condition) (Prod.fst <$> run invoke fuel env body)
      fuel
    return (flow, env)
  | .function name parameters body => do
    let env' ← extend env name
    let f ← closure env' name parameters body
    fill env' name f
    return (.normal, env')
  | .ret _ value => do
    let v ← evaluate? invoke env value
    return (.returned v, env)

/-- What statements do one after the other, until one returns. -/
def runAll (invoke : Invoke) (fuel : Nat) (env : Env) : List Stmt → Act (Flow Env)
  | [] => return .normal
  | s :: ss => do
    match ← run invoke fuel env s with
    | (.returned value, _) => return .returned value
    | (.normal, env') => runAll invoke fuel env' ss

end

/-- The surroundings inside some parameters that have these values. -/
def enter (env : Env) : List (Token × Value Env) → Act Env
  | [] => return env
  | (parameter, value) :: rest => do
    let env' ← extend env parameter
    fill env' parameter value
    enter env' rest

/-- Runs the body of a function inside its parameters, which extend the surroundings in which the
function was declared. -/
def invoke : Nat → Invoke
  | 0 => fun _ _ => outOfFuel
  | fuel + 1 => fun f arguments => do
    let env ← enter (.inner f.env.names) (f.parameters.zip arguments)
    let flow ← runAll (invoke fuel) fuel env f.body
    return flow.result

/-- Runs the statements of a program one after the other. -/
def runProgram (fuel : Nat) : List Stmt → Act Unit
  | [] => return ()
  | s :: ss => do
    let _ ← run (invoke fuel) fuel .top s
    runProgram fuel ss

/-- A machine with the next identity for a mention of a variable. -/
structure Session where
  machine : Machine
  nextId : RefId

namespace Session

/-- A session in which nothing has run yet. -/
def start (limit : Option Nat) : Session := ⟨Machine.start limit, 0⟩

/-- Runs a program. If it fails, what it did until then stays done. -/
def run (fuel : Nat) (source : String) (session : Session) : Except Failure Unit × Session :=
  let ⟨machine, firstId⟩ := session
  match Checked.ofSource firstId source with
  | (.error failure, nextId) => (.error failure, ⟨machine, nextId⟩)
  | (.ok checked, nextId) =>
    match runProgram fuel checked.program machine with
    | .ok _ machine' => (.ok (), ⟨machine', nextId⟩)
    | .error halt machine' => (.error (Session.failureOf halt), ⟨machine', nextId⟩)

/-- Runs programs one after the other, each with so much fuel. -/
def runAll : List (Nat × String) → Session → List (Except Failure Unit) × Session
  | [], session => ([], session)
  | (fuel, source) :: programs, session =>
    let (result, session') := session.run fuel source
    let (results, session'') := runAll programs session'
    (result :: results, session'')

/-- Whatever fuel it gets, the program of the text does not come to an end. -/
def Diverges (session : Session) (source : String) : Prop :=
  ∀ fuel, (session.run fuel source).1 = .error .outOfFuel

end Session

end Lox.Lexical
