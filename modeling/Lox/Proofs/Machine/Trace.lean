import Lox.Proofs.Machine.Restoration
import Lox.Session

/-!
# Traced runs

Running programs while keeping account of the calls in progress. The account is kept apart from the
machine, so that the machine's own number of active calls can be compared with it. Nothing else is
different: what is found out about traced runs is true of runs.

* `Call` — a call in progress; whether its function stands in the text of the running program.
* `Event` — what is noted down: every moment, and every call that is attempted.
* `Trace` — a computation on a machine with the events so far. A run that stops early also says
  during which calls it did.
* `Trace.evaluate`, `Trace.execute`, `Trace.invoke` — expressions, statements and calls.
* `Trace.run` — checks and runs a program, like `Session.run`.
* `Trace.Shows` — a traced computation does the same as one that is not.
* `Trace.run_shows` — so do traced runs.
-/

namespace Lox

namespace Trace

/-- A call in progress. -/
structure Call where
  function : Closure
  /-- The function stands in the text of the program that is running, not of an earlier one. -/
  own : Bool

/-- What is executed during these calls, the innermost first, stands in the text of the program that
is running. -/
def atHome : List Call → Bool
  | [] => true
  | call :: _ => call.own

/-- Something that happens in a run. -/
inductive Event where
  /-- An expression, a statement or a call begins or ends during these calls. -/
  | passed (calls : List Call) (m : Machine)
  /-- During these calls a function is called with as many arguments as it has parameters. -/
  | attempted (calls : List Call) (closing : Token) (f : Closure) (arguments : List Value)

/-- A machine, what has happened so far, the last event first, and the identities of the functions
that stand in the text of the program that is running. -/
structure State where
  machine : Machine
  events : List Event
  own : List Nat

/-- Why a run stops early, and during which calls. -/
structure Stop where
  halt : Halt
  calls : List Call

/-- One more moment. -/
def State.pass (calls : List Call) (w : State) : State :=
  { w with events := .passed calls w.machine :: w.events }

end Trace

/-- A computation on a machine while events are noted down. -/
abbrev Trace := EStateM Trace.Stop Trace.State

namespace Trace

variable {α β : Type}

/-- A part of a run during these calls in which nothing happens that is noted down. -/
def silently (calls : List Call) (part : Eval α) : Trace α := fun w =>
  match part w.machine with
  | .ok a m => .ok a { w with machine := m }
  | .error halt m => .error ⟨halt, calls⟩ { w with machine := m }

/-- A part of a run whose beginning and end are noted down. -/
def observed (calls : List Call) (part : Trace α) : Trace α := fun w =>
  match part (w.pass calls) with
  | .ok a w' => .ok a (w'.pass calls)
  | .error stop w' => .error stop (w'.pass calls)

/-- Notes down that a function is called. -/
def attempt (calls : List Call) (closing : Token) (f : Closure) (arguments : List Value) :
    Trace Unit := fun w =>
  .ok () { w with events := .attempted calls closing f arguments :: w.events }

/-- Remembers that the next function stands where these calls have come to. -/
def adopt (calls : List Call) : Trace Unit := fun w =>
  .ok () { w with own := if atHome calls then w.machine.nextIdentity :: w.own else w.own }

/-- A part of a run with another frame as the current one. -/
def inFrame (frame : FrameId) (part : Trace α) : Trace α := fun w =>
  let outside := w.machine.current
  match part { w with machine := { w.machine with current := frame } } with
  | .ok a w' => .ok a { w' with machine := { w'.machine with current := outside } }
  | .error stop w' => .error stop { w' with machine := { w'.machine with current := outside } }

/-- A part of a run with one more call active. The calls are counted up before and down behind it,
whatever their number is then. -/
def duringCall (part : Trace α) : Trace α := fun w =>
  match part { w with machine := { w.machine with depth := w.machine.depth + 1 } } with
  | .ok a w' => .ok a { w' with machine := { w'.machine with depth := w'.machine.depth - 1 } }
  | .error stop w' =>
    .error stop { w' with machine := { w'.machine with depth := w'.machine.depth - 1 } }

/-- How to run the body of a function on some arguments. The call is the innermost of those in
progress. -/
abbrev Invoke := List Call → Closure → List Value → Trace Value

/-- Calls a function, if the arguments are as many as the parameters and there are not too many
active calls. -/
def call (invoke : Invoke) (calls : List Call) (closing : Token) (f : Closure)
    (arguments : List Value) : Trace Value := do
  if arguments.length ≠ f.parameters.length then
    silently calls (Eval.fail closing.line (.arityMismatch f.parameters.length arguments.length))
  else
    attempt calls closing f arguments
    if maxCalls ≤ (← get).machine.depth then
      silently calls (Eval.fail closing.line .stackOverflow)
    else
      let inner := ⟨f, (← get).own.contains f.identity⟩ :: calls
      duringCall (observed inner (invoke inner f arguments))

mutual

/-- The value of an expression. -/
def evaluate (invoke : Invoke) (calls : List Call) : Expr → Trace Value
  | .literal value => observed calls (return .ofLiteral value)
  | .grouping inner => observed calls (evaluate invoke calls inner)
  | .unary op right => observed calls do
    let value ← evaluate invoke calls right
    silently calls (Eval.orFail op.line (Value.unary op value))
  | .binary left op right => observed calls do
    let a ← evaluate invoke calls left
    let b ← evaluate invoke calls right
    silently calls (Eval.orFail op.line (Value.binary op a b))
  | .logical left op right => observed calls do
    let a ← evaluate invoke calls left
    if op.settledBy a then return a else evaluate invoke calls right
  | .var id name => observed calls (silently calls (Eval.read id name))
  | .assign id target value => observed calls do
    let v ← evaluate invoke calls value
    silently calls (Eval.write id target v)
    return v
  | .call callee closing arguments => observed calls do
    match ← evaluate invoke calls callee with
    | .function f =>
      let values ← evaluateAll invoke calls arguments
      call invoke calls closing f values
    | other => silently calls (Eval.fail closing.line (.notCallable other.text))

/-- The values of expressions, from left to right. -/
def evaluateAll (invoke : Invoke) (calls : List Call) : List Expr → Trace (List Value)
  | [] => return []
  | e :: es => do
    let value ← evaluate invoke calls e
    let values ← evaluateAll invoke calls es
    return value :: values

end

/-- The value of an expression that may be missing. -/
def evaluate? (invoke : Invoke) (calls : List Call) : Option Expr → Trace Value
  | none => return .nil
  | some e => evaluate invoke calls e

/-- Runs the body of a loop as long as the condition holds and the body does not return. -/
def repeatWhile (calls : List Call) (condition : Trace Value) (body : Trace Flow) :
    Nat → Trace Flow
  | 0 => silently calls Eval.outOfFuel
  | fuel + 1 => do
    if (← condition).truthy then
      match ← body with
      | .returned value => return .returned value
      | .normal => repeatWhile calls condition body fuel
    else return .normal

mutual

/-- What a statement does. -/
def execute (invoke : Invoke) (calls : List Call) (fuel : Nat) : Stmt → Trace Flow
  | .expression value => observed calls do
    let _ ← evaluate invoke calls value
    return .normal
  | .print keyword value => observed calls do
    let v ← evaluate invoke calls value
    silently calls (Eval.print keyword.line v.text)
    return .normal
  | .var name initializer => observed calls do
    let v ← evaluate? invoke calls initializer
    silently calls (Eval.define name v)
    return .normal
  | .block body => observed calls do
    let frame ← silently calls (Eval.newFrame (← get).machine.current [])
    inFrame frame (executeAll invoke calls fuel body)
  | .ifThen condition yes none => observed calls do
    if (← evaluate invoke calls condition).truthy then execute invoke calls fuel yes
    else return .normal
  | .ifThen condition yes (some no) => observed calls do
    if (← evaluate invoke calls condition).truthy then execute invoke calls fuel yes
    else execute invoke calls fuel no
  | .whileDo condition body => observed calls
    (repeatWhile calls (evaluate invoke calls condition) (execute invoke calls fuel body) fuel)
  | .function name parameters body => observed calls do
    adopt calls
    let f ← silently calls (Eval.closure name parameters body)
    silently calls (Eval.define name f)
    return .normal
  | .ret _ value => observed calls do
    let v ← evaluate? invoke calls value
    return .returned v

/-- What statements do one after the other, until one returns. -/
def executeAll (invoke : Invoke) (calls : List Call) (fuel : Nat) : List Stmt → Trace Flow
  | [] => return .normal
  | s :: ss => do
    match ← execute invoke calls fuel s with
    | .returned value => return .returned value
    | .normal => executeAll invoke calls fuel ss

end

/-- Runs the body of a function in a new frame inside the one it was declared in. -/
def invoke : Nat → Invoke
  | 0 => fun calls _ _ => silently calls Eval.outOfFuel
  | fuel + 1 => fun calls f arguments => do
    let frame ← silently calls (Eval.newFrame f.env (parameterBindings f.parameters arguments))
    let flow ← inFrame frame (executeAll (invoke fuel) calls fuel f.body)
    return flow.result

/-- Runs the statements of a program one after the other. -/
def runProgram (fuel : Nat) : List Stmt → Trace Unit
  | [] => return ()
  | s :: ss => do
    let _ ← execute (invoke fuel) [] fuel s
    runProgram fuel ss

/-- What comes of running a program. -/
structure Run where
  result : Except Failure Unit
  session : Session
  /-- What happened, the last event first. -/
  events : List Event
  /-- The calls during which the run stopped, if it did. -/
  calls : List Call
  /-- The identities of the functions that stand in the text of the program. -/
  own : List Nat

/-- The beginning of a run. -/
def State.start (m : Machine) : State := ⟨m, [], []⟩

/-- Runs a program. If it fails, what it did until then stays done. -/
def run (fuel : Nat) (source : String) (session : Session) : Run :=
  match Checked.ofSource session.nextId source with
  | (.error failure, nextId) => ⟨.error failure, ⟨session.machine, nextId⟩, [], [], []⟩
  | (.ok checked, nextId) =>
    match runProgram fuel checked.program (.start (session.machine.learn checked.distances)) with
    | .ok _ w => ⟨.ok (), ⟨w.machine, nextId⟩, w.events, [], w.own⟩
    | .error stop w =>
      ⟨.error (Session.failureOf stop.halt), ⟨w.machine, nextId⟩, w.events, stop.calls, w.own⟩

/-! ## Tracing changes nothing -/

/-- The end of a run without the account. -/
def forget : EStateM.Result Stop State α → EStateM.Result Halt Machine α
  | .ok a w => .ok a w.machine
  | .error stop w => .error stop.halt w.machine

/-- The traced computation does what the other one does. -/
def Shows (x : Trace α) (y : Eval α) : Prop := ∀ w, forget (x w) = y w.machine

namespace Shows

variable {x : Trace α} {y : Eval α}

theorem pure (a : α) : Shows (Pure.pure a) (Pure.pure a) := fun _ => rfl

theorem silently (calls : List Call) (part : Eval α) : Shows (silently calls part) part := by
  intro w
  unfold Trace.silently
  cases part w.machine <;> rfl

theorem bind {f : α → Trace β} {g : α → Eval β} (h : Shows x y)
    (next : ∀ a, Shows (f a) (g a)) : Shows (x >>= f) (y >>= g) := by
  intro w
  show forget (EStateM.bind x f w) = EStateM.bind y g w.machine
  unfold EStateM.bind
  rw [← h w]
  cases x w with
  | ok a w' => exact next a w'
  | error stop w' => rfl

/-- Noting something down does nothing. -/
theorem adopting {calls : List Call} (h : Shows x y) : Shows (adopt calls >>= fun _ => x) y :=
  fun _ => h _

theorem observed (h : Shows x y) (calls : List Call) : Shows (observed calls x) y := by
  intro w
  have inside := h (w.pass calls)
  unfold Trace.observed
  rw [show y w.machine = y (w.pass calls).machine from rfl, ← inside]
  cases x (w.pass calls) <;> rfl

theorem inFrame (h : Shows x y) (frame : FrameId) :
    Shows (inFrame frame x) (Eval.inFrame frame y) := by
  intro w
  unfold Trace.inFrame Eval.inFrame
  dsimp only
  rw [← h { w with machine := { w.machine with current := frame } }]
  cases x { w with machine := { w.machine with current := frame } } <;> rfl

/-- Counting down behind a call is the same as going back to the number from before, since what is
called restores it. -/
theorem duringCall (h : Shows x y) (restores : Restores y) :
    Shows (duringCall x) (Eval.duringCall y) := by
  intro w
  have inside := restores { w.machine with depth := w.machine.depth + 1 }
  unfold Trace.duringCall Eval.duringCall
  unfold Ends at inside
  dsimp only
  rw [← h { w with machine := { w.machine with depth := w.machine.depth + 1 } }] at inside ⊢
  cases hx : x { w with machine := { w.machine with depth := w.machine.depth + 1 } } <;>
    rw [hx] at inside <;> simp only [forget] at inside ⊢ <;> rw [inside.depth, Nat.add_sub_cancel]

end Shows

/-- What is traced of invocations is what they do, and they put back what they change. -/
structure ShowsInvoke (J : Invoke) (I : Lox.Invoke) : Prop where
  shows : ∀ calls f arguments, Shows (J calls f arguments) (I f arguments)
  restores : RestoringInvoke I

variable {J : Invoke} {I : Lox.Invoke}

theorem shows_call (h : ShowsInvoke J I) (calls : List Call) (closing : Token) (f : Closure)
    (arguments : List Value) :
    Shows (call J calls closing f arguments) (Eval.call I closing f arguments) := by
  intro w
  unfold call Eval.call
  by_cases count : arguments.length = f.parameters.length
  · rw [if_neg (not_not_intro count), if_neg (not_not_intro count)]
    show forget ((if maxCalls ≤ w.machine.depth then _ else _ : Trace Value) _) =
      (if maxCalls ≤ w.machine.depth then _ else _ : Eval Value) w.machine
    split
    · exact Shows.silently calls _ _
    · exact (((h.shows _ f arguments).observed _).duringCall (h.restores f arguments)) _
  · rw [if_pos count, if_pos count]
    exact Shows.silently calls _ w

mutual

theorem shows_evaluate (h : ShowsInvoke J I) (calls : List Call) : ∀ e : Expr,
    Shows (evaluate J calls e) (e.evaluate I)
  | .literal value => by
    rw [evaluate, Expr.evaluate]
    exact (Shows.pure _).observed calls
  | .grouping inner => by
    rw [evaluate, Expr.evaluate]
    exact (shows_evaluate h calls inner).observed calls
  | .unary op right => by
    rw [evaluate, Expr.evaluate]
    exact ((shows_evaluate h calls right).bind fun _ => .silently calls _).observed calls
  | .binary left op right => by
    rw [evaluate, Expr.evaluate]
    exact ((shows_evaluate h calls left).bind fun _ => (shows_evaluate h calls right).bind fun _ =>
      .silently calls _).observed calls
  | .logical left op right => by
    rw [evaluate, Expr.evaluate]
    refine ((shows_evaluate h calls left).bind fun a => ?_).observed calls
    split
    · exact .pure a
    · exact shows_evaluate h calls right
  | .var id name => by
    rw [evaluate, Expr.evaluate]
    exact (Shows.silently calls _).observed calls
  | .assign id target value => by
    rw [evaluate, Expr.evaluate]
    exact ((shows_evaluate h calls value).bind fun v =>
      (Shows.silently calls _).bind fun _ => .pure v).observed calls
  | .call callee closing arguments => by
    rw [evaluate, Expr.evaluate]
    refine ((shows_evaluate h calls callee).bind fun v => ?_).observed calls
    cases v with
    | function f =>
      exact (shows_evaluateAll h calls arguments).bind fun vs => shows_call h calls closing f vs
    | _ => exact .silently calls _

theorem shows_evaluateAll (h : ShowsInvoke J I) (calls : List Call) : ∀ es : List Expr,
    Shows (evaluateAll J calls es) (Expr.evaluateAll I es)
  | [] => .pure _
  | e :: es => by
    rw [evaluateAll, Expr.evaluateAll]
    exact (shows_evaluate h calls e).bind fun v => (shows_evaluateAll h calls es).bind fun vs =>
      .pure _

end

theorem shows_evaluate? (h : ShowsInvoke J I) (calls : List Call) (e : Option Expr) :
    Shows (evaluate? J calls e) (Expr.evaluate? I e) := by
  cases e with
  | none => exact .pure _
  | some e => exact shows_evaluate h calls e

theorem shows_repeatWhile (calls : List Call) {condition : Trace Value} {condition' : Eval Value}
    {body : Trace Flow} {body' : Eval Flow} (holds : Shows condition condition')
    (round : Shows body body') (fuel : Nat) :
    Shows (repeatWhile calls condition body fuel) (Lox.repeatWhile condition' body' fuel) := by
  induction fuel with
  | zero => exact .silently calls _
  | succ fuel ih =>
    rw [repeatWhile, Lox.repeatWhile]
    refine holds.bind fun v => ?_
    split
    · refine round.bind fun flow => ?_
      cases flow with
      | normal => exact ih
      | returned value => exact .pure _
    · exact .pure _

mutual

theorem shows_execute (h : ShowsInvoke J I) (calls : List Call) (fuel : Nat) : ∀ s : Stmt,
    Shows (execute J calls fuel s) (s.execute I fuel)
  | .expression value => by
    rw [execute, Stmt.execute]
    exact ((shows_evaluate h calls value).bind fun _ => .pure _).observed calls
  | .print keyword value => by
    rw [execute, Stmt.execute]
    exact ((shows_evaluate h calls value).bind fun v =>
      (Shows.silently calls _).bind fun _ => .pure _).observed calls
  | .var name initializer => by
    rw [execute, Stmt.execute]
    exact ((shows_evaluate? h calls initializer).bind fun v =>
      (Shows.silently calls _).bind fun _ => .pure _).observed calls
  | .block body => by
    rw [execute, Stmt.execute]
    refine Shows.observed (fun w => ?_) calls
    exact ((Shows.silently calls (Eval.newFrame w.machine.current [])).bind fun frame =>
      (shows_executeAll h calls fuel body).inFrame frame) w
  | .ifThen condition yes none => by
    rw [execute, Stmt.execute]
    refine ((shows_evaluate h calls condition).bind fun v => ?_).observed calls
    split
    · exact shows_execute h calls fuel yes
    · exact .pure _
  | .ifThen condition yes (some no) => by
    rw [execute, Stmt.execute]
    refine ((shows_evaluate h calls condition).bind fun v => ?_).observed calls
    split
    · exact shows_execute h calls fuel yes
    · exact shows_execute h calls fuel no
  | .whileDo condition body => by
    rw [execute, Stmt.execute]
    exact (shows_repeatWhile calls (shows_evaluate h calls condition)
      (shows_execute h calls fuel body) fuel).observed calls
  | .function name parameters body => by
    rw [execute, Stmt.execute]
    exact (Shows.adopting ((Shows.silently calls _).bind fun f =>
      (Shows.silently calls _).bind fun _ => .pure _)).observed calls
  | .ret _ value => by
    rw [execute, Stmt.execute]
    exact ((shows_evaluate? h calls value).bind fun v => .pure _).observed calls

theorem shows_executeAll (h : ShowsInvoke J I) (calls : List Call) (fuel : Nat) :
    ∀ ss : List Stmt, Shows (executeAll J calls fuel ss) (Stmt.executeAll I fuel ss)
  | [] => .pure _
  | s :: ss => by
    rw [executeAll, Stmt.executeAll]
    refine (shows_execute h calls fuel s).bind fun flow => ?_
    cases flow with
    | normal => exact shows_executeAll h calls fuel ss
    | returned value => exact .pure _

end

/-- Traced calls do what calls do. -/
theorem shows_invoke (fuel : Nat) : ShowsInvoke (invoke fuel) (Lox.invoke fuel) := by
  refine ⟨?_, restores_invoke fuel⟩
  induction fuel with
  | zero =>
    intro calls f arguments
    rw [invoke, Lox.invoke]
    exact .silently calls _
  | succ fuel ih =>
    intro calls f arguments
    rw [invoke, Lox.invoke]
    exact (Shows.silently calls _).bind fun frame =>
      ((shows_executeAll ⟨ih, restores_invoke fuel⟩ calls fuel f.body).inFrame frame).bind
        fun flow => .pure flow.result

/-- Traced programs do what programs do. -/
theorem shows_runProgram (fuel : Nat) (ss : List Stmt) :
    Shows (runProgram fuel ss) (Lox.runProgram fuel ss) := by
  induction ss with
  | nil => exact .pure _
  | cons s ss ih => exact (shows_execute (shows_invoke fuel) [] fuel s).bind fun _ => ih

/-- A traced run has the result of the run, and leaves the same session. -/
theorem run_shows (fuel : Nat) (source : String) (s : Session) :
    s.run fuel source = ((run fuel source s).result, (run fuel source s).session) := by
  obtain ⟨m, firstId⟩ := s
  unfold run Session.run
  dsimp only
  cases Checked.ofSource firstId source with
  | mk result nextId =>
    cases result with
    | error failure => rfl
    | ok c =>
      dsimp only
      have same := shows_runProgram fuel c.program (.start (m.learn c.distances))
      rw [← show _ = Lox.runProgram fuel c.program (m.learn c.distances) from same]
      cases runProgram fuel c.program (.start (m.learn c.distances)) with
      | ok _ w => rfl
      | error stop w => rfl

end Trace

end Lox
