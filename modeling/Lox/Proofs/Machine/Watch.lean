import Lox.Proofs.Scope.Mentions
import Lox.Session

/-!
# Watched runs

Running programs while noting down what happens to their variables. Nothing else is different, so
that what is found out about watched runs is true of runs.

* `Event` — what is noted down.
* `Watch` — a computation on a machine with the events so far.
* `Watch.evaluate`, `Watch.execute`, `Watch.invoke` — expressions, statements and calls.
* `Watch.Session.run` — checks and runs a program, like `Session.run`.
* `Watch.Shows` — a watched computation does the same as one that is not.
* `Watch.Session.runAll_shows` — so do watched sessions.
-/

namespace Lox

/-- Something that happens in a run. -/
inductive Event where
  /-- A program in which no error was found is about to run. -/
  | began (program : Program)
  /-- The frame is made for a block or for a call of a function. -/
  | entered (site : Site) (frame : FrameId)
  /-- Evaluation has come to a mention of a variable. -/
  | reached (id : RefId) (name : Token) (assigns : Bool) (m : Machine)
  /-- The value is known that a variable is to be given. -/
  | assigning (id : RefId) (name : Token) (value : Value) (m : Machine)

namespace Watch

/-- A machine and what has happened so far, the last event first. -/
structure State where
  machine : Machine
  events : List Event

end Watch

/-- A computation on a machine while events are noted down. -/
abbrev Watch := EStateM Halt Watch.State

namespace Watch

variable {α β : Type}

/-- A part of a run in which nothing happens that is noted down. -/
def silently (part : Eval α) : Watch α := fun w =>
  match part w.machine with
  | .ok a m => .ok a ⟨m, w.events⟩
  | .error halt m => .error halt ⟨m, w.events⟩

/-- Notes down an event. -/
def note (event : Machine → Event) : Watch Unit := fun w =>
  .ok () ⟨w.machine, event w.machine :: w.events⟩

/-- A part of a run with another frame as the current one. -/
def inFrame (frame : FrameId) (part : Watch α) : Watch α := fun w =>
  let outside := w.machine.current
  match part ⟨{ w.machine with current := frame }, w.events⟩ with
  | .ok a w' => .ok a ⟨{ w'.machine with current := outside }, w'.events⟩
  | .error halt w' => .error halt ⟨{ w'.machine with current := outside }, w'.events⟩

/-- A part of a run with one more call active. -/
def duringCall (part : Watch α) : Watch α := fun w =>
  let outside := w.machine.depth
  match part ⟨{ w.machine with depth := outside + 1 }, w.events⟩ with
  | .ok a w' => .ok a ⟨{ w'.machine with depth := outside }, w'.events⟩
  | .error halt w' => .error halt ⟨{ w'.machine with depth := outside }, w'.events⟩

/-- A part of a run in a new frame that is made for a block or a call. -/
def inside (site : Site) (parent : FrameId) (bindings : Bindings) (part : Watch α) : Watch α := do
  note fun m => .entered site m.frames.size
  let frame ← silently (Eval.newFrame parent bindings)
  inFrame frame part

/-- How to run the body of a function on some arguments. -/
abbrev Invoke := Closure → List Value → Watch Value

/-- Calls a function, if the arguments are as many as the parameters and there are not too many
active calls. -/
def call (invoke : Invoke) (closing : Token) (f : Closure) (arguments : List Value) :
    Watch Value := do
  if arguments.length ≠ f.parameters.length then
    silently (Eval.fail closing.line (.arityMismatch f.parameters.length arguments.length))
  else if maxCalls ≤ (← get).machine.depth then
    silently (Eval.fail closing.line .stackOverflow)
  else
    duringCall (invoke f arguments)

mutual

/-- The value of an expression. -/
def evaluate (invoke : Invoke) : Expr → Watch Value
  | .literal value => return .ofLiteral value
  | .grouping inner => evaluate invoke inner
  | .unary op right => do
    let value ← evaluate invoke right
    silently (Eval.orFail op.line (Value.unary op value))
  | .binary left op right => do
    let a ← evaluate invoke left
    let b ← evaluate invoke right
    silently (Eval.orFail op.line (Value.binary op a b))
  | .logical left op right => do
    let a ← evaluate invoke left
    if op.settledBy a then return a else evaluate invoke right
  | .var id name => do
    note (.reached id name false)
    silently (Eval.read id name)
  | .assign id target value => do
    note (.reached id target true)
    let v ← evaluate invoke value
    note (.assigning id target v)
    silently (Eval.write id target v)
    return v
  | .call callee closing arguments => do
    match ← evaluate invoke callee with
    | .function f =>
      let values ← evaluateAll invoke arguments
      call invoke closing f values
    | other => silently (Eval.fail closing.line (.notCallable other.text))

/-- The values of expressions, from left to right. -/
def evaluateAll (invoke : Invoke) : List Expr → Watch (List Value)
  | [] => return []
  | e :: es => do
    let value ← evaluate invoke e
    let values ← evaluateAll invoke es
    return value :: values

end

/-- The value of an expression that may be missing. -/
def evaluate? (invoke : Invoke) : Option Expr → Watch Value
  | none => return .nil
  | some e => evaluate invoke e

/-- Runs the body of a loop as long as the condition holds and the body does not return. -/
def repeatWhile (condition : Watch Value) (body : Watch Flow) : Nat → Watch Flow
  | 0 => silently Eval.outOfFuel
  | fuel + 1 => do
    if (← condition).truthy then
      match ← body with
      | .returned value => return .returned value
      | .normal => repeatWhile condition body fuel
    else return .normal

mutual

/-- What a statement does. -/
def execute (invoke : Invoke) (fuel : Nat) : Stmt → Watch Flow
  | .expression value => do
    let _ ← evaluate invoke value
    return .normal
  | .print keyword value => do
    let v ← evaluate invoke value
    silently (Eval.print keyword.line v.text)
    return .normal
  | .var name initializer => do
    let v ← evaluate? invoke initializer
    silently (Eval.define name v)
    return .normal
  | .block body => do
    inside (.block body) (← get).machine.current [] (executeAll invoke fuel body)
  | .ifThen condition yes none => do
    if (← evaluate invoke condition).truthy then execute invoke fuel yes else return .normal
  | .ifThen condition yes (some no) => do
    if (← evaluate invoke condition).truthy then execute invoke fuel yes
    else execute invoke fuel no
  | .whileDo condition body =>
    repeatWhile (evaluate invoke condition) (execute invoke fuel body) fuel
  | .function name parameters body => do
    let f ← silently (Eval.closure name parameters body)
    silently (Eval.define name f)
    return .normal
  | .ret _ value => do
    let v ← evaluate? invoke value
    return .returned v

/-- What statements do one after the other, until one returns. -/
def executeAll (invoke : Invoke) (fuel : Nat) : List Stmt → Watch Flow
  | [] => return .normal
  | s :: ss => do
    match ← execute invoke fuel s with
    | .returned value => return .returned value
    | .normal => executeAll invoke fuel ss

end

/-- Runs the body of a function in a new frame inside the one it was declared in. -/
def invoke : Nat → Invoke
  | 0 => fun _ _ => silently Eval.outOfFuel
  | fuel + 1 => fun f arguments => do
    let flow ← inside (.function f.name f.parameters f.body) f.env
      (parameterBindings f.parameters arguments) (executeAll (invoke fuel) fuel f.body)
    return flow.result

/-- Runs the statements of a program one after the other. -/
def runProgram (fuel : Nat) : List Stmt → Watch Unit
  | [] => return ()
  | s :: ss => do
    let _ ← execute (invoke fuel) fuel s
    runProgram fuel ss

/-- A machine that is watched, with the next identity for a mention of a variable. -/
structure Session where
  state : State
  nextId : RefId

namespace Session

/-- A session in which nothing has run yet. -/
def start (limit : Option Nat) : Session := ⟨⟨Machine.start limit, []⟩, 0⟩

/-- Runs a program. If it fails, what it did until then stays done. -/
def run (fuel : Nat) (source : String) (session : Session) : Except Failure Unit × Session :=
  let ⟨⟨machine, events⟩, firstId⟩ := session
  match Checked.ofSource firstId source with
  | (.error failure, nextId) => (.error failure, ⟨⟨machine, events⟩, nextId⟩)
  | (.ok checked, nextId) =>
    match runProgram fuel checked.program
        ⟨machine.learn checked.distances, .began checked.program :: events⟩ with
    | .ok _ w => (.ok (), ⟨w, nextId⟩)
    | .error halt w => (.error (Session.failureOf halt), ⟨w, nextId⟩)

/-- Runs programs one after the other, each with so much fuel. -/
def runAll : List (Nat × String) → Session → List (Except Failure Unit) × Session
  | [], session => ([], session)
  | (fuel, source) :: programs, session =>
    let (result, session') := session.run fuel source
    let (results, session'') := runAll programs session'
    (result :: results, session'')

/-- The session without the events. -/
def unwatched (session : Session) : Lox.Session := ⟨session.state.machine, session.nextId⟩

end Session

/-! ## Watching changes nothing -/

variable {γ δ : Type}

/-- The end of a run without the events. -/
def forget : EStateM.Result Halt State α → EStateM.Result Halt Machine α
  | .ok a w => .ok a w.machine
  | .error halt w => .error halt w.machine

/-- The watched computation does what the other one does. -/
def Shows (x : Watch α) (y : Eval α) : Prop := ∀ w, forget (x w) = y w.machine

namespace Shows

theorem pure (a : α) : Shows (Pure.pure a) (Pure.pure a) := fun _ => rfl

theorem silently (part : Eval α) : Shows (silently part) part := by
  intro w
  unfold Watch.silently
  cases part w.machine <;> rfl

theorem bind {x : Watch α} {y : Eval α} {f : α → Watch β} {g : α → Eval β} (h : Shows x y)
    (next : ∀ a, Shows (f a) (g a)) : Shows (x >>= f) (y >>= g) := by
  intro w
  show forget (EStateM.bind x f w) = EStateM.bind y g w.machine
  unfold EStateM.bind
  rw [← h w]
  cases x w with
  | ok a w' => exact next a w'
  | error halt w' => rfl

/-- Noting something down does nothing. -/
theorem noting {event : Machine → Event} {x : Watch α} {y : Eval α} (h : Shows x y) :
    Shows (note event >>= fun _ => x) y := fun _ => h _

theorem inFrame {x : Watch α} {y : Eval α} (h : Shows x y) (frame : FrameId) :
    Shows (inFrame frame x) (Eval.inFrame frame y) := by
  intro w
  unfold Watch.inFrame Eval.inFrame
  dsimp only
  rw [← h ⟨{ w.machine with current := frame }, w.events⟩]
  cases x ⟨{ w.machine with current := frame }, w.events⟩ <;> rfl

theorem duringCall {x : Watch α} {y : Eval α} (h : Shows x y) :
    Shows (duringCall x) (Eval.duringCall y) := by
  intro w
  unfold Watch.duringCall Eval.duringCall
  dsimp only
  rw [← h ⟨{ w.machine with depth := w.machine.depth + 1 }, w.events⟩]
  cases x ⟨{ w.machine with depth := w.machine.depth + 1 }, w.events⟩ <;> rfl

theorem inside {x : Watch α} {y : Eval α} (h : Shows x y) (site : Site) (parent : FrameId)
    (bindings : Bindings) :
    Shows (inside site parent bindings x)
      (Eval.newFrame parent bindings >>= fun frame => Eval.inFrame frame y) :=
  .noting ((Shows.silently _).bind fun frame => h.inFrame frame)

end Shows

/-- What is watched of invocations is what they do. -/
def ShowsInvoke (J : Invoke) (I : Lox.Invoke) : Prop :=
  ∀ f arguments, Shows (J f arguments) (I f arguments)

variable {J : Invoke} {I : Lox.Invoke}

theorem shows_call (h : ShowsInvoke J I) (closing : Token) (f : Closure) (arguments : List Value) :
    Shows (call J closing f arguments) (Eval.call I closing f arguments) := by
  intro w
  unfold call Eval.call
  by_cases count : arguments.length = f.parameters.length
  · rw [if_neg (not_not_intro count), if_neg (not_not_intro count)]
    show forget ((if maxCalls ≤ w.machine.depth then _ else _ : Watch Value) w) =
      (if maxCalls ≤ w.machine.depth then _ else _ : Eval Value) w.machine
    split
    · exact Shows.silently _ w
    · exact (h f arguments).duringCall w
  · rw [if_pos count, if_pos count]
    exact Shows.silently _ w

mutual

theorem shows_evaluate (h : ShowsInvoke J I) : ∀ e : Expr, Shows (evaluate J e) (e.evaluate I)
  | .literal value => .pure _
  | .grouping inner => by
    rw [evaluate, Expr.evaluate]
    exact shows_evaluate h inner
  | .unary op right => by
    rw [evaluate, Expr.evaluate]
    exact (shows_evaluate h right).bind fun _ => .silently _
  | .binary left op right => by
    rw [evaluate, Expr.evaluate]
    exact (shows_evaluate h left).bind fun _ => (shows_evaluate h right).bind fun _ => .silently _
  | .logical left op right => by
    rw [evaluate, Expr.evaluate]
    refine (shows_evaluate h left).bind fun a => ?_
    split
    · exact .pure a
    · exact shows_evaluate h right
  | .var id name => by
    rw [evaluate, Expr.evaluate]
    exact .noting (.silently _)
  | .assign id target value => by
    rw [evaluate, Expr.evaluate]
    exact .noting ((shows_evaluate h value).bind fun v =>
      .noting ((Shows.silently _).bind fun _ => .pure v))
  | .call callee closing arguments => by
    rw [evaluate, Expr.evaluate]
    refine (shows_evaluate h callee).bind fun v => ?_
    cases v with
    | function f => exact (shows_evaluateAll h arguments).bind fun vs => shows_call h closing f vs
    | _ => exact .silently _

theorem shows_evaluateAll (h : ShowsInvoke J I) : ∀ es : List Expr,
    Shows (evaluateAll J es) (Expr.evaluateAll I es)
  | [] => .pure _
  | e :: es => by
    rw [evaluateAll, Expr.evaluateAll]
    exact (shows_evaluate h e).bind fun v => (shows_evaluateAll h es).bind fun vs => .pure _

end

theorem shows_evaluate? (h : ShowsInvoke J I) (e : Option Expr) :
    Shows (evaluate? J e) (Expr.evaluate? I e) := by
  cases e with
  | none => exact .pure _
  | some e => exact shows_evaluate h e

theorem shows_repeatWhile {condition : Watch Value} {condition' : Eval Value} {body : Watch Flow}
    {body' : Eval Flow} (holds : Shows condition condition') (round : Shows body body')
    (fuel : Nat) : Shows (repeatWhile condition body fuel) (Lox.repeatWhile condition' body' fuel) := by
  induction fuel with
  | zero => exact .silently _
  | succ fuel ih =>
    rw [repeatWhile, Lox.repeatWhile]
    refine holds.bind fun v => ?_
    split
    · refine round.bind fun flow => ?_
      cases flow with
      | normal => exact ih
      | returned value => exact .pure _
    · exact .pure _

mutual

theorem shows_execute (h : ShowsInvoke J I) (fuel : Nat) : ∀ s : Stmt,
    Shows (execute J fuel s) (s.execute I fuel)
  | .expression value => by
    rw [execute, Stmt.execute]
    exact (shows_evaluate h value).bind fun _ => .pure _
  | .print keyword value => by
    rw [execute, Stmt.execute]
    exact (shows_evaluate h value).bind fun v => (Shows.silently _).bind fun _ => .pure _
  | .var name initializer => by
    rw [execute, Stmt.execute]
    exact (shows_evaluate? h initializer).bind fun v => (Shows.silently _).bind fun _ => .pure _
  | .block body => by
    rw [execute, Stmt.execute]
    exact fun w => (shows_executeAll h fuel body).inside (.block body) w.machine.current [] w
  | .ifThen condition yes none => by
    rw [execute, Stmt.execute]
    refine (shows_evaluate h condition).bind fun v => ?_
    split
    · exact shows_execute h fuel yes
    · exact .pure _
  | .ifThen condition yes (some no) => by
    rw [execute, Stmt.execute]
    refine (shows_evaluate h condition).bind fun v => ?_
    split
    · exact shows_execute h fuel yes
    · exact shows_execute h fuel no
  | .whileDo condition body => by
    rw [execute, Stmt.execute]
    exact shows_repeatWhile (shows_evaluate h condition) (shows_execute h fuel body) fuel
  | .function name parameters body => by
    rw [execute, Stmt.execute]
    exact (Shows.silently _).bind fun f => (Shows.silently _).bind fun _ => .pure _
  | .ret _ value => by
    rw [execute, Stmt.execute]
    exact (shows_evaluate? h value).bind fun v => .pure _

theorem shows_executeAll (h : ShowsInvoke J I) (fuel : Nat) : ∀ ss : List Stmt,
    Shows (executeAll J fuel ss) (Stmt.executeAll I fuel ss)
  | [] => .pure _
  | s :: ss => by
    rw [executeAll, Stmt.executeAll]
    refine (shows_execute h fuel s).bind fun flow => ?_
    cases flow with
    | normal => exact shows_executeAll h fuel ss
    | returned value => exact .pure _

end

/-- Watched calls do what calls do. -/
theorem shows_invoke (fuel : Nat) : ShowsInvoke (invoke fuel) (Lox.invoke fuel) := by
  induction fuel with
  | zero =>
    intro f arguments
    rw [invoke, Lox.invoke]
    exact .silently _
  | succ fuel ih =>
    intro f arguments
    rw [invoke, Lox.invoke]
    have body := (shows_executeAll ih fuel f.body).inside (.function f.name f.parameters f.body)
      f.env (parameterBindings f.parameters arguments)
    have whole := body.bind fun flow => Shows.pure flow.result
    rw [bind_assoc] at whole
    exact whole

/-- Watched programs do what programs do. -/
theorem shows_runProgram (fuel : Nat) (ss : List Stmt) :
    Shows (runProgram fuel ss) (Lox.runProgram fuel ss) := by
  induction ss with
  | nil => exact .pure _
  | cons s ss ih => exact (shows_execute (shows_invoke fuel) fuel s).bind fun _ => ih

namespace Session

theorem run_shows (fuel : Nat) (source : String) (s : Session) :
    (s.run fuel source).1 = (s.unwatched.run fuel source).1 ∧
      (s.run fuel source).2.unwatched = (s.unwatched.run fuel source).2 := by
  obtain ⟨⟨m, events⟩, nextId⟩ := s
  unfold run unwatched Lox.Session.run
  dsimp only
  cases Checked.ofSource nextId source with
  | mk result nextId' =>
    cases result with
    | error failure => exact ⟨rfl, rfl⟩
    | ok c =>
      dsimp only
      have same := shows_runProgram fuel c.program ⟨m.learn c.distances, .began c.program :: events⟩
      rw [← same]
      cases runProgram fuel c.program ⟨m.learn c.distances, .began c.program :: events⟩ with
      | ok _ w => exact ⟨rfl, rfl⟩
      | error halt w => exact ⟨rfl, rfl⟩

/-- A watched session has the results of the session, and leaves the same machine. -/
theorem runAll_shows (programs : List (Nat × String)) (s : Session) :
    (s.runAll programs).1 = (s.unwatched.runAll programs).1 ∧
      (s.runAll programs).2.unwatched = (s.unwatched.runAll programs).2 := by
  induction programs generalizing s with
  | nil => exact ⟨rfl, rfl⟩
  | cons program programs ih =>
    obtain ⟨fuel, source⟩ := program
    obtain ⟨first, behind⟩ := run_shows fuel source s
    obtain ⟨others, last⟩ := ih (s.run fuel source).2
    rw [behind] at others last
    refine ⟨?_, last⟩
    show (s.run fuel source).1 :: ((s.run fuel source).2.runAll programs).1 =
      (s.unwatched.run fuel source).1 :: ((s.unwatched.run fuel source).2.runAll programs).1
    rw [first, others]

end Session

end Watch

end Lox
