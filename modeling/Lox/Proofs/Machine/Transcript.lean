import Lox.Repl

/-!
# Transcripts

Running programs while writing down what they print, and whether the sink took it. Nothing else is
different, so that what a transcript says is true of the session.

* `Printing` — a text that a `print` statement has written, or tried to write.
* `Transcript` — a computation on a machine with the printings so far.
* `Transcript.evaluate`, `Transcript.execute`, `Transcript.invoke` — expressions, statements, calls.
* `Transcript.Closed` — what holds of the steps of a run and is kept when they are put together;
  `Transcript.Closed.runProgram` — it holds of whole programs.
* `Act`, `Entry`, `Session.transcript` — what a session does, and what is written down about it.
* `Session.runAll_eq_transcript`, `Repl.converse_eq_transcript` — a transcript has the results of a
  session of programs, and the reports of an interactive one.
-/

namespace Lox

/-! ## Steps and the sink -/

section Steps

variable {ε σ τ α : Type}

/-- How a computation ends, with a change made to the state. -/
def onState (f : σ → τ) : EStateM.Result ε σ α → EStateM.Result ε τ α
  | .ok a s => .ok a (f s)
  | .error e s => .error e (f s)

/-- The state in which a computation ends. -/
def stateOf : EStateM.Result ε σ α → σ
  | .ok _ s => s
  | .error _ s => s

@[simp] theorem stateOf_onState (f : σ → τ) (r : EStateM.Result ε σ α) :
    stateOf (onState f r) = f (stateOf r) := by
  cases r <;> rfl

end Steps

/-- The machine with another sink. -/
def Machine.withSink (m : Machine) (sink : Sink) : Machine := { m with sink := sink }

@[simp] theorem Machine.sink_withSink (m : Machine) (sink : Sink) : (m.withSink sink).sink = sink := rfl

@[simp] theorem Machine.withSink_self (m : Machine) : m.withSink m.sink = m := rfl

/-- The step neither looks at the sink nor changes it. -/
def Quiet {α : Type} (step : Eval α) : Prop :=
  ∀ m sink, step (m.withSink sink) = onState (·.withSink sink) (step m)

namespace Eval

/-- How many calls are active. -/
def depth : Eval Nat := fun m => .ok m.depth m

/-- A new frame for a block, inside the current one. -/
def blockFrame : Eval FrameId := fun m => newFrame m.current [] m

/-- A step that has nothing to do with the sink leaves it as it is. -/
theorem sink_of_quiet {α : Type} {step : Eval α} (h : Quiet step) (m : Machine) :
    (stateOf (step m)).sink = m.sink := by
  have same := congrArg (fun r => (stateOf r).sink) (h m m.sink)
  rwa [Machine.withSink_self, stateOf_onState, Machine.sink_withSink] at same

theorem quiet_depth : Quiet depth := fun _ _ => rfl

theorem quiet_newFrame (parent : FrameId) (bindings : Bindings) : Quiet (newFrame parent bindings) :=
  fun _ _ => rfl

theorem quiet_blockFrame : Quiet blockFrame := fun _ _ => rfl

theorem quiet_define (name : Token) (value : Value) : Quiet (define name value) := fun _ _ => rfl

theorem quiet_closure (name : Token) (parameters : List Token) (body : List Stmt) :
    Quiet (closure name parameters body) := fun _ _ => rfl

theorem quiet_fail {α : Type} (line : Nat) (cause : RuntimeError.Cause) :
    Quiet (fail line cause : Eval α) := fun _ _ => rfl

theorem quiet_outOfFuel {α : Type} : Quiet (outOfFuel : Eval α) := fun _ _ => rfl

theorem quiet_orFail {α : Type} (line : Nat) (r : Except RuntimeError.Cause α) :
    Quiet (orFail line r) := by
  intro m sink
  cases r <;> rfl

theorem quiet_read (id : RefId) (name : Token) : Quiet (read id name) := by
  intro m sink
  have frames : (m.withSink sink).frames = m.frames := rfl
  have holder : (m.withSink sink).holder? id name.lexeme = m.holder? id name.lexeme := rfl
  unfold read
  rw [frames, holder]
  cases (m.holder? id name.lexeme).bind fun i => (m.frames.bindings i).lookup name.lexeme <;> rfl

theorem quiet_write (id : RefId) (name : Token) (value : Value) : Quiet (write id name value) := by
  intro m sink
  have holder : (m.withSink sink).holder? id name.lexeme = m.holder? id name.lexeme := rfl
  unfold write
  rw [holder]
  cases m.holder? id name.lexeme <;> rfl

/-- A part of a run before which the machine is changed, and behind which it is changed again in view
of what it was before. -/
def within {α : Type} (enter : Machine → Machine) (leave : Machine → Machine → Machine)
    (part : Eval α) : Eval α := fun m => onState (leave m) (part (enter m))

theorem inFrame_eq_within {α : Type} (frame : FrameId) (part : Eval α) :
    inFrame frame part =
      within (fun m => { m with current := frame }) (fun m m' => { m' with current := m.current })
        part := by
  funext m
  unfold inFrame within
  dsimp only
  cases part { m with current := frame } <;> rfl

theorem duringCall_eq_within {α : Type} (part : Eval α) :
    duringCall part =
      within (fun m => { m with depth := m.depth + 1 }) (fun m m' => { m' with depth := m.depth })
        part := by
  funext m
  unfold duringCall within
  dsimp only
  cases part { m with depth := m.depth + 1 } <;> rfl

end Eval

/-- The changes around a part of a run have nothing to do with the sink. -/
structure Apart (enter : Machine → Machine) (leave : Machine → Machine → Machine) : Prop where
  enter : ∀ m sink, enter (m.withSink sink) = (enter m).withSink sink
  leave : ∀ m m' sink sink', leave (m.withSink sink) (m'.withSink sink') = (leave m m').withSink sink'

namespace Apart

variable {enter : Machine → Machine} {leave : Machine → Machine → Machine}

theorem sink_enter (h : Apart enter leave) (m : Machine) : (enter m).sink = m.sink := by
  have same := congrArg Machine.sink (h.enter m m.sink)
  rwa [Machine.withSink_self, Machine.sink_withSink] at same

theorem sink_leave (h : Apart enter leave) (m m' : Machine) : (leave m m').sink = m'.sink := by
  have same := congrArg Machine.sink (h.leave m m' m.sink m'.sink)
  rwa [Machine.withSink_self, Machine.withSink_self, Machine.sink_withSink] at same

end Apart

/-! ## Computations that are written down -/

/-- A text that a `print` statement has written, or tried to write. -/
structure Printing where
  keyword : Token
  text : String
  /-- The sink took all of it. -/
  taken : Bool

namespace Transcript

/-- A machine and what was printed so far. -/
structure State where
  machine : Machine
  printings : List Printing

end Transcript

/-- A computation on a machine while printings are written down. -/
abbrev Transcript := EStateM Halt Transcript.State

namespace Transcript

variable {α β : Type}

/-- A step that prints nothing. -/
def quietly (step : Eval α) : Transcript α := fun w =>
  onState (⟨·, w.printings⟩) (step w.machine)

/-- Prints a text and ends the line. -/
def say (keyword : Token) (text : String) : Transcript Unit := fun w =>
  let taken := (w.machine.sink.write (text ++ "\n")).1
  onState (⟨·, w.printings ++ [⟨keyword, text, taken⟩]⟩) (Eval.print keyword.line text w.machine)

/-- A part of a run around which the machine is changed. -/
def within (enter : Machine → Machine) (leave : Machine → Machine → Machine)
    (part : Transcript α) : Transcript α := fun w =>
  onState (fun w' => ⟨leave w.machine w'.machine, w'.printings⟩)
    (part ⟨enter w.machine, w.printings⟩)

/-- A part of a run with another frame as the current one. -/
def inFrame (frame : FrameId) : Transcript α → Transcript α :=
  within (fun m => { m with current := frame }) fun m m' => { m' with current := m.current }

/-- A part of a run with one more call active. -/
def duringCall : Transcript α → Transcript α :=
  within (fun m => { m with depth := m.depth + 1 }) fun m m' => { m' with depth := m.depth }

/-- How to run the body of a function on some arguments. -/
abbrev Invoke := Closure → List Value → Transcript Value

/-- Calls a function, if the arguments are as many as the parameters and there are not too many
active calls. -/
def call (invoke : Invoke) (closing : Token) (f : Closure) (arguments : List Value) :
    Transcript Value := do
  if arguments.length ≠ f.parameters.length then
    quietly (Eval.fail closing.line (.arityMismatch f.parameters.length arguments.length))
  else if maxCalls ≤ (← quietly Eval.depth) then
    quietly (Eval.fail closing.line .stackOverflow)
  else
    duringCall (invoke f arguments)

mutual

/-- The value of an expression. -/
def evaluate (invoke : Invoke) : Expr → Transcript Value
  | .literal value => return .ofLiteral value
  | .grouping inner => evaluate invoke inner
  | .unary op right => do
    let value ← evaluate invoke right
    quietly (Eval.orFail op.line (Value.unary op value))
  | .binary left op right => do
    let a ← evaluate invoke left
    let b ← evaluate invoke right
    quietly (Eval.orFail op.line (Value.binary op a b))
  | .logical left op right => do
    let a ← evaluate invoke left
    if op.settledBy a then return a else evaluate invoke right
  | .var id name => quietly (Eval.read id name)
  | .assign id target value => do
    let v ← evaluate invoke value
    quietly (Eval.write id target v)
    return v
  | .call callee closing arguments => do
    match ← evaluate invoke callee with
    | .function f =>
      let values ← evaluateAll invoke arguments
      call invoke closing f values
    | other => quietly (Eval.fail closing.line (.notCallable other.text))

/-- The values of expressions, from left to right. -/
def evaluateAll (invoke : Invoke) : List Expr → Transcript (List Value)
  | [] => return []
  | e :: es => do
    let value ← evaluate invoke e
    let values ← evaluateAll invoke es
    return value :: values

end

/-- The value of an expression that may be missing. -/
def evaluate? (invoke : Invoke) : Option Expr → Transcript Value
  | none => return .nil
  | some e => evaluate invoke e

/-- Runs the body of a loop as long as the condition holds and the body does not return. -/
def repeatWhile (condition : Transcript Value) (body : Transcript Flow) : Nat → Transcript Flow
  | 0 => quietly Eval.outOfFuel
  | fuel + 1 => do
    if (← condition).truthy then
      match ← body with
      | .returned value => return .returned value
      | .normal => repeatWhile condition body fuel
    else return .normal

mutual

/-- What a statement does. -/
def execute (invoke : Invoke) (fuel : Nat) : Stmt → Transcript Flow
  | .expression value => do
    let _ ← evaluate invoke value
    return .normal
  | .print keyword value => do
    let v ← evaluate invoke value
    say keyword v.text
    return .normal
  | .var name initializer => do
    let v ← evaluate? invoke initializer
    quietly (Eval.define name v)
    return .normal
  | .block body => do
    let frame ← quietly Eval.blockFrame
    inFrame frame (executeAll invoke fuel body)
  | .ifThen condition yes none => do
    if (← evaluate invoke condition).truthy then execute invoke fuel yes else return .normal
  | .ifThen condition yes (some no) => do
    if (← evaluate invoke condition).truthy then execute invoke fuel yes
    else execute invoke fuel no
  | .whileDo condition body =>
    repeatWhile (evaluate invoke condition) (execute invoke fuel body) fuel
  | .function name parameters body => do
    let f ← quietly (Eval.closure name parameters body)
    quietly (Eval.define name f)
    return .normal
  | .ret _ value => do
    let v ← evaluate? invoke value
    return .returned v

/-- What statements do one after the other, until one returns. -/
def executeAll (invoke : Invoke) (fuel : Nat) : List Stmt → Transcript Flow
  | [] => return .normal
  | s :: ss => do
    match ← execute invoke fuel s with
    | .returned value => return .returned value
    | .normal => executeAll invoke fuel ss

end

/-- Runs the body of a function in a new frame inside the one it was declared in. -/
def invoke : Nat → Invoke
  | 0 => fun _ _ => quietly Eval.outOfFuel
  | fuel + 1 => fun f arguments => do
    let frame ← quietly (Eval.newFrame f.env (parameterBindings f.parameters arguments))
    let flow ← inFrame frame (executeAll (invoke fuel) fuel f.body)
    return flow.result

/-- Runs the statements of a program one after the other. -/
def runProgram (fuel : Nat) : List Stmt → Transcript Unit
  | [] => return ()
  | s :: ss => do
    let _ ← execute (invoke fuel) fuel s
    runProgram fuel ss

/-! ## What holds of all parts of a run -/

/-- What holds of the steps of a run and is kept when they are put together. It is said of a
computation that is written down next to the one that is not. -/
structure Closed (P : ∀ {α : Type}, Transcript α → Eval α → Prop) : Prop where
  pure : ∀ {α : Type} (a : α), P (Pure.pure a) (Pure.pure a)
  bind : ∀ {α β : Type} {x : Transcript α} {y : Eval α} {f : α → Transcript β} {g : α → Eval β},
    P x y → (∀ a, P (f a) (g a)) → P (x >>= f) (y >>= g)
  quietly : ∀ {α : Type} {step : Eval α}, Quiet step → P (Transcript.quietly step) step
  say : ∀ (keyword : Token) (text : String),
    P (Transcript.say keyword text) (Eval.print keyword.line text)
  within : ∀ {α : Type} {enter : Machine → Machine} {leave : Machine → Machine → Machine}
    {x : Transcript α} {y : Eval α}, Apart enter leave → P x y →
      P (Transcript.within enter leave x) (Eval.within enter leave y)

namespace Closed

variable {P : ∀ {α : Type}, Transcript α → Eval α → Prop} {J : Invoke} {I : Lox.Invoke}

theorem ite (_ : Closed P) {c : Prop} [Decidable c] {x x' : Transcript α} {y y' : Eval α}
    (h : P x y) (h' : P x' y') : P (if c then x else x') (if c then y else y') := by
  split
  · exact h
  · exact h'

theorem inFrame (closed : Closed P) (frame : FrameId) {x : Transcript α} {y : Eval α} (h : P x y) :
    P (inFrame frame x) (Eval.inFrame frame y) := by
  rw [Eval.inFrame_eq_within]
  exact closed.within ⟨fun _ _ => rfl, fun _ _ _ _ => rfl⟩ h

theorem duringCall (closed : Closed P) {x : Transcript α} {y : Eval α} (h : P x y) :
    P (duringCall x) (Eval.duringCall y) := by
  rw [Eval.duringCall_eq_within]
  exact closed.within ⟨fun _ _ => rfl, fun _ _ _ _ => rfl⟩ h

theorem call (closed : Closed P) (invoked : ∀ f arguments, P (J f arguments) (I f arguments))
    (closing : Token) (f : Closure) (arguments : List Value) :
    P (call J closing f arguments) (Eval.call I closing f arguments) := by
  refine closed.ite (closed.quietly (Eval.quiet_fail _ _)) ?_
  have counted : P (Transcript.quietly Eval.depth >>= fun depth => if maxCalls ≤ depth then
        Transcript.quietly (Eval.fail closing.line .stackOverflow)
      else Transcript.duringCall (J f arguments))
      (Eval.depth >>= fun depth => if maxCalls ≤ depth then
        Eval.fail closing.line .stackOverflow else Eval.duringCall (I f arguments)) :=
    closed.bind (closed.quietly Eval.quiet_depth) fun _ =>
      closed.ite (closed.quietly (Eval.quiet_fail _ _)) (closed.duringCall (invoked f arguments))
  exact counted

mutual

theorem evaluate (closed : Closed P) (invoked : ∀ f arguments, P (J f arguments) (I f arguments)) :
    ∀ e : Expr, P (evaluate J e) (e.evaluate I)
  | .literal value => closed.pure _
  | .grouping inner => by
    rw [Transcript.evaluate, Expr.evaluate]
    exact evaluate closed invoked inner
  | .unary op right => by
    rw [Transcript.evaluate, Expr.evaluate]
    exact closed.bind (evaluate closed invoked right) fun _ => closed.quietly (Eval.quiet_orFail _ _)
  | .binary left op right => by
    rw [Transcript.evaluate, Expr.evaluate]
    exact closed.bind (evaluate closed invoked left) fun _ =>
      closed.bind (evaluate closed invoked right) fun _ => closed.quietly (Eval.quiet_orFail _ _)
  | .logical left op right => by
    rw [Transcript.evaluate, Expr.evaluate]
    exact closed.bind (evaluate closed invoked left) fun _ =>
      closed.ite (closed.pure _) (evaluate closed invoked right)
  | .var id name => by
    rw [Transcript.evaluate, Expr.evaluate]
    exact closed.quietly (Eval.quiet_read id name)
  | .assign id target value => by
    rw [Transcript.evaluate, Expr.evaluate]
    exact closed.bind (evaluate closed invoked value) fun v =>
      closed.bind (closed.quietly (Eval.quiet_write id target v)) fun _ => closed.pure v
  | .call callee closing arguments => by
    rw [Transcript.evaluate, Expr.evaluate]
    refine closed.bind (evaluate closed invoked callee) fun v => ?_
    cases v with
    | function f =>
      exact closed.bind (evaluateAll closed invoked arguments) fun vs =>
        closed.call invoked closing f vs
    | _ => exact closed.quietly (Eval.quiet_fail _ _)

theorem evaluateAll (closed : Closed P)
    (invoked : ∀ f arguments, P (J f arguments) (I f arguments)) :
    ∀ es : List Expr, P (evaluateAll J es) (Expr.evaluateAll I es)
  | [] => closed.pure _
  | e :: es => by
    rw [Transcript.evaluateAll, Expr.evaluateAll]
    exact closed.bind (evaluate closed invoked e) fun _ =>
      closed.bind (evaluateAll closed invoked es) fun _ => closed.pure _

end

theorem evaluate? (closed : Closed P)
    (invoked : ∀ f arguments, P (J f arguments) (I f arguments)) (e : Option Expr) :
    P (evaluate? J e) (Expr.evaluate? I e) := by
  cases e with
  | none => exact closed.pure _
  | some e => exact closed.evaluate invoked e

theorem repeatWhile (closed : Closed P) {condition : Transcript Value} {condition' : Eval Value}
    {body : Transcript Flow} {body' : Eval Flow} (holds : P condition condition')
    (round : P body body') (fuel : Nat) :
    P (repeatWhile condition body fuel) (Lox.repeatWhile condition' body' fuel) := by
  induction fuel with
  | zero => exact closed.quietly Eval.quiet_outOfFuel
  | succ fuel ih =>
    rw [Transcript.repeatWhile, Lox.repeatWhile]
    refine closed.bind holds fun v => closed.ite ?_ (closed.pure _)
    refine closed.bind round fun flow => ?_
    cases flow with
    | normal => exact ih
    | returned value => exact closed.pure _

mutual

theorem execute (closed : Closed P) (invoked : ∀ f arguments, P (J f arguments) (I f arguments))
    (fuel : Nat) : ∀ s : Stmt, P (execute J fuel s) (s.execute I fuel)
  | .expression value => by
    rw [Transcript.execute, Stmt.execute]
    exact closed.bind (closed.evaluate invoked value) fun _ => closed.pure _
  | .print keyword value => by
    rw [Transcript.execute, Stmt.execute]
    exact closed.bind (closed.evaluate invoked value) fun v =>
      closed.bind (closed.say keyword v.text) fun _ => closed.pure _
  | .var name initializer => by
    rw [Transcript.execute, Stmt.execute]
    exact closed.bind (closed.evaluate? invoked initializer) fun v =>
      closed.bind (closed.quietly (Eval.quiet_define name v)) fun _ => closed.pure _
  | .block body => by
    rw [Transcript.execute, Stmt.execute]
    have opened : P (Transcript.quietly Eval.blockFrame >>= fun frame =>
          Transcript.inFrame frame (Transcript.executeAll J fuel body))
        (Eval.blockFrame >>= fun frame => Eval.inFrame frame (Stmt.executeAll I fuel body)) :=
      closed.bind (closed.quietly Eval.quiet_blockFrame) fun frame =>
        closed.inFrame frame (executeAll closed invoked fuel body)
    exact opened
  | .ifThen condition yes none => by
    rw [Transcript.execute, Stmt.execute]
    exact closed.bind (closed.evaluate invoked condition) fun _ =>
      closed.ite (execute closed invoked fuel yes) (closed.pure _)
  | .ifThen condition yes (some no) => by
    rw [Transcript.execute, Stmt.execute]
    exact closed.bind (closed.evaluate invoked condition) fun _ =>
      closed.ite (execute closed invoked fuel yes) (execute closed invoked fuel no)
  | .whileDo condition body => by
    rw [Transcript.execute, Stmt.execute]
    exact closed.repeatWhile (closed.evaluate invoked condition) (execute closed invoked fuel body)
      fuel
  | .function name parameters body => by
    rw [Transcript.execute, Stmt.execute]
    exact closed.bind (closed.quietly (Eval.quiet_closure name parameters body)) fun f =>
      closed.bind (closed.quietly (Eval.quiet_define name f)) fun _ => closed.pure _
  | .ret _ value => by
    rw [Transcript.execute, Stmt.execute]
    exact closed.bind (closed.evaluate? invoked value) fun _ => closed.pure _

theorem executeAll (closed : Closed P)
    (invoked : ∀ f arguments, P (J f arguments) (I f arguments)) (fuel : Nat) :
    ∀ ss : List Stmt, P (executeAll J fuel ss) (Stmt.executeAll I fuel ss)
  | [] => closed.pure _
  | s :: ss => by
    rw [Transcript.executeAll, Stmt.executeAll]
    refine closed.bind (execute closed invoked fuel s) fun flow => ?_
    cases flow with
    | normal => exact executeAll closed invoked fuel ss
    | returned value => exact closed.pure _

end

theorem invoke (closed : Closed P) (fuel : Nat) (f : Closure) (arguments : List Value) :
    P (invoke fuel f arguments) (Lox.invoke fuel f arguments) := by
  induction fuel generalizing f arguments with
  | zero => exact closed.quietly Eval.quiet_outOfFuel
  | succ fuel ih =>
    rw [Transcript.invoke, Lox.invoke]
    refine closed.bind (closed.quietly (Eval.quiet_newFrame _ _)) fun frame => ?_
    exact closed.bind (closed.inFrame frame (closed.executeAll ih fuel f.body)) fun _ =>
      closed.pure _

/-- It holds of whole programs. -/
theorem runProgram (closed : Closed P) (fuel : Nat) (ss : List Stmt) :
    P (runProgram fuel ss) (Lox.runProgram fuel ss) := by
  induction ss with
  | nil => exact closed.pure _
  | cons s ss ih =>
    exact closed.bind (closed.execute (closed.invoke fuel) fuel s) fun _ => ih

end Closed

/-! ## Writing down changes nothing -/

/-- The computation that is written down does what the other one does. -/
def Shows {α : Type} (x : Transcript α) (y : Eval α) : Prop :=
  ∀ w, onState State.machine (x w) = y w.machine

theorem shows_closed : Closed @Shows where
  pure _ _ := rfl
  bind {_ _ x y f g} h next := by
    intro w
    show onState State.machine (EStateM.bind x f w) = EStateM.bind y g w.machine
    unfold EStateM.bind
    rw [← h w]
    cases x w with
    | ok a w' => exact next a w'
    | error halt w' => rfl
  quietly {_ step} _ := by
    intro w
    unfold Transcript.quietly
    cases step w.machine <;> rfl
  say keyword text := by
    intro w
    unfold Transcript.say
    cases Eval.print keyword.line text w.machine <;> rfl
  within {_ enter leave x y} _ h := by
    intro w
    unfold Transcript.within Eval.within
    rw [← h ⟨enter w.machine, w.printings⟩]
    cases x ⟨enter w.machine, w.printings⟩ <;> rfl

end Transcript

/-! ## Sessions -/

/-- Something that a session does. -/
inductive Act where
  /-- The session writes a text of its own. -/
  | echo (text : String)
  | run (fuel : Nat) (source : String)

/-- What is written down about an act. -/
inductive Entry where
  | echoed (text : String) (taken : Bool)
  /-- The output are the bytes that got into the sink. -/
  | ran (source : String) (result : Except Failure Unit) (printings : List Printing)
    (output : ByteArray)

namespace Entry

/-- The result of a run. -/
def result? : Entry → Option (Except Failure Unit)
  | .echoed _ _ => none
  | .ran _ result _ _ => some result

/-- What an interactive session reports. -/
def report? : Entry → Option String
  | .echoed _ taken => if taken then none else some ("Failed write prompt: " ++ sinkFullText)
  | .ran _ (.ok _) _ _ => none
  | .ran _ (.error failure) _ _ => some failure.message

end Entry

namespace Session

/-- The result of a run that ends like this. -/
def resultOf {σ : Type} : EStateM.Result Halt σ Unit → Except Failure Unit
  | .ok _ _ => .ok ()
  | .error halt _ => .error (failureOf halt)

/-- What is written down about a run that ends like this, if there were `start` bytes in the sink
before it, and the session behind it. -/
def written (source : String) (start : Nat) (nextId : RefId)
    (ended : EStateM.Result Halt Transcript.State Unit) : Entry × Session :=
  let ⟨machine, printings⟩ := stateOf ended
  let output := machine.sink.bytes.extract start machine.sink.bytes.size
  (.ran source (resultOf ended) printings output, ⟨machine, nextId⟩)

/-- Does something, and writes it down. -/
def act (s : Session) : Act → Entry × Session
  | .echo text =>
    let (taken, sink) := s.machine.sink.write text
    (.echoed text taken, ⟨s.machine.withSink sink, s.nextId⟩)
  | .run fuel source =>
    match Checked.ofSource s.nextId source with
    | (.error failure, nextId) => (.ran source (.error failure) [] .empty, ⟨s.machine, nextId⟩)
    | (.ok checked, nextId) =>
      written source s.machine.sink.bytes.size nextId
        (Transcript.runProgram fuel checked.program ⟨s.machine.learn checked.distances, []⟩)

/-- Does one thing after the other, and writes all of it down. -/
def transcript : List Act → Session → List Entry × Session
  | [], s => ([], s)
  | a :: acts, s =>
    let (entry, s') := s.act a
    let (entries, s'') := transcript acts s'
    (entry :: entries, s'')

/-- A run that is written down has the result of the run and leaves the same session. -/
theorem act_run (s : Session) (fuel : Nat) (source : String) :
    (s.act (.run fuel source)).1.result? = some (s.run fuel source).1 ∧
      (s.act (.run fuel source)).2 = (s.run fuel source).2 := by
  unfold act run
  dsimp only
  cases Checked.ofSource s.nextId source with
  | mk result nextId =>
    cases result with
    | error failure => exact ⟨rfl, rfl⟩
    | ok checked =>
      have same := Transcript.shows_closed.runProgram fuel checked.program
        ⟨s.machine.learn checked.distances, []⟩
      dsimp only at same ⊢
      rw [← same]
      cases Transcript.runProgram fuel checked.program
        ⟨s.machine.learn checked.distances, []⟩ <;> exact ⟨rfl, rfl⟩

/-- A transcript has the results of the programs, and ends in the same session. -/
theorem runAll_eq_transcript (programs : List (Nat × String)) (s : Session) :
    s.runAll programs =
      ((s.transcript (programs.map fun p => .run p.1 p.2)).1.filterMap Entry.result?,
        (s.transcript (programs.map fun p => .run p.1 p.2)).2) := by
  induction programs generalizing s with
  | nil => rfl
  | cons program programs ih =>
    obtain ⟨fuel, source⟩ := program
    obtain ⟨result, behind⟩ := s.act_run fuel source
    have others := ih (s.run fuel source).2
    simp only [runAll, transcript, List.map_cons, List.filterMap_cons, result, behind, others]

end Session

namespace Repl

/-- What an interactive session does with the lines that are entered. -/
def actsOn (fuel : Nat) : List (List UInt8) → List Act
  | [] => [.echo farewell]
  | line :: lines =>
    match Text.ofBytes? line with
    | none => []
    | some text =>
      if Text.trim text = exitCommand then []
      else if Text.trim text = "" then .echo prompt :: actsOn fuel lines
      else .run fuel (Text.trim text) :: .echo prompt :: actsOn fuel lines

/-- What an interactive session does when this is entered. -/
def acts (fuel : Nat) (input : List UInt8) : List Act :=
  .echo banner :: .echo prompt :: actsOn fuel (Text.lines input)

/-- The report about a line that is no text, if an interactive session comes to it. -/
def unread : List (List UInt8) → List String
  | [] => []
  | line :: lines =>
    match Text.ofBytes? line with
    | none => ["Failed read line: " ++ Unreadable.notText.message]
    | some text => if Text.trim text = exitCommand then [] else unread lines

/-- The session after an act, with what is reported about it. -/
def after (repl : Repl) (a : Act) : Repl :=
  ⟨(repl.session.act a).2, repl.reports ++ (repl.session.act a).1.report?.toArray⟩

theorem echo_eq (repl : Repl) (text : String) : repl.echo text = repl.after (.echo text) := by
  obtain ⟨⟨m, nextId⟩, reports⟩ := repl
  simp only [echo, after, Session.act]
  cases m.sink.write text with
  | mk taken sink => cases taken <;> simp [Machine.withSink, report, Entry.report?]

theorem run_eq (repl : Repl) (fuel : Nat) (source : String) :
    repl.run fuel source = repl.after (.run fuel source) := by
  obtain ⟨s, reports⟩ := repl
  obtain ⟨result, behind⟩ := s.act_run fuel source
  unfold run after
  dsimp only
  rw [behind]
  cases entry : (s.act (.run fuel source)).1 with
  | echoed text taken => simp [entry, Entry.result?] at result
  | ran source' result' printings output =>
    rw [entry] at result
    cases ran : s.run fuel source with
    | mk outcome s' =>
      rw [ran] at result
      cases result
      cases outcome <;> simp [Entry.report?, report]

/-- The session after some acts, with what is reported about them. -/
def afterAll (repl : Repl) (acts : List Act) : Repl :=
  ⟨(repl.session.transcript acts).2,
    repl.reports ++ ((repl.session.transcript acts).1.filterMap Entry.report?).toArray⟩

theorem afterAll_cons (repl : Repl) (a : Act) (acts : List Act) :
    repl.afterAll (a :: acts) = (repl.after a).afterAll acts := by
  simp only [afterAll, after, Session.transcript, List.filterMap_cons]
  cases (repl.session.act a).1.report? <;> simp

theorem feedAll_eq (fuel : Nat) (lines : List (List UInt8)) (repl : Repl) :
    feedAll fuel lines repl = ⟨(repl.afterAll (actsOn fuel lines)).session,
      (repl.afterAll (actsOn fuel lines)).reports ++ (unread lines).toArray⟩ := by
  induction lines generalizing repl with
  | nil =>
    simp only [feedAll, finish, actsOn, unread, echo_eq, afterAll_cons]
    simp [afterAll, Session.transcript]
  | cons line lines ih =>
    unfold feedAll feed actsOn unread
    cases Text.ofBytes? line with
    | none => simp [afterAll, Session.transcript, report]
    | some text =>
      dsimp only
      by_cases ends : Text.trim text = exitCommand
      · simp [ends, afterAll, Session.transcript]
      · by_cases blank : Text.trim text = ""
        · simp only [if_neg ends, if_pos blank, echo_eq, afterAll_cons, ih]
        · simp only [if_neg ends, if_neg blank, echo_eq, run_eq, afterAll_cons, ih]

/-- The transcript of an interactive session has its reports, apart from the one about a line that
is no text, and ends in the same session. -/
theorem converse_eq_transcript (fuel : Nat) (limit : Option Nat) (input : List UInt8) :
    converse fuel limit input = ⟨((Session.start limit).transcript (acts fuel input)).2,
      (((Session.start limit).transcript (acts fuel input)).1.filterMap Entry.report? ++
        unread (Text.lines input)).toArray⟩ := by
  rw [converse, feedAll_eq, start, echo_eq, echo_eq, ← afterAll_cons, ← afterAll_cons]
  simp [afterAll, acts]

end Repl

end Lox
