import Lox.Frame
import Lox.Sink
import Std.Data.HashMap

/-!
# The machine

What a running program reads and changes, and the steps that do it.

* `Machine` — frames, distances of local names, sink, and the number of active calls.
* `Machine.holder?` — the frame that a mention of a variable refers to.
* `Halt` — why a run stops early: an error of the program, or no fuel left.
* `Eval` — a computation on a machine. Whatever it did before it halts stays done.
* `Eval.inFrame`, `Eval.duringCall` — a part of a run in another frame, or inside a call; both
  put things back however the part ends.
* `Eval.read`, `Eval.write`, `Eval.define`, `Eval.print` — variables and output.
-/

namespace Lox

/-- How many calls may be active at once. -/
def maxCalls : Nat := 256

/-- The frame of the global variables. -/
def globalFrame : FrameId := 0

/-- The state of running programs. -/
structure Machine where
  frames : Frames
  /-- The frame that declarations go to and distances are counted from. -/
  current : FrameId
  /-- The distance of every mention of a local name. -/
  locals : Std.HashMap RefId Nat
  sink : Sink
  /-- How many calls are active. -/
  depth : Nat
  /-- The identity that the next function gets. -/
  nextIdentity : Nat

/-- Only the global frame, without variables, and nothing printed. -/
def Machine.start (limit : Option Nat) : Machine where
  frames := Frames.empty.pushRoot
  current := globalFrame
  locals := ∅
  sink := Sink.empty limit
  depth := 0
  nextIdentity := 0

/-- Makes the distances of another program known. -/
def Machine.learn (m : Machine) (distances : List (RefId × Nat)) : Machine :=
  { m with locals := m.locals.insertMany distances }

/-- The frame that a mention of a variable refers to: for a local name the one at its distance, for
any other name the global one. None if that frame does not hold the name. -/
def Machine.holder? (m : Machine) (id : RefId) (name : String) : Option FrameId :=
  match m.locals[id]? with
  | some distance => m.frames.holderAt? name m.current distance
  | none => m.frames.holder? name globalFrame

/-- Why a run stops early. -/
inductive Halt where
  | failure (e : RuntimeError)
  /-- The fuel did not suffice. This says nothing about the program. -/
  | outOfFuel
  deriving DecidableEq

/-- A computation on a machine. -/
abbrev Eval := EStateM Halt Machine

namespace Eval

/-- Halts with an error of the program. -/
def fail {α : Type} (line : Nat) (cause : RuntimeError.Cause) : Eval α :=
  fun m => .error (.failure ⟨cause, line⟩) m

/-- Halts for want of fuel. -/
def outOfFuel {α : Type} : Eval α := fun m => .error .outOfFuel m

/-- A result, or an error of the program on this line. -/
def orFail {α : Type} (line : Nat) : Except RuntimeError.Cause α → Eval α
  | .ok a => fun m => .ok a m
  | .error cause => fail line cause

/-- A part of a run with another frame as the current one. -/
@[inline]
def inFrame {α : Type} (frame : FrameId) (part : Eval α) : Eval α := fun m =>
  let outside := m.current
  match part { m with current := frame } with
  | .ok a m' => .ok a { m' with current := outside }
  | .error halt m' => .error halt { m' with current := outside }

/-- A part of a run with one more call active. -/
@[inline]
def duringCall {α : Type} (part : Eval α) : Eval α := fun m =>
  let outside := m.depth
  match part { m with depth := outside + 1 } with
  | .ok a m' => .ok a { m' with depth := outside }
  | .error halt m' => .error halt { m' with depth := outside }

/-- A new frame inside another one. -/
def newFrame (parent : FrameId) (bindings : Bindings) : Eval FrameId := fun m =>
  .ok m.frames.size { m with frames := m.frames.push parent bindings }

/-- A part of a run in a new frame inside the current one. -/
@[inline]
def inNewFrame {α : Type} (part : Eval α) : Eval α := do
  let frame ← newFrame (← get).current []
  inFrame frame part

/-- Declares a variable in the current frame. -/
def define (name : Token) (value : Value) : Eval Unit := fun m =>
  .ok () { m with frames := m.frames.define m.current name.lexeme value }

/-- The value of a variable. -/
def read (id : RefId) (name : Token) : Eval Value := fun m =>
  match (m.holder? id name.lexeme).bind fun i => (m.frames.bindings i).lookup name.lexeme with
  | some value => .ok value m
  | none => fail name.line (.undefinedVariable name.lexeme) m

/-- Gives a variable another value. -/
def write (id : RefId) (name : Token) (value : Value) : Eval Unit := fun m =>
  match m.holder? id name.lexeme with
  | some i => .ok () { m with frames := m.frames.define i name.lexeme value }
  | none => fail name.line (.undefinedVariable name.lexeme) m

/-- The function that a declaration makes in the current frame. No function was the same before. -/
def closure (name : Token) (parameters : List Token) (body : List Stmt) : Eval Value := fun m =>
  .ok (.function ⟨m.nextIdentity, name, parameters, body, m.current⟩)
    { m with nextIdentity := m.nextIdentity + 1 }

/-- Prints a text and ends the line. -/
def print (line : Nat) (text : String) : Eval Unit := fun m =>
  let (fits, sink) := m.sink.write (text ++ "\n")
  let m := { m with sink := sink }
  if fits then .ok () m else fail line .sinkFull m

end Eval

end Lox
