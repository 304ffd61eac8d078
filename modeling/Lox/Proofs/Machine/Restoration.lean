import Lox.Machine.Execution
import Lox.Proofs.Ending

/-!
# What is put back

Blocks and calls run in frames of their own, and calls are counted. However a part of a program
ends, the frame behind it is the one from before, and as many calls are active.

* `Machine.Restored` — the current frame and the number of active calls are as before.
* `Restores` — a computation puts both back on every way out.
* `Expr.restores_evaluate`, `Stmt.restores_execute` — every expression and statement does.
* `restores_invoke`, `restores_runProgram` — so do calls and programs.
-/

namespace Lox

/-- The current frame and the number of active calls are as they were. -/
structure Machine.Restored (m m' : Machine) : Prop where
  current : m'.current = m.current
  depth : m'.depth = m.depth

namespace Machine.Restored

variable {m m' m'' : Machine}

theorem refl (m : Machine) : m.Restored m := ⟨rfl, rfl⟩

theorem trans (h : m.Restored m') (h' : m'.Restored m'') : m.Restored m'' :=
  ⟨h'.current.trans h.current, h'.depth.trans h.depth⟩

end Machine.Restored

/-- However the computation ends, it puts the current frame and the number of active calls back. -/
def Restores {α : Type} (x : Eval α) : Prop :=
  ∀ m, Ends x m (fun _ => m.Restored) fun _ => m.Restored

namespace Restores

variable {α β : Type} {x : Eval α}

theorem pure (a : α) : Restores (Pure.pure a : Eval α) := fun m => .refl m

theorem bind {f : α → Eval β} (h : Restores x) (next : ∀ a, Restores (f a)) :
    Restores (x >>= f) := by
  intro m
  rw [Ends.bind_iff]
  exact (h m).mono
    (fun a m' first => (next a m').mono (fun _ _ => first.trans) fun _ _ => first.trans)
    fun _ _ => id

theorem ite {c : Prop} [Decidable c] {y : Eval α} (hx : Restores x) (hy : Restores y) :
    Restores (if c then x else y) := by
  split
  · exact hx
  · exact hy

theorem get : Restores (MonadState.get : Eval Machine) := fun m => .refl m

theorem fail (line : Nat) (cause : RuntimeError.Cause) : Restores (Eval.fail line cause : Eval α) :=
  fun m => .refl m

theorem outOfFuel : Restores (Eval.outOfFuel : Eval α) := fun m => .refl m

theorem orFail (line : Nat) (r : Except RuntimeError.Cause α) : Restores (Eval.orFail line r) := by
  cases r with
  | ok a => exact fun m => .refl m
  | error cause => exact .fail line cause

theorem newFrame (parent : FrameId) (bindings : Bindings) :
    Restores (Eval.newFrame parent bindings) := fun _ => ⟨rfl, rfl⟩

theorem define (name : Token) (value : Value) : Restores (Eval.define name value) :=
  fun _ => ⟨rfl, rfl⟩

theorem closure (name : Token) (parameters : List Token) (body : List Stmt) :
    Restores (Eval.closure name parameters body) := fun _ => ⟨rfl, rfl⟩

theorem read (id : RefId) (name : Token) : Restores (Eval.read id name) := by
  intro m
  unfold Ends Eval.read Eval.fail
  cases (m.holder? id name.lexeme).bind fun i => (m.frames.bindings i).lookup name.lexeme with
  | some value => exact .refl m
  | none => exact .refl m

theorem write (id : RefId) (name : Token) (value : Value) : Restores (Eval.write id name value) := by
  intro m
  unfold Ends Eval.write Eval.fail
  cases m.holder? id name.lexeme with
  | some i => exact ⟨rfl, rfl⟩
  | none => exact .refl m

/-- Text that the sink refuses stops the run, but nothing else of the machine changes. -/
theorem print (line : Nat) (text : String) : Restores (Eval.print line text) := by
  intro m
  unfold Ends Eval.print Eval.fail
  cases m.sink.write (text ++ "\n") with
  | mk fits sink => cases fits <;> exact ⟨rfl, rfl⟩

/-- Whatever frame a part runs in, the frame from before comes back. -/
theorem inFrame (frame : FrameId) (h : Restores x) : Restores (Eval.inFrame frame x) := by
  intro m
  have inside := h { m with current := frame }
  unfold Ends at *
  unfold Eval.inFrame
  dsimp only
  cases hx : x { m with current := frame } <;> rw [hx] at inside <;> exact ⟨rfl, inside.depth⟩

theorem inNewFrame (h : Restores x) : Restores (Eval.inNewFrame x) :=
  get.bind fun _ => (newFrame _ _).bind fun frame => h.inFrame frame

/-- However a call ends, it is no longer active then. -/
theorem duringCall (h : Restores x) : Restores (Eval.duringCall x) := by
  intro m
  have inside := h { m with depth := m.depth + 1 }
  unfold Ends at *
  unfold Eval.duringCall
  dsimp only
  cases hx : x { m with depth := m.depth + 1 } <;> rw [hx] at inside <;>
    exact ⟨inside.current, rfl⟩

end Restores

/-- Running the bodies of functions puts back what it changes. -/
def RestoringInvoke (I : Invoke) : Prop := ∀ f arguments, Restores (I f arguments)

variable {I : Invoke}

theorem restores_call (h : RestoringInvoke I) (closing : Token) (f : Closure)
    (arguments : List Value) : Restores (Eval.call I closing f arguments) :=
  .ite (.fail _ _) (.bind .get fun _ => .ite (.fail _ _) (h f arguments).duringCall)

mutual

/-- However an expression is evaluated, it puts back what blocks and calls change. -/
theorem Expr.restores_evaluate (h : RestoringInvoke I) : ∀ e : Expr, Restores (e.evaluate I)
  | .literal value => .pure _
  | .grouping inner => by
    rw [Expr.evaluate]
    exact Expr.restores_evaluate h inner
  | .unary op right => by
    rw [Expr.evaluate]
    exact (Expr.restores_evaluate h right).bind fun _ => .orFail _ _
  | .binary left op right => by
    rw [Expr.evaluate]
    exact (Expr.restores_evaluate h left).bind fun _ =>
      (Expr.restores_evaluate h right).bind fun _ => .orFail _ _
  | .logical left op right => by
    rw [Expr.evaluate]
    exact (Expr.restores_evaluate h left).bind fun _ =>
      .ite (.pure _) (Expr.restores_evaluate h right)
  | .var id name => by
    rw [Expr.evaluate]
    exact .read id name
  | .assign id target value => by
    rw [Expr.evaluate]
    exact (Expr.restores_evaluate h value).bind fun v => (Restores.write id target v).bind fun _ =>
      .pure v
  | .call callee closing arguments => by
    rw [Expr.evaluate]
    refine (Expr.restores_evaluate h callee).bind fun v => ?_
    cases v with
    | function f =>
      exact (Expr.restores_evaluateAll h arguments).bind fun vs => restores_call h closing f vs
    | _ => exact .fail _ _

theorem Expr.restores_evaluateAll (h : RestoringInvoke I) : ∀ es : List Expr,
    Restores (Expr.evaluateAll I es)
  | [] => .pure _
  | e :: es => by
    rw [Expr.evaluateAll]
    exact (Expr.restores_evaluate h e).bind fun _ => (Expr.restores_evaluateAll h es).bind fun _ =>
      .pure _

end

theorem Expr.restores_evaluate? (h : RestoringInvoke I) (e : Option Expr) : Restores (Expr.evaluate? I e) := by
  cases e with
  | none => exact .pure _
  | some e => exact Expr.restores_evaluate h e

theorem restores_repeatWhile {condition : Eval Value} {body : Eval Flow} (holds : Restores condition)
    (round : Restores body) (fuel : Nat) : Restores (repeatWhile condition body fuel) := by
  induction fuel with
  | zero => exact .outOfFuel
  | succ fuel ih =>
    rw [repeatWhile]
    refine holds.bind fun _ => .ite (round.bind fun flow => ?_) (.pure _)
    cases flow with
    | normal => exact ih
    | returned value => exact .pure _

mutual

/-- However a statement ends, be it with a return or an error, it puts back what blocks and calls
change. -/
theorem Stmt.restores_execute (h : RestoringInvoke I) (fuel : Nat) : ∀ s : Stmt,
    Restores (s.execute I fuel)
  | .expression value => by
    rw [Stmt.execute]
    exact (Expr.restores_evaluate h value).bind fun _ => .pure _
  | .print keyword value => by
    rw [Stmt.execute]
    exact (Expr.restores_evaluate h value).bind fun v => (Restores.print _ _).bind fun _ => .pure _
  | .var name initializer => by
    rw [Stmt.execute]
    exact (Expr.restores_evaluate? h initializer).bind fun v =>
      (Restores.define name v).bind fun _ => .pure _
  | .block body => by
    rw [Stmt.execute]
    exact (Stmt.restores_executeAll h fuel body).inNewFrame
  | .ifThen condition yes none => by
    rw [Stmt.execute]
    exact (Expr.restores_evaluate h condition).bind fun _ =>
      .ite (Stmt.restores_execute h fuel yes) (.pure _)
  | .ifThen condition yes (some no) => by
    rw [Stmt.execute]
    exact (Expr.restores_evaluate h condition).bind fun _ =>
      .ite (Stmt.restores_execute h fuel yes) (Stmt.restores_execute h fuel no)
  | .whileDo condition body => by
    rw [Stmt.execute]
    exact restores_repeatWhile (Expr.restores_evaluate h condition)
      (Stmt.restores_execute h fuel body) fuel
  | .function name parameters body => by
    rw [Stmt.execute]
    exact (Restores.closure name parameters body).bind fun f =>
      (Restores.define name f).bind fun _ => .pure _
  | .ret _ value => by
    rw [Stmt.execute]
    exact (Expr.restores_evaluate? h value).bind fun _ => .pure _

theorem Stmt.restores_executeAll (h : RestoringInvoke I) (fuel : Nat) : ∀ ss : List Stmt,
    Restores (Stmt.executeAll I fuel ss)
  | [] => .pure _
  | s :: ss => by
    rw [Stmt.executeAll]
    refine (Stmt.restores_execute h fuel s).bind fun flow => ?_
    cases flow with
    | normal => exact Stmt.restores_executeAll h fuel ss
    | returned value => exact .pure _

end

/-- Calls put back what they change, with whatever fuel. -/
theorem restores_invoke (fuel : Nat) : RestoringInvoke (invoke fuel) := by
  induction fuel with
  | zero => exact fun _ _ => .outOfFuel
  | succ fuel ih =>
    intro f arguments
    rw [invoke]
    exact (Restores.newFrame _ _).bind fun frame =>
      ((Stmt.restores_executeAll ih fuel f.body).inFrame frame).bind fun _ => .pure _

/-- Programs put back what they change. -/
theorem restores_runProgram (fuel : Nat) (program : List Stmt) :
    Restores (runProgram fuel program) := by
  induction program with
  | nil => exact .pure _
  | cons s program ih =>
    rw [runProgram]
    exact (Stmt.restores_execute (restores_invoke fuel) fuel s).bind fun _ => ih

end Lox
