import Lox.Session

/-!
# Fuel

Fuel does not change what programs do. With more of it a run that came to its end comes to the same
end, so that every program either has one outcome or runs out of any fuel.

* `Continues x y` — `y` does what `x` does, unless `x` is out of fuel.
* `invoke_continues`, `runProgram_continues` — so it is with more fuel.
* `Session.Diverges` — no fuel suffices for a program.
* `Session.settles_or_diverges` — else its outcome is the same with all fuel from some on.
-/

namespace Lox

variable {α β : Type}

/-- The second computation does what the first one does, or goes on where that is out of fuel. -/
def Continues (x y : Eval α) : Prop := ∀ m, x m = y m ∨ ∃ m', x m = .error .outOfFuel m'

namespace Continues

theorem refl (x : Eval α) : Continues x x := fun _ => .inl rfl

theorem outOfFuel (y : Eval α) : Continues Eval.outOfFuel y := fun m => .inr ⟨m, rfl⟩

theorem bind {x y : Eval α} {f g : α → Eval β} (h : Continues x y)
    (next : ∀ a, Continues (f a) (g a)) : Continues (x >>= f) (y >>= g) := by
  intro m
  show EStateM.bind x f m = EStateM.bind y g m ∨ ∃ m', EStateM.bind x f m = .error .outOfFuel m'
  unfold EStateM.bind
  rcases h m with same | ⟨m', out⟩
  · rw [same]
    cases y m with
    | ok a m' => exact next a m'
    | error halt m' => exact .inl rfl
  · rw [out]
    exact .inr ⟨m', rfl⟩

theorem inFrame {x y : Eval α} (h : Continues x y) (frame : FrameId) :
    Continues (Eval.inFrame frame x) (Eval.inFrame frame y) := by
  intro m
  unfold Eval.inFrame
  rcases h { m with current := frame } with same | ⟨m', out⟩
  · exact .inl (by rw [same])
  · exact .inr ⟨{ m' with current := m.current }, by rw [out]⟩

theorem inNewFrame {x y : Eval α} (h : Continues x y) :
    Continues (Eval.inNewFrame x) (Eval.inNewFrame y) := by
  unfold Eval.inNewFrame
  exact (refl _).bind fun m => (refl _).bind fun frame => h.inFrame frame

theorem duringCall {x y : Eval α} (h : Continues x y) :
    Continues (Eval.duringCall x) (Eval.duringCall y) := by
  intro m
  unfold Eval.duringCall
  rcases h { m with depth := m.depth + 1 } with same | ⟨m', out⟩
  · exact .inl (by simp only [same])
  · exact .inr ⟨{ m' with depth := m.depth }, by simp only [out]⟩

/-- Where the first computation does not run out of fuel, the second one ends the same way. -/
theorem eq_of_ne {x y : Eval α} (h : Continues x y) {m : Machine}
    (enough : ∀ m', x m ≠ .error .outOfFuel m') : x m = y m := by
  rcases h m with same | ⟨m', out⟩
  · exact same
  · exact absurd out (enough m')

end Continues

/-- All invocations go on where the first ones are out of fuel. -/
def ContinuesInvoke (I J : Invoke) : Prop := ∀ f arguments, Continues (I f arguments) (J f arguments)

variable {I J : Invoke}

theorem call_continues (h : ContinuesInvoke I J) (closing : Token) (f : Closure)
    (arguments : List Value) :
    Continues (Eval.call I closing f arguments) (Eval.call J closing f arguments) := by
  unfold Eval.call
  split
  · exact .refl _
  · refine (Continues.refl get).bind fun m => ?_
    split
    · exact .refl _
    · exact (h f arguments).duringCall

mutual

theorem evaluate_continues (h : ContinuesInvoke I J) : ∀ e : Expr,
    Continues (e.evaluate I) (e.evaluate J)
  | .literal value => .refl _
  | .grouping inner => by
    rw [Expr.evaluate, Expr.evaluate]
    exact evaluate_continues h inner
  | .unary op right => by
    rw [Expr.evaluate, Expr.evaluate]
    exact (evaluate_continues h right).bind fun _ => .refl _
  | .binary left op right => by
    rw [Expr.evaluate, Expr.evaluate]
    exact (evaluate_continues h left).bind fun _ =>
      (evaluate_continues h right).bind fun _ => .refl _
  | .logical left op right => by
    rw [Expr.evaluate, Expr.evaluate]
    refine (evaluate_continues h left).bind fun a => ?_
    split
    · exact .refl _
    · exact evaluate_continues h right
  | .var id name => .refl _
  | .assign id target value => by
    rw [Expr.evaluate, Expr.evaluate]
    exact (evaluate_continues h value).bind fun _ => .refl _
  | .call callee closing arguments => by
    rw [Expr.evaluate, Expr.evaluate]
    refine (evaluate_continues h callee).bind fun v => ?_
    cases v with
    | function f =>
      exact (evaluateAll_continues h arguments).bind fun values =>
        call_continues h closing f values
    | _ => exact .refl _

theorem evaluateAll_continues (h : ContinuesInvoke I J) : ∀ es : List Expr,
    Continues (Expr.evaluateAll I es) (Expr.evaluateAll J es)
  | [] => .refl _
  | e :: es => by
    rw [Expr.evaluateAll, Expr.evaluateAll]
    exact (evaluate_continues h e).bind fun _ =>
      (evaluateAll_continues h es).bind fun _ => .refl _

end

theorem evaluate?_continues (h : ContinuesInvoke I J) (e : Option Expr) :
    Continues (Expr.evaluate? I e) (Expr.evaluate? J e) := by
  cases e with
  | none => exact .refl _
  | some e => exact evaluate_continues h e

/-- A loop gets further with more rounds. -/
theorem repeatWhile_continues {condition condition' : Eval Value} {body body' : Eval Flow}
    (holds : Continues condition condition') (round : Continues body body') {n n' : Nat}
    (le : n ≤ n') : Continues (repeatWhile condition body n) (repeatWhile condition' body' n') := by
  induction n generalizing n' with
  | zero => exact .outOfFuel _
  | succ n ih =>
    obtain ⟨k, rfl⟩ : ∃ k, n' = k + 1 := ⟨n' - 1, by omega⟩
    rw [repeatWhile, repeatWhile]
    refine holds.bind fun v => ?_
    split
    · refine round.bind fun flow => ?_
      cases flow with
      | normal => exact ih (by omega)
      | returned value => exact .refl _
    · exact .refl _

section Statements

variable {n n' : Nat}

mutual

theorem execute_continues (h : ContinuesInvoke I J) (le : n ≤ n') : ∀ s : Stmt,
    Continues (s.execute I n) (s.execute J n')
  | .expression value => by
    rw [Stmt.execute, Stmt.execute]
    exact (evaluate_continues h value).bind fun _ => .refl _
  | .print keyword value => by
    rw [Stmt.execute, Stmt.execute]
    exact (evaluate_continues h value).bind fun _ => .refl _
  | .var name initializer => by
    rw [Stmt.execute, Stmt.execute]
    exact (evaluate?_continues h initializer).bind fun _ => .refl _
  | .block body => by
    rw [Stmt.execute, Stmt.execute]
    exact (executeAll_continues h le body).inNewFrame
  | .ifThen condition yes none => by
    rw [Stmt.execute, Stmt.execute]
    refine (evaluate_continues h condition).bind fun v => ?_
    split
    · exact execute_continues h le yes
    · exact .refl _
  | .ifThen condition yes (some no) => by
    rw [Stmt.execute, Stmt.execute]
    refine (evaluate_continues h condition).bind fun v => ?_
    split
    · exact execute_continues h le yes
    · exact execute_continues h le no
  | .whileDo condition body => by
    rw [Stmt.execute, Stmt.execute]
    exact repeatWhile_continues (evaluate_continues h condition) (execute_continues h le body) le
  | .function name parameters body => .refl _
  | .ret _ value => by
    rw [Stmt.execute, Stmt.execute]
    exact (evaluate?_continues h value).bind fun _ => .refl _

theorem executeAll_continues (h : ContinuesInvoke I J) (le : n ≤ n') : ∀ ss : List Stmt,
    Continues (Stmt.executeAll I n ss) (Stmt.executeAll J n' ss)
  | [] => .refl _
  | s :: ss => by
    rw [Stmt.executeAll, Stmt.executeAll]
    refine (execute_continues h le s).bind fun flow => ?_
    cases flow with
    | normal => exact executeAll_continues h le ss
    | returned value => exact .refl _

end

/-- Invocations get further with more fuel. -/
theorem invoke_continues (le : n ≤ n') : ContinuesInvoke (invoke n) (invoke n') := by
  induction n generalizing n' with
  | zero => exact fun f arguments => .outOfFuel _
  | succ n ih =>
    obtain ⟨k, rfl⟩ : ∃ k, n' = k + 1 := ⟨n' - 1, by omega⟩
    have less : n ≤ k := by omega
    intro f arguments
    rw [invoke, invoke]
    refine (Continues.refl _).bind fun frame => ?_
    have body := executeAll_continues (ih less) less f.body
    exact (body.inFrame frame).bind fun flow => .refl _

/-- Programs get further with more fuel. -/
theorem runProgram_continues (le : n ≤ n') (program : List Stmt) :
    Continues (runProgram n program) (runProgram n' program) := by
  induction program with
  | nil => exact .refl _
  | cons s ss ih => exact (execute_continues (invoke_continues le) le s).bind fun _ => ih

end Statements

namespace Session

/-- Whatever fuel it gets, the program of the text does not come to an end. -/
def Diverges (session : Session) (source : String) : Prop :=
  ∀ fuel, (session.run fuel source).1 = .error .outOfFuel

/-- A run that did not want for fuel does not change with more of it. -/
theorem run_eq_of_le {session : Session} {source : String} {fuel fuel' : Nat} (le : fuel ≤ fuel')
    (enough : (session.run fuel source).1 ≠ .error .outOfFuel) :
    session.run fuel' source = session.run fuel source := by
  obtain ⟨m, firstId⟩ := session
  unfold run at enough ⊢
  dsimp only at enough ⊢
  generalize Checked.ofSource firstId source = outcome at enough ⊢
  obtain ⟨result, nextId⟩ := outcome
  cases result with
  | error failure => rfl
  | ok c =>
    dsimp only at enough ⊢
    have goesOn := runProgram_continues le c.program
    have same : runProgram fuel c.program (m.learn c.distances) =
        runProgram fuel' c.program (m.learn c.distances) := by
      refine goesOn.eq_of_ne fun m' out => ?_
      rw [out] at enough
      exact enough rfl
    rw [same]

/-- A program has one outcome, which it has with all fuel from some on, or it diverges. -/
theorem settles_or_diverges (session : Session) (source : String) :
    (∃ fuel, ∀ fuel', fuel ≤ fuel' → session.run fuel' source = session.run fuel source) ∨
      session.Diverges source := by
  by_cases diverges : session.Diverges source
  · exact .inr diverges
  · obtain ⟨fuel, enough⟩ := Classical.not_forall.1 diverges
    exact .inl ⟨fuel, fun fuel' le => run_eq_of_le le enough⟩

end Session

end Lox
