import Lox.Proofs.Grammar.Operators
import Lox.Proofs.Machine.Bodies
import Lox.Proofs.Scope.Checked

/-!
# What operators fail with

An operator that is applied to values it is not made for fails, and the error names it. No program is read
with an operator that there is none, or with one in another's place, so that the errors for these
are never come across; nor are they when a function that is kept from an earlier program is called.

* `RuntimeError.Cause.Possible` — the operator that a cause names is one that has this cause.
* `works_evaluate`, `works_execute`, `works_invoke` — so it is with expressions, statements and calls.
* `Session.run_possible` — and with all programs that are run.
-/

namespace Lox

/-- If the cause names an operator, then one that fails in this way. -/
def RuntimeError.Cause.Possible : RuntimeError.Cause → Prop
  | .operandMustBeNumber op => op = "-"
  | .operandsMustBeNumbers op => op ∈ ["-", "*", "/"]
  | .operandsNotComparable op => op ∈ [">", ">=", "<", "<="]
  | .invalidAddition op => op = "+"
  | .unsupportedOperator _ => False
  | _ => True

/-- If the run halts with an error, its cause is a possible one. -/
def Halt.Possible : Halt → Prop
  | .failure e => e.cause.Possible
  | .outOfFuel => True

/-- The lexeme of a symbol. -/
theorem Token.Written.lexeme_eq {t : Token} {s : Symbol} (h : t.Written) (kind : t.kind = .symbol s) :
    t.lexeme = String.ofList s.chars := by
  have chars : t.lexeme.toList = s.chars := by
    unfold Token.Written at h
    rw [kind] at h
    exact h
  rw [← chars, String.ofList_toList]

namespace Value

/-- Only negation fails, if there is no number to negate. -/
theorem unary_possible {op : Token} {v : Value} {cause : RuntimeError.Cause} (h : op.IsUnary)
    (failed : unary op v = .error cause) : cause.Possible := by
  obtain ⟨written, bang | minus⟩ := h
  · unfold unary at failed
    rw [bang] at failed
    cases failed
  · have lexeme := written.lexeme_eq minus
    unfold unary at failed
    rw [minus] at failed
    cases v <;> cases failed <;> exact lexeme

theorem comparison_error {op : String} {holds : Ordering → Bool} {v w : Value}
    {cause : RuntimeError.Cause} (failed : comparison op holds v w = .error cause) :
    cause = .operandsNotComparable op := by
  unfold comparison at failed
  split at failed <;> cases failed
  rfl

theorem arithmetic_error {op : String} {f : Number → Number → Number} {v w : Value}
    {cause : RuntimeError.Cause} (failed : arithmetic op f v w = .error cause) :
    cause = .operandsMustBeNumbers op := by
  unfold arithmetic at failed
  split at failed <;> cases failed
  rfl

theorem plus_error {op : String} {v w : Value} {cause : RuntimeError.Cause}
    (failed : plus op v w = .error cause) : cause = .invalidAddition op := by
  unfold plus at failed
  split at failed <;> cases failed
  rfl

theorem divide_error {op : String} {v w : Value} {cause : RuntimeError.Cause}
    (failed : divide op v w = .error cause) :
    cause = .divisionByZero ∨ cause = .operandsMustBeNumbers op := by
  unfold divide at failed
  split at failed
  · split at failed <;> cases failed
    exact .inl rfl
  · cases failed
    exact .inr rfl

/-- An operator between two operands fails as its kind does. -/
theorem binary_possible {op : Token} {v w : Value} {cause : RuntimeError.Cause} (h : op.IsBinary)
    (failed : binary op v w = .error cause) : cause.Possible := by
  obtain ⟨written, s, mem, kind⟩ := h
  have lexeme := written.lexeme_eq kind
  unfold binary at failed
  rw [kind, lexeme] at failed
  cases s with
  | plus =>
    rw [plus_error failed]
    rfl
  | minus | star =>
    rw [arithmetic_error failed]
    simp [RuntimeError.Cause.Possible, Symbol.chars]
  | slash =>
    rcases divide_error failed with same | same
    · rw [same]
      trivial
    · rw [same]
      simp [RuntimeError.Cause.Possible, Symbol.chars]
  | greater | greaterEqual | less | lessEqual =>
    rw [comparison_error failed]
    simp [RuntimeError.Cause.Possible, Symbol.chars]
  | equalEqual | bangEqual => cases failed
  | _ => exact absurd mem (by decide)

end Value

/-! ## Syntax -/

/-- All functions that the machine can come across have proper bodies, and if it halts then with an error
that is possible. -/
abbrev Performs {α : Type} (x : Eval α) (good : α → Prop) : Prop :=
  Works Stmt.ProperAll Halt.Possible x good

/-- A function with a proper body is called. -/
def PerformsInvoke (I : Invoke) : Prop :=
  ∀ (f : Closure) (arguments : List Value), Stmt.ProperAll f.body →
    (∀ v ∈ arguments, v.Carries Stmt.ProperAll) →
    Performs (I f arguments) (Value.Carries Stmt.ProperAll)

section Syntax

variable {I : Invoke}

theorem performs_call (h : PerformsInvoke I) (closing : Token) {f : Closure}
    {arguments : List Value} (hf : Stmt.ProperAll f.body)
    (ha : ∀ v ∈ arguments, v.Carries Stmt.ProperAll) :
    Performs (Eval.call I closing f arguments) (Value.Carries Stmt.ProperAll) := by
  unfold Eval.call
  refine .ite (.fail trivial) ?_
  intro m hm
  show Ends (if maxCalls ≤ m.depth then _ else _ : Eval Value) m _ _
  exact Works.ite (.fail trivial) (h f arguments hf ha).duringCall m hm

mutual

/-- Evaluating a proper expression does not fail with an impossible error. -/
theorem performs_evaluate (h : PerformsInvoke I) : ∀ e : Expr, e.Proper →
    Performs (e.evaluate I) (Value.Carries Stmt.ProperAll)
  | .literal value, _ => by
    rw [Expr.evaluate]
    exact .pure (Value.carries_ofLiteral value)
  | .grouping inner, proper => by
    rw [Expr.evaluate]
    rw [Expr.Proper] at proper
    exact performs_evaluate h inner proper
  | .unary op right, ⟨isUnary, proper⟩ => by
    rw [Expr.evaluate]
    exact (performs_evaluate h right proper).bind fun _ _ =>
      .orFail (fun _ => Value.carries_unary) fun _ => Value.unary_possible isUnary
  | .binary left op right, ⟨isBinary, properLeft, properRight⟩ => by
    rw [Expr.evaluate]
    exact (performs_evaluate h left properLeft).bind fun _ _ =>
      (performs_evaluate h right properRight).bind fun _ _ =>
        .orFail (fun _ => Value.carries_binary) fun _ => Value.binary_possible isBinary
  | .logical left op right, ⟨properLeft, properRight⟩ => by
    rw [Expr.evaluate]
    exact (performs_evaluate h left properLeft).bind fun a ha =>
      .ite (.pure ha) (performs_evaluate h right properRight)
  | .var id name, _ => by
    rw [Expr.evaluate]
    exact .read id name trivial
  | .assign id target value, proper => by
    rw [Expr.evaluate]
    rw [Expr.Proper] at proper
    exact (performs_evaluate h value proper).bind fun v hv =>
      (Works.write id target hv trivial).bind fun _ _ => .pure hv
  | .call callee closing arguments, ⟨proper, properAll⟩ => by
    rw [Expr.evaluate]
    refine (performs_evaluate h callee proper).bind fun v hv => ?_
    cases v with
    | function f =>
      exact (performs_evaluateAll h arguments properAll).bind fun vs hvs =>
        performs_call h closing hv hvs
    | _ => exact .fail trivial

theorem performs_evaluateAll (h : PerformsInvoke I) : ∀ es : List Expr, Expr.ProperAll es →
    Performs (Expr.evaluateAll I es) fun vs => ∀ v ∈ vs, v.Carries Stmt.ProperAll
  | [], _ => by
    rw [Expr.evaluateAll]
    exact .pure fun v mem => by cases mem
  | e :: es, ⟨proper, properAll⟩ => by
    rw [Expr.evaluateAll]
    refine (performs_evaluate h e proper).bind fun v hv => ?_
    refine (performs_evaluateAll h es properAll).bind fun vs hvs => .pure ?_
    exact List.forall_mem_cons.2 ⟨hv, hvs⟩

end

theorem performs_evaluate? (h : PerformsInvoke I) (e : Option Expr) (proper : Expr.Proper? e) :
    Performs (Expr.evaluate? I e) (Value.Carries Stmt.ProperAll) := by
  cases e with
  | none => exact .pure trivial
  | some e => exact performs_evaluate h e proper

theorem performs_repeatWhile {condition : Eval Value} {body : Eval Flow}
    (holds : Performs condition (Value.Carries Stmt.ProperAll))
    (round : Performs body (Flow.Carries Stmt.ProperAll)) (fuel : Nat) :
    Performs (repeatWhile condition body fuel) (Flow.Carries Stmt.ProperAll) := by
  induction fuel with
  | zero => exact .outOfFuel trivial
  | succ fuel ih =>
    rw [repeatWhile]
    refine holds.bind fun _ _ => .ite (round.bind fun flow hflow => ?_) (.pure trivial)
    cases flow with
    | normal => exact ih
    | returned value => exact .pure hflow

variable {fuel : Nat}

mutual

/-- Nor does executing a proper statement. -/
theorem performs_execute (h : PerformsInvoke I) : ∀ s : Stmt, s.Proper →
    Performs (s.execute I fuel) (Flow.Carries Stmt.ProperAll)
  | .expression value, proper => by
    rw [Stmt.execute]
    exact (performs_evaluate h value proper).bind fun _ _ => .pure trivial
  | .print keyword value, proper => by
    rw [Stmt.execute]
    exact (performs_evaluate h value proper).bind fun v _ =>
      (Works.print v.text trivial).bind fun _ _ => .pure trivial
  | .var name initializer, proper => by
    rw [Stmt.execute]
    exact (performs_evaluate? h initializer proper).bind fun v hv =>
      (Works.define name hv).bind fun _ _ => .pure trivial
  | .block body, proper => by
    rw [Stmt.execute]
    rw [Stmt.Proper] at proper
    exact (performs_executeAll h body proper).inNewFrame
  | .ifThen condition yes none, ⟨properTest, proper⟩ => by
    rw [Stmt.execute]
    exact (performs_evaluate h condition properTest).bind fun _ _ =>
      .ite (performs_execute h yes proper) (.pure trivial)
  | .ifThen condition yes (some no), ⟨properTest, proper, proper'⟩ => by
    rw [Stmt.execute]
    exact (performs_evaluate h condition properTest).bind fun _ _ =>
      .ite (performs_execute h yes proper) (performs_execute h no proper')
  | .whileDo condition body, ⟨properTest, proper⟩ => by
    rw [Stmt.execute]
    exact performs_repeatWhile (performs_evaluate h condition properTest)
      (performs_execute h body proper) fuel
  | .function name parameters body, proper => by
    rw [Stmt.execute]
    exact (Works.closure name parameters proper).bind fun f hf =>
      (Works.define name hf).bind fun _ _ => .pure trivial
  | .ret _ value, proper => by
    rw [Stmt.execute]
    exact (performs_evaluate? h value proper).bind fun _ hv => .pure hv

theorem performs_executeAll (h : PerformsInvoke I) : ∀ ss : List Stmt, Stmt.ProperAll ss →
    Performs (Stmt.executeAll I fuel ss) (Flow.Carries Stmt.ProperAll)
  | [], _ => by
    rw [Stmt.executeAll]
    exact .pure trivial
  | s :: ss, ⟨proper, properAll⟩ => by
    rw [Stmt.executeAll]
    refine (performs_execute h s proper).bind fun flow hflow => ?_
    cases flow with
    | normal => exact performs_executeAll h ss properAll
    | returned value => exact .pure hflow

end

end Syntax

/-- Nor does a call, whatever program the function comes from. -/
theorem performs_invoke (fuel : Nat) : PerformsInvoke (invoke fuel) := by
  induction fuel with
  | zero => exact fun _ _ _ _ => .outOfFuel trivial
  | succ fuel ih =>
    intro f arguments hf ha
    rw [invoke]
    refine (Works.newFrame f.env (.parameters f.parameters ha)).bind fun frame _ => ?_
    exact ((performs_executeAll ih f.body hf).inFrame frame).bind fun _ hflow => .pure hflow.result

theorem performs_runProgram (fuel : Nat) : ∀ program : List Stmt, Stmt.ProperAll program →
    Performs (runProgram fuel program) fun _ => True
  | [], _ => .pure trivial
  | s :: program, ⟨proper, properAll⟩ => by
    rw [runProgram]
    exact (performs_execute (performs_invoke fuel) s proper).bind fun _ _ =>
      performs_runProgram fuel program properAll

/-! ## Sessions -/

/-- A program that passes all checks is proper. -/
theorem Checked.proper {firstId nextId : RefId} {source : String} {c : Checked}
    (h : ofSource firstId source = (.ok c, nextId)) : Stmt.ProperAll c.program := by
  obtain ⟨tokens, scanned, parsed, -⟩ := ofSource_parts h
  obtain ⟨r, read, clean, -⟩ := Program.ok_of_ofTokens parsed
  exact (Grammar.isDeclarations_of_ok read clean).proper (written_of_scan scanned)

/-- A run leaves only proper functions behind, and fails only in possible ways. -/
theorem Session.run_possible {session : Session} (fuel : Nat) (source : String)
    (h : session.machine.frames.Carry Stmt.ProperAll) :
    (∀ e, (session.run fuel source).1 = .error (.runtime e) → e.cause.Possible) ∧
      (session.run fuel source).2.machine.frames.Carry Stmt.ProperAll := by
  obtain ⟨m, firstId⟩ := session
  unfold run
  dsimp only
  cases checked : Checked.ofSource firstId source with
  | mk result nextId =>
    cases result with
    | error failure =>
      refine ⟨fun e failed => ?_, h⟩
      rcases Checked.ofSource_error checked with ⟨_, rfl⟩ | ⟨_, rfl⟩ | ⟨_, rfl⟩ <;> cases failed
    | ok c =>
      have ends := performs_runProgram fuel c.program (Checked.proper checked)
        (m.learn c.distances) h
      unfold Ends at ends
      dsimp only
      split at ends <;> rename_i ran <;> rw [ran]
      · exact ⟨fun e failed => (by cases failed), ends.2⟩
      · rename_i halt _
        refine ⟨fun e failed => ?_, ends.2⟩
        cases halt with
        | failure e' =>
          cases failed
          exact ends.1
        | outOfFuel => cases failed

end Lox
