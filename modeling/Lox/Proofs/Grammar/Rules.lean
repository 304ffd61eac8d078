import Lox.Grammar.Program

/-!
# What all rules have in common

The rules of the grammar are put together from a few steps. What holds of the steps and is kept when
they are put together holds of every rule.

* `declarationPart` — a declaration without its recovery.
* `Steps` — such a property of computations on a reader; `Closed` — errors may also be noted at tokens
  that were read before; `Assembled` — the property holds of reading an expression.
* `Closed.expressions`, `Assembled.statements` — it holds of the rules for expressions and for
  statements, by induction on the steps that they may take.
* `Assembled.declarations` — it holds of reading a whole program.
-/

namespace Lox.Grammar

/-- A declaration up to the first fault in it that is not recovered from inside. -/
def declarationPart (n : Nat) : Parse Stmt := do
  if ← accept (.keyword .fun_) then
    let (name, parameters) ← signature
    let body ← nested (block n)
    return .function name parameters body
  else if ← accept (.keyword .var) then variableDeclaration
  else if ← sees (.keyword .class_) then fail .classesUnsupported
  else statement n

theorem declaration_succ (n : Nat) : declaration (n + 1) = recover (declarationPart n) := by
  rw [declaration]
  rfl

/-- What holds of the steps of reading and is kept when they are put together. -/
structure Steps (P : ∀ {α : Type}, Parse α → Prop) : Prop where
  pure : ∀ {α : Type} (a : α), P (pure a : Parse α)
  bind : ∀ {α β : Type} {x : Parse α} {f : α → Parse β}, P x → (∀ a, P (f a)) → P (x >>= f)
  exhausted : ∀ {α : Type}, P (exhausted : Parse α)
  fail : ∀ {α : Type} (cause : ParseError.Cause), P (fail cause : Parse α)
  peek : P peek
  sees : ∀ kind, P (sees kind)
  seesLevel : ∀ level, P (seesLevel level)
  atEnd : P atEnd
  advance : P advance
  noteHere : ∀ cause, P (noteHere cause)
  freshId : P freshId
  deepen : P deepen
  ascend : P ascend
  levelled : ∀ {α : Type} {x : Parse α}, P x → P (levelled x)
  recover : ∀ {α : Type} {x : Parse α}, P x → P (recover x)
  /-- The number of steps may depend on how many tokens are left. -/
  measured : ∀ {α : Type} {x : Nat → Parse α} (size : Nat → Nat), (∀ n, P (x n)) →
    P fun r => x (size r.rest.length) r

/-- What also holds of noting any error at all. -/
structure Closed (P : ∀ {α : Type}, Parse α → Prop) : Prop extends Steps P where
  note : ∀ e, P (note e)

/-- What also holds of reading an expression. -/
structure Assembled (P : ∀ {α : Type}, Parse α → Prop) : Prop extends Steps P where
  expression : P expression

namespace Steps

variable {P : ∀ {α : Type}, Parse α → Prop} {α β : Type} {x y : Parse α}

theorem ite (_ : Steps P) {c : Prop} [Decidable c] (hx : P x) (hy : P y) :
    P (if c then x else y) := by
  split
  · exact hx
  · exact hy

theorem map (steps : Steps P) {f : α → β} (hx : P x) : P (f <$> x) := by
  rw [map_eq_pure_bind]
  exact steps.bind hx fun a => steps.pure (f a)

theorem accept (steps : Steps P) (kind : Kind) : P (accept kind) :=
  steps.bind (steps.sees kind) fun _ =>
    steps.ite (steps.bind steps.advance fun _ => steps.pure true) (steps.pure false)

theorem expect (steps : Steps P) (kind : Kind) (cause : ParseError.Cause) :
    P (expect kind cause) :=
  steps.bind (steps.sees kind) fun _ => steps.ite steps.advance (steps.fail cause)

theorem nested (steps : Steps P) (hx : P x) : P (nested x) :=
  steps.bind steps.deepen fun _ => steps.bind hx fun a =>
    steps.bind steps.ascend fun _ => steps.pure a

/-- A step is taken in front of a part that is there either way. -/
theorem before (steps : Steps P) {c : Prop} [Decidable c] {step : Parse Unit} (hs : P step)
    (hx : P x) : P (if c then step >>= fun _ => x else x) :=
  steps.ite (steps.bind hs fun _ => hx) hx

end Steps

/-! ## Expressions -/

namespace Closed

variable {P : ∀ {α : Type}, Parse α → Prop}

/-- The rules for expressions have a property, with so many steps. -/
structure Expressions (P : ∀ {α : Type}, Parse α → Prop) (n : Nat) : Prop where
  assignment : P (assignment n)
  leftAssociative : ∀ ls, P (leftAssociative n ls)
  operands : ∀ level tighter left, P (operands n level tighter left)
  unary : P (unary n)
  calls : ∀ callee, P (calls n callee)
  arguments : ∀ count, P (arguments n count)
  primary : P (primary n)

theorem assignTo (closed : Closed P) (target : Expr) (equals : Token) (value : Expr) :
    P (assignTo target equals value) := by
  unfold Grammar.assignTo
  split
  · exact closed.bind closed.freshId fun _ => closed.pure _
  · exact closed.bind (closed.note _) fun _ => closed.pure _

theorem expressions (closed : Closed P) (n : Nat) : Expressions P n := by
  induction n with
  | zero =>
    constructor <;> intros <;>
      simp only [assignment, leftAssociative, operands, unary, calls, arguments, primary] <;>
      exact closed.exhausted
  | succ n ih =>
    constructor
    case assignment =>
      rw [assignment]
      refine closed.bind (ih.leftAssociative _) fun target => closed.bind (closed.sees _) fun _ =>
        closed.ite ?_ (closed.pure _)
      exact closed.bind closed.advance fun _ => closed.bind (closed.nested ih.assignment) fun _ =>
        closed.assignTo _ _ _
    case leftAssociative =>
      intro ls
      cases ls with
      | nil => rw [leftAssociative]; exact ih.unary
      | cons level tighter =>
        rw [leftAssociative]
        exact closed.levelled (closed.bind (ih.leftAssociative _) fun _ => ih.operands _ _ _)
    case operands =>
      intro level tighter left
      rw [operands]
      refine closed.bind (closed.seesLevel _) fun _ => closed.ite ?_ (closed.pure _)
      exact closed.bind closed.deepen fun _ => closed.bind closed.advance fun _ =>
        closed.bind (ih.leftAssociative _) fun _ => ih.operands _ _ _
    case unary =>
      rw [unary]
      refine closed.bind (closed.sees _) fun _ => closed.bind (closed.sees _) fun _ =>
        closed.ite ?_ ?_
      · exact closed.bind closed.advance fun _ => closed.bind (closed.nested ih.unary) fun _ =>
          closed.pure _
      · exact closed.bind ih.primary fun _ => ih.calls _
    case calls =>
      intro callee
      rw [calls]
      refine closed.bind (closed.accept _) fun _ =>
        closed.ite (closed.bind (closed.sees _) fun _ => ?_) (closed.pure _)
      refine closed.ite (closed.bind (closed.pure _) fun _ => ?_)
        (closed.bind (ih.arguments 0) fun _ => ?_) <;>
        exact closed.bind (closed.expect _ _) fun _ => ih.calls _
    case arguments =>
      intro count
      rw [arguments]
      refine closed.before (closed.noteHere _) ?_
      exact closed.bind (closed.nested ih.assignment) fun _ =>
        closed.bind (closed.accept _) fun _ => closed.ite (closed.bind (ih.arguments _) fun _ => closed.pure _) (closed.pure _)
    case primary =>
      rw [primary]
      refine closed.bind closed.peek fun token => ?_
      split
      · exact closed.bind closed.advance fun _ => closed.bind closed.freshId fun _ => closed.pure _
      · exact closed.bind closed.advance fun _ => closed.bind (closed.nested ih.assignment) fun _ =>
          closed.bind (closed.expect _ _) fun _ => closed.pure _
      · split
        · exact closed.bind closed.advance fun _ => closed.pure _
        · exact closed.fail _

theorem expression (closed : Closed P) : P expression :=
  closed.measured (fun left => 11 * (left + 1)) fun n =>
    closed.nested (closed.expressions n).assignment

theorem assembled (closed : Closed P) : Assembled P := ⟨closed.toSteps, closed.expression⟩

end Closed

/-! ## Statements -/

namespace Assembled

variable {P : ∀ {α : Type}, Parse α → Prop}

theorem expressionUnless (whole : Assembled P) (kind : Kind) : P (expressionUnless kind) :=
  whole.bind (whole.sees _) fun _ => whole.ite (whole.pure _) (whole.map whole.expression)

theorem expressionStatement (whole : Assembled P) : P expressionStatement :=
  whole.bind whole.expression fun _ => whole.bind (whole.expect _ _) fun _ => whole.pure _

theorem variableDeclaration (whole : Assembled P) : P variableDeclaration := by
  have ending (name : Token) (initializer : Option Expr) : P (do
      let _ ← Grammar.expect (.symbol .semicolon) .declarationEnd
      Pure.pure (Stmt.var name initializer)) :=
    whole.bind (whole.expect _ _) fun _ => whole.pure _
  refine whole.bind (whole.expect _ _) fun _ => whole.bind (whole.accept _) fun _ =>
    whole.ite ?_ (whole.bind (whole.pure _) (ending _))
  exact whole.bind (whole.map whole.expression) (ending _)

theorem parameters (whole : Assembled P) (n count : Nat) : P (parameters n count) := by
  induction n generalizing count with
  | zero => exact whole.exhausted
  | succ n ih =>
    rw [Grammar.parameters]
    refine whole.before (whole.noteHere _) ?_
    exact whole.bind (whole.expect _ _) fun _ => whole.bind (whole.accept _) fun _ =>
      whole.ite (whole.bind (ih _) fun _ => whole.pure _) (whole.pure _)

theorem signature (whole : Assembled P) : P signature := by
  have ending (name : Token) (names : List Token) : P (do
      let _ ← Grammar.expect (.symbol .rightParen) .parametersClosing
      let _ ← Grammar.expect (.symbol .leftBrace) .bodyOpening
      Pure.pure (name, names)) :=
    whole.bind (whole.expect _ _) fun _ => whole.bind (whole.expect _ _) fun _ => whole.pure _
  have names : P fun r => Grammar.parameters (r.rest.length + 1) 0 r :=
    whole.measured (x := fun n => Grammar.parameters n 0) (· + 1) fun n => whole.parameters n 0
  exact whole.bind (whole.expect _ _) fun _ => whole.bind (whole.expect _ _) fun _ =>
    whole.bind (whole.sees _) fun _ =>
      whole.ite (whole.bind (whole.pure _) (ending _)) (whole.bind names (ending _))

theorem firstClause (whole : Assembled P) : P firstClause :=
  whole.bind (whole.accept _) fun _ => whole.ite (whole.pure _) <|
    whole.bind (whole.accept _) fun _ =>
      whole.ite (whole.map whole.variableDeclaration) (whole.map whole.expressionStatement)

theorem condition (whole : Assembled P) (opening closing : ParseError.Cause) :
    P (condition opening closing) :=
  whole.bind (whole.expect _ _) fun _ => whole.bind whole.expression fun _ =>
    whole.bind (whole.expect _ _) fun _ => whole.pure _

/-- The rules for statements have a property, with so many steps. -/
structure Statements (P : ∀ {α : Type}, Parse α → Prop) (n : Nat) : Prop where
  declaration : P (declaration n)
  statement : P (statement n)
  block : P (block n)

theorem declarationPart (whole : Assembled P) {n : Nat} (ih : Statements P n) :
    P (declarationPart n) := by
  refine whole.bind (whole.accept _) fun _ => whole.ite ?_ ?_
  · exact whole.bind whole.signature fun _ => whole.bind (whole.nested ih.block) fun _ =>
      whole.pure _
  · refine whole.bind (whole.accept _) fun _ => whole.ite whole.variableDeclaration ?_
    exact whole.bind (whole.sees _) fun _ => whole.ite (whole.fail _) ih.statement

theorem statements (whole : Assembled P) (n : Nat) : Statements P n := by
  induction n with
  | zero =>
    constructor <;> simp only [declaration, statement, block] <;> exact whole.exhausted
  | succ n ih =>
    constructor
    case declaration =>
      rw [declaration_succ]
      exact whole.recover (whole.declarationPart ih)
    case statement =>
      have body := whole.nested ih.statement
      rw [statement]
      refine whole.bind whole.peek fun token => ?_
      split
      · exact whole.bind whole.advance fun _ => whole.bind (whole.expect _ _) fun _ =>
          whole.bind whole.firstClause fun _ => whole.bind (whole.expressionUnless _) fun _ =>
          whole.bind (whole.expect _ _) fun _ => whole.bind (whole.expressionUnless _) fun _ =>
          whole.bind (whole.expect _ _) fun _ => whole.bind body fun _ => whole.pure _
      · refine whole.bind whole.advance fun _ => whole.bind (whole.condition _ _) fun _ =>
          whole.bind body fun _ => whole.bind (whole.accept _) fun _ => whole.ite ?_ ?_
        · exact whole.bind (whole.map body) fun _ => whole.pure _
        · exact whole.bind (whole.pure _) fun _ => whole.pure _
      · exact whole.bind whole.advance fun _ => whole.bind whole.expression fun _ =>
          whole.bind (whole.expect _ _) fun _ => whole.pure _
      · exact whole.bind whole.advance fun _ => whole.bind (whole.expressionUnless _) fun _ =>
          whole.bind (whole.expect _ _) fun _ => whole.pure _
      · exact whole.bind whole.advance fun _ => whole.bind (whole.condition _ _) fun _ =>
          whole.bind body fun _ => whole.pure _
      · exact whole.bind whole.advance fun _ => whole.bind (whole.nested ih.block) fun _ =>
          whole.pure _
      · exact whole.expressionStatement
    case block =>
      rw [block]
      refine whole.bind (whole.sees _) fun _ => whole.bind whole.atEnd fun _ => whole.ite ?_ ?_
      · exact whole.bind (whole.expect _ _) fun _ => whole.pure _
      · exact whole.bind ih.declaration fun _ => whole.bind ih.block fun _ => whole.pure _

theorem declarations (whole : Assembled P) (n : Nat) : P (declarations n) := by
  induction n with
  | zero => exact whole.exhausted
  | succ n ih =>
    rw [Grammar.declarations]
    refine whole.bind whole.atEnd fun _ => whole.ite (whole.pure _) ?_
    exact whole.bind (whole.statements n).declaration fun _ => whole.bind ih fun _ =>
      whole.pure _

end Assembled

namespace Closed

variable {P : ∀ {α : Type}, Parse α → Prop}

theorem statements (closed : Closed P) (n : Nat) : Assembled.Statements P n :=
  closed.assembled.statements n

theorem declarationPart (closed : Closed P) {n : Nat} (ih : Assembled.Statements P n) :
    P (declarationPart n) :=
  closed.assembled.declarationPart ih

end Closed

end Lox.Grammar
