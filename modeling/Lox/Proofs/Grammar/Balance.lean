import Mathlib
import Lox.Proofs.Grammar.Earlier
import Lox.Proofs.Grammar.Gauge
import Lox.Proofs.Grammar.Progress

/-!
# The balance of nesting

The depth that a reader counts is the number of levels that are open, at every moment of reading, so
that it never exceeds the limit and is never counted down from zero.

* `Gauge.Moment.Balanced` — what is said of one moment.
* `Gauge.Gauges` — gauged reading does what reading does, and all its moments are balanced.
* `Gauge.expressionsGauge`, `Gauge.statementsGauge` — so it is in all rules.
* `TopLevel` — a reader in front of a top-level declaration, or at the end; `TopLevel.eq_start` — it is
  that of a program which begins there, but for the errors that were noted.
* `Program.nesting_balanced` — all of it about the tokens of any program.
-/

namespace Lox.Grammar

/-! ## Steps that leave the depth alone -/

/-- However the computation ends, the reader is as deep as before, and may go as deep. -/
def Still {α : Type} (x : Parse α) : Prop :=
  ∀ r, Ends x r (fun _ r' => r'.depth = r.depth ∧ r'.limit = r.limit)
    fun _ r' => r'.depth = r.depth ∧ r'.limit = r.limit

namespace Still

variable {α β : Type} {x y : Parse α}

theorem pure (a : α) : Still (pure a : Parse α) := fun _ => ⟨rfl, rfl⟩

theorem bind {f : α → Parse β} (hx : Still x) (hf : ∀ a, Still (f a)) : Still (x >>= f) := by
  intro r
  rw [Ends.bind_iff]
  refine (hx r).mono (fun a r' h => ?_) fun _ _ h => h
  exact (hf a r').mono (fun _ _ h' => ⟨h'.1.trans h.1, h'.2.trans h.2⟩)
    fun _ _ h' => ⟨h'.1.trans h.1, h'.2.trans h.2⟩

theorem ite {c : Prop} [Decidable c] (hx : Still x) (hy : Still y) :
    Still (if c then x else y) := by
  split
  · exact hx
  · exact hy

theorem exhausted : Still (exhausted : Parse α) := fun _ => ⟨rfl, rfl⟩
theorem fail (cause : ParseError.Cause) : Still (fail cause : Parse α) := fun _ => ⟨rfl, rfl⟩
theorem peek : Still peek := fun _ => ⟨rfl, rfl⟩
theorem sees (kind : Kind) : Still (sees kind) := fun _ => ⟨rfl, rfl⟩
theorem seesLevel (level : Level) : Still (seesLevel level) := fun _ => ⟨rfl, rfl⟩
theorem atEnd : Still atEnd := fun _ => ⟨rfl, rfl⟩
theorem advance : Still advance := fun _ => ⟨rfl, rfl⟩
theorem note (e : ParseError) : Still (note e) := fun _ => ⟨rfl, rfl⟩
theorem noteHere (cause : ParseError.Cause) : Still (noteHere cause) := fun _ => ⟨rfl, rfl⟩
theorem freshId : Still freshId := fun _ => ⟨rfl, rfl⟩

theorem accept (kind : Kind) : Still (accept kind) :=
  (Still.sees kind).bind fun _ => .ite (advance.bind fun _ => .pure true) (.pure false)

theorem expect (kind : Kind) (cause : ParseError.Cause) : Still (expect kind cause) :=
  (Still.sees kind).bind fun _ => .ite .advance (.fail cause)

theorem assignTo (target : Expr) (equals : Token) (value : Expr) :
    Still (assignTo target equals value) := by
  unfold Grammar.assignTo
  split
  · exact Still.freshId.bind fun _ => .pure _
  · exact (Still.note _).bind fun _ => .pure _

end Still

namespace Gauge

/-! ## Moments in balance -/

/-- The reader has counted the levels that are open, and there are no more than allowed. A rule leaves
the depth as it is. A level is left only where one is open, and refused only where as many are open as
allowed. -/
def Moment.Balanced : Moment → Prop
  | .began _ levels r => r.depth = levels ∧ levels ≤ maxNesting
  | .ended _ r r' => r'.depth = r.depth
  | .passed levels r => r.depth = levels ∧ levels ≤ maxNesting
  | .ascending levels r => r.depth = levels ∧ 0 < levels ∧ levels ≤ maxNesting
  | .refused levels r => r.depth = levels ∧ levels = maxNesting

/-- The reader is inside of so many levels. -/
structure State.At (levels : Nat) (g : State) : Prop where
  depth : g.reader.depth = levels
  le : levels ≤ maxNesting
  limit : g.reader.limit = maxNesting

theorem State.At.depth_le {levels : Nat} {g : State} (at_ : g.At levels) :
    g.reader.depth ≤ maxNesting := by
  rw [at_.depth]
  exact at_.le

/-- On the way from one state to another only balanced moments are noted down, and the reader does not
come too deep. -/
structure Tells (g g' : State) : Prop where
  depth : g'.reader.depth ≤ maxNesting
  limit : g'.reader.limit = maxNesting
  moments : ∃ new, g'.moments = new ++ g.moments ∧ ∀ m ∈ new, m.Balanced

namespace Tells

variable {g g' g'' : State} {levels : Nat}

theorem refl (at_ : g.At levels) : Tells g g :=
  ⟨at_.depth_le, at_.limit, [], rfl, fun _ mem => absurd mem List.not_mem_nil⟩

theorem trans (h : Tells g g') (h' : Tells g' g'') : Tells g g'' := by
  obtain ⟨-, -, new, eq, balanced⟩ := h
  obtain ⟨depth, limit, new', eq', balanced'⟩ := h'
  refine ⟨depth, limit, new' ++ new, by rw [eq', eq, List.append_assoc], fun m mem => ?_⟩
  exact (List.mem_append.1 mem).elim (balanced' m) (balanced m)

/-- One moment is noted down. -/
theorem one {m : Moment} (noted : g'.moments = m :: g.moments) (balanced : m.Balanced)
    (depth : g'.reader.depth ≤ maxNesting) (limit : g'.reader.limit = maxNesting) : Tells g g' :=
  ⟨depth, limit, [m], noted, fun _ mem => by rwa [List.mem_singleton.1 mem]⟩

theorem at_ (h : Tells g g') (depth : g'.reader.depth = levels) : g'.At levels :=
  ⟨depth, depth ▸ h.depth, h.limit⟩

end Tells

/-- With so many levels open, the gauged computation does what the other one does. All moments on its
way are balanced, and `after` holds of the depth if it has a result. -/
def Gauges {α : Type} (levels : Nat) (after : Nat → Prop) (x : Gauge α) (y : Parse α) : Prop :=
  ∀ g : State, g.At levels →
    Ends x g (fun a g' => y g.reader = .ok a g'.reader ∧ after g'.reader.depth ∧ Tells g g')
      fun stop g' => y g.reader = .error stop g'.reader ∧ Tells g g'

/-- If it has a result, the reader is as deep as before. -/
abbrev Keeps {α : Type} (levels : Nat) (x : Gauge α) (y : Parse α) : Prop :=
  Gauges levels (· = levels) x y

section Steps

variable {α β : Type} {levels inner : Nat} {after : Nat → Prop} {x : Gauge α} {y : Parse α}

theorem Gauges.pure (a : α) : Keeps levels (Pure.pure a) (Pure.pure a : Parse α) :=
  fun _ at_ => ⟨rfl, at_.depth, .refl at_⟩

theorem Gauges.bind {f : α → Gauge β} {k : α → Parse β} (hx : Gauges levels (· = inner) x y)
    (hf : ∀ a, Gauges inner after (f a) (k a)) : Gauges levels after (x >>= f) (y >>= k) := by
  intro g at_
  rw [Ends.bind_iff]
  refine (hx g at_).mono (fun a g' ⟨same, depth, tells⟩ => ?_) fun stop g' ⟨same, tells⟩ => ?_
  · have into : (y >>= k) g.reader = k a g'.reader := by simp only [Bind.bind, EStateM.bind, same]
    rw [into]
    exact (hf a g' (tells.at_ depth)).mono
      (fun _ _ ⟨same', depth', tells'⟩ => ⟨same', depth', tells.trans tells'⟩)
      fun _ _ ⟨same', tells'⟩ => ⟨same', tells.trans tells'⟩
  · exact ⟨by simp only [Bind.bind, EStateM.bind, same], tells⟩

theorem Gauges.map {f : α → β} (h : Keeps levels x y) : Keeps levels (f <$> x) (f <$> y) := by
  rw [map_eq_pure_bind, map_eq_pure_bind]
  exact h.bind fun a => .pure (f a)

theorem Gauges.ite {c : Prop} [Decidable c] {x' : Gauge α} {y' : Parse α}
    (h : Gauges levels after x y) (h' : Gauges levels after x' y') :
    Gauges levels after (if c then x else x') (if c then y else y') := by
  split
  · exact h
  · exact h'

/-- A step that leaves the depth alone. -/
theorem Gauges.plain {part : Parse α} (still : Still part) :
    Keeps levels (plain levels part) part := by
  intro g at_
  have h := still g.reader
  have tells {r : Reader} (same : r.depth = g.reader.depth ∧ r.limit = g.reader.limit) :
      Tells g ⟨r, .passed levels g.reader :: g.moments⟩ :=
    .one rfl ⟨at_.depth, at_.le⟩ (Nat.le_trans (Nat.le_of_eq same.1) at_.depth_le) (same.2.trans at_.limit)
  unfold Ends Gauge.plain step at *
  cases hp : part g.reader <;> rw [hp] at h
  · exact ⟨rfl, h.1.trans at_.depth, tells h⟩
  · exact ⟨rfl, tells h⟩

/-- One more level is opened, unless there are as many as allowed. -/
theorem Gauges.deepen : Gauges levels (· = levels + 1) (deepen levels) Grammar.deepen := by
  intro g at_
  have depth := at_.depth
  have limit := at_.limit
  have le := at_.le
  by_cases full : g.reader.limit ≤ g.reader.depth
  · have refused : Grammar.deepen g.reader =
        .error (.fault (g.reader.errorHere .tooMuchNesting)) g.reader := if_pos full
    simp only [Ends, Gauge.deepen, refused]
    exact ⟨trivial, .one rfl ⟨depth, by omega⟩ at_.depth_le limit⟩
  · have deeper : Grammar.deepen g.reader =
        .ok () { g.reader with depth := g.reader.depth + 1 } := if_neg full
    simp only [Ends, Gauge.deepen, deeper]
    exact ⟨trivial, by omega, .one rfl ⟨depth, le⟩ (by show g.reader.depth + 1 ≤ _; omega) limit⟩

/-- An open level is left. -/
theorem Gauges.ascend : Gauges (levels + 1) (· = levels) (ascend (levels + 1)) Grammar.ascend := by
  intro g at_
  have depth : g.reader.depth - 1 = levels := by rw [at_.depth]; rfl
  refine ⟨rfl, depth, .one rfl ⟨at_.depth, Nat.succ_pos _, at_.le⟩ ?_ at_.limit⟩
  exact Nat.le_trans (Nat.sub_le _ _) at_.depth_le

theorem Gauges.nested {part : Nat → Gauge α} (h : Keeps (levels + 1) (part (levels + 1)) y) :
    Keeps levels (nested part levels) (Grammar.nested y) :=
  Gauges.deepen.bind fun _ => h.bind fun a => Gauges.ascend.bind fun _ => .pure a

/-- Whatever levels were opened inside, they are left together. -/
theorem Gauges.levelled (h : Gauges levels after x y) :
    Keeps levels (levelled x) (Grammar.levelled y) := by
  intro g at_
  have inside := h g at_
  unfold Ends Gauge.levelled Grammar.levelled at *
  cases hx : x g with
  | ok a g' =>
    rw [hx] at inside
    obtain ⟨same, -, tells⟩ := inside
    simp only [same]
    exact ⟨trivial, at_.depth, at_.depth_le, tells.limit, tells.moments⟩
  | error stop g' =>
    rw [hx] at inside
    simp only [inside.1]
    exact ⟨trivial, inside.2⟩

/-- From whatever level a fault comes, reading goes on at the level where the part began. -/
theorem Gauges.recover (h : Keeps levels x y) : Keeps levels (recover x) (Grammar.recover y) := by
  intro g at_
  have inside := h g at_
  unfold Ends Gauge.recover Grammar.recover at *
  cases hx : x g with
  | ok a g' =>
    rw [hx] at inside
    simp only [inside.1]
    exact ⟨trivial, inside.2⟩
  | error stop g' =>
    rw [hx] at inside
    obtain ⟨same, tells⟩ := inside
    cases stop with
    | fault e =>
      simp only [same]
      exact ⟨trivial, at_.depth, at_.depth_le, tells.limit, tells.moments⟩
    | exhausted =>
      simp only [same]
      exact ⟨trivial, tells⟩

/-- A rule begins and ends at the same depth. -/
theorem Gauges.rule (name : Rule) (h : Keeps levels x y) : Keeps levels (rule name levels x) y := by
  intro g at_
  have begun : Tells g ⟨g.reader, .began name levels g.reader :: g.moments⟩ :=
    .one rfl ⟨at_.depth, at_.le⟩ (at_.depth_le) at_.limit
  have inside := h ⟨g.reader, .began name levels g.reader :: g.moments⟩ (begun.at_ at_.depth)
  unfold Ends Gauge.rule at *
  cases hx : x ⟨g.reader, .began name levels g.reader :: g.moments⟩ with
  | ok a g' =>
    rw [hx] at inside
    obtain ⟨same, depth, tells⟩ := inside
    refine ⟨same, depth, (begun.trans tells).trans ?_⟩
    exact .one rfl (depth.trans at_.depth.symm) tells.depth tells.limit
  | error stop g' =>
    rw [hx] at inside
    exact ⟨inside.1, begun.trans inside.2⟩

/-- A step is taken in front of a part that is there either way. -/
theorem Gauges.before {c : Prop} [Decidable c] {s : Gauge Unit} {s' : Parse Unit}
    (hs : Keeps levels s s') (h : Gauges levels after x y) :
    Gauges levels after (if c then s >>= fun _ => x else x) (if c then s' >>= fun _ => y else y) :=
  .ite (hs.bind fun _ => h) h

/-- What has a result has the same one when it is gauged, and all that is noted down is balanced. -/
theorem Gauges.exists_ok (h : Gauges levels after x y) {a : α} {r r' : Reader}
    (read : y r = .ok a r') (depth : r.depth = levels) (le : levels ≤ maxNesting)
    (limit : r.limit = maxNesting) :
    ∃ moments, x ⟨r, []⟩ = .ok a ⟨r', moments⟩ ∧ after r'.depth ∧ ∀ m ∈ moments, m.Balanced := by
  have gauged := h ⟨r, []⟩ ⟨depth, le, limit⟩
  unfold Ends at gauged
  split at gauged
  · rename_i g same
    obtain ⟨read', depth', -, -, new, eq, balanced⟩ := gauged
    cases read.symm.trans read'
    refine ⟨g.moments, same, depth', ?_⟩
    rwa [eq, List.append_nil]
  · cases read.symm.trans gauged.1

end Steps

/-! ## Expressions -/

/-- The rules for expressions are gauged, with so many steps. -/
structure ExpressionsGauge (n : Nat) : Prop where
  assignment : ∀ levels, Keeps levels (assignment n levels) (Grammar.assignment n)
  leftAssociative : ∀ ls levels,
    Keeps levels (leftAssociative n ls levels) (Grammar.leftAssociative n ls)
  operands : ∀ level tighter left levels, Gauges levels (fun _ => True)
    (operands n level tighter left levels) (Grammar.operands n level tighter left)
  unary : ∀ levels, Keeps levels (unary n levels) (Grammar.unary n)
  calls : ∀ callee levels, Keeps levels (calls n callee levels) (Grammar.calls n callee)
  arguments : ∀ count levels, Keeps levels (arguments n count levels) (Grammar.arguments n count)
  primary : ∀ levels, Keeps levels (primary n levels) (Grammar.primary n)

/-- Nothing is asked of the depth. -/
theorem Gauges.anywhere {α : Type} {levels : Nat} {after : Nat → Prop} {x : Gauge α} {y : Parse α}
    (h : Gauges levels after x y) : Gauges levels (fun _ => True) x y := fun g at_ =>
  (h g at_).mono (fun _ _ ⟨same, _, tells⟩ => ⟨same, trivial, tells⟩) fun _ _ h => h

/-- The call that the parenthesis opens which was just taken. -/
def finishCall (n : Nat) (callee : Expr) : Parse Expr := do
  let arguments ← if ← sees (.symbol .rightParen) then pure [] else Grammar.arguments n 0
  let closing ← expect (.symbol .rightParen) .argumentsClosing
  return .call callee closing arguments

theorem calls_succ (n : Nat) (callee : Expr) : Grammar.calls (n + 1) callee = (do
    if ← accept (.symbol .leftParen) then
      let call ← finishCall n callee
      Grammar.calls n call
    else
      return callee) := by
  rw [Grammar.calls]
  refine bind_congr fun opened => ?_
  split
  · simp only [finishCall, bind_assoc, pure_bind]
    refine bind_congr fun none => ?_
    split <;> simp only [bind_assoc, pure_bind]
  · rfl

theorem expressionsGauge (n : Nat) : ExpressionsGauge n := by
  induction n with
  | zero =>
    constructor <;> intros <;>
      simp only [assignment, leftAssociative, operands, unary, calls, arguments, primary,
        Grammar.assignment, Grammar.leftAssociative, Grammar.operands, Grammar.unary, Grammar.calls,
        Grammar.arguments, Grammar.primary]
    case operands => exact (Gauges.plain .exhausted).anywhere
    all_goals exact .plain .exhausted
  | succ n ih =>
    have whole (levels : Nat) : Keeps levels
        (rule .expression levels (nested (assignment n) levels))
        (Grammar.nested (Grammar.assignment n)) :=
      .rule _ (.nested (ih.assignment (levels + 1)))
    constructor
    case assignment =>
      intro levels
      rw [assignment, Grammar.assignment]
      refine .rule _ ((ih.leftAssociative _ levels).bind fun target =>
        (Gauges.plain (.sees _)).bind fun _ => .ite ?_ (.pure _))
      exact (Gauges.plain .advance).bind fun _ =>
        (Gauges.nested (ih.assignment (levels + 1))).bind fun _ => .plain (.assignTo _ _ _)
    case leftAssociative =>
      intro ls levels
      cases ls with
      | nil =>
        rw [leftAssociative, Grammar.leftAssociative]
        exact ih.unary levels
      | cons level tighter =>
        rw [leftAssociative, Grammar.leftAssociative]
        exact .rule _ (.levelled ((ih.leftAssociative _ levels).bind fun _ =>
          ih.operands _ _ _ levels))
    case operands =>
      intro level tighter left levels
      rw [operands, Grammar.operands]
      refine (Gauges.plain (.seesLevel _)).bind fun _ => .ite ?_ (Gauges.pure _).anywhere
      exact Gauges.deepen.bind fun _ => (Gauges.plain .advance).bind fun _ =>
        (ih.leftAssociative _ (levels + 1)).bind fun _ => ih.operands _ _ _ (levels + 1)
    case unary =>
      intro levels
      rw [unary, Grammar.unary]
      refine .rule _ ((Gauges.plain (.sees _)).bind fun _ => (Gauges.plain (.sees _)).bind fun _ =>
        .ite ?_ ?_)
      · exact (Gauges.plain .advance).bind fun _ =>
          (Gauges.nested (ih.unary (levels + 1))).bind fun _ => .pure _
      · exact .rule _ ((ih.primary levels).bind fun _ => ih.calls _ levels)
    case calls =>
      intro callee levels
      rw [calls, calls_succ]
      refine (Gauges.plain (.accept _)).bind fun _ => .ite ?_ (.pure _)
      refine Gauges.bind (.rule _ ?_) fun _ => ih.calls _ levels
      refine (Gauges.plain (.sees _)).bind fun _ => .ite ?_ ?_
      · exact (Gauges.pure _).bind fun _ => (Gauges.plain (.expect _ _)).bind fun _ => .pure _
      · exact (ih.arguments 0 levels).bind fun _ =>
          (Gauges.plain (.expect _ _)).bind fun _ => .pure _
    case arguments =>
      intro count levels
      rw [arguments, Grammar.arguments]
      refine .before (.plain (.noteHere _)) ((whole levels).bind fun _ =>
        (Gauges.plain (.accept _)).bind fun _ => .ite ?_ (.pure _))
      exact (ih.arguments _ levels).bind fun _ => .pure _
    case primary =>
      intro levels
      rw [primary, Grammar.primary]
      refine .rule _ ((Gauges.plain .peek).bind fun token => ?_)
      cases token.kind with
      | identifier =>
        exact (Gauges.plain .advance).bind fun _ => (Gauges.plain .freshId).bind fun _ => .pure _
      | symbol s =>
        cases s with
        | leftParen =>
          exact (Gauges.plain .advance).bind fun _ => (whole levels).bind fun _ =>
            (Gauges.plain (.expect _ _)).bind fun _ => .pure _
        | _ => exact .plain (.fail _)
      | keyword k =>
        cases k with
        | true | false | nil => exact (Gauges.plain .advance).bind fun _ => .pure _
        | _ => exact .plain (.fail _)
      | string | number => exact (Gauges.plain .advance).bind fun _ => .pure _
      | endOfInput => exact .plain (.fail _)

theorem gauges_expression (levels : Nat) : Keeps levels (expression levels) Grammar.expression := by
  refine .rule _ fun g at_ => ?_
  exact Gauges.nested ((expressionsGauge _).assignment (levels + 1)) g at_

/-! ## Statements -/

theorem gauges_expressionUnless (kind : Kind) (levels : Nat) :
    Keeps levels (expressionUnless kind levels) (Grammar.expressionUnless kind) :=
  (Gauges.plain (.sees _)).bind fun _ => .ite (.pure _) (gauges_expression levels).map

theorem gauges_expressionStatement (levels : Nat) :
    Keeps levels (expressionStatement levels) Grammar.expressionStatement :=
  .rule _ ((gauges_expression levels).bind fun _ => (Gauges.plain (.expect _ _)).bind fun _ => .pure _)

theorem gauges_variableDeclaration (levels : Nat) :
    Keeps levels (variableDeclaration levels) Grammar.variableDeclaration := by
  refine .rule _ ((Gauges.plain (.expect _ _)).bind fun _ =>
    (Gauges.plain (.accept _)).bind fun _ => .ite ?_ ?_)
  · exact (gauges_expression levels).map.bind fun _ =>
      (Gauges.plain (.expect _ _)).bind fun _ => .pure _
  · exact (Gauges.pure _).bind fun _ => (Gauges.plain (.expect _ _)).bind fun _ => .pure _

theorem gauges_parameters (n count levels : Nat) :
    Keeps levels (parameters n count levels) (Grammar.parameters n count) := by
  induction n generalizing count with
  | zero => exact .plain .exhausted
  | succ n ih =>
    rw [parameters, Grammar.parameters]
    refine .before (.plain (.noteHere _)) ((Gauges.plain (.expect _ _)).bind fun _ =>
      (Gauges.plain (.accept _)).bind fun _ => .ite ?_ (.pure _))
    exact (ih _).bind fun _ => .pure _

theorem gauges_signature (levels : Nat) : Keeps levels (signature levels) Grammar.signature := by
  refine (Gauges.plain (.expect _ _)).bind fun _ => (Gauges.plain (.expect _ _)).bind fun _ =>
    (Gauges.plain (.sees _)).bind fun _ => .ite ?_ ?_
  · exact (Gauges.pure _).bind fun _ => (Gauges.plain (.expect _ _)).bind fun _ =>
      (Gauges.plain (.expect _ _)).bind fun _ => .pure _
  · refine Gauges.bind (fun g at_ => gauges_parameters _ 0 levels g at_) fun _ => ?_
    exact (Gauges.plain (.expect _ _)).bind fun _ =>
      (Gauges.plain (.expect _ _)).bind fun _ => .pure _

theorem gauges_firstClause (levels : Nat) :
    Keeps levels (firstClause levels) Grammar.firstClause :=
  (Gauges.plain (.accept _)).bind fun _ => .ite (.pure _) <|
    (Gauges.plain (.accept _)).bind fun _ =>
      .ite (gauges_variableDeclaration levels).map (gauges_expressionStatement levels).map

theorem gauges_condition (opening closing : ParseError.Cause) (levels : Nat) :
    Keeps levels (condition opening closing levels) (Grammar.condition opening closing) :=
  (Gauges.plain (.expect _ _)).bind fun _ => (gauges_expression levels).bind fun _ =>
    (Gauges.plain (.expect _ _)).bind fun _ => .pure _

/-- The rules for statements are gauged, with so many steps. -/
structure StatementsGauge (n : Nat) : Prop where
  declaration : ∀ levels, Keeps levels (declaration n levels) (Grammar.declaration n)
  statement : ∀ levels, Keeps levels (statement n levels) (Grammar.statement n)
  block : ∀ levels, Keeps levels (block n levels) (Grammar.block n)

theorem statementsGauge (n : Nat) : StatementsGauge n := by
  induction n with
  | zero =>
    constructor <;> intro levels <;>
      simp only [declaration, statement, block, Grammar.declaration, Grammar.statement,
        Grammar.block] <;> exact .plain .exhausted
  | succ n ih =>
    have body (levels : Nat) : Keeps levels (nested (statement n) levels)
        (Grammar.nested (Grammar.statement n)) :=
      .nested (ih.statement (levels + 1))
    have braces (levels : Nat) : Keeps levels
        (nested (fun inner => rule .block inner (block n inner)) levels)
        (Grammar.nested (Grammar.block n)) :=
      .nested (.rule _ (ih.block (levels + 1)))
    constructor
    case declaration =>
      intro levels
      rw [declaration, declaration_succ]
      refine .rule _ (.recover ((Gauges.plain (.accept _)).bind fun _ => .ite ?_ ?_))
      · exact .rule _ ((gauges_signature levels).bind fun _ => (braces levels).bind fun _ => .pure _)
      · refine (Gauges.plain (.accept _)).bind fun _ =>
          .ite (gauges_variableDeclaration levels) ?_
        exact (Gauges.plain (.sees _)).bind fun _ =>
          .ite (.plain (.fail _)) (ih.statement levels)
    case statement =>
      intro levels
      rw [statement, Grammar.statement]
      refine .rule _ ((Gauges.plain .peek).bind fun token => ?_)
      cases token.kind with
      | keyword k =>
        cases k with
        | for_ =>
          exact (Gauges.plain .advance).bind fun _ => .rule _ <|
            (Gauges.plain (.expect _ _)).bind fun _ => (gauges_firstClause levels).bind fun _ =>
            (gauges_expressionUnless _ levels).bind fun _ => (Gauges.plain (.expect _ _)).bind fun _ =>
            (gauges_expressionUnless _ levels).bind fun _ => (Gauges.plain (.expect _ _)).bind fun _ =>
            (body levels).bind fun _ => .pure _
        | if_ =>
          refine (Gauges.plain .advance).bind fun _ => .rule _ <|
            (gauges_condition _ _ levels).bind fun _ => (body levels).bind fun _ =>
            (Gauges.plain (.accept _)).bind fun _ => .ite ?_ ?_
          · exact (body levels).map.bind fun _ => .pure _
          · exact (Gauges.pure _).bind fun _ => .pure _
        | print =>
          exact (Gauges.plain .advance).bind fun _ => (gauges_expression levels).bind fun _ =>
            (Gauges.plain (.expect _ _)).bind fun _ => .pure _
        | return_ =>
          exact (Gauges.plain .advance).bind fun _ => (gauges_expressionUnless _ levels).bind fun _ =>
            (Gauges.plain (.expect _ _)).bind fun _ => .pure _
        | while_ =>
          exact (Gauges.plain .advance).bind fun _ => (gauges_condition _ _ levels).bind fun _ =>
            (body levels).bind fun _ => .pure _
        | _ => exact gauges_expressionStatement levels
      | symbol s =>
        cases s with
        | leftBrace =>
          exact (Gauges.plain .advance).bind fun _ => (braces levels).bind fun _ => .pure _
        | _ => exact gauges_expressionStatement levels
      | _ => exact gauges_expressionStatement levels
    case block =>
      intro levels
      rw [block, Grammar.block]
      refine (Gauges.plain (.sees _)).bind fun _ => (Gauges.plain .atEnd).bind fun _ => .ite ?_ ?_
      · exact (Gauges.plain (.expect _ _)).bind fun _ => .pure _
      · exact (ih.declaration levels).bind fun _ => (ih.block levels).bind fun _ => .pure _

theorem gauges_declarations (n : Nat) : Keeps 0 (declarations n) (Grammar.declarations n) := by
  induction n with
  | zero => exact .plain .exhausted
  | succ n ih =>
    rw [declarations, Grammar.declarations]
    refine (Gauges.plain .atEnd).bind fun _ => .ite (.pure _) ?_
    exact ((statementsGauge n).declaration 0).bind fun _ => ih.bind fun _ => .pure _

end Gauge

/-! ## The top level -/

/-- Reading the declarations of a program one after the other has come from the first reader to the
second one. -/
inductive TopLevel (start : Reader) : Reader → Prop
  | start : TopLevel start start
  | next {n : Nat} {r r' : Reader} {first : Option Stmt} (before : TopLevel start r)
      (more : r.rest ≠ []) (read : declaration n r = .ok first r') : TopLevel start r'

theorem endOf_suffix {ts us : List Token} (h : us <:+ ts) (some : us ≠ []) :
    Token.endOf us = Token.endOf ts := by
  obtain ⟨front, rfl⟩ := h
  have last : (front ++ us).getLast? = us.getLast? := by
    rw [List.getLast?_append, List.getLast?_eq_some_getLast some, Option.some_or]
  rw [Token.endOf, Token.endOf, last]

/-- Where a top-level declaration begins, no level is open, and only tokens have been taken. -/
theorem TopLevel.reached {firstId : RefId} {tokens : List Token} {r : Reader}
    (h : TopLevel (.start firstId tokens) r) :
    r.rest <:+ tokens ∧ r.last = Token.endOf tokens ∧ r.depth = 0 ∧ r.limit = maxNesting := by
  induction h with
  | start => exact ⟨List.suffix_rfl, rfl, rfl, rfl⟩
  | @next n r r' _ _ _ read ih =>
    obtain ⟨rest, last, depth, limit⟩ := ih
    have later := ((statementsAdvance n).declaration r).ok_of_eq read
    have same := ((sameEnd_closed.statements n).declaration r).ok_of_eq read
    obtain ⟨-, -, kept, -⟩ :=
      ((Gauge.statementsGauge n).declaration 0).exists_ok read depth (Nat.zero_le _) limit
    exact ⟨later.rest.trans rest, same.trans last, kept, later.limit.trans limit⟩

/-- In front of a top-level declaration the reader is that of a program which begins there, but for
the errors that were noted before. -/
theorem TopLevel.eq_start {firstId : RefId} {tokens : List Token} {r : Reader}
    (h : TopLevel (.start firstId tokens) r) (more : r.rest ≠ []) :
    r = (Reader.start r.nextId r.rest).after r.errors := by
  obtain ⟨rest, last, depth, limit⟩ := h.reached
  have last : r.last = Token.endOf r.rest := last.trans (endOf_suffix rest more).symm
  cases r
  simp_all [Reader.after, Reader.start]

end Grammar

/-- **The nesting is counted right.** At every moment of reading, whatever the tokens are, the depth is
the number of levels that are open. It never exceeds the limit, and it is counted down only where a
level is open; a level is refused only where as many are open as allowed. A rule that has a result
leaves the depth as it was, and so does a declaration that is given up, from whatever level the fault
comes. Each top-level declaration begins where no level is open, and it is read as if it were the first
of a program, with the errors that were noted before in front. In no declaration do such errors change
anything. The rules are as balanced from every other reader that is inside of no more levels than
allowed. -/
theorem Program.nesting_balanced (firstId : RefId) (tokens : List Token) :
    (∃ program r moments,
      Grammar.Gauge.declarations (4 * (tokens.length + 1)) ⟨.start firstId tokens, []⟩ =
        .ok program ⟨r, moments⟩ ∧
      Grammar.declarations (4 * (tokens.length + 1)) (.start firstId tokens) = .ok program r ∧
      Program.ofTokens firstId tokens =
        (if r.errors.isEmpty then .ok program else .error r.errors.toList, r.nextId) ∧
      ∀ m ∈ moments, m.Balanced) ∧
    (∀ r, Grammar.TopLevel (.start firstId tokens) r → r.depth = 0 ∧ (r.rest ≠ [] → ∀ n,
      Grammar.declaration n r =
        Grammar.endAfter r.errors (Grammar.declaration n (.start r.nextId r.rest)))) ∧
    (∀ n earlier r, Grammar.declaration n (r.after earlier) =
      Grammar.endAfter earlier (Grammar.declaration n r)) ∧
    ∀ n, Grammar.Gauge.ExpressionsGauge n ∧ Grammar.Gauge.StatementsGauge n := by
  have unaffected (n : Nat) := (Grammar.unaffected_closed.statements n).declaration
  refine ⟨?_, fun r top => ⟨top.reached.2.2.1, fun more n => ?_⟩, unaffected,
    fun n => ⟨Grammar.Gauge.expressionsGauge n, Grammar.Gauge.statementsGauge n⟩⟩
  · obtain ⟨program, r, read, -⟩ := (Grammar.declarations_inPieces (r := .start firstId tokens)
      (n := 4 * (tokens.length + 1)) (Nat.le_succ _)).exists_ok
    obtain ⟨moments, gauged, -, balanced⟩ :=
      (Grammar.Gauge.gauges_declarations _).exists_ok read rfl (Nat.zero_le _) rfl
    exact ⟨program, r, moments, gauged, read, by rw [ofTokens_eq, read], balanced⟩
  · have same := unaffected n r.errors (.start r.nextId r.rest)
    rwa [← top.eq_start more] at same

namespace Grammar

/-- The tokens of `((;a;` -/
def openGroups : List Token :=
  [⟨.symbol .leftParen, "(", 1, 0⟩, ⟨.symbol .leftParen, "(", 1, 1⟩, ⟨.symbol .semicolon, ";", 1, 2⟩,
    ⟨.identifier, "a", 1, 3⟩, ⟨.symbol .semicolon, ";", 1, 4⟩]

/-- The error in `openGroups`. -/
def openGroupsError : ParseError := ⟨.expression, ⟨.symbol .semicolon, ";", 1, 2⟩⟩

/-- The reader behind the first declaration in `openGroups`. -/
def behindOpenGroups : Reader :=
  { Reader.start 0 openGroups with rest := openGroups.drop 3, errors := #[openGroupsError] }

end Grammar

/-- The groups in `((;a;` are given up three levels deep, and still the declaration behind them begins
where no level is open, as at the start of `a;`. -/
theorem Program.nesting_balanced_groups :
    (∃ stuck, Grammar.declarationPart 20 (.start 0 Grammar.openGroups) =
      .error (.fault Grammar.openGroupsError) stuck ∧ stuck.depth = 3) ∧
    Grammar.declaration 21 (.start 0 Grammar.openGroups) = .ok none Grammar.behindOpenGroups ∧
    Grammar.behindOpenGroups.depth = 0 ∧
    Grammar.declaration 8 Grammar.behindOpenGroups =
      Grammar.endAfter #[Grammar.openGroupsError]
        (Grammar.declaration 8 (.start 0 (Grammar.openGroups.drop 3))) := by
  have stuck : Grammar.declarationPart 20 (.start 0 Grammar.openGroups) =
      .error (.fault Grammar.openGroupsError)
        { Grammar.Reader.start 0 Grammar.openGroups with
          rest := Grammar.openGroups.drop 2
          depth := 3 } := by cbv
  have read : Grammar.declaration 21 (.start 0 Grammar.openGroups) =
      .ok none Grammar.behindOpenGroups := by cbv
  obtain ⟨-, top, -⟩ := Program.nesting_balanced 0 Grammar.openGroups
  obtain ⟨depth, same⟩ := top _ (.next .start (List.cons_ne_nil _ _) read)
  exact ⟨⟨_, stuck, rfl⟩, read, depth, same (List.cons_ne_nil _ _) 8⟩

end Lox
