import Lox.Proofs.Grammar.Soundness
import Lox.Proofs.Scope.Mentions

/-!
# Trees that are read

What all trees have in common that reading makes of tokens.

* `Program.plain_of_ofTokens` — no branch and no body of a loop is a mere declaration.
* `Draws x ids` — the identities in what `x` makes are those it was given and new ones, each once.
* `Program.distinct_of_ofTokens` — no two mentions of a program have the same identity, and none
  has one that was given to an earlier program.
-/

namespace Lox.Grammar

/-! ## Plain trees -/

section Plain

variable {width n : Nat} {ts : List Token}

theorem IsVariable.plain {s : Stmt} (h : IsVariable width n ts s) : s.Plain := by
  cases h <;> trivial

theorem IsFirstClause.plain {o : Option Stmt} (h : IsFirstClause width n ts o) :
    Stmt.PlainAll o.toList := by
  cases h with
  | none => trivial
  | var inner => exact ⟨inner.plain, trivial⟩
  | expression inner =>
    cases inner
    exact ⟨trivial, trivial⟩

theorem declared?_together {s : Stmt} {ss : List Stmt} (h : s.declared? = none ∨ ss ≠ []) :
    (together (s :: ss)).declared? = none := by
  cases ss with
  | nil => exact h.resolve_right (by simp)
  | cons s' ss => rfl

theorem plain_together {ss : List Stmt} (h : Stmt.PlainAll ss) (some : ss ≠ []) :
    (together ss).Plain := by
  match ss, h with
  | [s], h => exact h.1
  | s :: s' :: ss, h => exact h

theorem plain_forLoop {first : Option Stmt} {condition last : Option Expr} {body : Stmt}
    (hf : Stmt.PlainAll first.toList) (hd : body.declared? = none) (hb : body.Plain) :
    (forLoop first condition last body).declared? = none ∧
      (forLoop first condition last body).Plain := by
  have inner : Stmt.PlainAll (body :: (last.map Stmt.expression).toList) := by
    cases last with
    | none => exact ⟨hb, trivial⟩
    | some e => exact ⟨hb, trivial, trivial⟩
  have loop : (Stmt.whileDo (condition.getD (.literal (.bool true)))
      (together (body :: (last.map Stmt.expression).toList))).Plain :=
    ⟨declared?_together (.inl hd), plain_together inner (by simp)⟩
  unfold forLoop
  cases first with
  | none => exact ⟨rfl, loop⟩
  | some s => exact ⟨rfl, hf.1, loop, trivial⟩

mutual

theorem IsDeclaration.plain {n : Nat} {ts : List Token} {s : Stmt} :
    IsDeclaration width n ts s → s.Plain
  | .function _ _ _ _ _ _ _ inner _ => IsDeclarations.plain inner
  | .var inner => inner.plain
  | .statement inner => (IsStatement.plain inner).2

theorem IsDeclarations.plain {n : Nat} {ts : List Token} {ss : List Stmt} :
    IsDeclarations width n ts ss → Stmt.PlainAll ss
  | .nil => trivial
  | .cons first others => ⟨IsDeclaration.plain first, IsDeclarations.plain others⟩

/-- A statement declares nothing in the scope it stands in. -/
theorem IsStatement.plain {dangling : Bool} {n : Nat} {ts : List Token} {s : Stmt} :
    IsStatement width dangling n ts s → s.declared? = none ∧ s.Plain
  | .expression (.mk _ _) => ⟨rfl, trivial⟩
  | .forLoop _ _ first _ _ _ _ inner =>
    have ⟨noDeclaration, plain⟩ := IsStatement.plain inner
    plain_forLoop first.plain noDeclaration plain
  | .ifThen _ _ _ _ inner => ⟨rfl, IsStatement.plain inner⟩
  | .ifThenElse _ _ _ _ inner _ other => ⟨rfl, IsStatement.plain inner, IsStatement.plain other⟩
  | .print _ _ _ => ⟨rfl, trivial⟩
  | .ret _ _ _ => ⟨rfl, trivial⟩
  | .whileDo _ _ _ _ inner => ⟨rfl, IsStatement.plain inner⟩
  | .block _ inner _ => ⟨rfl, IsDeclarations.plain inner⟩

end

end Plain

/-! ## Identities -/

/-- The identities of the mentions in an expression. -/
def exprIds (e : Expr) : List RefId := e.references.map Reference.id

/-- The identities of the mentions in some expressions. -/
def exprsIds (es : List Expr) : List RefId := (Expr.referencesAll es).map Reference.id

/-- The identities of the mentions in a statement. -/
def stmtIds (s : Stmt) : List RefId := s.references.map Reference.id

/-- The identities of the mentions in some statements. -/
def stmtsIds (ss : List Stmt) : List RefId := (Stmt.referencesAll ss).map Reference.id

/-- The identities in something that may be missing. -/
def optionIds {α : Type} (ids : α → List RefId) (o : Option α) : List RefId :=
  (o.map ids).getD []

variable {α β : Type}

/-- The identities `ids` of what `x` makes are among those `before` it and those that it gives, each
no more often than there. -/
def Draws (before : List RefId) (x : Parse α) (ids : α → List RefId) : Prop :=
  ∀ r, Ends x r
    (fun a r' => r.nextId ≤ r'.nextId ∧ ∀ id, (ids a).count id ≤
      before.count id + if r.nextId ≤ id ∧ id < r'.nextId then 1 else 0)
    (fun _ r' => r.nextId ≤ r'.nextId)

/-- A number is in only one of two ranges of which one begins where the other ends. -/
theorem ranges_le {a b c : Nat} (hab : a ≤ b) (hbc : b ≤ c) (i : Nat) :
    ((if a ≤ i ∧ i < b then 1 else 0) + if b ≤ i ∧ i < c then 1 else 0) ≤
      if a ≤ i ∧ i < c then 1 else 0 := by
  split <;> split <;> split <;> omega

namespace Draws

variable {before : List RefId} {x y : Parse α} {ids : α → List RefId}

theorem pure {a : α} (h : ∀ id, (ids a).count id ≤ before.count id) :
    Draws before (pure a) ids :=
  fun _ => ⟨Nat.le_refl _, fun id => Nat.le_add_right_of_le (h id)⟩

theorem bind {f : α → Parse β} {ids' : β → List RefId} (hx : Draws before x ids)
    (hf : ∀ a, Draws (ids a) (f a) ids') : Draws before (x >>= f) ids' := by
  intro r
  rw [Ends.bind_iff]
  refine (hx r).mono (fun a r₁ ⟨le, within⟩ => ?_) fun _ _ h => h
  refine (hf a r₁).mono (fun b r₂ ⟨le', within'⟩ => ⟨Nat.le_trans le le', fun id => ?_⟩)
    fun _ _ le' => Nat.le_trans le le'
  calc (ids' b).count id
    _ ≤ (ids a).count id + if r₁.nextId ≤ id ∧ id < r₂.nextId then 1 else 0 := within' id
    _ ≤ before.count id + ((if r.nextId ≤ id ∧ id < r₁.nextId then 1 else 0) +
          if r₁.nextId ≤ id ∧ id < r₂.nextId then 1 else 0) := by
        rw [← Nat.add_assoc]
        exact Nat.add_le_add_right (within id) _
    _ ≤ before.count id + if r.nextId ≤ id ∧ id < r₂.nextId then 1 else 0 :=
        Nat.add_le_add_left (ranges_le le le' id) _

/-- A step that gives no identity leaves those that there were. -/
theorem keep (h : ∀ r, Ends x r (fun _ r' => r'.nextId = r.nextId) fun _ r' => r'.nextId = r.nextId) :
    Draws before x fun _ => before :=
  fun r => (h r).mono (fun _ _ same => ⟨Nat.le_of_eq same.symm, fun _ => Nat.le_add_right _ _⟩)
    fun _ _ same => Nat.le_of_eq same.symm

/-- What was there before stays there. -/
theorem frame (h : Draws [] x ids) (before : List RefId) :
    Draws before x fun a => before ++ ids a := by
  intro r
  refine (h r).mono (fun a r' ⟨le, within⟩ => ⟨le, fun id => ?_⟩) fun _ _ h => h
  have := within id
  rw [List.count_append]
  rw [List.count_nil, Nat.zero_add] at this
  omega

theorem map {f : α → β} {ids' : β → List RefId} (h : Draws before x fun a => ids' (f a)) :
    Draws before (f <$> x) ids' :=
  fun r => Ends.map_iff.2 (h r)

theorem ite {c : Prop} [Decidable c] (hx : Draws before x ids) (hy : Draws before y ids) :
    Draws before (if c then x else y) ids := by
  split
  · exact hx
  · exact hy

theorem exhausted : Draws before (exhausted : Parse α) ids := fun r => Nat.le_refl r.nextId

theorem fail (cause : ParseError.Cause) : Draws before (fail cause : Parse α) ids :=
  fun r => Nat.le_refl r.nextId

theorem peek : Draws before peek fun _ => before := keep fun _ => rfl
theorem sees (kind : Kind) : Draws before (sees kind) fun _ => before := keep fun _ => rfl
theorem seesLevel (level : Level) : Draws before (seesLevel level) fun _ => before :=
  keep fun _ => rfl
theorem atEnd : Draws before atEnd fun _ => before := keep fun _ => rfl
theorem advance : Draws before advance fun _ => before := keep fun _ => rfl
theorem note (e : ParseError) : Draws before (note e) fun _ => before := keep fun _ => rfl
theorem noteHere (cause : ParseError.Cause) : Draws before (noteHere cause) fun _ => before :=
  keep fun _ => rfl

theorem accept (kind : Kind) : Draws before (accept kind) fun _ => before := by
  refine keep fun r => ?_
  rw [ends_accept]
  split <;> rfl

theorem expect (kind : Kind) (cause : ParseError.Cause) :
    Draws before (expect kind cause) fun _ => before := by
  refine keep fun r => ?_
  rw [ends_expect]
  split <;> rfl

theorem deepen : Draws before deepen fun _ => before := by
  refine keep fun r => ?_
  rw [ends_deepen]
  split <;> rfl

theorem freshId : Draws before freshId fun id => id :: before := by
  intro r
  rw [ends_freshId]
  refine ⟨Nat.le_succ _, fun id => ?_⟩
  rw [List.count_cons]
  by_cases h : r.nextId = id
  · subst h
    simp
  · simp [h]

theorem nested (h : Draws before x ids) : Draws before (nested x) ids :=
  deepen.bind fun _ => h.bind fun a =>
    (show Draws (ids a) ascend fun _ => ids a from keep fun _ => rfl).bind fun _ =>
      pure fun _ => Nat.le_refl _

theorem levelled (h : Draws before x ids) : Draws before (levelled x) ids := by
  intro r
  rw [ends_levelled]
  exact h r

/-- What is given up takes its identities along. -/
theorem recover (h : Draws [] x ids) : Draws [] (recover x) (optionIds ids) := by
  intro r
  rw [ends_recover]
  refine (h r).mono (fun _ _ h => h) fun reason r' le => ?_
  cases reason with
  | fault e => exact ⟨le, fun id => by simp [optionIds]⟩
  | exhausted => exact le

end Draws

theorem draws_assignTo (target : Expr) (equals : Token) (value : Expr) :
    Draws (exprIds target ++ exprIds value) (assignTo target equals value) exprIds := by
  unfold assignTo
  split
  · refine Draws.freshId.bind fun id => .pure fun i => ?_
    simp only [exprIds, Expr.references, List.map_cons, List.map_nil, List.count_cons,
      List.count_append, List.count_nil]
    omega
  · refine (Draws.note _).bind fun _ => .pure fun id => ?_
    rw [List.count_append]
    omega

theorem exprIds_join (level : Level) (left : Expr) (op : Token) (right : Expr) :
    exprIds (level.join left op right) = exprIds left ++ exprIds right := by
  cases level <;> simp [exprIds, Level.join, Expr.references]

theorem exprIds_call (callee : Expr) (closing : Token) (arguments : List Expr) :
    exprIds (.call callee closing arguments) = exprIds callee ++ exprsIds arguments := by
  simp [exprIds, exprsIds, Expr.references]

theorem exprsIds_cons (e : Expr) (es : List Expr) :
    exprsIds (e :: es) = exprIds e ++ exprsIds es := by
  simp [exprIds, exprsIds, Expr.referencesAll]

/-- Every rule for expressions gives each identity once, with so many steps. -/
structure ExpressionsDraw (n : Nat) : Prop where
  assignment : Draws [] (assignment n) exprIds
  leftAssociative : ∀ ls, Draws [] (leftAssociative n ls) exprIds
  operands : ∀ level tighter left, Draws (exprIds left) (operands n level tighter left) exprIds
  unary : Draws [] (unary n) exprIds
  calls : ∀ callee, Draws (exprIds callee) (calls n callee) exprIds
  arguments : ∀ count, Draws [] (arguments n count) exprsIds
  primary : Draws [] (primary n) exprIds

theorem expressionsDraw (n : Nat) : ExpressionsDraw n := by
  induction n with
  | zero =>
    constructor <;> intros <;>
      simp only [assignment, leftAssociative, operands, unary, calls, arguments, primary] <;>
      exact .exhausted
  | succ n ih =>
    constructor
    case assignment =>
      rw [assignment]
      refine (ih.leftAssociative _).bind fun target => (Draws.sees _).bind fun _ => .ite ?_ ?_
      · refine Draws.advance.bind fun _ => ?_
        exact (ih.assignment.nested.frame _).bind fun value => draws_assignTo _ _ _
      · exact .pure fun _ => Nat.le_refl _
    case leftAssociative =>
      intro ls
      cases ls with
      | nil => rw [leftAssociative]; exact ih.unary
      | cons level tighter =>
        rw [leftAssociative]
        exact ((ih.leftAssociative _).bind fun _ => ih.operands _ _ _).levelled
    case operands =>
      intro level tighter left
      rw [operands]
      refine (Draws.seesLevel _).bind fun _ => .ite ?_ (.pure fun _ => Nat.le_refl _)
      refine Draws.deepen.bind fun _ => Draws.advance.bind fun op => ?_
      refine ((ih.leftAssociative _).frame _).bind fun right => ?_
      rw [← exprIds_join level left op right]
      exact ih.operands _ _ _
    case unary =>
      rw [unary]
      refine (Draws.sees _).bind fun _ => (Draws.sees _).bind fun _ => .ite ?_ ?_
      · exact Draws.advance.bind fun _ => ih.unary.nested.bind fun _ => .pure fun _ => Nat.le_refl _
      · exact ih.primary.bind fun _ => ih.calls _
    case calls =>
      intro callee
      rw [calls]
      refine (Draws.accept _).bind fun _ => .ite ?_ (.pure fun _ => Nat.le_refl _)
      have rest : ∀ es, Draws (exprIds callee ++ exprsIds es) (do
          let closing ← Grammar.expect (.symbol .rightParen) .argumentsClosing
          calls n (.call callee closing es)) exprIds := fun es =>
        (Draws.expect _ _).bind fun closing => by
          rw [← exprIds_call callee closing es]
          exact ih.calls _
      refine (Draws.sees _).bind fun _ => .ite ?_ ?_
      · have none : Draws (exprIds callee) (pure []) fun es => exprIds callee ++ exprsIds es :=
          .pure fun id => by simp [exprsIds, Expr.referencesAll]
        exact none.bind rest
      · exact ((ih.arguments 0).frame _).bind rest
    case arguments =>
      intro count
      rw [arguments]
      have list : Draws [] (do
          let first ← Grammar.nested (assignment n)
          if ← Grammar.accept (.symbol .comma) then
            let others ← arguments n (count + 1)
            return first :: others
          else return [first]) exprsIds := by
        refine ih.assignment.nested.bind fun first => (Draws.accept _).bind fun _ => .ite ?_ ?_
        · exact ((ih.arguments _).frame _).bind fun others => .pure fun id =>
            Nat.le_of_eq (by rw [exprsIds_cons])
        · exact .pure fun id => by simp [exprsIds, exprIds, Expr.referencesAll]
      exact .ite ((Draws.noteHere _).bind fun _ => list) list
    case primary =>
      rw [primary]
      refine Draws.peek.bind fun token => ?_
      split
      · refine Draws.advance.bind fun _ => Draws.freshId.bind fun _ => .pure fun id => ?_
        simp [exprIds, Expr.references]
      · exact Draws.advance.bind fun _ => ih.assignment.nested.bind fun _ =>
          (Draws.expect _ _).bind fun _ => .pure fun _ => Nat.le_refl _
      · split
        · exact Draws.advance.bind fun _ => .pure fun id => by simp [exprIds, Expr.references]
        · exact .fail _

theorem draws_expression : Draws [] expression exprIds := by
  intro r
  rw [ends_expression]
  exact (expressionsDraw _).assignment.nested r

theorem draws_expressionUnless (kind : Kind) :
    Draws [] (expressionUnless kind) (optionIds exprIds) := by
  refine (Draws.sees _).bind fun _ => .ite (.pure fun _ => Nat.le_refl _) (.map ?_)
  exact draws_expression

theorem stmtIds_var (name : Token) (o : Option Expr) :
    stmtIds (.var name o) = optionIds exprIds o := by
  cases o <;> rfl

theorem stmtIds_ret (keyword : Token) (o : Option Expr) :
    stmtIds (.ret keyword o) = optionIds exprIds o := by
  cases o <;> rfl

theorem stmtIds_ifThen (condition : Expr) (yes : Stmt) (no : Option Stmt) :
    stmtIds (.ifThen condition yes no) =
      exprIds condition ++ stmtIds yes ++ optionIds stmtIds no := by
  cases no <;> simp [stmtIds, exprIds, optionIds, Stmt.references]

theorem stmtIds_whileDo (condition : Expr) (body : Stmt) :
    stmtIds (.whileDo condition body) = exprIds condition ++ stmtIds body := by
  simp [stmtIds, exprIds, Stmt.references]

theorem stmtsIds_append (first : Option Stmt) (ss : List Stmt) :
    stmtsIds (first.toList ++ ss) = optionIds stmtIds first ++ stmtsIds ss := by
  cases first <;> simp [stmtsIds, stmtIds, optionIds, Stmt.referencesAll]

/-- A loop has the mentions of its clauses and its body. -/
theorem stmtIds_desugarFor (first : Option Stmt) (condition last : Option Expr) (body : Stmt)
    (id : RefId) :
    (stmtIds (desugarFor first condition last body)).count id =
      (optionIds stmtIds first ++ optionIds exprIds condition ++ optionIds exprIds last ++
        stmtIds body).count id := by
  cases first <;> cases condition <;> cases last <;>
    simp [desugarFor, stmtIds, exprIds, optionIds, Stmt.references, Stmt.referencesAll,
      Expr.references] <;> omega

theorem draws_expressionStatement : Draws [] expressionStatement stmtIds :=
  draws_expression.bind fun _ => (Draws.expect _ _).bind fun _ => .pure fun _ => Nat.le_refl _

theorem draws_variableDeclaration : Draws [] variableDeclaration stmtIds := by
  have ended : ∀ (name : Token) (o : Option Expr), Draws (optionIds exprIds o) (do
      let _ ← expect (.symbol .semicolon) .declarationEnd
      return Stmt.var name o) stmtIds := fun name o =>
    (Draws.expect _ _).bind fun _ => .pure fun _ => Nat.le_of_eq (by rw [stmtIds_var])
  refine (Draws.expect _ _).bind fun name => (Draws.accept _).bind fun _ => .ite ?_ ?_
  · have present : Draws [] (some <$> expression) (optionIds exprIds) := .map draws_expression
    exact present.bind (ended name)
  · have missing : Draws [] (pure none) (optionIds exprIds) := .pure fun _ => Nat.le_refl _
    exact missing.bind (ended name)

theorem draws_parameters (n count : Nat) : Draws [] (parameters n count) fun _ => [] := by
  induction n generalizing count with
  | zero => exact .exhausted
  | succ n ih =>
    rw [parameters]
    have list : Draws [] (do
        let first ← expect .identifier .parameterName
        if ← accept (.symbol .comma) then
          let others ← parameters n (count + 1)
          return first :: others
        else return [first]) fun _ => [] := by
      refine (Draws.expect _ _).bind fun _ => (Draws.accept _).bind fun _ => .ite ?_ ?_
      · exact (ih _).bind fun _ => .pure fun _ => Nat.le_refl _
      · exact .pure fun _ => Nat.le_refl _
    exact .ite ((Draws.noteHere _).bind fun _ => list) list

theorem draws_signature : Draws [] signature fun _ => [] := by
  have names : Draws [] (fun r => parameters (r.rest.length + 1) 0 r) fun _ => [] :=
    fun r => draws_parameters _ 0 r
  refine (Draws.expect _ _).bind fun _ => (Draws.expect _ _).bind fun _ =>
    (Draws.sees _).bind fun _ => .ite ?_ ?_
  · exact (Draws.expect _ _).bind fun _ => (Draws.expect _ _).bind fun _ =>
      .pure fun _ => Nat.le_refl _
  · exact names.bind fun _ => (Draws.expect _ _).bind fun _ => (Draws.expect _ _).bind fun _ =>
      .pure fun _ => Nat.le_refl _

theorem draws_firstClause : Draws [] firstClause (optionIds stmtIds) := by
  refine (Draws.accept _).bind fun _ => .ite (.pure fun _ => Nat.le_refl _) ?_
  refine (Draws.accept _).bind fun _ => .ite (.map ?_) (.map ?_)
  · exact draws_variableDeclaration
  · exact draws_expressionStatement

theorem draws_condition (opening closing : ParseError.Cause) :
    Draws [] (condition opening closing) exprIds :=
  (Draws.expect _ _).bind fun _ => draws_expression.bind fun _ => (Draws.expect _ _).bind fun _ =>
    .pure fun _ => Nat.le_refl _

/-- Every rule for statements gives each identity once, with so many steps. -/
structure StatementsDraw (n : Nat) : Prop where
  declaration : Draws [] (declaration n) (optionIds stmtIds)
  statement : Draws [] (statement n) stmtIds
  block : Draws [] (block n) stmtsIds

theorem statementsDraw (n : Nat) : StatementsDraw n := by
  induction n with
  | zero =>
    constructor <;> simp only [declaration, statement, block] <;> exact .exhausted
  | succ n ih =>
    constructor
    case declaration =>
      rw [declaration]
      refine .recover ((Draws.accept _).bind fun _ => .ite ?_ ?_)
      · exact draws_signature.bind fun _ => ih.block.nested.bind fun _ =>
          .pure fun _ => Nat.le_refl _
      · refine (Draws.accept _).bind fun _ => .ite draws_variableDeclaration ?_
        exact (Draws.sees _).bind fun _ => .ite (.fail _) ih.statement
    case statement =>
      rw [statement]
      refine Draws.peek.bind fun token => ?_
      split
      · refine Draws.advance.bind fun _ => (Draws.expect _ _).bind fun _ =>
          draws_firstClause.bind fun first => ((draws_expressionUnless _).frame _).bind fun test =>
          (Draws.expect _ _).bind fun _ => ((draws_expressionUnless _).frame _).bind fun last =>
          (Draws.expect _ _).bind fun _ => (ih.statement.nested.frame _).bind fun body => ?_
        exact .pure fun id => Nat.le_of_eq (stmtIds_desugarFor first test last body id)
      · refine Draws.advance.bind fun _ => (draws_condition _ _).bind fun test =>
          (ih.statement.nested.frame _).bind fun yes => (Draws.accept _).bind fun _ => ?_
        have ended : ∀ no, Draws (exprIds test ++ stmtIds yes ++ optionIds stmtIds no)
            (pure (.ifThen test yes no)) stmtIds := fun no =>
          .pure fun _ => Nat.le_of_eq (by rw [stmtIds_ifThen])
        refine .ite ?_ ?_
        · have other : Draws [] (some <$> nested (statement n)) (optionIds stmtIds) :=
            .map ih.statement.nested
          exact (other.frame _).bind ended
        · have none : Draws [] (pure none) (optionIds stmtIds) := .pure fun _ => Nat.le_refl _
          exact (none.frame _).bind ended
      · exact Draws.advance.bind fun _ => draws_expression.bind fun _ =>
          (Draws.expect _ _).bind fun _ => .pure fun _ => Nat.le_refl _
      · exact Draws.advance.bind fun keyword => (draws_expressionUnless _).bind fun value =>
          (Draws.expect _ _).bind fun _ => .pure fun _ => Nat.le_of_eq (by rw [stmtIds_ret])
      · exact Draws.advance.bind fun _ => (draws_condition _ _).bind fun test =>
          (ih.statement.nested.frame _).bind fun body =>
            .pure fun _ => Nat.le_of_eq (by rw [stmtIds_whileDo])
      · exact Draws.advance.bind fun _ => ih.block.nested.bind fun _ => .pure fun _ => Nat.le_refl _
      · exact draws_expressionStatement
    case block =>
      rw [block]
      refine (Draws.sees _).bind fun _ => Draws.atEnd.bind fun _ => .ite ?_ ?_
      · exact (Draws.expect _ _).bind fun _ => .pure fun _ => Nat.le_refl _
      · exact ih.declaration.bind fun first => (ih.block.frame _).bind fun others =>
          .pure fun _ => Nat.le_of_eq (by rw [stmtsIds_append])

theorem draws_declarations (n : Nat) : Draws [] (declarations n) stmtsIds := by
  induction n with
  | zero => exact .exhausted
  | succ n ih =>
    rw [declarations]
    refine Draws.atEnd.bind fun _ => .ite (.pure fun _ => Nat.le_refl _) ?_
    exact (statementsDraw n).declaration.bind fun first => (ih.frame _).bind fun others =>
      .pure fun _ => Nat.le_of_eq (by rw [stmtsIds_append])

end Lox.Grammar

namespace Lox

/-- The identities in some statements are different, and from a range. -/
structure Distinct (first last : RefId) (ids : List RefId) : Prop where
  nodup : ids.Nodup
  range : ∀ id ∈ ids, first ≤ id ∧ id < last

/-- A program that is read is plain. -/
theorem Program.plain_of_ofTokens {firstId nextId : RefId} {tokens : List Token}
    {program : Program} (h : Program.ofTokens firstId tokens = (.ok program, nextId)) :
    Stmt.PlainAll program := by
  obtain ⟨r, read, clean, -⟩ := Program.ok_of_ofTokens h
  exact (Grammar.isDeclarations_of_ok read clean).plain

/-- Reading gives no identity back. -/
theorem Program.nextId_le_of_ofTokens (firstId : RefId) (tokens : List Token) :
    firstId ≤ (Program.ofTokens firstId tokens).2 := by
  have drawn := Grammar.draws_declarations (4 * (tokens.length + 1))
    ⟨tokens, Token.endOf tokens, Token.kind_endOf tokens, #[], 0, Grammar.maxNesting, firstId⟩
  unfold Ends at drawn
  unfold Program.ofTokens
  simp only
  split at drawn
  · rename_i h
    rw [h]
    exact drawn.1
  · rename_i h
    rw [h]
    exact drawn

/-- The mentions of a program that is read have different identities, all of them given for this
program. -/
theorem Program.distinct_of_ofTokens {firstId nextId : RefId} {tokens : List Token}
    {program : Program} (h : Program.ofTokens firstId tokens = (.ok program, nextId)) :
    Distinct firstId nextId (Grammar.stmtsIds program) := by
  obtain ⟨r, read, -, rfl⟩ := Program.ok_of_ofTokens h
  obtain ⟨-, within⟩ := (Grammar.draws_declarations _ _).ok_of_eq read
  refine ⟨List.nodup_iff_count.2 fun id => ?_, fun id mem => ?_⟩
  · have := within id
    rw [List.count_nil, Nat.zero_add] at this
    split at this <;> omega
  · have := within id
    have := List.count_pos_iff.2 mem
    rw [List.count_nil, Nat.zero_add] at *
    split at * <;> omega

end Lox
