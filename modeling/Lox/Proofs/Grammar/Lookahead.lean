import Lox.Proofs.Grammar.Derivation

/-!
# Lookahead

How the tokens of a derivation begin, and which token goes on with it. One token in front of the
reader tells which rule applies and whether a repetition is over.

* `Begins`, `IsExpression.begins`, `IsDeclaration.begins` — every part begins with a token of its
  kinds, and so is not empty.
* `Ended` — no token that follows belongs to an expression of some level.
* `IsOperands.ended` — an operand ends in front of the operators of its level.
-/

namespace Lox.Grammar

/-- The first of the tokens is of one of these kinds. -/
def Begins (kinds : Kind → Bool) (ts : List Token) : Prop :=
  ∃ t rest, ts = t :: rest ∧ kinds t.kind = true

namespace Begins

variable {kinds kinds' : Kind → Bool} {ts : List Token}

theorem cons {t : Token} (h : kinds t.kind = true) (ts : List Token) : Begins kinds (t :: ts) :=
  ⟨t, ts, rfl, h⟩

theorem append (h : Begins kinds ts) (us : List Token) : Begins kinds (ts ++ us) := by
  obtain ⟨t, rest, rfl, ht⟩ := h
  exact ⟨t, rest ++ us, rfl, ht⟩

theorem mono (h : Begins kinds ts) (hk : ∀ kind, kinds kind = true → kinds' kind = true) :
    Begins kinds' ts := by
  obtain ⟨t, rest, rfl, ht⟩ := h
  exact ⟨t, rest, rfl, hk _ ht⟩

theorem length_pos (h : Begins kinds ts) : 0 < ts.length := by
  obtain ⟨t, rest, rfl, -⟩ := h
  exact Nat.succ_pos _

theorem isEmpty (h : Begins kinds ts) : ts.isEmpty = false := by
  obtain ⟨t, rest, rfl, -⟩ := h
  rfl

/-- What is of one of the kinds is of none of the others. -/
theorem head_ne (h : Begins kinds ts) {kind : Kind} (hk : kinds kind = false) :
    ts.head?.any (·.kind == kind) = false := by
  obtain ⟨t, rest, rfl, ht⟩ := h
  simp only [List.head?_cons, Option.any_some, beq_eq_false_iff_ne]
  rintro rfl
  rw [ht] at hk
  cases hk

end Begins

/-! ## First tokens -/

/-- Primary expressions begin with these. -/
def beginsPrimary : Kind → Bool
  | .identifier | .symbol .leftParen => true
  | kind => (literal? kind).isSome

/-- Expressions begin with these. -/
def beginsExpression : Kind → Bool
  | .symbol .bang | .symbol .minus => true
  | kind => beginsPrimary kind

/-- Statements begin with these. -/
def beginsStatement : Kind → Bool
  | .keyword .for_ | .keyword .if_ | .keyword .print | .keyword .return_ | .keyword .while_ => true
  | .symbol .leftBrace => true
  | kind => beginsExpression kind

/-- Declarations begin with these. -/
def beginsDeclaration : Kind → Bool
  | .keyword .fun_ | .keyword .var => true
  | kind => beginsStatement kind

theorem beginsExpression_of_primary {kind : Kind} (h : beginsPrimary kind = true) :
    beginsExpression kind = true := by
  unfold beginsExpression
  split <;> first | rfl | exact h

theorem beginsStatement_of_expression {kind : Kind} (h : beginsExpression kind = true) :
    beginsStatement kind = true := by
  unfold beginsStatement
  split <;> first | rfl | exact h

theorem beginsDeclaration_of_statement {kind : Kind} (h : beginsStatement kind = true) :
    beginsDeclaration kind = true := by
  unfold beginsDeclaration
  split <;> first | rfl | exact h

section FirstTokens

variable {width n : Nat} {ts : List Token}

theorem IsPrimary.begins {e : Expr} (h : IsPrimary width n ts e) : Begins beginsPrimary ts := by
  cases h with
  | constant kind =>
    refine .cons ?_ []
    unfold beginsPrimary
    split <;> first | rfl | simp [isConstant_iff.1 kind]
  | name kind => exact .cons (by simp [kind, beginsPrimary]) []
  | group kind => exact .cons (by simp [kind, beginsPrimary]) _

theorem IsUnary.begins {e : Expr} (h : IsUnary width n ts e) : Begins beginsExpression ts := by
  cases h with
  | operator kind => exact .cons (by rcases kind with kind | kind <;> simp [kind, beginsExpression]) _
  | call head => exact (head.begins.mono fun _ => beginsExpression_of_primary).append _

theorem IsLevel.begins {k n : Nat} {ts : List Token} {e : Expr} :
    IsLevel width k n ts e → Begins beginsExpression ts
  | .infixes head _ => (IsLevel.begins head).append _
  | .unary inner => inner.begins

theorem IsAssignment.begins {e : Expr} (h : IsAssignment width n ts e) :
    Begins beginsExpression ts := by
  cases h with
  | assign kind => exact .cons (by simp [kind, beginsExpression, beginsPrimary]) _
  | level inner => exact inner.begins

theorem IsExpression.begins {e : Expr} (h : IsExpression width n ts e) :
    Begins beginsExpression ts := by
  cases h with
  | nested inner => exact inner.begins

theorem IsSeveral.begins {es : List Expr} (h : IsSeveral width n ts es) :
    Begins beginsExpression ts := by
  cases h with
  | one inner => exact inner.begins
  | more first => exact first.begins.append _

theorem IsExpressionStatement.begins {s : Stmt} (h : IsExpressionStatement width n ts s) :
    Begins beginsExpression ts := by
  cases h with
  | mk inner => exact inner.begins.append _

theorem IsVariable.begins {s : Stmt} (h : IsVariable width n ts s) :
    Begins (· == .keyword .var) ts := by
  cases h with
  | bare kind => exact .cons (by simp [kind]) _
  | initialized kind => exact .cons (by simp [kind]) _

theorem IsStatement.begins {dangling : Bool} {s : Stmt} (h : IsStatement width dangling n ts s) :
    Begins beginsStatement ts := by
  cases h with
  | expression inner => exact inner.begins.mono fun _ => beginsStatement_of_expression
  | forLoop kind => exact .cons (by simp [kind, beginsStatement]) _
  | ifThen kind => exact .cons (by simp [kind, beginsStatement]) _
  | ifThenElse kind => exact .cons (by simp [kind, beginsStatement]) _
  | print kind => exact .cons (by simp [kind, beginsStatement]) _
  | ret kind => exact .cons (by simp [kind, beginsStatement]) _
  | whileDo kind => exact .cons (by simp [kind, beginsStatement]) _
  | block kind => exact .cons (by simp [kind, beginsStatement]) _

theorem IsDeclaration.begins {s : Stmt} (h : IsDeclaration width n ts s) :
    Begins beginsDeclaration ts := by
  cases h with
  | function kind => exact .cons (by simp [kind, beginsDeclaration]) _
  | var inner => exact inner.begins.mono fun _ h => by rw [beq_iff_eq.1 h]; rfl
  | statement inner => exact inner.begins.mono fun _ => beginsDeclaration_of_statement

end FirstTokens

/-! ## Following tokens -/

/-- A token of this kind goes on with an expression of level `k`, as an operator of this level or
of a tighter one, or as a call. -/
def goesOn (k : Nat) (kind : Kind) : Bool :=
  kind == .symbol .leftParen || (levels.drop k).any (·.has kind)

/-- The tokens do not go on with an expression of level `k` that stands in front of them. -/
def Ended (k : Nat) (us : List Token) : Prop := us.head?.any (fun t => goesOn k t.kind) = false

/-- An expression may be followed by these. -/
def closes : Kind → Bool
  | .symbol .semicolon | .symbol .rightParen | .symbol .comma => true
  | _ => false

namespace Ended

variable {k : Nat} {us : List Token}

theorem cons_iff {t : Token} : Ended k (t :: us) ↔ goesOn k t.kind = false := by simp [Ended]

theorem mono {j : Nat} (hj : k ≤ j) (h : Ended k us) : Ended j us := by
  cases us with
  | nil => rfl
  | cons t us =>
    rw [cons_iff] at h ⊢
    obtain ⟨noCall, noOperator⟩ := Bool.or_eq_false_iff.1 h
    refine Bool.or_eq_false_iff.2 ⟨noCall, List.any_eq_false.2 fun level hl => ?_⟩
    refine List.any_eq_false.1 noOperator level ?_
    rw [show j = k + (j - k) by omega, ← List.drop_drop] at hl
    exact List.mem_of_mem_drop hl

theorem not_level {level : Level} (h : Ended k us) (hl : levels[k]? = some level) :
    us.head?.any (fun t => level.has t.kind) = false := by
  cases us with
  | nil => rfl
  | cons t us =>
    have noOperator := (Bool.or_eq_false_iff.1 (cons_iff.1 h)).2
    refine Bool.eq_false_iff.2 (List.any_eq_false.1 noOperator level ?_)
    exact List.mem_of_getElem? (show (levels.drop k)[0]? = some level by simpa using hl)

theorem not_call (h : Ended k us) : us.head?.any (·.kind == .symbol .leftParen) = false := by
  cases us with
  | nil => rfl
  | cons t us => exact (Bool.or_eq_false_iff.1 (cons_iff.1 h)).1

theorem of_closes (h : Begins closes us) : Ended k us := by
  refine mono (Nat.zero_le k) ?_
  obtain ⟨t, rest, rfl, ht⟩ := h
  rw [cons_iff]
  unfold closes at ht
  split at ht <;> simp_all <;> rfl

/-- The target of an assignment ends in front of it. -/
theorem of_equal {t : Token} (h : t.kind = .symbol .equal) : Ended 0 (t :: us) := by
  rw [cons_iff, h]
  rfl

end Ended

/-- The operators of one level are not operators of a tighter one. -/
theorem Joins.ended {k : Nat} {left right e : Expr} {op : Token} (h : Joins k left op right e)
    (us : List Token) : Ended (k + 1) (op :: us) := by
  rw [Ended.cons_iff]
  cases h with
  | or kind | and kind => rw [kind]; rfl
  | equality kind | term kind | factor kind => rcases kind with kind | kind <;> rw [kind] <;> rfl
  | comparison kind => rcases kind with kind | kind | kind | kind <;> rw [kind] <;> rfl

theorem IsOperands.ended {width k n : Nat} {left e : Expr} {us rest : List Token}
    (h : IsOperands width k n left us e) (hr : Ended k rest) : Ended (k + 1) (us ++ rest) := by
  cases h with
  | done => exact hr.mono (Nat.le_succ k)
  | more joins => exact joins.ended _

end Lox.Grammar
