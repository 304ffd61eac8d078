import Mathlib
import Lox.Proofs.Grammar.Completeness
import Lox.Proofs.Grammar.Soundness
import Lox.Proofs.Token.Scanning

/-!
# How high trees grow

The limit on nesting is there to bound the height of the trees that are read. Calls of calls escape
it: each is one level higher than the call inside of it, but reading fails to count these levels, so
that as many of them as one likes may follow each other.

* `Expr.height`, `Stmt.height` — the most nodes on a way down through a tree.
* `Expr.row`, `Expr.longestRow` — calls of calls, as in `f()()`.
* `room n row` — how high an expression gets in `n` levels without longer rows of calls than `row`.
* `Program.height_le_of_ofTokens` — a bound on the height of programs that only depends on the limit
  and the longest row of calls.
* `Program.height_unbounded` — there is none that only depends on the limit.
-/

namespace Lox

/-! ## Heights -/

mutual

/-- The most nodes on a way down from the top of an expression. -/
def Expr.height : Expr → Nat
  | .literal _ => 1
  | .grouping inner => inner.height + 1
  | .unary _ right => right.height + 1
  | .binary left _ right => max left.height right.height + 1
  | .logical left _ right => max left.height right.height + 1
  | .var _ _ => 1
  | .assign _ _ value => value.height + 1
  | .call callee _ arguments => max callee.height (Expr.heightAll arguments) + 1

/-- The greatest height of some expressions. -/
def Expr.heightAll : List Expr → Nat
  | [] => 0
  | e :: es => max e.height (Expr.heightAll es)

end

mutual

/-- The most nodes on a way down from a statement. -/
def Stmt.height : Stmt → Nat
  | .expression value => value.height + 1
  | .print _ value => value.height + 1
  | .var _ none => 1
  | .var _ (some value) => value.height + 1
  | .block body => Stmt.heightAll body + 1
  | .ifThen condition yes none => max condition.height yes.height + 1
  | .ifThen condition yes (some no) => max condition.height (max yes.height no.height) + 1
  | .whileDo condition body => max condition.height body.height + 1
  | .function _ _ body => Stmt.heightAll body + 1
  | .ret _ none => 1
  | .ret _ (some value) => value.height + 1

/-- The greatest height of some statements. -/
def Stmt.heightAll : List Stmt → Nat
  | [] => 0
  | s :: ss => max s.height (Stmt.heightAll ss)

end

/-- How many calls follow each other at the top of an expression: in `f()()`, for example, two. -/
def Expr.row : Expr → Nat
  | .call callee _ _ => callee.row + 1
  | _ => 0

mutual

/-- The most calls that follow each other anywhere in an expression. -/
def Expr.longestRow : Expr → Nat
  | .literal _ => 0
  | .grouping inner => inner.longestRow
  | .unary _ right => right.longestRow
  | .binary left _ right => max left.longestRow right.longestRow
  | .logical left _ right => max left.longestRow right.longestRow
  | .var _ _ => 0
  | .assign _ _ value => value.longestRow
  | .call callee _ arguments =>
    max (callee.row + 1) (max callee.longestRow (Expr.longestRowAll arguments))

/-- The most calls that follow each other in some expressions. -/
def Expr.longestRowAll : List Expr → Nat
  | [] => 0
  | e :: es => max e.longestRow (Expr.longestRowAll es)

end

mutual

/-- The most calls that follow each other anywhere in a statement. -/
def Stmt.longestRow : Stmt → Nat
  | .expression value => value.longestRow
  | .print _ value => value.longestRow
  | .var _ none => 0
  | .var _ (some value) => value.longestRow
  | .block body => Stmt.longestRowAll body
  | .ifThen condition yes none => max condition.longestRow yes.longestRow
  | .ifThen condition yes (some no) =>
    max condition.longestRow (max yes.longestRow no.longestRow)
  | .whileDo condition body => max condition.longestRow body.longestRow
  | .function _ _ body => Stmt.longestRowAll body
  | .ret _ none => 0
  | .ret _ (some value) => value.longestRow

/-- The most calls that follow each other in some statements. -/
def Stmt.longestRowAll : List Stmt → Nat
  | [] => 0
  | s :: ss => max s.longestRow (Stmt.longestRowAll ss)

end

theorem Expr.row_le_longestRow (e : Expr) : e.row ≤ e.longestRow := by
  cases e with
  | call callee closing arguments =>
    simp only [Expr.row, Expr.longestRow]
    omega
  | _ => exact Nat.zero_le _

/-- Identities have no height. -/
theorem Expr.height_erased : ∀ e : Expr, e.erased.height = e.height
  | .literal _ | .var _ _ => rfl
  | .grouping inner | .unary _ inner | .assign _ _ inner => by
    simp [Expr.erased, Expr.height, Expr.height_erased inner]
  | .binary left _ right | .logical left _ right => by
    simp [Expr.erased, Expr.height, Expr.height_erased left, Expr.height_erased right]
  | .call callee _ arguments => by
    simp [Expr.erased, Expr.height, Expr.height_erased callee, heightAll_erasedAll arguments]
where
  heightAll_erasedAll : ∀ es : List Expr, Expr.heightAll (Expr.erasedAll es) = Expr.heightAll es
    | [] => rfl
    | e :: es => by
      simp [Expr.erasedAll, Expr.heightAll, Expr.height_erased e, heightAll_erasedAll es]

mutual

theorem Stmt.height_erased : ∀ s : Stmt, s.erased.height = s.height
  | .expression value | .print _ value | .var _ (some value) | .ret _ (some value) => by
    simp [Stmt.erased, Stmt.height, Expr.erased?, value.height_erased]
  | .var _ none | .ret _ none => rfl
  | .block body | .function _ _ body => by
    simp [Stmt.erased, Stmt.height, Stmt.heightAll_erasedAll body]
  | .ifThen condition yes none => by
    simp [Stmt.erased, Stmt.height, condition.height_erased, Stmt.height_erased yes]
  | .ifThen condition yes (some no) => by
    simp [Stmt.erased, Stmt.height, condition.height_erased, Stmt.height_erased yes,
      Stmt.height_erased no]
  | .whileDo condition body => by
    simp [Stmt.erased, Stmt.height, condition.height_erased, Stmt.height_erased body]

theorem Stmt.heightAll_erasedAll :
    ∀ ss : List Stmt, Stmt.heightAll (Stmt.erasedAll ss) = Stmt.heightAll ss
  | [] => rfl
  | s :: ss => by
    simp [Stmt.erasedAll, Stmt.heightAll, Stmt.height_erased s, Stmt.heightAll_erasedAll ss]

end

namespace Grammar

/-! ## The bound -/

/-- A bound on the height of assignments that nest `n` levels deep, if no row of calls is longer
than `row`. On each level there may be `n` operators in each of the six levels of infix operators,
one operator in front, and a row of calls. -/
def room (row : Nat) : Nat → Nat
  | 0 => row + 1
  | n + 1 => room row n + (6 * (n + 1) + row + 1)

theorem room_eq (row n : Nat) : room row n = 3 * n * (n + 1) + (n + 1) * (row + 1) := by
  induction n with
  | zero => simp [room]
  | succ n ih =>
    rw [room, ih]
    ring

/-- There is room for the smallest expression below as many operators as there may be. -/
theorem le_room (row n : Nat) : 6 * n + row + 1 ≤ room row n := by
  cases n with
  | zero => simp [room]
  | succ n =>
    rw [room]
    omega

theorem height_of_joins {k : Nat} {left right joined : Expr} {op : Token}
    (h : Joins k left op right joined) : joined.height = max left.height right.height + 1 ∧
      joined.longestRow = max left.longestRow right.longestRow := by
  cases h <;> exact ⟨rfl, rfl⟩

theorem Joins.le_five {k : Nat} {left right joined : Expr} {op : Token}
    (h : Joins k left op right joined) : k ≤ 5 := by
  cases h <;> decide

variable {width row : Nat}

/-- What stands on the left of some operators has no longer row of calls than the result. -/
theorem IsOperands.longestRow_le {k n : Nat} {left e : Expr} {us : List Token} :
    IsOperands width k n left us e → left.longestRow ≤ e.longestRow
  | .done => Nat.le_refl _
  | .more joins _ others => by
    have := IsOperands.longestRow_le others
    have := (height_of_joins joins).2
    omega

/-- What is called has no longer row of calls than the result. -/
theorem IsCalls.longestRow_le {n : Nat} {callee e : Expr} {us : List Token} :
    IsCalls width n callee us e → callee.longestRow ≤ e.longestRow
  | .done => Nat.le_refl _
  | .call _ _ _ _ others => by
    have := IsCalls.longestRow_le others
    simp only [Expr.longestRow] at this
    omega

mutual

theorem IsExpression.height_le {n : Nat} {ts : List Token} {e : Expr} :
    IsExpression width n ts e → e.longestRow ≤ row →
      e.height + (6 * n + row + 1) ≤ room row n
  | .nested inner, few => by
    have := IsAssignment.height_le inner few
    rw [room]
    omega

theorem IsAssignment.height_le {n : Nat} {ts : List Token} {e : Expr} :
    IsAssignment width n ts e → e.longestRow ≤ row → e.height ≤ room row n
  | .assign _ _ inner, few => by
    have := IsAssignment.height_le inner few
    rw [room, Expr.height]
    omega
  | .level inner, few => by
    have := IsLevel.height_le inner few
    omega

/-- An expression of a tighter level leaves room for the operators of the looser ones. -/
theorem IsLevel.height_le {k n : Nat} {ts : List Token} {e : Expr} :
    IsLevel width k n ts e → e.longestRow ≤ row → e.height + k * n ≤ room row n
  | .infixes head others, few => by
    have first := IsLevel.height_le head (Nat.le_trans (IsOperands.longestRow_le others) few)
    rw [Nat.succ_mul] at first
    have := IsOperands.height_le others few (room row n - (k * n + n)) (by omega) (by
      rw [Nat.succ_mul]
      omega)
    omega
  | .unary inner, few => IsUnary.height_le inner few

/-- Every operator makes a tree higher by one. -/
theorem IsOperands.height_le {k n : Nat} {left e : Expr} {us : List Token} :
    IsOperands width k n left us e → e.longestRow ≤ row → ∀ height, left.height ≤ height →
      room row n ≤ height + (k + 1) * n → e.height ≤ height + n
  | .done, _, _, low, _ => Nat.le_add_right_of_le low
  | @IsOperands.more _ _ n _ _ _ _ _ _ _ joins operand others, few, height, low, wide => by
    have ⟨joined, rows⟩ := height_of_joins joins
    have inner := IsOperands.longestRow_le others
    have right := IsLevel.height_le operand (by omega)
    have level := joins.le_five
    have columns : (k + 1) * (n + 1) = (k + 1) * n + (k + 1) := Nat.mul_succ _ _
    rw [room, columns] at wide
    have := IsOperands.height_le others few (height + 1) (by omega) (by omega)
    omega

theorem IsUnary.height_le {n : Nat} {ts : List Token} {e : Expr} :
    IsUnary width n ts e → e.longestRow ≤ row → e.height + 6 * n ≤ room row n
  | .operator _ operand, few => by
    have := IsUnary.height_le operand few
    rw [room, Expr.height]
    omega
  | .call head others, few => by
    have first := IsPrimary.height_le head (Nat.le_trans (IsCalls.longestRow_le others) few)
    have := IsCalls.height_le others few (room row n - (6 * n + row)) (by omega) (by omega)
    have := e.row_le_longestRow
    omega

/-- Every call makes a tree higher by one. -/
theorem IsCalls.height_le {n : Nat} {callee e : Expr} {us : List Token} :
    IsCalls width n callee us e → e.longestRow ≤ row → ∀ height,
      callee.height ≤ height + callee.row → room row n ≤ height + (6 * n + row) →
      e.height ≤ height + e.row
  | .done, _, _, low, _ => low
  | .call _ inner _ _ others, few, height, low, wide => by
    have rows := IsCalls.longestRow_le others
    simp only [Expr.longestRow] at rows
    have := IsArguments.height_le inner (by omega)
    refine IsCalls.height_le others few height ?_ wide
    rw [Expr.height, Expr.row]
    omega

theorem IsArguments.height_le {n : Nat} {ts : List Token} {es : List Expr} :
    IsArguments width n ts es → Expr.longestRowAll es ≤ row →
      Expr.heightAll es + (6 * n + row + 1) ≤ room row n
  | .none, _ => by
    have := le_room row n
    rw [Expr.heightAll]
    omega
  | .some inner, few => IsSeveral.height_le inner few

theorem IsSeveral.height_le {n : Nat} {ts : List Token} {es : List Expr} :
    IsSeveral width n ts es → Expr.longestRowAll es ≤ row →
      Expr.heightAll es + (6 * n + row + 1) ≤ room row n
  | .one inner, few => by
    rw [Expr.longestRowAll] at few
    have := IsExpression.height_le inner (by omega)
    simp only [Expr.heightAll]
    omega
  | .more first _ others, few => by
    rw [Expr.longestRowAll] at few
    have := IsExpression.height_le first (by omega)
    have := IsSeveral.height_le others (by omega)
    simp only [Expr.heightAll]
    omega

/-- There is room left for a row of calls. -/
theorem IsPrimary.height_le {n : Nat} {ts : List Token} {e : Expr} :
    IsPrimary width n ts e → e.longestRow ≤ row → e.height + (6 * n + row) ≤ room row n
  | .constant _, _ | .name _, _ => by
    have := le_room row n
    rw [Expr.height]
    omega
  | .group _ inner _, few => by
    have := IsExpression.height_le inner few
    rw [Expr.height]
    omega

end

theorem IsOptional.height_le {n : Nat} {ts : List Token} {e : Expr}
    (h : IsOptional width n ts (Option.some e)) (few : e.longestRow ≤ row) :
    e.height + (6 * n + row + 1) ≤ room row n := by
  cases h with
  | some inner => exact inner.height_le few

/-! ## Statements -/

/-- A bound on the height of statements that nest `n` levels deep: a `for` loop takes three nodes
for one level, and four for its last clause. -/
def roomForStatements (row n : Nat) : Nat := room row n + 3 * n + 4

theorem roomForStatements_succ (row n : Nat) :
    roomForStatements row n + (6 * (n + 1) + row + 4) = roomForStatements row (n + 1) := by
  simp only [roomForStatements, room]
  omega

theorem IsExpressionStatement.height_le {n : Nat} {ts : List Token} {s : Stmt}
    (h : IsExpressionStatement width n ts s) (few : s.longestRow ≤ row) :
    s.height + (6 * n + row) ≤ room row n := by
  cases h with
  | mk inner _ =>
    have := inner.height_le few
    rw [Stmt.height]
    omega

theorem IsVariable.height_le {n : Nat} {ts : List Token} {s : Stmt}
    (h : IsVariable width n ts s) (few : s.longestRow ≤ row) :
    s.height + (6 * n + row) ≤ room row n := by
  cases h with
  | bare _ _ _ =>
    have := le_room row n
    rw [Stmt.height]
    omega
  | initialized _ _ _ inner _ =>
    have := inner.height_le few
    rw [Stmt.height]
    omega

theorem IsFirstClause.height_le {n : Nat} {ts : List Token} {s : Stmt}
    (h : IsFirstClause width n ts (Option.some s)) (few : s.longestRow ≤ row) :
    s.height + (6 * n + row) ≤ room row n := by
  cases h with
  | var inner => exact inner.height_le few
  | expression inner => exact inner.height_le few

/-- A `for` loop is at most three nodes higher than its body, and four higher than its clauses. -/
theorem height_forLoop_le {first : Option Stmt} {condition last : Option Expr} {body : Stmt}
    {height : Nat} (hf : ∀ s, first = some s → s.height ≤ height)
    (hc : ∀ e, condition = some e → e.height ≤ height)
    (hl : ∀ e, last = some e → e.height ≤ height) :
    (forLoop first condition last body).height ≤ max (height + 4) (body.height + 3) := by
  cases first <;> cases condition <;> cases last <;>
    simp_all [forLoop, together, Stmt.height, Stmt.heightAll, Expr.height] <;> omega

/-- No part of a `for` loop has a longer row of calls than the loop. -/
theorem longestRow_forLoop (first : Option Stmt) (condition last : Option Expr) (body : Stmt) :
    (∀ s, first = some s → s.longestRow ≤ (forLoop first condition last body).longestRow) ∧
      (∀ e, condition = some e → e.longestRow ≤ (forLoop first condition last body).longestRow) ∧
      (∀ e, last = some e → e.longestRow ≤ (forLoop first condition last body).longestRow) ∧
      body.longestRow ≤ (forLoop first condition last body).longestRow := by
  cases first <;> cases condition <;> cases last <;>
    simp [forLoop, together, Stmt.longestRow, Stmt.longestRowAll, Expr.longestRow]

mutual

theorem IsDeclaration.height_le {n : Nat} {ts : List Token} {s : Stmt} :
    IsDeclaration width n ts s → s.longestRow ≤ row → s.height ≤ roomForStatements row n
  | .function _ _ _ _ _ _ _ inner _, few => by
    have := IsDeclarations.height_le inner few
    rw [← roomForStatements_succ, Stmt.height]
    omega
  | .var inner, few => by
    have := inner.height_le few
    rw [roomForStatements]
    omega
  | .statement inner, few => IsStatement.height_le inner few

theorem IsDeclarations.height_le {n : Nat} {ts : List Token} {ss : List Stmt} :
    IsDeclarations width n ts ss → Stmt.longestRowAll ss ≤ row →
      Stmt.heightAll ss ≤ roomForStatements row n
  | .nil, _ => Nat.zero_le _
  | .cons first others, few => by
    rw [Stmt.longestRowAll] at few
    have := IsDeclaration.height_le first (by omega)
    have := IsDeclarations.height_le others (by omega)
    rw [Stmt.heightAll]
    omega

theorem IsStatement.height_le {dangling : Bool} {n : Nat} {ts : List Token} {s : Stmt} :
    IsStatement width dangling n ts s → s.longestRow ≤ row → s.height ≤ roomForStatements row n
  | .expression inner, few => by
    have := inner.height_le few
    rw [roomForStatements]
    omega
  | @IsStatement.forLoop _ _ n _ _ _ _ _ _ _ _ first condition last body _ _ firstClause
      conditionClause _ lastClause _ inner, few => by
    obtain ⟨rowFirst, rowCondition, rowLast, rowBody⟩ :=
      longestRow_forLoop first condition last body
    have low := le_room row (n + 1)
    have bodyLow := IsStatement.height_le inner (Nat.le_trans rowBody few)
    have loop : (forLoop first condition last body).height ≤
        max (room row (n + 1) + 4) (body.height + 3) := by
      refine height_forLoop_le ?_ ?_ ?_
      · rintro s rfl
        have := firstClause.height_le (Nat.le_trans (rowFirst s rfl) few)
        omega
      · rintro e rfl
        have := conditionClause.height_le (Nat.le_trans (rowCondition e rfl) few)
        omega
      · rintro e rfl
        have := lastClause.height_le (Nat.le_trans (rowLast e rfl) few)
        omega
    simp only [roomForStatements, room] at *
    omega
  | @IsStatement.ifThen _ _ n _ _ _ _ _ condition yes _ _ test _ inner, few => by
    rw [Stmt.longestRow] at few
    have test := test.height_le (show condition.longestRow ≤ row by omega)
    have := IsStatement.height_le inner (show yes.longestRow ≤ row by omega)
    simp only [roomForStatements, room, Stmt.height] at *
    omega
  | @IsStatement.ifThenElse _ _ n _ _ _ _ _ _ _ condition yes no _ _ test _ inner _ other, few => by
    rw [Stmt.longestRow] at few
    have test := test.height_le (show condition.longestRow ≤ row by omega)
    have := IsStatement.height_le inner (show yes.longestRow ≤ row by omega)
    have := IsStatement.height_le other (show no.longestRow ≤ row by omega)
    simp only [roomForStatements, room, Stmt.height] at *
    omega
  | .print _ inner _, few => by
    have := inner.height_le few
    rw [roomForStatements, Stmt.height]
    omega
  | .ret _ .none _, _ => by
    rw [roomForStatements, Stmt.height]
    omega
  | .ret _ (.some inner) _, few => by
    have := inner.height_le few
    rw [roomForStatements, Stmt.height]
    omega
  | @IsStatement.whileDo _ _ n _ _ _ _ _ condition body _ _ test _ inner, few => by
    rw [Stmt.longestRow] at few
    have test := test.height_le (show condition.longestRow ≤ row by omega)
    have := IsStatement.height_le inner (show body.longestRow ≤ row by omega)
    simp only [roomForStatements, room, Stmt.height] at *
    omega
  | .block _ inner _, few => by
    have := IsDeclarations.height_le inner few
    rw [← roomForStatements_succ, Stmt.height]
    omega

end

end Grammar

/-- **The limit on nesting bounds the height of a program, next to its longest row of calls.** The
bound is the same for all programs with rows that are no longer. -/
theorem Program.height_le_of_ofTokens {firstId nextId : RefId} {tokens : List Token}
    {program : Program} (h : Program.ofTokens firstId tokens = (.ok program, nextId)) :
    Stmt.heightAll program ≤
      Grammar.roomForStatements (Stmt.longestRowAll program) Grammar.maxNesting := by
  obtain ⟨r, read, clean, -⟩ := Program.ok_of_ofTokens h
  exact (Grammar.isDeclarations_of_ok read clean).height_le (Nat.le_refl _)

/-- The tokens of `f()();` are read, as a program with a row of two calls. -/
theorem Program.height_le_of_two_calls :
    Stmt.heightAll [.expression (.call (.call (.var 0 ⟨.identifier, "f", 1, 0⟩)
      ⟨.symbol .rightParen, ")", 1, 2⟩ []) ⟨.symbol .rightParen, ")", 1, 4⟩ [])] ≤
        Grammar.roomForStatements 2 Grammar.maxNesting :=
  @Program.height_le_of_ofTokens 0 1
    [⟨.identifier, "f", 1, 0⟩, ⟨.symbol .leftParen, "(", 1, 1⟩, ⟨.symbol .rightParen, ")", 1, 2⟩,
      ⟨.symbol .leftParen, "(", 1, 3⟩, ⟨.symbol .rightParen, ")", 1, 4⟩,
      ⟨.symbol .semicolon, ";", 1, 5⟩] _ (by cbv)

/-! ## Rows of calls -/

/-- So many calls without arguments. -/
def callsText : Nat → List Char
  | 0 => []
  | n + 1 => '(' :: ')' :: callsText n

/-- The tokens of so many calls without arguments that start at this place of the first line. -/
def callsTokens (offset : Nat) : Nat → List Token
  | 0 => []
  | n + 1 => ⟨.symbol .leftParen, "(", 1, offset⟩ :: ⟨.symbol .rightParen, ")", 1, offset + 1⟩ ::
      callsTokens (offset + 2) n

/-- The tokens of `f()()…;`. -/
def callsProgram (n : Nat) : List Token :=
  ⟨.identifier, "f", 1, 0⟩ :: callsTokens 1 n ++ [⟨.symbol .semicolon, ";", 1, 2 * n + 1⟩]

theorem scanFrom_calls (n offset : Nat) :
    scanFrom 1 offset (callsText n ++ [';']) =
      List.map Except.ok
        (callsTokens offset n ++ [⟨.symbol .semicolon, ";", 1, 2 * n + offset⟩]) := by
  induction n generalizing offset with
  | zero =>
    have last : Piece.cut ';' [] = (.token (.symbol .semicolon), [';'], []) := rfl
    simp [callsText, callsTokens, scanFrom, last, lineEnds]
  | succ n ih =>
    have opening (cs : List Char) : Piece.cut '(' cs = (.token (.symbol .leftParen), ['('], cs) :=
      rfl
    have closing (cs : List Char) : Piece.cut ')' cs = (.token (.symbol .rightParen), [')'], cs) :=
      rfl
    have width : '('.utf8Size = 1 ∧ ')'.utf8Size = 1 := ⟨rfl, rfl⟩
    have place : 2 * (n + 1) + offset = 2 * n + (offset + 2) := by omega
    simp [callsText, callsTokens, scanFrom, opening, closing, lineEnds, byteSize, width, ih, place]

/-- The text is read as these tokens. -/
theorem scan_calls (n : Nat) :
    scan (String.ofList ('f' :: (callsText n ++ [';']))) = .ok (callsProgram n) := by
  have name : Piece.cut 'f' (callsText n ++ [';']) =
      (.token .identifier, ['f'], callsText n ++ [';']) := by cases n <;> rfl
  have size : 'f'.utf8Size = 1 := rfl
  rw [scan_eq_ok_iff]
  simp [scanFrom, name, lineEnds, byteSize, size, scanFrom_calls, callsProgram]

/-- Every call makes the tree higher. -/
theorem isCalls_callsTokens (n offset : Nat) (callee : Expr) :
    ∃ e, Grammar.IsCalls 0 0 callee (callsTokens offset n) e ∧ callee.height + n ≤ e.height := by
  induction n generalizing offset callee with
  | zero => exact ⟨callee, .done, Nat.le_refl _⟩
  | succ n ih =>
    obtain ⟨e, others, high⟩ :=
      ih (offset + 2) (.call callee ⟨.symbol .rightParen, ")", 1, offset + 1⟩ [])
    rw [Expr.height] at high
    exact ⟨e, .call rfl .none (Nat.le_refl 0) rfl others, by omega⟩

/-- The program nests only one level deep, but is higher than it has calls. -/
theorem isProgram_callsProgram (n : Nat) :
    ∃ e, Grammar.IsProgram 0 1 (callsProgram n) [.expression e] ∧ n ≤ e.height := by
  obtain ⟨e, others, high⟩ := isCalls_callsTokens n 1 (.var 0 ⟨.identifier, "f", 1, 0⟩)
  have call : Grammar.IsUnary 0 0 ([⟨.identifier, "f", 1, 0⟩] ++ callsTokens 1 n) e :=
    .call (.name rfl) others
  have level : Grammar.IsLevel 0 0 0 (⟨.identifier, "f", 1, 0⟩ :: callsTokens 1 n) e :=
    .of_unary call (Nat.le_refl 6)
  have statement : Grammar.IsDeclaration 0 1 (callsProgram n) (.expression e) :=
    .statement (.expression (.mk (.nested (.level level)) rfl))
  refine ⟨e, ?_, by omega⟩
  rw [← List.append_nil (callsProgram n)]
  exact .cons statement .nil

/-- **The limit on nesting fails to bound the height of a program.** Every call of a call makes the tree
higher, but it is not counted as a level. -/
theorem Program.height_unbounded :
    ¬∃ bound, ∀ source tokens program nextId, scan source = .ok tokens →
      Program.ofTokens 0 tokens = (.ok program, nextId) → Stmt.heightAll program ≤ bound := by
  rintro ⟨bound, low⟩
  obtain ⟨e, derivation, high⟩ := isProgram_callsProgram bound
  obtain ⟨program, nextId, read, same⟩ :=
    Program.ok_of_isProgram 0 derivation (by decide) (by decide)
  have height : Stmt.heightAll program ≤ bound := low _ _ program nextId (scan_calls bound) read
  rw [← Stmt.heightAll_erasedAll, same, Stmt.heightAll_erasedAll, Stmt.heightAll, Stmt.height]
    at height
  omega

end Lox
