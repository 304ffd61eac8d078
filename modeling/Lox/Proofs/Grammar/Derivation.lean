import Lox.Grammar.Statement

/-!
# Derivations

The grammar of programs as relations between tokens and trees, apart from any way of reading.

* `IsExpression`, `IsStatement`, `IsDeclaration`, `IsProgram` — these tokens, all of them and in
  this order, derive this tree.
* `Joins` — the six levels of infix operators, from loose to tight.

Two bounds come with every derivation. `width` is the number of arguments and parameters that a
call and a function may have. The number in front of the tokens is how many levels the parts may
nest. Without bounds a tree is derived if there are some bounds for which it is.
-/

namespace Lox.Grammar

/-- `Joins k left op right e`: `op` is an infix operator of level `k`, and `e` is what it makes
of its operands. -/
inductive Joins : Nat → Expr → Token → Expr → Expr → Prop where
  | or {left right : Expr} {op : Token} (kind : op.kind = .keyword .or) :
      Joins 0 left op right (.logical left .or right)
  | and {left right : Expr} {op : Token} (kind : op.kind = .keyword .and) :
      Joins 1 left op right (.logical left .and right)
  | equality {left right : Expr} {op : Token}
      (kind : op.kind = .symbol .bangEqual ∨ op.kind = .symbol .equalEqual) :
      Joins 2 left op right (.binary left op right)
  | comparison {left right : Expr} {op : Token}
      (kind : op.kind = .symbol .greater ∨ op.kind = .symbol .greaterEqual ∨
        op.kind = .symbol .less ∨ op.kind = .symbol .lessEqual) :
      Joins 3 left op right (.binary left op right)
  | term {left right : Expr} {op : Token}
      (kind : op.kind = .symbol .minus ∨ op.kind = .symbol .plus) :
      Joins 4 left op right (.binary left op right)
  | factor {left right : Expr} {op : Token}
      (kind : op.kind = .symbol .slash ∨ op.kind = .symbol .star) :
      Joins 5 left op right (.binary left op right)

theorem Level.has_or {kind : Kind} (h : (connective .or).has kind) : kind = .keyword .or := by
  unfold Level.has at h
  split at h <;> simp_all

theorem Level.has_and {kind : Kind} (h : (connective .and).has kind) : kind = .keyword .and := by
  unfold Level.has at h
  split at h <;> simp_all

theorem Level.has_operators {symbols : List Symbol} {kind : Kind}
    (h : (operators symbols).has kind) : ∃ s ∈ symbols, kind = .symbol s := by
  unfold Level.has at h
  split at h <;> simp_all

/-- The operators of a level are those that the rules read there. -/
theorem joins_iff {k : Nat} {level : Level} {left right e : Expr} {op : Token}
    (h : levels[k]? = some level) :
    Joins k left op right e ↔ level.has op.kind ∧ e = level.join left op right := by
  constructor
  · intro joins
    cases joins with
    | or kind | and kind => cases h; simp [Level.has, Level.join, kind]
    | equality kind | term kind | factor kind =>
      cases h
      rcases kind with kind | kind <;> simp [Level.has, Level.join, kind]
    | comparison kind =>
      cases h
      rcases kind with kind | kind | kind | kind <;> simp [Level.has, Level.join, kind]
  · rintro ⟨has, rfl⟩
    match k, h with
    | 0, h => cases h; exact .or (Level.has_or has)
    | 1, h => cases h; exact .and (Level.has_and has)
    | 2, h | 3, h | 4, h | 5, h =>
      cases h
      obtain ⟨s, hs, kind⟩ := Level.has_operators has
      constructor
      simpa [kind, eq_comm] using hs

/-- A token of this kind is a constant. -/
inductive IsConstant : Kind → Literal → Prop where
  | false : IsConstant (.keyword .false) (.bool false)
  | true : IsConstant (.keyword .true) (.bool true)
  | nil : IsConstant (.keyword .nil) .nil
  | number (x : Number) : IsConstant (.number x) (.number x)
  | string (s : String) : IsConstant (.string s) (.string s)

/-- The constants are those that the rules read. -/
theorem isConstant_iff {kind : Kind} {value : Literal} :
    IsConstant kind value ↔ literal? kind = some value := by
  constructor
  · intro h
    cases h <;> rfl
  · intro h
    unfold literal? at h
    split at h <;> cases h <;> constructor

section Expressions

variable (width : Nat)

mutual

/-- `expression → assignment` -/
inductive IsExpression : Nat → List Token → Expr → Prop where
  | nested {n : Nat} {ts : List Token} {e : Expr} (inner : IsAssignment n ts e) :
      IsExpression (n + 1) ts e

/-- `assignment → identifier = assignment | level 0` -/
inductive IsAssignment : Nat → List Token → Expr → Prop where
  | assign {n : Nat} {name equals : Token} {ts : List Token} {id : RefId} {value : Expr}
      (nameKind : name.kind = .identifier) (equalsKind : equals.kind = .symbol .equal)
      (inner : IsAssignment n ts value) :
      IsAssignment (n + 1) (name :: equals :: ts) (.assign id name value)
  | level {n : Nat} {ts : List Token} {e : Expr} (inner : IsLevel 0 n ts e) : IsAssignment n ts e

/-- `level k → level k+1 ( operator level k+1 )*` for `k < 6`, and `level 6 → unary` -/
inductive IsLevel : Nat → Nat → List Token → Expr → Prop where
  | infixes {k n : Nat} {ts us : List Token} {first e : Expr} (head : IsLevel (k + 1) n ts first)
      (others : IsOperands k n first us e) : IsLevel k n (ts ++ us) e
  | unary {n : Nat} {ts : List Token} {e : Expr} (inner : IsUnary n ts e) : IsLevel 6 n ts e

/-- The repeated part of a level. What stands on its left becomes the left operand of the first
operator, and the result that of the next one. -/
inductive IsOperands : Nat → Nat → Expr → List Token → Expr → Prop where
  | done {k n : Nat} {left : Expr} : IsOperands k n left [] left
  | more {k n : Nat} {left right joined e : Expr} {op : Token} {ts us : List Token}
      (joins : Joins k left op right joined) (operand : IsLevel (k + 1) n ts right)
      (others : IsOperands k n joined us e) : IsOperands k (n + 1) left (op :: ts ++ us) e

/-- `unary → ( ! | - ) unary | primary ( "(" arguments? ")" )*` -/
inductive IsUnary : Nat → List Token → Expr → Prop where
  | operator {n : Nat} {op : Token} {ts : List Token} {e : Expr}
      (kind : op.kind = .symbol .bang ∨ op.kind = .symbol .minus) (operand : IsUnary n ts e) :
      IsUnary (n + 1) (op :: ts) (.unary op e)
  | call {n : Nat} {ts us : List Token} {callee e : Expr} (head : IsPrimary n ts callee)
      (others : IsCalls n callee us e) : IsUnary n (ts ++ us) e

/-- The repeated part of a call. What stands on its left is called first, and the result by the
next call. -/
inductive IsCalls : Nat → Expr → List Token → Expr → Prop where
  | done {n : Nat} {callee : Expr} : IsCalls n callee [] callee
  | call {n : Nat} {callee e : Expr} {opening closing : Token} {ts us : List Token}
      {arguments : List Expr} (openingKind : opening.kind = .symbol .leftParen)
      (inner : IsArguments n ts arguments) (few : arguments.length ≤ width)
      (closingKind : closing.kind = .symbol .rightParen)
      (others : IsCalls n (.call callee closing arguments) us e) :
      IsCalls n callee (opening :: ts ++ closing :: us) e

/-- `( expression ( , expression )* )?` -/
inductive IsArguments : Nat → List Token → List Expr → Prop where
  | none {n : Nat} : IsArguments n [] []
  | some {n : Nat} {ts : List Token} {es : List Expr} (inner : IsSeveral n ts es) :
      IsArguments n ts es

/-- `expression ( , expression )*` -/
inductive IsSeveral : Nat → List Token → List Expr → Prop where
  | one {n : Nat} {ts : List Token} {e : Expr} (inner : IsExpression n ts e) :
      IsSeveral n ts [e]
  | more {n : Nat} {ts us : List Token} {e : Expr} {es : List Expr} {comma : Token}
      (first : IsExpression n ts e) (kind : comma.kind = .symbol .comma)
      (others : IsSeveral n us es) : IsSeveral n (ts ++ comma :: us) (e :: es)

/-- `primary → constant | identifier | "(" expression ")"` -/
inductive IsPrimary : Nat → List Token → Expr → Prop where
  | constant {n : Nat} {t : Token} {value : Literal} (kind : IsConstant t.kind value) :
      IsPrimary n [t] (.literal value)
  | name {n : Nat} {name : Token} {id : RefId} (kind : name.kind = .identifier) :
      IsPrimary n [name] (.var id name)
  | group {n : Nat} {opening closing : Token} {ts : List Token} {e : Expr}
      (openingKind : opening.kind = .symbol .leftParen) (inner : IsExpression n ts e)
      (closingKind : closing.kind = .symbol .rightParen) :
      IsPrimary n (opening :: ts ++ [closing]) (.grouping e)

end

/-- `expression?` -/
inductive IsOptional : Nat → List Token → Option Expr → Prop where
  | none {n : Nat} : IsOptional n [] none
  | some {n : Nat} {ts : List Token} {e : Expr} (inner : IsExpression width n ts e) :
      IsOptional n ts (some e)

end Expressions

/-- Several statements as one: in a block, unless there is only one. -/
def together : List Stmt → Stmt
  | [s] => s
  | ss => .block ss

/-- What a `for` loop means. The first clause runs before a `while` loop, the last clause behind
its body, and without a condition the loop goes on for good. -/
def forLoop (first : Option Stmt) (condition last : Option Expr) (body : Stmt) : Stmt :=
  together (first.toList ++
    [.whileDo (condition.getD (.literal (.bool true)))
      (together (body :: (last.map Stmt.expression).toList))])

/-- The loops that the rules make are these. -/
theorem desugarFor_eq (first : Option Stmt) (condition last : Option Expr) (body : Stmt) :
    desugarFor first condition last body = forLoop first condition last body := by
  cases first <;> cases last <;> rfl

/-- `identifier ( , identifier )*` -/
inductive IsNames : List Token → List Token → Prop where
  | one {name : Token} (kind : name.kind = .identifier) : IsNames [name] [name]
  | more {name comma : Token} {ts names : List Token} (kind : name.kind = .identifier)
      (commaKind : comma.kind = .symbol .comma) (others : IsNames ts names) :
      IsNames (name :: comma :: ts) (name :: names)

/-- `( identifier ( , identifier )* )?` -/
inductive IsParameters : List Token → List Token → Prop where
  | none : IsParameters [] []
  | some {ts names : List Token} (inner : IsNames ts names) : IsParameters ts names

section Statements

variable (width : Nat)

/-- `expression ;` -/
inductive IsExpressionStatement : Nat → List Token → Stmt → Prop where
  | mk {n : Nat} {ts : List Token} {e : Expr} {semicolon : Token}
      (inner : IsExpression width n ts e) (kind : semicolon.kind = .symbol .semicolon) :
      IsExpressionStatement n (ts ++ [semicolon]) (.expression e)

/-- `var identifier ( = expression )? ;` -/
inductive IsVariable : Nat → List Token → Stmt → Prop where
  | bare {n : Nat} {keyword name semicolon : Token} (keywordKind : keyword.kind = .keyword .var)
      (nameKind : name.kind = .identifier) (kind : semicolon.kind = .symbol .semicolon) :
      IsVariable n [keyword, name, semicolon] (.var name none)
  | initialized {n : Nat} {keyword name equals semicolon : Token} {ts : List Token} {e : Expr}
      (keywordKind : keyword.kind = .keyword .var) (nameKind : name.kind = .identifier)
      (equalsKind : equals.kind = .symbol .equal) (inner : IsExpression width n ts e)
      (kind : semicolon.kind = .symbol .semicolon) :
      IsVariable n (keyword :: name :: equals :: ts ++ [semicolon]) (.var name (some e))

/-- `variable | expression ; | ;` -/
inductive IsFirstClause : Nat → List Token → Option Stmt → Prop where
  | none {n : Nat} {semicolon : Token} (kind : semicolon.kind = .symbol .semicolon) :
      IsFirstClause n [semicolon] none
  | var {n : Nat} {ts : List Token} {s : Stmt} (inner : IsVariable width n ts s) :
      IsFirstClause n ts (some s)
  | expression {n : Nat} {ts : List Token} {s : Stmt}
      (inner : IsExpressionStatement width n ts s) : IsFirstClause n ts (some s)

mutual

/-- `declaration → function | variable | statement` -/
inductive IsDeclaration : Nat → List Token → Stmt → Prop where
  | function {n : Nat} {keyword name opening closing left right : Token}
      {ps ts parameters : List Token} {body : List Stmt}
      (keywordKind : keyword.kind = .keyword .fun_) (nameKind : name.kind = .identifier)
      (openingKind : opening.kind = .symbol .leftParen) (names : IsParameters ps parameters)
      (few : parameters.length ≤ width) (closingKind : closing.kind = .symbol .rightParen)
      (leftKind : left.kind = .symbol .leftBrace) (inner : IsDeclarations n ts body)
      (rightKind : right.kind = .symbol .rightBrace) :
      IsDeclaration (n + 1)
        (keyword :: name :: opening :: ps ++ closing :: left :: ts ++ [right])
        (.function name parameters body)
  | var {n : Nat} {ts : List Token} {s : Stmt} (inner : IsVariable width n ts s) :
      IsDeclaration n ts s
  | statement {n : Nat} {dangling : Bool} {ts : List Token} {s : Stmt}
      (inner : IsStatement dangling n ts s) : IsDeclaration n ts s

/-- `declaration*` -/
inductive IsDeclarations : Nat → List Token → List Stmt → Prop where
  | nil {n : Nat} : IsDeclarations n [] []
  | cons {n : Nat} {ts us : List Token} {s : Stmt} {ss : List Stmt}
      (first : IsDeclaration n ts s) (others : IsDeclarations n us ss) :
      IsDeclarations n (ts ++ us) (s :: ss)

/-- `statement → expression ; | for | if | print | return | while | block`. A statement is
`dangling` if it ends with an `if` that has no `else`. None stands in front of an `else`, which so
belongs to the nearest `if`. -/
inductive IsStatement : Bool → Nat → List Token → Stmt → Prop where
  | expression {n : Nat} {ts : List Token} {s : Stmt}
      (inner : IsExpressionStatement width n ts s) : IsStatement false n ts s
  | forLoop {dangling : Bool} {n : Nat} {keyword opening semicolon closing : Token}
      {ts us vs ws : List Token} {first : Option Stmt} {condition last : Option Expr} {body : Stmt}
      (keywordKind : keyword.kind = .keyword .for_)
      (openingKind : opening.kind = .symbol .leftParen)
      (firstClause : IsFirstClause width (n + 1) ts first)
      (conditionClause : IsOptional width (n + 1) us condition)
      (semicolonKind : semicolon.kind = .symbol .semicolon)
      (lastClause : IsOptional width (n + 1) vs last)
      (closingKind : closing.kind = .symbol .rightParen) (inner : IsStatement dangling n ws body) :
      IsStatement dangling (n + 1)
        (keyword :: opening :: ts ++ us ++ semicolon :: vs ++ closing :: ws)
        (forLoop first condition last body)
  | ifThen {dangling : Bool} {n : Nat} {keyword opening closing : Token} {ts us : List Token}
      {condition : Expr} {yes : Stmt} (keywordKind : keyword.kind = .keyword .if_)
      (openingKind : opening.kind = .symbol .leftParen)
      (test : IsExpression width (n + 1) ts condition)
      (closingKind : closing.kind = .symbol .rightParen) (inner : IsStatement dangling n us yes) :
      IsStatement true (n + 1) (keyword :: opening :: ts ++ closing :: us)
        (.ifThen condition yes none)
  | ifThenElse {dangling : Bool} {n : Nat} {keyword opening closing separator : Token}
      {ts us vs : List Token} {condition : Expr} {yes no : Stmt}
      (keywordKind : keyword.kind = .keyword .if_)
      (openingKind : opening.kind = .symbol .leftParen)
      (test : IsExpression width (n + 1) ts condition)
      (closingKind : closing.kind = .symbol .rightParen) (inner : IsStatement false n us yes)
      (separatorKind : separator.kind = .keyword .else_) (other : IsStatement dangling n vs no) :
      IsStatement dangling (n + 1)
        (keyword :: opening :: ts ++ closing :: us ++ separator :: vs)
        (.ifThen condition yes (some no))
  | print {n : Nat} {keyword semicolon : Token} {ts : List Token} {value : Expr}
      (keywordKind : keyword.kind = .keyword .print) (inner : IsExpression width n ts value)
      (semicolonKind : semicolon.kind = .symbol .semicolon) :
      IsStatement false n (keyword :: ts ++ [semicolon]) (.print keyword value)
  | ret {n : Nat} {keyword semicolon : Token} {ts : List Token} {value : Option Expr}
      (keywordKind : keyword.kind = .keyword .return_) (inner : IsOptional width n ts value)
      (semicolonKind : semicolon.kind = .symbol .semicolon) :
      IsStatement false n (keyword :: ts ++ [semicolon]) (.ret keyword value)
  | whileDo {dangling : Bool} {n : Nat} {keyword opening closing : Token} {ts us : List Token}
      {condition : Expr} {body : Stmt} (keywordKind : keyword.kind = .keyword .while_)
      (openingKind : opening.kind = .symbol .leftParen)
      (test : IsExpression width (n + 1) ts condition)
      (closingKind : closing.kind = .symbol .rightParen) (inner : IsStatement dangling n us body) :
      IsStatement dangling (n + 1) (keyword :: opening :: ts ++ closing :: us)
        (.whileDo condition body)
  | block {n : Nat} {left right : Token} {ts : List Token} {body : List Stmt}
      (leftKind : left.kind = .symbol .leftBrace) (inner : IsDeclarations n ts body)
      (rightKind : right.kind = .symbol .rightBrace) :
      IsStatement false (n + 1) (left :: ts ++ [right]) (.block body)

end

end Statements

/-- The tokens go on with an `else`. -/
def startsElse (ts : List Token) : Bool := ts.head?.any (·.kind == .keyword .else_)

/-- `program → declaration*`, with bounds on width and nesting. -/
def IsProgram (width nesting : Nat) (tokens : List Token) (program : List Stmt) : Prop :=
  IsDeclarations width nesting tokens program

end Lox.Grammar
