import Lox.Proofs.Grammar.Derivation

/-!
# The parts of a program

The expressions in a program, each of them and each one in it. What holds of every expression that
the grammar puts together from tokens holds of all of these.

* `Expr.parts`, `Stmt.parts` — all expressions of a tree.
* `Grammar.Nodewise` — a property of single nodes that the grammar gives to each node it makes.
* `Grammar.Nodewise.program` — all parts of a program that is derived have it.
-/

namespace Lox

mutual

/-- The expression and all expressions in it. -/
def Expr.parts : Expr → List Expr
  | .literal value => [.literal value]
  | .grouping inner => .grouping inner :: inner.parts
  | .unary op right => .unary op right :: right.parts
  | .binary left op right => .binary left op right :: (left.parts ++ right.parts)
  | .logical left op right => .logical left op right :: (left.parts ++ right.parts)
  | .var id name => [.var id name]
  | .assign id target value => .assign id target value :: value.parts
  | .call callee closing arguments =>
    .call callee closing arguments :: (callee.parts ++ Expr.partsAll arguments)

/-- The expressions and all expressions in them. -/
def Expr.partsAll : List Expr → List Expr
  | [] => []
  | e :: es => e.parts ++ Expr.partsAll es

end

/-- An expression is a part of itself. -/
theorem Expr.mem_parts (e : Expr) : e ∈ e.parts := by
  cases e <;> simp [Expr.parts]

mutual

/-- Parts of parts are parts. -/
theorem Expr.parts_subset : ∀ e : Expr, ∀ q ∈ e.parts, q.parts ⊆ e.parts
  | .literal _, q, mem | .var _ _, q, mem => by
    rw [Expr.parts, List.mem_singleton] at mem
    rw [mem]
    exact List.Subset.refl _
  | .grouping inner, q, mem | .unary _ inner, q, mem | .assign _ _ inner, q, mem => by
    rw [Expr.parts, List.mem_cons] at mem
    rcases mem with rfl | mem
    · exact List.Subset.refl _
    · exact List.subset_cons_of_subset _ (Expr.parts_subset inner q mem)
  | .binary left _ right, q, mem | .logical left _ right, q, mem => by
    rw [Expr.parts, List.mem_cons, List.mem_append] at mem
    rcases mem with rfl | mem | mem
    · exact List.Subset.refl _
    · exact List.subset_cons_of_subset _
        (List.subset_append_of_subset_left _ (Expr.parts_subset left q mem))
    · exact List.subset_cons_of_subset _
        (List.subset_append_of_subset_right _ (Expr.parts_subset right q mem))
  | .call callee _ arguments, q, mem => by
    rw [Expr.parts, List.mem_cons, List.mem_append] at mem
    rcases mem with rfl | mem | mem
    · exact List.Subset.refl _
    · exact List.subset_cons_of_subset _
        (List.subset_append_of_subset_left _ (Expr.parts_subset callee q mem))
    · exact List.subset_cons_of_subset _
        (List.subset_append_of_subset_right _ (Expr.partsAll_subset arguments q mem))

theorem Expr.partsAll_subset : ∀ es : List Expr, ∀ q ∈ Expr.partsAll es, q.parts ⊆ Expr.partsAll es
  | [], _, mem => absurd mem List.not_mem_nil
  | e :: es, q, mem => by
    rw [Expr.partsAll, List.mem_append] at mem
    rcases mem with mem | mem
    · exact List.subset_append_of_subset_left _ (Expr.parts_subset e q mem)
    · exact List.subset_append_of_subset_right _ (Expr.partsAll_subset es q mem)

end

/-- The parts of an expression that may be left out. -/
def Expr.parts? : Option Expr → List Expr
  | none => []
  | some e => e.parts

mutual

/-- All expressions in a statement. -/
def Stmt.parts : Stmt → List Expr
  | .expression value | .print _ value => value.parts
  | .var _ initializer => Expr.parts? initializer
  | .block body | .function _ _ body => Stmt.partsAll body
  | .ifThen condition yes none => condition.parts ++ yes.parts
  | .ifThen condition yes (some no) => condition.parts ++ yes.parts ++ no.parts
  | .whileDo condition body => condition.parts ++ body.parts
  | .ret _ value => Expr.parts? value

/-- All expressions in some statements. -/
def Stmt.partsAll : List Stmt → List Expr
  | [] => []
  | s :: ss => s.parts ++ Stmt.partsAll ss

end

mutual

/-- Parts of the expressions in a statement are in it. -/
theorem Stmt.parts_subset : ∀ s : Stmt, ∀ q ∈ s.parts, q.parts ⊆ s.parts
  | .expression value, q, mem | .print _ value, q, mem | .var _ (some value), q, mem
  | .ret _ (some value), q, mem => Expr.parts_subset value q mem
  | .var _ none, _, mem | .ret _ none, _, mem => absurd mem List.not_mem_nil
  | .block body, q, mem | .function _ _ body, q, mem => by
    rw [Stmt.parts] at mem ⊢
    exact Stmt.partsAll_subset body q mem
  | .ifThen condition yes none, q, mem | .whileDo condition yes, q, mem => by
    rw [Stmt.parts, List.mem_append] at mem
    rcases mem with mem | mem
    · exact List.subset_append_of_subset_left _ (Expr.parts_subset condition q mem)
    · exact List.subset_append_of_subset_right _ (Stmt.parts_subset yes q mem)
  | .ifThen condition yes (some no), q, mem => by
    rw [Stmt.parts, List.mem_append, List.mem_append] at mem
    rcases mem with (mem | mem) | mem
    · exact List.subset_append_of_subset_left _
        (List.subset_append_of_subset_left _ (Expr.parts_subset condition q mem))
    · exact List.subset_append_of_subset_left _
        (List.subset_append_of_subset_right _ (Stmt.parts_subset yes q mem))
    · exact List.subset_append_of_subset_right _ (Stmt.parts_subset no q mem)

theorem Stmt.partsAll_subset : ∀ ss : List Stmt, ∀ q ∈ Stmt.partsAll ss,
    q.parts ⊆ Stmt.partsAll ss
  | [], _, mem => absurd mem List.not_mem_nil
  | s :: ss, q, mem => by
    rw [Stmt.partsAll, List.mem_append] at mem
    rcases mem with mem | mem
    · exact List.subset_append_of_subset_left _ (Stmt.parts_subset s q mem)
    · exact List.subset_append_of_subset_right _ (Stmt.partsAll_subset ss q mem)

end

theorem Stmt.partsAll_append (ss ss' : List Stmt) :
    Stmt.partsAll (ss ++ ss') = Stmt.partsAll ss ++ Stmt.partsAll ss' := by
  induction ss with
  | nil => rfl
  | cons s ss ih => rw [List.cons_append, partsAll, partsAll, ih, List.append_assoc]

/-- A block has the parts of its statements. -/
theorem Grammar.parts_together (ss : List Stmt) : (together ss).parts = Stmt.partsAll ss := by
  match ss with
  | [] => rfl
  | [s] => exact (List.append_nil _).symm
  | _ :: _ :: _ => rw [together, Stmt.parts]; simp

namespace Grammar

/-- The grammar makes only nodes with the property `P`, of tokens with the property `T`. -/
structure Nodewise (width : Nat) (T : Token → Prop) (P : Expr → Prop) : Prop where
  constant : ∀ {t : Token} {value : Literal}, T t → IsConstant t.kind value → P (.literal value)
  /-- The condition of a loop that has none. -/
  always : P (.literal (.bool true))
  name : ∀ {id : RefId} {name : Token}, T name → name.kind = .identifier → P (.var id name)
  assign : ∀ {id : RefId} {name : Token} {value : Expr}, T name → name.kind = .identifier →
    P (.assign id name value)
  joins : ∀ {k : Nat} {left right e : Expr} {op : Token}, T op → Joins k left op right e → P e
  operator : ∀ {op : Token} {right : Expr}, T op →
    op.kind = .symbol .bang ∨ op.kind = .symbol .minus → P (.unary op right)
  call : ∀ {callee : Expr} {closing : Token} {arguments : List Expr}, T closing →
    closing.kind = .symbol .rightParen → arguments.length ≤ width → P (.call callee closing arguments)
  group : ∀ {inner : Expr}, P (.grouping inner)

namespace Nodewise

variable {width : Nat} {T : Token → Prop} {P : Expr → Prop}

/-- The node of an operator, and the parts of its operands. -/
theorem joined (nodes : Nodewise width T P) {k : Nat} {left right e : Expr} {op : Token}
    (h : Joins k left op right e) (token : T op) (hl : ∀ p ∈ left.parts, P p)
    (hr : ∀ p ∈ right.parts, P p) : ∀ p ∈ e.parts, P p := by
  have node := nodes.joins token h
  have both : ∀ p ∈ e :: (left.parts ++ right.parts), P p := by
    intro p mem
    simp only [List.mem_cons, List.mem_append] at mem
    rcases mem with rfl | mem | mem
    · exact node
    · exact hl p mem
    · exact hr p mem
  cases h <;> exact both

mutual

/-- All parts of what is derived have the property. -/
theorem expression (nodes : Nodewise width T P) {n : Nat} {ts : List Token} {e : Expr} :
    IsExpression width n ts e → (∀ t ∈ ts, T t) → ∀ p ∈ e.parts, P p
  | .nested inner, h => assignment nodes inner h

theorem assignment (nodes : Nodewise width T P) {n : Nat} {ts : List Token} {e : Expr} :
    IsAssignment width n ts e → (∀ t ∈ ts, T t) → ∀ p ∈ e.parts, P p
  | .assign nameKind _ inner, h => by
    rw [Expr.parts, List.forall_mem_cons]
    exact ⟨nodes.assign (h _ List.mem_cons_self) nameKind,
      assignment nodes inner fun t mem => h t (by simp [mem])⟩
  | .level inner, h => level nodes inner h

theorem level (nodes : Nodewise width T P) {k n : Nat} {ts : List Token} {e : Expr} :
    IsLevel width k n ts e → (∀ t ∈ ts, T t) → ∀ p ∈ e.parts, P p
  | .infixes head others, h =>
    operands nodes others (fun t mem => h t (by simp [mem]))
      (level nodes head fun t mem => h t (by simp [mem]))
  | .unary inner, h => unary nodes inner h

theorem operands (nodes : Nodewise width T P) {k n : Nat} {left : Expr} {ts : List Token}
    {e : Expr} : IsOperands width k n left ts e → (∀ t ∈ ts, T t) → (∀ p ∈ left.parts, P p) →
    ∀ p ∈ e.parts, P p
  | .done, _, hl => hl
  | .more joins operand others, h, hl =>
    operands nodes others (fun t mem => h t (by simp [mem]))
      (nodes.joined joins (h _ (by simp)) hl (level nodes operand fun t mem => h t (by simp [mem])))

theorem unary (nodes : Nodewise width T P) {n : Nat} {ts : List Token} {e : Expr} :
    IsUnary width n ts e → (∀ t ∈ ts, T t) → ∀ p ∈ e.parts, P p
  | .operator kind operand, h => by
    rw [Expr.parts, List.forall_mem_cons]
    exact ⟨nodes.operator (h _ List.mem_cons_self) kind,
      unary nodes operand fun t mem => h t (by simp [mem])⟩
  | .call head others, h =>
    calls nodes others (fun t mem => h t (by simp [mem]))
      (primary nodes head fun t mem => h t (by simp [mem]))

theorem calls (nodes : Nodewise width T P) {n : Nat} {callee : Expr} {ts : List Token} {e : Expr} :
    IsCalls width n callee ts e → (∀ t ∈ ts, T t) → (∀ p ∈ callee.parts, P p) → ∀ p ∈ e.parts, P p
  | .done, _, hc => hc
  | .call _ inner few closingKind others, h, hc => by
    refine calls nodes others (fun t mem => h t (by simp [mem])) ?_
    rw [Expr.parts, List.forall_mem_cons, List.forall_mem_append]
    exact ⟨nodes.call (h _ (by simp)) closingKind few, hc,
      arguments nodes inner fun t mem => h t (by simp [mem])⟩

theorem arguments (nodes : Nodewise width T P) {n : Nat} {ts : List Token} {es : List Expr} :
    IsArguments width n ts es → (∀ t ∈ ts, T t) → ∀ p ∈ Expr.partsAll es, P p
  | .none, _ => List.forall_mem_nil _
  | .some inner, h => several nodes inner h

theorem several (nodes : Nodewise width T P) {n : Nat} {ts : List Token} {es : List Expr} :
    IsSeveral width n ts es → (∀ t ∈ ts, T t) → ∀ p ∈ Expr.partsAll es, P p
  | .one inner, h => by
    rw [Expr.partsAll, Expr.partsAll, List.append_nil]
    exact expression nodes inner h
  | .more first _ others, h => by
    rw [Expr.partsAll, List.forall_mem_append]
    exact ⟨expression nodes first fun t mem => h t (by simp [mem]),
      several nodes others fun t mem => h t (by simp [mem])⟩

theorem primary (nodes : Nodewise width T P) {n : Nat} {ts : List Token} {e : Expr} :
    IsPrimary width n ts e → (∀ t ∈ ts, T t) → ∀ p ∈ e.parts, P p
  | .constant kind, h => by
    rw [Expr.parts, List.forall_mem_singleton]
    exact nodes.constant (h _ List.mem_cons_self) kind
  | .name kind, h => by
    rw [Expr.parts, List.forall_mem_singleton]
    exact nodes.name (h _ List.mem_cons_self) kind
  | .group _ inner _, h => by
    rw [Expr.parts, List.forall_mem_cons]
    exact ⟨nodes.group, expression nodes inner fun t mem => h t (by simp [mem])⟩

end

theorem optional (nodes : Nodewise width T P) {n : Nat} {ts : List Token} {e : Option Expr}
    (h : IsOptional width n ts e) (tokens : ∀ t ∈ ts, T t) : ∀ p ∈ Expr.parts? e, P p := by
  cases h with
  | none => exact List.forall_mem_nil _
  | some inner => exact nodes.expression inner tokens

/-! ## Statements -/

theorem expressionStatement (nodes : Nodewise width T P) {n : Nat} {ts : List Token} {s : Stmt}
    (h : IsExpressionStatement width n ts s) (tokens : ∀ t ∈ ts, T t) : ∀ p ∈ s.parts, P p := by
  cases h with
  | mk inner kind =>
    rw [Stmt.parts]
    exact nodes.expression inner fun t mem => tokens t (by simp [mem])

theorem variableDeclaration (nodes : Nodewise width T P) {n : Nat} {ts : List Token} {s : Stmt}
    (h : IsVariable width n ts s) (tokens : ∀ t ∈ ts, T t) : ∀ p ∈ s.parts, P p := by
  cases h with
  | bare => exact List.forall_mem_nil _
  | initialized _ _ _ inner _ =>
    rw [Stmt.parts]
    exact nodes.expression inner fun t mem => tokens t (by simp [mem])

theorem firstClause (nodes : Nodewise width T P) {n : Nat} {ts : List Token} {s : Option Stmt}
    (h : IsFirstClause width n ts s) (tokens : ∀ t ∈ ts, T t) :
    ∀ p ∈ Stmt.partsAll s.toList, P p := by
  cases h with
  | none => exact List.forall_mem_nil _
  | var inner =>
    rw [Option.toList_some, Stmt.partsAll, Stmt.partsAll, List.append_nil]
    exact nodes.variableDeclaration inner tokens
  | expression inner =>
    rw [Option.toList_some, Stmt.partsAll, Stmt.partsAll, List.append_nil]
    exact nodes.expressionStatement inner tokens

theorem loop (nodes : Nodewise width T P) {first : Option Stmt} {condition last : Option Expr}
    {body : Stmt} (hf : ∀ p ∈ Stmt.partsAll first.toList, P p)
    (hc : ∀ p ∈ Expr.parts? condition, P p) (hl : ∀ p ∈ Expr.parts? last, P p)
    (hb : ∀ p ∈ body.parts, P p) : ∀ p ∈ (forLoop first condition last body).parts, P p := by
  have test : ∀ p ∈ (condition.getD (.literal (.bool true))).parts, P p := by
    cases condition with
    | none =>
      rw [Option.getD_none, Expr.parts, List.forall_mem_singleton]
      exact nodes.always
    | some e => exact hc
  have behind : ∀ p ∈ Stmt.partsAll (last.map Stmt.expression).toList, P p := by
    cases last with
    | none => exact List.forall_mem_nil _
    | some e =>
      rw [Option.map_some, Option.toList_some, Stmt.partsAll, Stmt.partsAll, List.append_nil,
        Stmt.parts]
      exact hl
  simp only [forLoop, parts_together, Stmt.partsAll_append, Stmt.partsAll, Stmt.parts,
    List.append_nil, List.forall_mem_append]
  exact ⟨hf, test, hb, behind⟩

mutual

theorem declaration (nodes : Nodewise width T P) {n : Nat} {ts : List Token} {s : Stmt} :
    IsDeclaration width n ts s → (∀ t ∈ ts, T t) → ∀ p ∈ s.parts, P p
  | .function _ _ _ _ _ _ _ inner _, h => by
    rw [Stmt.parts]
    exact declarations nodes inner fun t mem => h t (by simp [mem])
  | .var inner, h => nodes.variableDeclaration inner h
  | .statement inner, h => statement nodes inner h

theorem declarations (nodes : Nodewise width T P) {n : Nat} {ts : List Token} {ss : List Stmt} :
    IsDeclarations width n ts ss → (∀ t ∈ ts, T t) → ∀ p ∈ Stmt.partsAll ss, P p
  | .nil, _ => List.forall_mem_nil _
  | .cons first others, h => by
    rw [Stmt.partsAll, List.forall_mem_append]
    exact ⟨declaration nodes first fun t mem => h t (List.mem_append_left _ mem),
      declarations nodes others fun t mem => h t (List.mem_append_right _ mem)⟩

theorem statement (nodes : Nodewise width T P) {dangling : Bool} {n : Nat} {ts : List Token}
    {s : Stmt} : IsStatement width dangling n ts s → (∀ t ∈ ts, T t) → ∀ p ∈ s.parts, P p
  | .expression inner, h => nodes.expressionStatement inner h
  | .forLoop _ _ firstClause conditionClause _ lastClause _ inner, h =>
    nodes.loop (nodes.firstClause firstClause fun t mem => h t (by simp [mem]))
      (nodes.optional conditionClause fun t mem => h t (by simp [mem]))
      (nodes.optional lastClause fun t mem => h t (by simp [mem]))
      (statement nodes inner fun t mem => h t (by simp [mem]))
  | .ifThen _ _ test _ inner, h => by
    rw [Stmt.parts, List.forall_mem_append]
    exact ⟨nodes.expression test fun t mem => h t (by simp [mem]),
      statement nodes inner fun t mem => h t (by simp [mem])⟩
  | .ifThenElse _ _ test _ inner _ other, h => by
    rw [Stmt.parts, List.forall_mem_append, List.forall_mem_append]
    exact ⟨⟨nodes.expression test fun t mem => h t (by simp [mem]),
      statement nodes inner fun t mem => h t (by simp [mem])⟩,
      statement nodes other fun t mem => h t (by simp [mem])⟩
  | .print _ inner _, h => by
    rw [Stmt.parts]
    exact nodes.expression inner fun t mem => h t (by simp [mem])
  | .ret _ inner _, h => by
    rw [Stmt.parts]
    exact nodes.optional inner fun t mem => h t (by simp [mem])
  | .whileDo _ _ test _ inner, h => by
    rw [Stmt.parts, List.forall_mem_append]
    exact ⟨nodes.expression test fun t mem => h t (by simp [mem]),
      statement nodes inner fun t mem => h t (by simp [mem])⟩
  | .block _ inner _, h => by
    rw [Stmt.parts]
    exact declarations nodes inner fun t mem => h t (by simp [mem])

end

/-- All expressions in a program that is derived have the property. -/
theorem program (nodes : Nodewise width T P) {nesting : Nat} {tokens : List Token}
    {program : List Stmt} (h : IsProgram width nesting tokens program) (all : ∀ t ∈ tokens, T t) :
    ∀ p ∈ Stmt.partsAll program, P p :=
  declarations nodes h all

end Nodewise

end Grammar

end Lox
