import Mathlib
import Lox.Proofs.Grammar.Trees
import Lox.Proofs.Token.Coverage

/-!
# Diagnostics

What makes no sense in a program, told from where things stand in it, and that resolution reports
just this.

* `Surroundings` — what decides whether something makes sense at a place of a program.
* `Spot` — a declaration, a read in an initializer or a `return`, with what decides about it.
* `diagnostics` — the errors in a program, where every spot is judged on its own.
* `Surroundings.Fits` — the scopes of resolution agree with the surroundings.
* `Stmt.faults_findings` — what resolution finds wrong with a statement is wrong with its spots.
* `Grammar.IsDeclarations.spots_sublist` — spots come in the order of their tokens.
* `resolve_iff_diagnostics` — resolution reports exactly the diagnostics, in the order of the text.
-/

namespace Lox

/-! ## What makes no sense -/

/-- What decides whether something makes sense at a place of a program. -/
structure Surroundings where
  /-- The names declared earlier in the block or function in which the place is, parameters
  included; none at the top level. -/
  earlier : Option (List String)
  /-- The place is in the body of a function. -/
  inFunction : Bool

namespace Surroundings

/-- The beginning of a program. -/
def top : Surroundings := ⟨none, false⟩

/-- The beginning of a block. -/
def inBlock (p : Surroundings) : Surroundings := ⟨some [], p.inFunction⟩

/-- The parentheses behind the name of a function. -/
def inParameters : Surroundings := ⟨some [], true⟩

/-- The place behind the declaration of a name. -/
def past (p : Surroundings) (name : Token) : Surroundings :=
  { p with earlier := p.earlier.map (name.lexeme :: ·) }

/-- The place behind a statement. -/
def behind (p : Surroundings) (s : Stmt) : Surroundings :=
  match s.declared? with
  | some name => p.past name
  | none => p

end Surroundings

/-- A place of a program at which something may make no sense, with what decides about it. -/
inductive Spot where
  /-- The name of a variable, a function or a parameter is declared. -/
  | declares (name : Token) (earlier : Option (List String))
  /-- A variable is read in the initializer of the variable `owner`. -/
  | reads (name : Token) (owner : Token) (earlier : Option (List String))
  | returns (keyword : Token) (inFunction : Bool)

namespace Spot

/-- The token at which an error is reported. -/
def token : Spot → Token
  | .declares name _ => name
  | .reads name _ _ => name
  | .returns keyword _ => keyword

/-- A local name is declared only once in its scope. A local variable that is new in its scope is
not read in its own initializer. Only functions return. -/
def fault? : Spot → Option ResolveError
  | .declares name earlier =>
    if ∃ names ∈ earlier, name.lexeme ∈ names then some ⟨.alreadyDeclared, name⟩ else none
  | .reads name owner earlier =>
    if name.lexeme = owner.lexeme ∧ ∃ names ∈ earlier, owner.lexeme ∉ names then
      some ⟨.selfReferencingInitializer, name⟩
    else none
  | .returns keyword inFunction =>
    if inFunction then none else some ⟨.returnOutsideFunction, keyword⟩

end Spot

mutual

/-- The variables that an expression reads. -/
def Expr.reads : Expr → List Token
  | .literal _ => []
  | .grouping inner => inner.reads
  | .unary _ right => right.reads
  | .binary left _ right => left.reads ++ right.reads
  | .logical left _ right => left.reads ++ right.reads
  | .var _ name => [name]
  | .assign _ _ value => value.reads
  | .call callee _ arguments => callee.reads ++ Expr.readsAll arguments

/-- The variables that some expressions read. -/
def Expr.readsAll : List Expr → List Token
  | [] => []
  | e :: es => e.reads ++ Expr.readsAll es

end

/-- The spots of an initializer. -/
def Expr.initializerSpots (p : Surroundings) (owner : Token) : Option Expr → List Spot
  | none => []
  | some e => e.reads.map fun name => .reads name owner p.earlier

/-- The spots of parameters. -/
def parameterSpots (p : Surroundings) : List Token → List Spot
  | [] => []
  | name :: names => .declares name p.earlier :: parameterSpots (p.past name) names

mutual

/-- The spots of a statement that stands at some place. -/
def Stmt.spots (p : Surroundings) : Stmt → List Spot
  | .expression _ | .print _ _ => []
  | .var name initializer => .declares name p.earlier :: Expr.initializerSpots p name initializer
  | .block body => Stmt.spotsAll p.inBlock body
  | .ifThen _ yes none => yes.spots p
  | .ifThen _ yes (some no) => yes.spots p ++ no.spots p
  | .whileDo _ body => body.spots p
  | .function name parameters body =>
    .declares name p.earlier :: parameterSpots .inParameters parameters ++
      Stmt.spotsAll (parameters.foldl .past .inParameters) body
  | .ret keyword _ => [.returns keyword p.inFunction]

/-- The spots of some statements of which the first stands at some place. -/
def Stmt.spotsAll (p : Surroundings) : List Stmt → List Spot
  | [] => []
  | s :: ss => s.spots p ++ Stmt.spotsAll (p.behind s) ss

end

/-- What makes no sense in a program. -/
def diagnostics (program : List Stmt) : List ResolveError :=
  (Stmt.spotsAll .top program).filterMap Spot.fault?

/-! ## Scopes and surroundings -/

namespace Surroundings

/-- The innermost scope has the names that were declared earlier, and all of them are ready. -/
def Fits (p : Surroundings) : Scopes → Prop
  | [] => p.earlier = none
  | scope :: _ => ∃ names, p.earlier = some names ∧
      ∀ name, scope.lookup name = if name ∈ names then some true else none

variable {p : Surroundings} {scopes : Scopes}

theorem fits_inBlock (p : Surroundings) (scopes : Scopes) : p.inBlock.Fits ([] :: scopes) :=
  ⟨[], rfl, fun _ => rfl⟩

theorem fits_inParameters (scopes : Scopes) : inParameters.Fits ([] :: scopes) :=
  ⟨[], rfl, fun _ => rfl⟩

theorem inFunction_foldl (names : List Token) (p : Surroundings) :
    (names.foldl past p).inFunction = p.inFunction := by
  induction names generalizing p with
  | nil => rfl
  | cons name names ih => exact ih (p.past name)

theorem inFunction_behind (p : Surroundings) (s : Stmt) :
    (p.behind s).inFunction = p.inFunction := by
  unfold behind
  split <;> rfl

namespace Fits

/-- Between two statements no variable is being initialized. -/
theorem initializing (h : p.Fits scopes) (name : String) : scopes.initializing name = false := by
  cases scopes with
  | nil => rfl
  | cons scope outer =>
    obtain ⟨names, -, state⟩ := h
    rw [Scopes.initializing, state name]
    split <;> rfl

theorem taken_iff (h : p.Fits scopes) (name : String) :
    scopes.taken name = true ↔ ∃ names ∈ p.earlier, name ∈ names := by
  cases scopes with
  | nil =>
    have none : p.earlier = none := h
    simp [Scopes.taken, none]
  | cons scope outer =>
    obtain ⟨names, earlier, state⟩ := h
    rw [Scopes.taken, state name, earlier]
    by_cases mem : name ∈ names <;> simp [mem]

/-- A declared name has been declared from then on. -/
theorem introduce (h : p.Fits scopes) (name : Token) :
    (p.past name).Fits (scopes.introduce name) := by
  cases scopes with
  | nil =>
    have none : p.earlier = none := h
    show p.earlier.map _ = _
    rw [none]
    rfl
  | cons scope outer =>
    obtain ⟨names, earlier, state⟩ := h
    obtain ⟨scope', introduced, marks⟩ := Scopes.introduce_cons scope outer name
    rw [introduced]
    refine ⟨name.lexeme :: names, by simp [past, earlier], fun other => ?_⟩
    by_cases same : other = name.lexeme
    · simp [same, marks.self]
    · simp [same, marks.others other same, state other]

theorem foldl_introduce (names : List Token) (h : p.Fits scopes) :
    (names.foldl past p).Fits (names.foldl Scopes.introduce scopes) := by
  induction names generalizing p scopes with
  | nil => exact h
  | cons name names ih => exact ih (h.introduce name)

theorem behind (h : p.Fits scopes) (s : Stmt) : (p.behind s).Fits (scopes.behind s) := by
  unfold Surroundings.behind Scopes.behind
  cases s.declared? with
  | none => exact h
  | some name => exact h.introduce name

/-- Only a local variable that is new in its scope is being initialized behind its name. -/
theorem initializing_declare_iff (h : p.Fits scopes) (owner other : String) :
    (scopes.declare owner).initializing other = true ↔
      other = owner ∧ ∃ names ∈ p.earlier, owner ∉ names := by
  cases scopes with
  | nil =>
    have none : p.earlier = none := h
    simp [Scopes.declare, Scopes.initializing, none]
  | cons scope outer =>
    by_cases taken : Scopes.taken (scope :: outer) owner
    · have kept : Scopes.declare (scope :: outer) owner = scope :: outer := if_pos taken
      obtain ⟨names, earlier, mem⟩ := (h.taken_iff owner).1 taken
      have ready := h.initializing other
      rw [kept, ready]
      rw [Option.mem_def] at earlier
      simp [earlier, mem]
    · obtain ⟨scope', declared, marks⟩ := Scopes.declare_cons (Bool.not_eq_true _ ▸ taken)
      have fresh := mt (h.taken_iff owner).2 taken
      have ready : (scope.lookup other == some false) = false := h.initializing other
      obtain ⟨names, earlier, -⟩ := h
      rw [declared, Scopes.initializing]
      simp only [earlier, Option.mem_def, Option.some.injEq, exists_eq_left'] at fresh ⊢
      by_cases same : other = owner
      · simp [same, marks.self, fresh]
      · rw [marks.others other same, ready]
        simp [same]

end Fits

end Surroundings

/-! ## Findings and spots -/

theorem filterMap_ite_singleton {α β : Type} (f : α → Option β) (c : Prop) [Decidable c] (a : α) :
    (if c then [a] else []).filterMap f = if c then (f a).toList else [] := by
  split
  · cases h : f a <;> simp [h]
  · rfl

/-- There is an error about a read if the variable is being initialized. -/
def readFaults (scopes : Scopes) (names : List Token) : List ResolveError :=
  (names.filter fun name => scopes.initializing name.lexeme).map
    fun name => ⟨.selfReferencingInitializer, name⟩

theorem readFaults_append (scopes : Scopes) (names names' : List Token) :
    readFaults scopes (names ++ names') = readFaults scopes names ++ readFaults scopes names' := by
  simp [readFaults]

/-- No mention is an error where it is bound. -/
theorem faults_mention (scopes : Scopes) (id : RefId) (name : Token) :
    (scopes.mention id name).filterMap Finding.fault? = [] := by
  unfold Scopes.mention
  split <;> rfl

mutual

/-- What is found wrong with an expression is wrong with its reads. -/
theorem Expr.faults_findings (scopes : Scopes) : ∀ e : Expr,
    (e.findings scopes).filterMap Finding.fault? = readFaults scopes e.reads
  | .literal _ => rfl
  | .grouping inner | .unary _ inner => Expr.faults_findings scopes inner
  | .binary left _ right | .logical left _ right => by
    simp only [Expr.findings, Expr.reads, List.filterMap_append, readFaults_append,
      Expr.faults_findings scopes left, Expr.faults_findings scopes right]
  | .var id name => by
    rw [Expr.findings, Expr.reads, List.filterMap_append, faults_mention, List.append_nil,
      filterMap_ite_singleton]
    unfold readFaults
    by_cases early : scopes.initializing name.lexeme <;> simp [early, Finding.fault?]
  | .assign id target value => by
    rw [Expr.findings, Expr.reads, List.filterMap_append, faults_mention, List.append_nil,
      Expr.faults_findings scopes value]
  | .call callee _ arguments => by
    simp only [Expr.findings, Expr.reads, List.filterMap_append, readFaults_append,
      Expr.faults_findings scopes callee, Expr.faults_findingsAll scopes arguments]

theorem Expr.faults_findingsAll (scopes : Scopes) : ∀ es : List Expr,
    (Expr.findingsAll scopes es).filterMap Finding.fault? = readFaults scopes (Expr.readsAll es)
  | [] => rfl
  | e :: es => by
    simp only [Expr.findingsAll, Expr.readsAll, List.filterMap_append, readFaults_append,
      Expr.faults_findings scopes e, Expr.faults_findingsAll scopes es]

end

namespace Surroundings.Fits

variable {p : Surroundings} {scopes : Scopes}

/-- Outside of initializers nothing is wrong with an expression. -/
theorem faults_expr (h : p.Fits scopes) (e : Expr) :
    (e.findings scopes).filterMap Finding.fault? = [] := by
  rw [Expr.faults_findings, readFaults, List.map_eq_nil_iff, List.filter_eq_nil_iff]
  intro name _
  rw [h.initializing]
  exact Bool.false_ne_true

theorem faults_expr? (h : p.Fits scopes) (o : Option Expr) :
    (Expr.findings? scopes o).filterMap Finding.fault? = [] := by
  cases o with
  | none => rfl
  | some e => exact h.faults_expr e

theorem faults_declaring (h : p.Fits scopes) (name : Token) :
    (scopes.declaring name).filterMap Finding.fault? =
      (Spot.declares name p.earlier).fault?.toList := by
  rw [Scopes.declaring, filterMap_ite_singleton, Spot.fault?]
  simp only [h.taken_iff]
  split <;> rfl

theorem faults_initializer (h : p.Fits scopes) (owner : Token) (initializer : Option Expr) :
    (Expr.findings? (scopes.declare owner.lexeme) initializer).filterMap Finding.fault? =
      (Expr.initializerSpots p owner initializer).filterMap Spot.fault? := by
  cases initializer with
  | none => rfl
  | some e =>
    rw [Expr.findings?, Expr.faults_findings, Expr.initializerSpots, List.filterMap_map]
    induction e.reads with
    | nil => rfl
    | cons name names ih =>
      have one : readFaults (scopes.declare owner.lexeme) [name] =
          (Spot.reads name owner p.earlier).fault?.toList := by
        have early := h.initializing_declare_iff owner.lexeme name.lexeme
        rw [Spot.fault?]
        split
        · rename_i self
          simp [readFaults, early.2 self]
        · rename_i other
          simp [readFaults, Bool.eq_false_iff.2 (mt early.1 other)]
      rw [← List.singleton_append, readFaults_append, one, ih, List.filterMap_append]
      cases fault : (Spot.reads name owner p.earlier).fault? <;> simp [fault]

theorem faults_introduceAll (h : p.Fits scopes) (names : List Token) :
    (scopes.introduceAll names).1.filterMap Finding.fault? =
      (parameterSpots p names).filterMap Spot.fault? := by
  induction names generalizing p scopes with
  | nil => rfl
  | cons name names ih =>
    rw [Scopes.introduceAll, parameterSpots, List.filterMap_append, h.faults_declaring,
      ih (h.introduce name), List.filterMap_cons]
    cases (Spot.declares name p.earlier).fault? <;> rfl

end Surroundings.Fits

theorem filterMap_toList_append {α β : Type} (f : α → Option β) (a : α) (l : List α) :
    (f a).toList ++ l.filterMap f = (a :: l).filterMap f := by
  rw [List.filterMap_cons]
  cases f a <;> rfl

theorem Surroundings.behind_of_none {s : Stmt} (h : s.declared? = none) (p : Surroundings) :
    p.behind s = p := by
  rw [Surroundings.behind, h]

mutual

/-- What is found wrong with a plain statement is what is wrong with its spots, and behind it the
scopes are those that its declaration makes. -/
theorem Stmt.faults_findings {p : Surroundings} {scopes : Scopes} (h : p.Fits scopes) :
    ∀ s : Stmt, s.Plain →
      (s.findings p.inFunction scopes).1.filterMap Finding.fault? =
          (s.spots p).filterMap Spot.fault? ∧
        (s.findings p.inFunction scopes).2 = scopes.behind s
  | .expression value, _ | .print _ value, _ => ⟨h.faults_expr value, rfl⟩
  | .var name initializer, _ => by
    refine ⟨?_, rfl⟩
    simp only [Stmt.findings, Stmt.spots]
    rw [List.filterMap_append, h.faults_declaring, h.faults_initializer, filterMap_toList_append]
  | .block body, plain =>
    ⟨Stmt.faults_findingsAll (p.fits_inBlock scopes) body plain, rfl⟩
  | .ifThen condition yes none, ⟨noDeclaration, plain⟩ => by
    obtain ⟨faults, behind⟩ := Stmt.faults_findings h yes plain
    simp only [Stmt.findings, Stmt.spots]
    refine ⟨?_, behind.trans (Scopes.behind_of_none noDeclaration scopes)⟩
    rw [List.filterMap_append, h.faults_expr, faults, List.nil_append]
  | .ifThen condition yes (some no), ⟨⟨noDeclaration, plain⟩, noDeclaration', plain'⟩ => by
    obtain ⟨faults, behind⟩ := Stmt.faults_findings h yes plain
    obtain ⟨faults', behind'⟩ := Stmt.faults_findings h no plain'
    have same := behind.trans (Scopes.behind_of_none noDeclaration scopes)
    simp only [Stmt.findings, Stmt.spots, same]
    refine ⟨?_, behind'.trans (Scopes.behind_of_none noDeclaration' scopes)⟩
    rw [List.filterMap_append, List.filterMap_append, h.faults_expr, faults, faults',
      List.nil_append, List.filterMap_append]
  | .whileDo condition body, ⟨noDeclaration, plain⟩ => by
    obtain ⟨faults, behind⟩ := Stmt.faults_findings h body plain
    simp only [Stmt.findings, Stmt.spots]
    refine ⟨?_, behind.trans (Scopes.behind_of_none noDeclaration scopes)⟩
    rw [List.filterMap_append, h.faults_expr, faults, List.nil_append]
  | .function name parameters body, plain => by
    have opened := Surroundings.fits_inParameters (scopes.introduce name)
    have inner := opened.foldl_introduce parameters
    have faults := Stmt.faults_findingsAll inner body plain
    rw [Surroundings.inFunction_foldl] at faults
    refine ⟨?_, rfl⟩
    simp only [Stmt.findings, Stmt.spots, Scopes.introduceAll_snd]
    rw [List.filterMap_append, List.filterMap_append, h.faults_declaring,
      opened.faults_introduceAll, List.cons_append, ← filterMap_toList_append,
      List.filterMap_append, List.append_assoc]
    exact congrArg _ (congrArg _ faults)
  | .ret keyword value, _ => by
    refine ⟨?_, rfl⟩
    simp only [Stmt.findings, Stmt.spots]
    rw [List.filterMap_append, h.faults_expr?, List.append_nil]
    cases p.inFunction <;> rfl

theorem Stmt.faults_findingsAll {p : Surroundings} {scopes : Scopes} (h : p.Fits scopes) :
    ∀ ss : List Stmt, Stmt.PlainAll ss →
      (Stmt.findingsAll p.inFunction scopes ss).1.filterMap Finding.fault? =
        (Stmt.spotsAll p ss).filterMap Spot.fault?
  | [], _ => rfl
  | s :: ss, ⟨plain, plainAll⟩ => by
    obtain ⟨faults, behind⟩ := Stmt.faults_findings h s plain
    have others := Stmt.faults_findingsAll (h.behind s) ss plainAll
    rw [Surroundings.inFunction_behind] at others
    simp only [Stmt.findingsAll, Stmt.spotsAll, behind]
    rw [List.filterMap_append, faults, others, List.filterMap_append]

end

/-! ## The order of the text -/

namespace Grammar

variable {width : Nat}

theorem reads_of_joins {k : Nat} {left right e : Expr} {op : Token}
    (h : Joins k left op right e) : e.reads = left.reads ++ right.reads := by
  cases h <;> rfl

/-! An expression reads its variables in the order of the tokens. -/

mutual

theorem IsExpression.reads_sublist {n : Nat} {ts : List Token} {e : Expr} :
    IsExpression width n ts e → e.reads.Sublist ts
  | .nested inner => IsAssignment.reads_sublist inner

theorem IsAssignment.reads_sublist {n : Nat} {ts : List Token} {e : Expr} :
    IsAssignment width n ts e → e.reads.Sublist ts
  | .assign _ _ inner => ((IsAssignment.reads_sublist inner).cons _).cons _
  | .level inner => IsLevel.reads_sublist inner

theorem IsLevel.reads_sublist {k n : Nat} {ts : List Token} {e : Expr} :
    IsLevel width k n ts e → e.reads.Sublist ts
  | .infixes head others => by
    obtain ⟨names, reads, within⟩ := IsOperands.reads_sublist others
    rw [reads]
    exact (IsLevel.reads_sublist head).append within
  | .unary inner => IsUnary.reads_sublist inner

/-- The operands on the right are read behind what stands on their left. -/
theorem IsOperands.reads_sublist {k n : Nat} {left e : Expr} {us : List Token} :
    IsOperands width k n left us e → ∃ names, e.reads = left.reads ++ names ∧ names.Sublist us
  | .done => ⟨[], (List.append_nil _).symm, .slnil⟩
  | .more joins operand others => by
    obtain ⟨names, reads, within⟩ := IsOperands.reads_sublist others
    refine ⟨_, ?_, ((IsLevel.reads_sublist operand).append within).cons _⟩
    rw [reads, reads_of_joins joins, List.append_assoc]

theorem IsUnary.reads_sublist {n : Nat} {ts : List Token} {e : Expr} :
    IsUnary width n ts e → e.reads.Sublist ts
  | .operator _ operand => (IsUnary.reads_sublist operand).cons _
  | .call head others => by
    obtain ⟨names, reads, within⟩ := IsCalls.reads_sublist others
    rw [reads]
    exact (IsPrimary.reads_sublist head).append within

/-- Arguments are read behind what is called with them. -/
theorem IsCalls.reads_sublist {n : Nat} {callee e : Expr} {us : List Token} :
    IsCalls width n callee us e → ∃ names, e.reads = callee.reads ++ names ∧ names.Sublist us
  | .done => ⟨[], (List.append_nil _).symm, .slnil⟩
  | .call _ inner _ _ others => by
    obtain ⟨names, reads, within⟩ := IsCalls.reads_sublist others
    refine ⟨_, ?_, ((IsArguments.reads_sublist inner).append (within.cons _)).cons _⟩
    rw [reads, Expr.reads, List.append_assoc]

theorem IsArguments.reads_sublist {n : Nat} {ts : List Token} {es : List Expr} :
    IsArguments width n ts es → (Expr.readsAll es).Sublist ts
  | .none => .slnil
  | .some inner => IsSeveral.reads_sublist inner

theorem IsSeveral.reads_sublist {n : Nat} {ts : List Token} {es : List Expr} :
    IsSeveral width n ts es → (Expr.readsAll es).Sublist ts
  | .one inner => by
    rw [Expr.readsAll, Expr.readsAll, List.append_nil]
    exact IsExpression.reads_sublist inner
  | .more first _ others =>
    (IsExpression.reads_sublist first).append ((IsSeveral.reads_sublist others).cons _)

theorem IsPrimary.reads_sublist {n : Nat} {ts : List Token} {e : Expr} :
    IsPrimary width n ts e → e.reads.Sublist ts
  | .constant _ => List.nil_sublist _
  | .name _ => .refl _
  | .group _ inner _ =>
    ((IsExpression.reads_sublist inner).trans (List.sublist_append_left _ _)).cons _

end

theorem IsNames.sublist {ts names : List Token} (h : IsNames ts names) : names.Sublist ts := by
  induction h with
  | one _ => exact .refl _
  | more _ _ _ ih => exact (ih.cons _).cons_cons _

theorem IsParameters.sublist {ts names : List Token} (h : IsParameters ts names) :
    names.Sublist ts := by
  cases h with
  | none => exact .slnil
  | some inner => exact inner.sublist

theorem token_parameterSpots (p : Surroundings) (names : List Token) :
    (parameterSpots p names).map Spot.token = names := by
  induction names generalizing p with
  | nil => rfl
  | cons name names ih => rw [parameterSpots, List.map_cons, ih, Spot.token]

theorem token_initializerSpots (p : Surroundings) (owner : Token) (e : Expr) :
    (Expr.initializerSpots p owner (some e)).map Spot.token = e.reads := by
  simp [Expr.initializerSpots, Function.comp_def, Spot.token]

theorem IsVariable.spots_sublist {n : Nat} {ts : List Token} {s : Stmt}
    (h : IsVariable width n ts s) (p : Surroundings) : ((s.spots p).map Spot.token).Sublist ts := by
  cases h with
  | bare _ _ _ => exact ((List.nil_sublist _).cons_cons _).cons _
  | initialized _ _ _ inner _ =>
    rw [Stmt.spots, List.map_cons, token_initializerSpots, Spot.token]
    refine .cons _ (.cons_cons _ (.cons _ ?_))
    exact inner.reads_sublist.trans (List.sublist_append_left _ _)

theorem IsExpressionStatement.spots_eq_nil {n : Nat} {ts : List Token} {s : Stmt}
    (h : IsExpressionStatement width n ts s) (p : Surroundings) : s.spots p = [] := by
  cases h
  rfl

theorem IsFirstClause.spots_sublist {n : Nat} {ts : List Token} {first : Option Stmt}
    (h : IsFirstClause width n ts first) (p : Surroundings) :
    ((Stmt.spotsAll p first.toList).map Spot.token).Sublist ts := by
  cases h with
  | none _ => exact List.nil_sublist _
  | var inner =>
    rw [Option.toList_some, Stmt.spotsAll, Stmt.spotsAll, List.append_nil]
    exact inner.spots_sublist p
  | expression inner =>
    rw [Option.toList_some, Stmt.spotsAll, Stmt.spotsAll, List.append_nil, inner.spots_eq_nil]
    exact List.nil_sublist _

/-- The last clause of a loop is written in front of the body and runs behind it, but has no spots;
the first clause and the body have theirs in the order in which they are written. -/
theorem spots_forLoop {first : Option Stmt} {body : Stmt} {ts us : List Token}
    (clause : ∀ q, ((Stmt.spotsAll q first.toList).map Spot.token).Sublist ts)
    (inner : ∀ q, ((body.spots q).map Spot.token).Sublist us) (condition last : Option Expr)
    (p : Surroundings) :
    (((forLoop first condition last body).spots p).map Spot.token).Sublist (ts ++ us) := by
  obtain ⟨q, r, spots⟩ : ∃ q r, (forLoop first condition last body).spots p =
      Stmt.spotsAll q first.toList ++ body.spots r := by
    cases first with
    | none =>
      cases last with
      | none => exact ⟨p, p, rfl⟩
      | some e => exact ⟨p, p.inBlock, by simp [forLoop, together, Stmt.spots, Stmt.spotsAll]⟩
    | some s =>
      cases last with
      | none =>
        exact ⟨p.inBlock, p.inBlock.behind s,
          by simp [forLoop, together, Stmt.spots, Stmt.spotsAll]⟩
      | some e =>
        exact ⟨p.inBlock, (p.inBlock.behind s).inBlock,
          by simp [forLoop, together, Stmt.spots, Stmt.spotsAll]⟩
  rw [spots, List.map_append]
  exact (clause q).append (inner r)

mutual

theorem IsDeclaration.spots_sublist (p : Surroundings) {n : Nat} {ts : List Token} {s : Stmt} :
    IsDeclaration width n ts s → ((s.spots p).map Spot.token).Sublist ts
  | .function _ _ _ names _ _ _ inner _ => by
    simp only [Stmt.spots, List.map_append, List.map_cons, token_parameterSpots, Spot.token,
      List.cons_append, List.append_assoc]
    refine .cons _ (.cons_cons _ (.cons _ (names.sublist.append (.cons _ (.cons _ ?_)))))
    exact (IsDeclarations.spots_sublist _ inner).trans (List.sublist_append_left _ _)
  | .var inner => inner.spots_sublist p
  | .statement inner => IsStatement.spots_sublist p inner

/-- The spots of some declarations stand in the order of the tokens. -/
theorem IsDeclarations.spots_sublist (p : Surroundings) {n : Nat} {ts : List Token}
    {ss : List Stmt} :
    IsDeclarations width n ts ss → ((Stmt.spotsAll p ss).map Spot.token).Sublist ts
  | .nil => .slnil
  | .cons first others => by
    rw [Stmt.spotsAll, List.map_append]
    exact (IsDeclaration.spots_sublist p first).append (IsDeclarations.spots_sublist _ others)

theorem IsStatement.spots_sublist (p : Surroundings) {dangling : Bool} {n : Nat}
    {ts : List Token} {s : Stmt} :
    IsStatement width dangling n ts s → ((s.spots p).map Spot.token).Sublist ts
  | .expression inner => by
    rw [inner.spots_eq_nil]
    exact List.nil_sublist _
  | .forLoop _ _ firstClause _ _ _ _ inner => by
    refine spots_forLoop (fun q => ?_) (fun q => (IsStatement.spots_sublist q inner).cons _) _ _ p
    refine .trans ?_ (List.sublist_append_left _ _)
    refine .trans ?_ (List.sublist_append_left _ _)
    exact .cons _ (.cons _ (firstClause.spots_sublist q))
  | .ifThen _ _ _ _ inner =>
    ((IsStatement.spots_sublist p inner).cons _).trans (List.sublist_append_right _ _)
  | .ifThenElse _ _ _ _ inner _ other => by
    rw [Stmt.spots, List.map_append]
    refine .append (.trans ?_ (List.sublist_append_right _ _)) ?_
    · exact (IsStatement.spots_sublist p inner).cons _
    · exact (IsStatement.spots_sublist p other).cons _
  | .print _ _ _ => List.nil_sublist _
  | .ret _ _ _ => (List.nil_sublist _).cons_cons _
  | .whileDo _ _ _ _ inner =>
    ((IsStatement.spots_sublist p inner).cons _).trans (List.sublist_append_right _ _)
  | .block _ inner _ =>
    ((IsDeclarations.spots_sublist p.inBlock inner).trans (List.sublist_append_left _ _)).cons _

end

end Grammar

/-- An error is about the token of its spot. -/
theorem Spot.token_of_fault? {spot : Spot} {e : ResolveError} (h : spot.fault? = some e) :
    e.token = spot.token := by
  cases spot <;>
    · simp only [Spot.fault?] at h
      split at h <;> cases h
      rfl

/-- Errors come in the order of the spots they are about. -/
theorem tokens_faults_sublist (spots : List Spot) :
    ((spots.filterMap Spot.fault?).map ResolveError.token).Sublist (spots.map Spot.token) := by
  induction spots with
  | nil => exact .slnil
  | cons spot spots ih =>
    rw [List.filterMap_cons, List.map_cons]
    cases fault : spot.fault? with
    | none => exact ih.cons _
    | some e =>
      rw [List.map_cons, Spot.token_of_fault? fault]
      exact ih.cons_cons _

/-- The tokens of a text stand one behind the other. -/
theorem offsets_of_scan {source : String} {tokens : List Token} (h : scan source = .ok tokens) :
    tokens.Pairwise fun t u => t.offset < u.offset := by
  have covers : Covers [] source.toList tokens :=
    covers_foundBehind [] source.toList tokens (scan_eq_ok_iff.1 h)
  exact covers.ordered.2.imp And.left

/-- Resolution fails if and only if there are diagnostics, and then it reports them. -/
theorem resolve_eq {program : List Stmt} (plain : Stmt.PlainAll program) :
    resolve program = if (diagnostics program).isEmpty then
      .ok ((programFindings program).filterMap Finding.bound?) else .error (diagnostics program) := by
  have fits : Surroundings.top.Fits [] := rfl
  have faults := Stmt.faults_findingsAll fits program plain
  unfold resolve programFindings diagnostics
  rw [← faults]
  rfl

/-- **Resolution reports exactly what makes no sense.** About a program that was read it fails if and
only if there are diagnostics, which judge every declaration, every read in an initializer and every
`return` on its own, and then it reports all of them and nothing else. They come in the order of the
tokens they are about, and so in the order of the text. -/
theorem resolve_iff_diagnostics {firstId nextId : RefId} {tokens : List Token} {program : Program}
    (parsed : Program.ofTokens firstId tokens = (.ok program, nextId)) :
    ((∃ distances, resolve program = .ok distances) ↔ diagnostics program = []) ∧
      (∀ errors, resolve program = .error errors ↔
        errors = diagnostics program ∧ diagnostics program ≠ []) ∧
      ((diagnostics program).map ResolveError.token).Sublist tokens ∧
      ∀ source, scan source = .ok tokens →
        (diagnostics program).Pairwise fun e f => e.token.offset < f.token.offset := by
  have outcome := resolve_eq (Program.plain_of_ofTokens parsed)
  obtain ⟨r, read, clean, -⟩ := Program.ok_of_ofTokens parsed
  have derived := Grammar.isDeclarations_of_ok read clean
  have order : ((diagnostics program).map ResolveError.token).Sublist tokens :=
    (tokens_faults_sublist _).trans (derived.spots_sublist .top)
  refine ⟨?_, fun errors => ?_, order, fun source scanned => ?_⟩
  · rw [outcome]
    cases diagnostics program <;> simp
  · rw [outcome]
    cases diagnostics program <;> simp [eq_comm]
  · have ordered := (offsets_of_scan scanned).sublist order
    rwa [List.pairwise_map] at ordered

/-- In `{var a=a;var a;}return;` there is one error of each kind. -/
theorem resolve_iff_diagnostics_three :
    ∃ program, Program.ofTokens 0
      [⟨.symbol .leftBrace, "\x7b", 1, 0⟩, ⟨.keyword .var, "var", 1, 1⟩, ⟨.identifier, "a", 1, 5⟩,
        ⟨.symbol .equal, "=", 1, 6⟩, ⟨.identifier, "a", 1, 7⟩, ⟨.symbol .semicolon, ";", 1, 8⟩,
        ⟨.keyword .var, "var", 1, 9⟩, ⟨.identifier, "a", 1, 13⟩, ⟨.symbol .semicolon, ";", 1, 14⟩,
        ⟨.symbol .rightBrace, "\x7d", 1, 15⟩, ⟨.keyword .return_, "return", 1, 16⟩,
        ⟨.symbol .semicolon, ";", 1, 22⟩] = (.ok program, 1) ∧
      resolve program = .error [⟨.selfReferencingInitializer, ⟨.identifier, "a", 1, 7⟩⟩,
        ⟨.alreadyDeclared, ⟨.identifier, "a", 1, 13⟩⟩,
        ⟨.returnOutsideFunction, ⟨.keyword .return_, "return", 1, 16⟩⟩] := by
  have parsed : Program.ofTokens 0
      [⟨.symbol .leftBrace, "\x7b", 1, 0⟩, ⟨.keyword .var, "var", 1, 1⟩, ⟨.identifier, "a", 1, 5⟩,
        ⟨.symbol .equal, "=", 1, 6⟩, ⟨.identifier, "a", 1, 7⟩, ⟨.symbol .semicolon, ";", 1, 8⟩,
        ⟨.keyword .var, "var", 1, 9⟩, ⟨.identifier, "a", 1, 13⟩, ⟨.symbol .semicolon, ";", 1, 14⟩,
        ⟨.symbol .rightBrace, "\x7d", 1, 15⟩, ⟨.keyword .return_, "return", 1, 16⟩,
        ⟨.symbol .semicolon, ";", 1, 22⟩] =
      (.ok [.block [.var ⟨.identifier, "a", 1, 5⟩ (some (.var 0 ⟨.identifier, "a", 1, 7⟩)),
          .var ⟨.identifier, "a", 1, 13⟩ none],
        .ret ⟨.keyword .return_, "return", 1, 16⟩ none], 1) := by cbv
  exact ⟨_, parsed, ((resolve_iff_diagnostics parsed).2.1 _).2 ⟨by decide, by decide⟩⟩

end Lox
