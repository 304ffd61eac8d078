import Lox.Scope.Resolution

/-!
# Moved programs

The same program at another place of a text, with other identities of its mentions.

* `Shift` — how far a program is moved.
* `Token.moved`, `Expr.moved`, `Stmt.moved` — the program behind the move.
* `Stmt.moved_zero` — nothing changes if nothing is moved.
* `resolve_moved` — scopes do not depend on places: the same distances are found, or the same
  errors, at the places they have moved to.
-/

namespace Lox

/-- How many lines and bytes a text stands further down, and how much greater the identities of its
mentions are. -/
structure Shift where
  lines : Nat
  bytes : Nat
  ids : Nat
  deriving DecidableEq

/-- Nothing is moved. -/
def Shift.zero : Shift := ⟨0, 0, 0⟩

/-- The token at its new place. -/
def Token.moved (d : Shift) (t : Token) : Token :=
  { t with line := t.line + d.lines, offset := t.offset + d.bytes }

namespace Token

variable (d : Shift) (t : Token)

@[simp] theorem kind_moved : (t.moved d).kind = t.kind := rfl
@[simp] theorem lexeme_moved : (t.moved d).lexeme = t.lexeme := rfl

/-- A token stays in place if only identities change. -/
@[simp] theorem moved_ids (k : Nat) : t.moved ⟨0, 0, k⟩ = t := rfl
@[simp] theorem moved_zero : t.moved .zero = t := rfl

end Token

@[simp] theorem map_moved_ids (k : Nat) (ts : List Token) : ts.map (Token.moved ⟨0, 0, k⟩) = ts :=
  List.map_id' _

mutual

/-- The expression at its new place. -/
def Expr.moved (d : Shift) : Expr → Expr
  | .literal value => .literal value
  | .grouping inner => .grouping (inner.moved d)
  | .unary op right => .unary (op.moved d) (right.moved d)
  | .binary left op right => .binary (left.moved d) (op.moved d) (right.moved d)
  | .logical left op right => .logical (left.moved d) op (right.moved d)
  | .var id name => .var (id + d.ids) (name.moved d)
  | .assign id target value => .assign (id + d.ids) (target.moved d) (value.moved d)
  | .call callee closing arguments =>
    .call (callee.moved d) (closing.moved d) (Expr.movedAll d arguments)

/-- The expressions at their new places. -/
def Expr.movedAll (d : Shift) : List Expr → List Expr
  | [] => []
  | e :: es => e.moved d :: Expr.movedAll d es

end

/-- An expression that may be missing at its new place. -/
def Expr.moved? (d : Shift) : Option Expr → Option Expr
  | none => none
  | some e => some (e.moved d)

mutual

/-- The statement at its new place. -/
def Stmt.moved (d : Shift) : Stmt → Stmt
  | .expression value => .expression (value.moved d)
  | .print keyword value => .print (keyword.moved d) (value.moved d)
  | .var name initializer => .var (name.moved d) (Expr.moved? d initializer)
  | .block body => .block (Stmt.movedAll d body)
  | .ifThen condition yes none => .ifThen (condition.moved d) (yes.moved d) none
  | .ifThen condition yes (some no) =>
    .ifThen (condition.moved d) (yes.moved d) (some (no.moved d))
  | .whileDo condition body => .whileDo (condition.moved d) (body.moved d)
  | .function name parameters body =>
    .function (name.moved d) (parameters.map (Token.moved d)) (Stmt.movedAll d body)
  | .ret keyword value => .ret (keyword.moved d) (Expr.moved? d value)

/-- The statements at their new places. -/
def Stmt.movedAll (d : Shift) : List Stmt → List Stmt
  | [] => []
  | s :: ss => s.moved d :: Stmt.movedAll d ss

end

/-! ## Nothing is moved -/

mutual

theorem Expr.moved_zero : ∀ e : Expr, e.moved .zero = e
  | .literal _ | .var _ _ => rfl
  | .grouping inner => by rw [Expr.moved, inner.moved_zero]
  | .unary _ right => by rw [Expr.moved, right.moved_zero, Token.moved_zero]
  | .binary left _ right => by
    rw [Expr.moved, left.moved_zero, right.moved_zero, Token.moved_zero]
  | .logical left _ right => by rw [Expr.moved, left.moved_zero, right.moved_zero]
  | .assign _ _ value => by
    rw [Expr.moved, value.moved_zero, Token.moved_zero]
    rfl
  | .call callee _ arguments => by
    rw [Expr.moved, callee.moved_zero, Expr.movedAll_zero arguments, Token.moved_zero]

theorem Expr.movedAll_zero : ∀ es : List Expr, Expr.movedAll .zero es = es
  | [] => rfl
  | e :: es => by rw [Expr.movedAll, e.moved_zero, Expr.movedAll_zero es]

end

theorem Expr.moved?_zero : ∀ e : Option Expr, Expr.moved? .zero e = e
  | none => rfl
  | some e => congrArg some e.moved_zero

mutual

theorem Stmt.moved_zero : ∀ s : Stmt, s.moved .zero = s
  | .expression value => by rw [Stmt.moved, value.moved_zero]
  | .print _ value => by rw [Stmt.moved, value.moved_zero, Token.moved_zero]
  | .var _ value | .ret _ value => by
    rw [Stmt.moved, Expr.moved?_zero value, Token.moved_zero]
  | .block body => by rw [Stmt.moved, Stmt.movedAll_zero body]
  | .ifThen condition yes none => by rw [Stmt.moved, condition.moved_zero, yes.moved_zero]
  | .ifThen condition yes (some no) => by
    rw [Stmt.moved, condition.moved_zero, yes.moved_zero, no.moved_zero]
  | .whileDo condition body => by rw [Stmt.moved, condition.moved_zero, body.moved_zero]
  | .function name parameters body => by
    rw [Stmt.moved, Shift.zero, map_moved_ids, Token.moved_ids, ← Shift.zero,
      Stmt.movedAll_zero body]

theorem Stmt.movedAll_zero : ∀ ss : List Stmt, Stmt.movedAll .zero ss = ss
  | [] => rfl
  | s :: ss => by rw [Stmt.movedAll, s.moved_zero, Stmt.movedAll_zero ss]

end

/-! ## Findings -/

/-- The error at the place it has moved to. -/
def ResolveError.moved (d : Shift) (e : ResolveError) : ResolveError :=
  ⟨e.cause, e.token.moved d⟩

/-- The finding about the moved program. -/
def Finding.moved (d : Shift) : Finding → Finding
  | .bound id distance => .bound (id + d.ids) distance
  | .fault e => .fault (e.moved d)

section Findings

variable (d : Shift)

theorem Scopes.mention_moved (scopes : Scopes) (id : RefId) (name : Token) :
    scopes.mention (id + d.ids) (name.moved d) =
      (scopes.mention id name).map (Finding.moved d) := by
  unfold Scopes.mention
  rw [Token.lexeme_moved]
  split <;> rfl

theorem Scopes.declaring_moved (scopes : Scopes) (name : Token) :
    scopes.declaring (name.moved d) = (scopes.declaring name).map (Finding.moved d) := by
  unfold Scopes.declaring
  rw [Token.lexeme_moved]
  split <;> rfl

theorem Scopes.introduceAll_moved (scopes : Scopes) (names : List Token) :
    scopes.introduceAll (names.map (Token.moved d)) =
      ((scopes.introduceAll names).1.map (Finding.moved d), (scopes.introduceAll names).2) := by
  induction names generalizing scopes with
  | nil => rfl
  | cons name names ih =>
    simp only [List.map_cons, Scopes.introduceAll, Scopes.declaring_moved, List.map_append]
    rw [show scopes.introduce (name.moved d) = scopes.introduce name from rfl, ih]

mutual

theorem Expr.findings_moved (scopes : Scopes) : ∀ e : Expr,
    (e.moved d).findings scopes = (e.findings scopes).map (Finding.moved d)
  | .literal _ => rfl
  | .grouping inner | .unary _ inner => Expr.findings_moved scopes inner
  | .binary left _ right | .logical left _ right => by
    simp only [Expr.moved, Expr.findings, List.map_append, Expr.findings_moved scopes left,
      Expr.findings_moved scopes right]
  | .var id name => by
    simp only [Expr.moved, Expr.findings, List.map_append, Scopes.mention_moved, Token.lexeme_moved]
    by_cases own : scopes.initializing name.lexeme <;>
      simp [own, Finding.moved, ResolveError.moved]
  | .assign id target value => by
    simp only [Expr.moved, Expr.findings, List.map_append, Scopes.mention_moved,
      Expr.findings_moved scopes value]
  | .call callee _ arguments => by
    simp only [Expr.moved, Expr.findings, List.map_append, Expr.findings_moved scopes callee,
      Expr.findingsAll_moved scopes arguments]

theorem Expr.findingsAll_moved (scopes : Scopes) : ∀ es : List Expr,
    Expr.findingsAll scopes (Expr.movedAll d es) =
      (Expr.findingsAll scopes es).map (Finding.moved d)
  | [] => rfl
  | e :: es => by
    simp only [Expr.movedAll, Expr.findingsAll, List.map_append, Expr.findings_moved scopes e,
      Expr.findingsAll_moved scopes es]

end

theorem Expr.findings?_moved (scopes : Scopes) (e : Option Expr) :
    Expr.findings? scopes (Expr.moved? d e) = (Expr.findings? scopes e).map (Finding.moved d) := by
  cases e with
  | none => rfl
  | some e => exact Expr.findings_moved d scopes e

mutual

theorem Stmt.findings_moved (inFunction : Bool) (scopes : Scopes) : ∀ s : Stmt,
    (s.moved d).findings inFunction scopes =
      ((s.findings inFunction scopes).1.map (Finding.moved d), (s.findings inFunction scopes).2)
  | .expression value | .print _ value => by
    simp only [Stmt.moved, Stmt.findings, Expr.findings_moved]
  | .var name initializer => by
    simp only [Stmt.moved, Stmt.findings, Scopes.declaring_moved, Expr.findings?_moved,
      Token.lexeme_moved, List.map_append]
  | .block body => by
    simp only [Stmt.moved, Stmt.findings, Stmt.findingsAll_moved inFunction _ body]
  | .ifThen condition yes none => by
    simp only [Stmt.moved, Stmt.findings, Expr.findings_moved,
      Stmt.findings_moved inFunction _ yes, List.map_append]
  | .ifThen condition yes (some no) => by
    simp only [Stmt.moved, Stmt.findings, Expr.findings_moved,
      Stmt.findings_moved inFunction _ yes, Stmt.findings_moved inFunction _ no, List.map_append]
  | .whileDo condition body => by
    simp only [Stmt.moved, Stmt.findings, Expr.findings_moved,
      Stmt.findings_moved inFunction _ body, List.map_append]
  | .function name parameters body => by
    simp only [Stmt.moved, Stmt.findings, Scopes.declaring_moved, Scopes.introduceAll_moved,
      Scopes.introduce, Token.lexeme_moved, Stmt.findingsAll_moved true _ body, List.map_append]
  | .ret keyword value => by
    simp only [Stmt.moved, Stmt.findings, Expr.findings?_moved, List.map_append]
    split <;> rfl

theorem Stmt.findingsAll_moved (inFunction : Bool) (scopes : Scopes) : ∀ ss : List Stmt,
    Stmt.findingsAll inFunction scopes (Stmt.movedAll d ss) =
      ((Stmt.findingsAll inFunction scopes ss).1.map (Finding.moved d),
        (Stmt.findingsAll inFunction scopes ss).2)
  | [] => rfl
  | s :: ss => by
    simp only [Stmt.movedAll, Stmt.findingsAll, Stmt.findings_moved inFunction _ s,
      Stmt.findingsAll_moved inFunction _ ss, List.map_append]

end

theorem programFindings_moved (program : List Stmt) :
    programFindings (Stmt.movedAll d program) =
      (programFindings program).map (Finding.moved d) := by
  unfold programFindings
  rw [Stmt.findingsAll_moved]

/-- The distances of a moved program. -/
def distancesMoved (distances : List (RefId × Nat)) : List (RefId × Nat) :=
  distances.map fun p => (p.1 + d.ids, p.2)

/-- The same is found out about a moved program. -/
theorem resolve_moved (program : List Stmt) :
    resolve (Stmt.movedAll d program) =
      match resolve program with
      | .ok distances => .ok (distancesMoved d distances)
      | .error errors => .error (errors.map (ResolveError.moved d)) := by
  have faults : ∀ found : List Finding, (found.map (Finding.moved d)).filterMap Finding.fault? =
      (found.filterMap Finding.fault?).map (ResolveError.moved d) := by
    intro found
    rw [List.filterMap_map, List.map_filterMap]
    congr 1
    funext f
    cases f <;> rfl
  have bounds : ∀ found : List Finding, (found.map (Finding.moved d)).filterMap Finding.bound? =
      distancesMoved d (found.filterMap Finding.bound?) := by
    intro found
    rw [distancesMoved, List.filterMap_map, List.map_filterMap]
    congr 1
    funext f
    cases f <;> rfl
  simp only [resolve, programFindings_moved, faults, bounds, List.isEmpty_map]
  split <;> rfl

end Findings

end Lox
