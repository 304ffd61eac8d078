import Lox.Scope

/-!
# Resolution

What can be found out about the names in a program before it runs: which declaration a mention
of a name is bound to, and which declarations and statements make no sense where they stand.

* `ResolveError` — something that makes no sense, at its token.
* `Finding` — a bound mention or an error.
* `Expr.findings`, `Stmt.findings` — all findings, in the order of the text.
* `resolve` — the distances of all bound mentions, or all errors.
-/

namespace Lox

/-- Why something in a program makes no sense. -/
inductive ResolveError.Cause where
  | selfReferencingInitializer
  | alreadyDeclared
  | returnOutsideFunction
  deriving DecidableEq

/-- Something in a program that makes no sense, and its token. -/
structure ResolveError where
  cause : ResolveError.Cause
  token : Token
  deriving DecidableEq

/-- The wording of a cause. -/
def ResolveError.Cause.message : ResolveError.Cause → String
  | .selfReferencingInitializer => "Can't read local variable in its own initializer."
  | .alreadyDeclared => "Already a variable with this name in this scope."
  | .returnOutsideFunction => "Can't return from top-level code."

/-- What is found out about one place of a program. -/
inductive Finding where
  /-- The mention names a variable so many scopes out. -/
  | bound (id : RefId) (distance : Nat)
  | fault (e : ResolveError)

namespace Finding

/-- The distance found for a mention. -/
def bound? : Finding → Option (RefId × Nat)
  | .bound id distance => some (id, distance)
  | .fault _ => none

/-- The error found. -/
def fault? : Finding → Option ResolveError
  | .bound _ _ => none
  | .fault e => some e

end Finding

namespace Scopes

/-- A mention of a name is bound where the name is declared; a global name is bound nowhere. -/
def mention (scopes : Scopes) (id : RefId) (name : Token) : List Finding :=
  match scopes.distance? name.lexeme with
  | some distance => [.bound id distance]
  | none => []

/-- A name is not declared twice in one scope. -/
def declaring (scopes : Scopes) (name : Token) : List Finding :=
  if scopes.taken name.lexeme then [.fault ⟨.alreadyDeclared, name⟩] else []

/-- The scopes behind the declaration of a name whose value is ready. -/
def introduce (scopes : Scopes) (name : Token) : Scopes :=
  (scopes.declare name.lexeme).define name.lexeme

/-- The findings about parameters, and the scopes behind them. -/
def introduceAll (scopes : Scopes) : List Token → List Finding × Scopes
  | [] => ([], scopes)
  | name :: names =>
    let (found, scopes') := (scopes.introduce name).introduceAll names
    (scopes.declaring name ++ found, scopes')

end Scopes

mutual

/-- The findings about an expression. -/
def Expr.findings (scopes : Scopes) : Expr → List Finding
  | .literal _ => []
  | .grouping inner => inner.findings scopes
  | .unary _ right => right.findings scopes
  | .binary left _ right => left.findings scopes ++ right.findings scopes
  | .logical left _ right => left.findings scopes ++ right.findings scopes
  | .var id name =>
    (if scopes.initializing name.lexeme then [.fault ⟨.selfReferencingInitializer, name⟩] else [])
      ++ scopes.mention id name
  | .assign id target value => value.findings scopes ++ scopes.mention id target
  | .call callee _ arguments => callee.findings scopes ++ Expr.findingsAll scopes arguments

/-- The findings about some expressions. -/
def Expr.findingsAll (scopes : Scopes) : List Expr → List Finding
  | [] => []
  | e :: es => e.findings scopes ++ Expr.findingsAll scopes es

end

/-- The findings about an expression that may be missing. -/
def Expr.findings? (scopes : Scopes) : Option Expr → List Finding
  | none => []
  | some e => e.findings scopes

mutual

/-- The findings about a statement, and the scopes behind it. -/
def Stmt.findings (inFunction : Bool) (scopes : Scopes) : Stmt → List Finding × Scopes
  | .expression value => (value.findings scopes, scopes)
  | .print _ value => (value.findings scopes, scopes)
  | .var name initializer =>
    let declared := scopes.declare name.lexeme
    (scopes.declaring name ++ Expr.findings? declared initializer, declared.define name.lexeme)
  | .block body => ((Stmt.findingsAll inFunction ([] :: scopes) body).1, scopes)
  | .ifThen condition yes none =>
    let (found, scopes') := yes.findings inFunction scopes
    (condition.findings scopes ++ found, scopes')
  | .ifThen condition yes (some no) =>
    let (found, scopes') := yes.findings inFunction scopes
    let (found', scopes'') := no.findings inFunction scopes'
    (condition.findings scopes ++ found ++ found', scopes'')
  | .whileDo condition body =>
    let (found, scopes') := body.findings inFunction scopes
    (condition.findings scopes ++ found, scopes')
  | .function name parameters body =>
    let known := scopes.introduce name
    let (found, inner) := Scopes.introduceAll ([] :: known) parameters
    (scopes.declaring name ++ found ++ (Stmt.findingsAll true inner body).1, known)
  | .ret keyword value =>
    ((if inFunction then [] else [.fault ⟨.returnOutsideFunction, keyword⟩])
      ++ Expr.findings? scopes value, scopes)

/-- The findings about some statements in order, and the scopes behind them. -/
def Stmt.findingsAll (inFunction : Bool) (scopes : Scopes) : List Stmt → List Finding × Scopes
  | [] => ([], scopes)
  | s :: ss =>
    let (found, scopes') := s.findings inFunction scopes
    let (found', scopes'') := Stmt.findingsAll inFunction scopes' ss
    (found ++ found', scopes'')

end

/-- The findings about a program. -/
def programFindings (program : List Stmt) : List Finding := (Stmt.findingsAll false [] program).1

/-- The distance of each mention of a local name; if anything in the program makes no sense, all
that does not instead. -/
def resolve (program : List Stmt) : Except (List ResolveError) (List (RefId × Nat)) :=
  let found := programFindings program
  let errors := found.filterMap Finding.fault?
  if errors.isEmpty then .ok (found.filterMap Finding.bound?) else .error errors

end Lox
