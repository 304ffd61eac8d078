import Lox.Machine.Execution
import Lox.Proofs.Scope.Mentions

/-!
# Renamed programs

A local variable or parameter under another name, together with all mentions that are bound to it.

* `Mention.isBoundTo` — the name of the mention is found in the scope that has the declaration.
* `Mention.isPremature` — the mention assigns the variable in its own initializer.
* `Renaming.of` — the mentions that are renamed together with a declaration.
* `Expr.renamed`, `Stmt.renamed`, `Program.renamed` — the program under the other name. Functions and
  global variables keep their names.
* `Stmt.names` — the names that a program uses.
-/

namespace Lox

/-! ## Bindings -/

/-- The statement declares this variable. -/
def Stmt.isVariable (declaration : Token) : Stmt → Bool
  | .var name _ => name == declaration
  | _ => false

/-- The variable or parameter is declared in the scope that the site opens. -/
def Site.declares (declaration : Token) : Site → Bool
  | .block body => body.any (Stmt.isVariable declaration)
  | .function _ parameters body =>
    parameters.contains declaration || body.any (Stmt.isVariable declaration)

/-- The mention has the name of the declaration, and the scope in which this is found is the one of the
declaration. -/
def Mention.isBoundTo (declaration : Token) (μ : Mention) : Bool :=
  μ.name.lexeme == declaration.lexeme &&
    μ.distance?.any fun distance => μ.place.sites[distance]?.any (Site.declares declaration)

/-- The mention assigns the variable in its own initializer, when there is no such variable yet. -/
def Mention.isPremature (declaration : Token) (μ : Mention) : Bool :=
  μ.assigns && μ.isBoundTo declaration && μ.place.initializing == some declaration

/-! ## Renaming -/

/-- What gets another name. -/
structure Renaming where
  /-- The declaration, if there is any. -/
  declaration : Option Token
  /-- The mentions that are bound to it. -/
  mentions : List RefId
  /-- Those that assign the variable in its own initializer. -/
  premature : List RefId
  /-- The other name. -/
  name : String

namespace Renaming

/-- A declaration gets another name, and with it all mentions that are bound to it. -/
def of (program : List Stmt) (declaration : Token) (name : String) : Renaming where
  declaration := some declaration
  mentions := ((programMentions program).filter (Mention.isBoundTo declaration)).map Mention.id
  premature := ((programMentions program).filter (Mention.isPremature declaration)).map Mention.id
  name := name

/-- Nothing gets another name. -/
def off : Renaming := ⟨none, [], [], ""⟩

variable (r : Renaming)

/-- The name of a variable or parameter where it is declared. -/
def declare (name : Token) : Token :=
  if r.declaration = some name then { name with lexeme := r.name } else name

/-- The name at a mention. -/
def mention (id : RefId) (name : Token) : Token :=
  if r.mentions.contains id then { name with lexeme := r.name } else name

@[simp] theorem declare_off (name : Token) : off.declare name = name := rfl
@[simp] theorem mention_off (id : RefId) (name : Token) : off.mention id name = name := rfl

@[simp] theorem line_mention (id : RefId) (name : Token) : (r.mention id name).line = name.line := by
  unfold mention
  split <;> rfl

end Renaming

mutual

/-- The expression under the other name. -/
def Expr.renamed (r : Renaming) : Expr → Expr
  | .literal value => .literal value
  | .grouping inner => .grouping (inner.renamed r)
  | .unary op right => .unary op (right.renamed r)
  | .binary left op right => .binary (left.renamed r) op (right.renamed r)
  | .logical left op right => .logical (left.renamed r) op (right.renamed r)
  | .var id name => .var id (r.mention id name)
  | .assign id target value => .assign id (r.mention id target) (value.renamed r)
  | .call callee closing arguments => .call (callee.renamed r) closing (Expr.renamedAll r arguments)

/-- The expressions under the other name. -/
def Expr.renamedAll (r : Renaming) : List Expr → List Expr
  | [] => []
  | e :: es => e.renamed r :: Expr.renamedAll r es

end

/-- An expression that may be missing, under the other name. -/
def Expr.renamed? (r : Renaming) : Option Expr → Option Expr
  | none => none
  | some e => some (e.renamed r)

mutual

/-- The statement under the other name. -/
def Stmt.renamed (r : Renaming) : Stmt → Stmt
  | .expression value => .expression (value.renamed r)
  | .print keyword value => .print keyword (value.renamed r)
  | .var name initializer => .var (r.declare name) (Expr.renamed? r initializer)
  | .block body => .block (Stmt.renamedAll r body)
  | .ifThen condition yes none => .ifThen (condition.renamed r) (yes.renamed r) none
  | .ifThen condition yes (some no) =>
    .ifThen (condition.renamed r) (yes.renamed r) (some (no.renamed r))
  | .whileDo condition body => .whileDo (condition.renamed r) (body.renamed r)
  | .function name parameters body =>
    .function name (parameters.map r.declare) (Stmt.renamedAll r body)
  | .ret keyword value => .ret keyword (Expr.renamed? r value)

/-- The statements under the other name. -/
def Stmt.renamedAll (r : Renaming) : List Stmt → List Stmt
  | [] => []
  | s :: ss => s.renamed r :: Stmt.renamedAll r ss

end

/-- The statement outside of all blocks and functions. A variable that it declares is global and keeps
its name. -/
def Stmt.renamedOutside (r : Renaming) : Stmt → Stmt
  | .var name initializer => .var name (Expr.renamed? r initializer)
  | s => s.renamed r

theorem Stmt.renamedOutside_eq {r : Renaming} {s : Stmt}
    (notGlobal : ∀ name initializer, s ≠ .var name initializer) :
    s.renamedOutside r = s.renamed r := by
  cases s with
  | var name initializer => exact absurd rfl (notGlobal name initializer)
  | _ => rfl

/-- The program under the other name. -/
def Program.renamed (r : Renaming) (program : List Stmt) : List Stmt :=
  program.map (Stmt.renamedOutside r)

/-- The function under the other name. -/
def Closure.renamed (r : Renaming) (f : Closure) : Closure :=
  ⟨f.identity, f.name, f.parameters.map r.declare, Stmt.renamedAll r f.body, f.env⟩

@[simp] theorem Closure.length_parameters_renamed (r : Renaming) (f : Closure) :
    (f.renamed r).parameters.length = f.parameters.length := List.length_map _

/-! ## Names -/

mutual

/-- The names that an expression mentions. -/
def Expr.names : Expr → List String
  | .literal _ => []
  | .grouping inner => inner.names
  | .unary _ right => right.names
  | .binary left _ right => left.names ++ right.names
  | .logical left _ right => left.names ++ right.names
  | .var _ name => [name.lexeme]
  | .assign _ target value => target.lexeme :: value.names
  | .call callee _ arguments => callee.names ++ Expr.namesAll arguments

/-- The names that some expressions mention. -/
def Expr.namesAll : List Expr → List String
  | [] => []
  | e :: es => e.names ++ Expr.namesAll es

end

/-- The names that an expression mentions, if there is one. -/
def Expr.names? : Option Expr → List String
  | none => []
  | some e => e.names

mutual

/-- The names that a statement declares or mentions. -/
def Stmt.names : Stmt → List String
  | .expression value | .print _ value => value.names
  | .var name initializer => name.lexeme :: Expr.names? initializer
  | .block body => Stmt.namesAll body
  | .ifThen condition yes none => condition.names ++ yes.names
  | .ifThen condition yes (some no) => condition.names ++ yes.names ++ no.names
  | .whileDo condition body => condition.names ++ body.names
  | .function name parameters body =>
    name.lexeme :: parameters.map Token.lexeme ++ Stmt.namesAll body
  | .ret _ value => Expr.names? value

/-- The names that some statements declare or mention. -/
def Stmt.namesAll : List Stmt → List String
  | [] => []
  | s :: ss => s.names ++ Stmt.namesAll ss

end

/-! ## Nothing renamed -/

mutual

@[simp] theorem Expr.renamed_off : ∀ e : Expr, e.renamed .off = e
  | .literal _ | .var _ _ => rfl
  | .grouping inner | .unary _ inner | .assign _ _ inner => by
    simp [Expr.renamed, Expr.renamed_off inner]
  | .binary left _ right | .logical left _ right => by
    simp [Expr.renamed, Expr.renamed_off left, Expr.renamed_off right]
  | .call callee _ arguments => by
    simp [Expr.renamed, Expr.renamed_off callee, Expr.renamedAll_off arguments]

@[simp] theorem Expr.renamedAll_off : ∀ es : List Expr, Expr.renamedAll .off es = es
  | [] => rfl
  | e :: es => by simp [Expr.renamedAll, Expr.renamed_off e, Expr.renamedAll_off es]

end

@[simp] theorem Expr.renamed?_off (o : Option Expr) : Expr.renamed? .off o = o := by
  cases o <;> simp [Expr.renamed?]

mutual

@[simp] theorem Stmt.renamed_off : ∀ s : Stmt, s.renamed .off = s
  | .expression _ | .print _ _ | .var _ _ | .ret _ _ => by simp [Stmt.renamed]
  | .block body => by simp [Stmt.renamed, Stmt.renamedAll_off body]
  | .ifThen _ yes none => by simp [Stmt.renamed, Stmt.renamed_off yes]
  | .ifThen _ yes (some no) => by simp [Stmt.renamed, Stmt.renamed_off yes, Stmt.renamed_off no]
  | .whileDo _ body => by simp [Stmt.renamed, Stmt.renamed_off body]
  | .function _ _ body => by
    have same : Renaming.off.declare = id := rfl
    simp [Stmt.renamed, same, Stmt.renamedAll_off body]

@[simp] theorem Stmt.renamedAll_off : ∀ ss : List Stmt, Stmt.renamedAll .off ss = ss
  | [] => rfl
  | s :: ss => by simp [Stmt.renamedAll, Stmt.renamed_off s, Stmt.renamedAll_off ss]

end

/-- A function is the same if nothing is renamed. -/
@[simp] theorem Closure.renamed_off (f : Closure) : f.renamed .off = f := by
  have same : Renaming.off.declare = id := rfl
  simp [Closure.renamed, same]

end Lox
