import Lox.Proofs.Scope.Names
import Lox.Syntax.References

/-!
# Mentions

Where every mention of a variable stands in a program, apart from any run of it.

* `Place` — the scopes around a part of a program, with the sites that open them.
* `Mention` — a read of or an assignment to a variable, at its place.
* `Expr.mentions`, `Stmt.mentions` — all mentions in a part that stands at some place.
* `Stmt.Plain` — no branch and no body of a loop is a mere declaration.
* `Stmt.Tidy` — besides, no name is declared twice in one scope.
* `resolve_ok` — a program without faults is tidy, and its distances are those of its mentions.
-/

namespace Lox

/-- A part of a program that opens a scope. -/
inductive Site where
  | block (body : List Stmt)
  | function (name : Token) (parameters : List Token) (body : List Stmt)

/-- The name that a statement declares in the scope it stands in. -/
def Stmt.declared? : Stmt → Option Token
  | .var name _ => some name
  | .function name _ _ => some name
  | _ => none

/-- The scopes behind a statement. -/
def Scopes.behind (scopes : Scopes) (s : Stmt) : Scopes :=
  match s.declared? with
  | some name => scopes.introduce name
  | none => scopes

/-- Nothing gets known at the top level. -/
theorem Scopes.behind_nil (s : Stmt) : Scopes.behind [] s = [] := by
  unfold Scopes.behind
  split <;> rfl

/-- Where something stands in a program. -/
structure Place where
  /-- The names declared before it, in the scopes around it. -/
  scopes : Scopes
  /-- What opened these scopes. -/
  sites : List Site
  /-- The variable in whose initializer it stands. -/
  initializing : Option Token

namespace Place

/-- Outside of all blocks and functions. -/
def top : Place := ⟨[], [], none⟩

/-- The beginning of a block. -/
def inBlock (p : Place) (body : List Stmt) : Place := ⟨[] :: p.scopes, .block body :: p.sites, none⟩

/-- The beginning of the body of a function that is declared at this place. -/
def inFunction (p : Place) (name : Token) (parameters : List Token) (body : List Stmt) : Place :=
  ⟨(Scopes.introduceAll ([] :: p.scopes.introduce name) parameters).2,
    .function name parameters body :: p.sites, none⟩

/-- The initializer of a variable that is declared at this place. -/
def inInitializer (p : Place) (name : Token) : Place :=
  ⟨p.scopes.declare name.lexeme, p.sites, some name⟩

/-- The place behind a statement. -/
def behind (p : Place) (s : Stmt) : Place := { p with scopes := p.scopes.behind s }

end Place

/-- A read of a variable or an assignment to one. -/
structure Mention where
  id : RefId
  name : Token
  /-- The variable is assigned, not read. -/
  assigns : Bool
  place : Place

namespace Mention

/-- The number of scopes between the mention and the declaration of its name; none if the name is
global. -/
def distance? (μ : Mention) : Option Nat := μ.place.scopes.distance? μ.name.lexeme

/-- The mention with its distance. -/
def entry? (μ : Mention) : Option (RefId × Nat) := μ.distance?.map fun distance => (μ.id, distance)

/-- The variable does not have a value yet, as that is just being worked out. -/
def early (μ : Mention) : Bool := μ.place.scopes.initializing μ.name.lexeme

end Mention

mutual

/-- The mentions in an expression that stands at some place. -/
def Expr.mentions (p : Place) : Expr → List Mention
  | .literal _ => []
  | .grouping inner => inner.mentions p
  | .unary _ right => right.mentions p
  | .binary left _ right => left.mentions p ++ right.mentions p
  | .logical left _ right => left.mentions p ++ right.mentions p
  | .var id name => [⟨id, name, false, p⟩]
  | .assign id target value => value.mentions p ++ [⟨id, target, true, p⟩]
  | .call callee _ arguments => callee.mentions p ++ Expr.mentionsAll p arguments

/-- The mentions in some expressions. -/
def Expr.mentionsAll (p : Place) : List Expr → List Mention
  | [] => []
  | e :: es => e.mentions p ++ Expr.mentionsAll p es

end

/-- The mentions in an expression that may be missing. -/
def Expr.mentions? (p : Place) : Option Expr → List Mention
  | none => []
  | some e => e.mentions p

mutual

/-- The mentions in a statement that stands at some place. -/
def Stmt.mentions (p : Place) : Stmt → List Mention
  | .expression value => value.mentions p
  | .print _ value => value.mentions p
  | .var name initializer => Expr.mentions? (p.inInitializer name) initializer
  | .block body => Stmt.mentionsAll (p.inBlock body) body
  | .ifThen condition yes none => condition.mentions p ++ yes.mentions p
  | .ifThen condition yes (some no) => condition.mentions p ++ yes.mentions p ++ no.mentions p
  | .whileDo condition body => condition.mentions p ++ body.mentions p
  | .function name parameters body => Stmt.mentionsAll (p.inFunction name parameters body) body
  | .ret _ value => Expr.mentions? p value

/-- The mentions in some statements of which the first stands at some place. -/
def Stmt.mentionsAll (p : Place) : List Stmt → List Mention
  | [] => []
  | s :: ss => s.mentions p ++ Stmt.mentionsAll (p.behind s) ss

end

/-- The mentions in a program. -/
def programMentions (program : List Stmt) : List Mention := Stmt.mentionsAll .top program

mutual

/-- No branch of an `if` and no body of a loop in the statement is a mere declaration. -/
def Stmt.Plain : Stmt → Prop
  | .block body => Stmt.PlainAll body
  | .ifThen _ yes none => yes.declared? = none ∧ yes.Plain
  | .ifThen _ yes (some no) =>
    (yes.declared? = none ∧ yes.Plain) ∧ no.declared? = none ∧ no.Plain
  | .whileDo _ body => body.declared? = none ∧ body.Plain
  | .function _ _ body => Stmt.PlainAll body
  | .expression _ | .print _ _ | .var _ _ | .ret _ _ => True

/-- All statements are plain. -/
def Stmt.PlainAll : List Stmt → Prop
  | [] => True
  | s :: ss => s.Plain ∧ Stmt.PlainAll ss

end

mutual

/-- The statement is plain, and no declaration in it takes a name that its scope has already. -/
def Stmt.Tidy (scopes : Scopes) : Stmt → Prop
  | .var name _ => scopes.taken name.lexeme = false
  | .block body => Stmt.TidyAll ([] :: scopes) body
  | .ifThen _ yes none => yes.declared? = none ∧ yes.Tidy scopes
  | .ifThen _ yes (some no) =>
    (yes.declared? = none ∧ yes.Tidy scopes) ∧ no.declared? = none ∧ no.Tidy scopes
  | .whileDo _ body => body.declared? = none ∧ body.Tidy scopes
  | .function name parameters body =>
    scopes.taken name.lexeme = false ∧ (parameters.map Token.lexeme).Nodup ∧
      Stmt.TidyAll (Scopes.introduceAll ([] :: scopes.introduce name) parameters).2 body
  | .expression _ | .print _ _ | .ret _ _ => True

/-- All statements are tidy where they stand. -/
def Stmt.TidyAll (scopes : Scopes) : List Stmt → Prop
  | [] => True
  | s :: ss => s.Tidy scopes ∧ Stmt.TidyAll (scopes.behind s) ss

end

/-! ## Findings -/

/-- No error is found. -/
def NoFault (found : List Finding) : Prop := ∀ f ∈ found, f.fault? = none

theorem NoFault.append_iff {found found' : List Finding} :
    NoFault (found ++ found') ↔ NoFault found ∧ NoFault found' :=
  List.forall_mem_append

/-- What is found at a mention is its distance. -/
theorem filterMap_mention (μ : Mention) :
    (μ.place.scopes.mention μ.id μ.name).filterMap Finding.bound? = [μ].filterMap Mention.entry? := by
  rw [List.filterMap_cons]
  unfold Scopes.mention Mention.entry? Mention.distance?
  cases μ.place.scopes.distance? μ.name.lexeme <;> rfl

mutual

/-- The distances found in an expression are those of its mentions. -/
theorem Expr.findings_bound (p : Place) : ∀ e : Expr,
    (e.findings p.scopes).filterMap Finding.bound? = (e.mentions p).filterMap Mention.entry?
  | .literal _ => rfl
  | .grouping inner | .unary _ inner => Expr.findings_bound p inner
  | .binary left _ right | .logical left _ right => by
    simp only [Expr.findings, Expr.mentions, List.filterMap_append, Expr.findings_bound p left,
      Expr.findings_bound p right]
  | .var id name => by
    have fault : (if p.scopes.initializing name.lexeme then
        [Finding.fault ⟨.selfReferencingInitializer, name⟩] else []).filterMap Finding.bound? = [] := by
      split <;> rfl
    rw [Expr.findings, List.filterMap_append, fault]
    exact filterMap_mention ⟨id, name, false, p⟩
  | .assign id target value => by
    rw [Expr.findings, Expr.mentions, List.filterMap_append, List.filterMap_append,
      Expr.findings_bound p value, filterMap_mention ⟨id, target, true, p⟩]
  | .call callee _ arguments => by
    simp only [Expr.findings, Expr.mentions, List.filterMap_append, Expr.findings_bound p callee,
      Expr.findingsAll_bound p arguments]

theorem Expr.findingsAll_bound (p : Place) : ∀ es : List Expr,
    (Expr.findingsAll p.scopes es).filterMap Finding.bound? =
      (Expr.mentionsAll p es).filterMap Mention.entry?
  | [] => rfl
  | e :: es => by
    simp only [Expr.findingsAll, Expr.mentionsAll, List.filterMap_append, Expr.findings_bound p e,
      Expr.findingsAll_bound p es]

end

/-- Nothing is read before it has a value. -/
def InTime (mentions : List Mention) : Prop := ∀ μ ∈ mentions, μ.assigns = false → μ.early = false

theorem InTime.append_iff {mentions mentions' : List Mention} :
    InTime (mentions ++ mentions') ↔ InTime mentions ∧ InTime mentions' :=
  List.forall_mem_append

theorem InTime.nil : InTime [] := fun _ h => by cases h

mutual

theorem Expr.inTime (p : Place) : ∀ e : Expr, NoFault (e.findings p.scopes) → InTime (e.mentions p)
  | .literal _, _ => .nil
  | .grouping inner, h | .unary _ inner, h => Expr.inTime p inner h
  | .binary left _ right, h | .logical left _ right, h =>
    have ⟨hl, hr⟩ := NoFault.append_iff.1 h
    InTime.append_iff.2 ⟨Expr.inTime p left hl, Expr.inTime p right hr⟩
  | .var id name, h => by
    have fault := (NoFault.append_iff.1 h).1
    intro μ hμ _
    rw [List.mem_singleton.1 hμ]
    cases early : p.scopes.initializing name.lexeme with
    | false => exact early
    | true =>
      rw [if_pos early] at fault
      cases fault _ (List.mem_singleton_self _)
  | .assign id target value, h => by
    refine InTime.append_iff.2 ⟨Expr.inTime p value (NoFault.append_iff.1 h).1, ?_⟩
    intro μ hμ reads
    rw [List.mem_singleton.1 hμ] at reads
    cases reads
  | .call callee _ arguments, h =>
    have ⟨hc, ha⟩ := NoFault.append_iff.1 h
    InTime.append_iff.2 ⟨Expr.inTime p callee hc, Expr.inTimeAll p arguments ha⟩

theorem Expr.inTimeAll (p : Place) : ∀ es : List Expr,
    NoFault (Expr.findingsAll p.scopes es) → InTime (Expr.mentionsAll p es)
  | [], _ => .nil
  | e :: es, h =>
    have ⟨he, hes⟩ := NoFault.append_iff.1 h
    InTime.append_iff.2 ⟨Expr.inTime p e he, Expr.inTimeAll p es hes⟩

end

/-- What the findings without faults about a part say about it. -/
structure Resolved (found : List Finding) (mentions : List Mention) : Prop where
  bound : found.filterMap Finding.bound? = mentions.filterMap Mention.entry?
  inTime : InTime mentions

namespace Resolved

variable {found found' : List Finding} {mentions mentions' : List Mention}

theorem append (h : Resolved found mentions) (h' : Resolved found' mentions') :
    Resolved (found ++ found') (mentions ++ mentions') where
  bound := by rw [List.filterMap_append, List.filterMap_append, h.bound, h'.bound]
  inTime := InTime.append_iff.2 ⟨h.inTime, h'.inTime⟩

theorem ofExpr {p : Place} {e : Expr} (h : NoFault (e.findings p.scopes)) :
    Resolved (e.findings p.scopes) (e.mentions p) :=
  ⟨e.findings_bound p, e.inTime p h⟩

theorem ofExpr? {p : Place} {o : Option Expr} (h : NoFault (Expr.findings? p.scopes o)) :
    Resolved (Expr.findings? p.scopes o) (Expr.mentions? p o) := by
  cases o with
  | none => exact ⟨rfl, .nil⟩
  | some e => exact ofExpr h

/-- Findings that are no distances do not matter. -/
theorem skip (h : Resolved found' mentions) (hn : found.filterMap Finding.bound? = []) :
    Resolved (found ++ found') mentions :=
  ⟨by rw [List.filterMap_append, hn, List.nil_append, h.bound], h.inTime⟩

end Resolved

theorem bound_declaring (scopes : Scopes) (name : Token) :
    (scopes.declaring name).filterMap Finding.bound? = [] := by
  unfold Scopes.declaring
  split <;> rfl

theorem bound_introduceAll (scopes : Scopes) (names : List Token) :
    (scopes.introduceAll names).1.filterMap Finding.bound? = [] := by
  induction names generalizing scopes with
  | nil => rfl
  | cons name names ih =>
    rw [Scopes.introduceAll, List.filterMap_append, bound_declaring, ih]
    rfl

theorem Scopes.behind_of_none {s : Stmt} (h : s.declared? = none) (scopes : Scopes) :
    scopes.behind s = scopes := by
  rw [Scopes.behind, h]

mutual

/-- A plain statement without faults is tidy, its findings are those of its mentions, and the scopes
behind it are those behind its declaration. -/
theorem Stmt.resolved (inFunction : Bool) (p : Place) : ∀ s : Stmt, s.Plain →
    NoFault (s.findings inFunction p.scopes).1 →
    (s.findings inFunction p.scopes).2 = p.scopes.behind s ∧ s.Tidy p.scopes ∧
      Resolved (s.findings inFunction p.scopes).1 (s.mentions p)
  | .expression value, _, h | .print _ value, _, h => ⟨rfl, trivial, .ofExpr h⟩
  | .var name initializer, _, h => by
    have ⟨fresh, hi⟩ := NoFault.append_iff.1 h
    have value : Resolved _ (Expr.mentions? (p.inInitializer name) initializer) := .ofExpr? hi
    exact ⟨rfl, Scopes.not_taken_of_declaring fresh, value.skip (bound_declaring _ _)⟩
  | .block body, plain, h => by
    have ⟨tidy, inner⟩ := Stmt.resolvedAll inFunction (p.inBlock body) body plain h
    exact ⟨rfl, tidy, inner⟩
  | .ifThen condition yes none, ⟨noDeclaration, plain⟩, h => by
    have ⟨hc, hy⟩ := NoFault.append_iff.1 h
    have ⟨behind, tidy, inner⟩ := Stmt.resolved inFunction p yes plain hy
    refine ⟨?_, ⟨noDeclaration, tidy⟩, (Resolved.ofExpr hc).append inner⟩
    exact behind.trans (Scopes.behind_of_none noDeclaration _)
  | .ifThen condition yes (some no), ⟨⟨noDeclaration, plain⟩, noDeclaration', plain'⟩, h => by
    simp only [Stmt.findings, NoFault.append_iff] at h
    obtain ⟨⟨hc, hy⟩, hn⟩ := h
    have ⟨behind, tidy, inner⟩ := Stmt.resolved inFunction p yes plain hy
    have same : (yes.findings inFunction p.scopes).2 = p.scopes :=
      behind.trans (Scopes.behind_of_none noDeclaration _)
    rw [same] at hn
    have ⟨behind', tidy', inner'⟩ := Stmt.resolved inFunction p no plain' hn
    simp only [Stmt.findings, same]
    refine ⟨?_, ⟨⟨noDeclaration, tidy⟩, noDeclaration', tidy'⟩,
      ((Resolved.ofExpr hc).append inner).append inner'⟩
    exact behind'.trans (Scopes.behind_of_none noDeclaration' _)
  | .whileDo condition body, ⟨noDeclaration, plain⟩, h => by
    have ⟨hc, hb⟩ := NoFault.append_iff.1 h
    have ⟨behind, tidy, inner⟩ := Stmt.resolved inFunction p body plain hb
    refine ⟨?_, ⟨noDeclaration, tidy⟩, (Resolved.ofExpr hc).append inner⟩
    exact behind.trans (Scopes.behind_of_none noDeclaration _)
  | .function name parameters body, plain, h => by
    simp only [Stmt.findings, NoFault.append_iff] at h
    obtain ⟨⟨fresh, hp⟩, hb⟩ := h
    have ⟨tidy, inner⟩ := Stmt.resolvedAll true (p.inFunction name parameters body) body plain hb
    refine ⟨rfl, ⟨Scopes.not_taken_of_declaring fresh, (Scopes.nodup_of_introduceAll hp).1, tidy⟩, ?_⟩
    refine inner.skip ?_
    rw [List.filterMap_append, bound_declaring, bound_introduceAll]
    rfl
  | .ret keyword value, _, h => by
    have ⟨_, hv⟩ := NoFault.append_iff.1 h
    refine ⟨rfl, trivial, (Resolved.ofExpr? hv).skip ?_⟩
    split <;> rfl

theorem Stmt.resolvedAll (inFunction : Bool) (p : Place) : ∀ ss : List Stmt, Stmt.PlainAll ss →
    NoFault (Stmt.findingsAll inFunction p.scopes ss).1 →
    Stmt.TidyAll p.scopes ss ∧
      Resolved (Stmt.findingsAll inFunction p.scopes ss).1 (Stmt.mentionsAll p ss)
  | [], _, _ => ⟨trivial, rfl, .nil⟩
  | s :: ss, ⟨plain, plainAll⟩, h => by
    have ⟨hs, hss⟩ := NoFault.append_iff.1 h
    have ⟨behind, tidy, first⟩ := Stmt.resolved inFunction p s plain hs
    simp only [Stmt.findingsAll, behind] at hss ⊢
    have ⟨tidyAll, others⟩ := Stmt.resolvedAll inFunction (p.behind s) ss plainAll hss
    exact ⟨⟨tidy, tidyAll⟩, first.append others⟩

end

/-- If resolution finds no error then there is no fault. -/
theorem noFault_of_resolve {program : List Stmt} {distances : List (RefId × Nat)}
    (h : resolve program = .ok distances) :
    NoFault (programFindings program) ∧
      distances = (programFindings program).filterMap Finding.bound? := by
  unfold resolve at h
  simp only at h
  split at h
  · rename_i none
    cases h
    exact ⟨fun f hf => List.filterMap_eq_nil_iff.1 (List.isEmpty_iff.1 none) f hf, rfl⟩
  · cases h

/-- A program in which resolution finds no error is tidy, reads nothing too early, and the distances
are those of its mentions. -/
theorem resolve_ok {program : List Stmt} {distances : List (RefId × Nat)}
    (plain : Stmt.PlainAll program) (h : resolve program = .ok distances) :
    Stmt.TidyAll [] program ∧ InTime (programMentions program) ∧
      distances = (programMentions program).filterMap Mention.entry? := by
  obtain ⟨noFault, rfl⟩ := noFault_of_resolve h
  have ⟨tidy, resolved⟩ := Stmt.resolvedAll false .top program plain noFault
  exact ⟨tidy, resolved.inTime, resolved.bound⟩

end Lox
