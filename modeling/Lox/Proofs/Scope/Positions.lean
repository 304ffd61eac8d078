import Mathlib
import Lox.Proofs.Scope.Checked

/-!
# Positions

The distance of a name, told from where its mention stands in the program, without resolution.

* `Layer` — a block or a function body around a part of a program, with what is declared in it up to
  this part.
* `Stmt.Within`, `Program.Holds` — a statement stands inside some layers.
* `Stmt.own` — the mentions of variables that stand in a statement, but not in one inside it.
* `Layers.Fit` — the scopes of resolution know the names that the layers declare.
* `Stmt.Within.place`, `Program.Holds.place` — so it is wherever a statement stands.
* `resolve_positions` — the distance of a mention is the number of layers between it and the
  innermost one that declares its name.
-/

namespace Lox

/-! ## Layers -/

/-- A block or the body of a function, seen from a statement that is directly in it. -/
structure Layer where
  /-- Those of the function; a block has none. -/
  parameters : List Token
  /-- What stands directly in the layer before the statement. -/
  before : List Stmt
  /-- The statement itself. If it declares a name, what stands in it is the initializer of the
  variable or the body of the function, and there the name is known. -/
  around : Stmt

/-- The names that the statements declare in the scope they stand in. -/
def Stmt.declaredNames (ss : List Stmt) : List String :=
  (ss.filterMap Stmt.declared?).map Token.lexeme

theorem Stmt.declaredNames_append (ss ss' : List Stmt) :
    Stmt.declaredNames (ss ++ ss') = Stmt.declaredNames ss ++ Stmt.declaredNames ss' := by
  rw [declaredNames, List.filterMap_append, List.map_append]
  rfl

/-- The names that are declared in the layer. What comes later in it does not count, nor what is
declared in a block or function of its own. -/
def Layer.names (l : Layer) : List String :=
  l.parameters.map Token.lexeme ++ Stmt.declaredNames (l.before ++ [l.around])

/-- The layer declares the name. -/
def Layer.declares (l : Layer) (name : String) : Bool := decide (name ∈ l.names)

/-- The statement `t` is a part of another one, or is this itself. The layers are those between
them, the innermost first. -/
inductive Stmt.Within (t : Stmt) : List Layer → Stmt → Prop where
  | here : Within t [] t
  | yes {layers : List Layer} {condition : Expr} {yes : Stmt} {no : Option Stmt}
      (inside : Within t layers yes) : Within t layers (.ifThen condition yes no)
  | no {layers : List Layer} {condition : Expr} {yes no : Stmt}
      (inside : Within t layers no) : Within t layers (.ifThen condition yes (some no))
  | loop {layers : List Layer} {condition : Expr} {body : Stmt}
      (inside : Within t layers body) : Within t layers (.whileDo condition body)
  | block {layers : List Layer} (before : List Stmt) (s : Stmt) (after : List Stmt)
      (inside : Within t layers s) :
      Within t (layers ++ [⟨[], before, s⟩]) (.block (before ++ s :: after))
  | function {layers : List Layer} {name : Token} {parameters : List Token}
      (before : List Stmt) (s : Stmt) (after : List Stmt) (inside : Within t layers s) :
      Within t (layers ++ [⟨parameters, before, s⟩])
        (.function name parameters (before ++ s :: after))

/-- The statement `t` stands in the program, inside these layers. At the top level there are none:
what is declared there is global. -/
def Program.Holds (program : Program) (t : Stmt) (layers : List Layer) : Prop :=
  ∃ before s after, program = before ++ s :: after ∧ t.Within layers s

/-- What is a part of a part is a part of the whole. -/
theorem Stmt.Within.trans {t s u : Stmt} {layers layers' : List Layer} (h : t.Within layers s)
    (h' : s.Within layers' u) : t.Within (layers ++ layers') u := by
  induction h' with
  | here => rwa [List.append_nil]
  | yes _ ih => exact .yes ih
  | no _ ih => exact .no ih
  | loop _ ih => exact .loop ih
  | block before s after _ ih =>
    rw [← List.append_assoc]
    exact .block before s after ih
  | function before s after _ ih =>
    rw [← List.append_assoc]
    exact .function before s after ih

/-- A part of a statement of a program stands in the program. -/
theorem Program.Holds.inside {program : Program} {t s : Stmt} {layers layers' : List Layer}
    (h : program.Holds s layers') (inside : t.Within layers s) :
    program.Holds t (layers ++ layers') := by
  obtain ⟨before, u, after, rfl, whole⟩ := h
  exact ⟨before, u, after, rfl, inside.trans whole⟩

/-- The mentions of variables in the expression that the statement itself has. -/
def Stmt.own : Stmt → List Reference
  | .expression value | .print _ value => value.references
  | .var _ (some value) | .ret _ (some value) => value.references
  | .ifThen condition _ _ | .whileDo condition _ => condition.references
  | .var _ none | .ret _ none | .block _ | .function _ _ _ => []

mutual

/-- Every mention is in some statement. -/
theorem Stmt.exists_within {r : Reference} : ∀ s : Stmt, r ∈ s.references →
    ∃ t layers, Stmt.Within t layers s ∧ r ∈ t.own
  | .expression value, h => ⟨_, _, .here, h⟩
  | .print keyword value, h => ⟨_, _, .here, h⟩
  | .var _ none, h => by cases h
  | .var name (some value), h => ⟨_, _, .here, h⟩
  | .ret _ none, h => by cases h
  | .ret keyword (some value), h => ⟨_, _, .here, h⟩
  | .block body, h => by
    obtain ⟨before, s, after, t, layers, rfl, inside, own⟩ := Stmt.exists_within_of_all body h
    exact ⟨t, _, .block before s after inside, own⟩
  | .function name parameters body, h => by
    obtain ⟨before, s, after, t, layers, rfl, inside, own⟩ := Stmt.exists_within_of_all body h
    exact ⟨t, _, .function before s after inside, own⟩
  | .ifThen condition yes none, h => by
    rcases List.mem_append.1 h with own | inYes
    · exact ⟨_, _, .here, own⟩
    · obtain ⟨t, layers, inside, own⟩ := Stmt.exists_within yes inYes
      exact ⟨t, layers, .yes inside, own⟩
  | .ifThen condition yes (some no), h => by
    rcases List.mem_append.1 h with h | inNo
    · rcases List.mem_append.1 h with own | inYes
      · exact ⟨_, _, .here, own⟩
      · obtain ⟨t, layers, inside, own⟩ := Stmt.exists_within yes inYes
        exact ⟨t, layers, .yes inside, own⟩
    · obtain ⟨t, layers, inside, own⟩ := Stmt.exists_within no inNo
      exact ⟨t, layers, .no inside, own⟩
  | .whileDo condition body, h => by
    rcases List.mem_append.1 h with own | inBody
    · exact ⟨_, _, .here, own⟩
    · obtain ⟨t, layers, inside, own⟩ := Stmt.exists_within body inBody
      exact ⟨t, layers, .loop inside, own⟩

theorem Stmt.exists_within_of_all {r : Reference} : ∀ ss : List Stmt, r ∈ Stmt.referencesAll ss →
    ∃ before s after t layers, ss = before ++ s :: after ∧ Stmt.Within t layers s ∧ r ∈ t.own
  | [], h => by cases h
  | s :: ss, h => by
    rcases List.mem_append.1 h with first | others
    · obtain ⟨t, layers, inside, own⟩ := Stmt.exists_within s first
      exact ⟨[], s, ss, t, layers, rfl, inside, own⟩
    · obtain ⟨before, s', after, t, layers, rfl, inside, own⟩ := Stmt.exists_within_of_all ss others
      exact ⟨s :: before, s', after, t, layers, rfl, inside, own⟩

end

/-! ## Layers and scopes -/

/-- The scope knows the names that the layer declares. -/
def Layer.Fits (scope : Scope) (l : Layer) : Prop :=
  ∀ name, (scope.lookup name).isSome = l.declares name

/-- A name is looked for in the scopes as in the layers. -/
theorem Layer.distance?_eq {scopes : Scopes} {layers : List Layer}
    (fit : List.Forall₂ Layer.Fits scopes layers) (name : String) :
    scopes.distance? name = layers.findIdx? fun l => l.declares name := by
  induction fit with
  | nil => rfl
  | cons own _ ih =>
    rw [Scopes.distance?_cons, List.findIdx?_cons, own name, ih]

/-- The scope knows just these names. -/
def Scope.Knows (scope : Scope) (names : List String) : Prop :=
  ∀ name, (scope.lookup name).isSome = decide (name ∈ names)

/-- Behind a statement, the name that it declares is known as well. -/
theorem Scopes.behind_cons {scope : Scope} {names : List String} (knows : scope.Knows names)
    (outer : Scopes) (s : Stmt) :
    ∃ scope' : Scope, Scopes.behind (scope :: outer) s = scope' :: outer ∧
      scope'.Knows (names ++ Stmt.declaredNames [s]) := by
  unfold Scopes.behind
  cases h : s.declared? with
  | none =>
    refine ⟨scope, rfl, fun name => ?_⟩
    simpa [Stmt.declaredNames, h] using knows name
  | some declared =>
    obtain ⟨scope', introduced, marks⟩ := Scopes.introduce_cons scope outer declared
    refine ⟨scope', introduced, fun name => ?_⟩
    rw [marks.isSome, knows name]
    simp [Stmt.declaredNames, h, Bool.or_comm]

variable {before after : List Stmt} {s : Stmt} {p : Place}

/-- Where a statement stands in a layer, and what is known there. -/
theorem Place.exists_in_layer {scope : Scope} {outer : Scopes} {names : List String}
    (inner : p.scopes = scope :: outer) (knows : scope.Knows names)
    (tidy : Stmt.TidyAll p.scopes (before ++ s :: after)) :
    ∃ q : Place, s.Tidy q.scopes ∧ s.mentions q ⊆ Stmt.mentionsAll p (before ++ s :: after) ∧
      ∃ scope' : Scope, q.scopes.behind s = scope' :: outer ∧
        scope'.Knows (names ++ Stmt.declaredNames (before ++ [s])) := by
  induction before generalizing p scope names with
  | nil =>
    obtain ⟨scope', behind, knows'⟩ := Scopes.behind_cons knows outer s
    exact ⟨p, tidy.1, List.subset_append_left _ _, scope', inner ▸ behind, knows'⟩
  | cons first before ih =>
    obtain ⟨scope₁, behind, knows₁⟩ := Scopes.behind_cons knows outer first
    have inner' : (p.behind first).scopes = scope₁ :: outer := by rw [Place.behind, inner, behind]
    obtain ⟨q, tidy', mentions, scope', behind', knows'⟩ := ih inner' knows₁ tidy.2
    refine ⟨q, tidy', List.Subset.trans mentions (List.subset_append_right _ _), scope', behind',
      ?_⟩
    rwa [List.append_assoc, ← Stmt.declaredNames_append] at knows'

/-- Where a statement stands at the top level. -/
theorem Place.exists_at_top (outside : p.scopes = [])
    (tidy : Stmt.TidyAll p.scopes (before ++ s :: after)) :
    ∃ q : Place, q.scopes = [] ∧ s.Tidy q.scopes ∧
      s.mentions q ⊆ Stmt.mentionsAll p (before ++ s :: after) := by
  induction before generalizing p with
  | nil => exact ⟨p, outside, tidy.1, List.subset_append_left _ _⟩
  | cons first before ih =>
    have behind : (p.behind first).scopes = [] := by
      rw [Place.behind, outside, Scopes.behind_nil]
    obtain ⟨q, top, tidy', mentions⟩ := ih behind tidy.2
    exact ⟨q, top, tidy', List.Subset.trans mentions (List.subset_append_right _ _)⟩

/-- A branch or the body of a loop knows what is known around it. -/
theorem Layer.fit_branch {outside : List Layer} (noDeclaration : s.declared? = none)
    (fit : List.Forall₂ Layer.Fits p.scopes outside) :
    List.Forall₂ Layer.Fits (p.scopes.behind s) outside := by
  rwa [Scopes.behind_of_none noDeclaration]

/-- Where a statement stands inside of another one, and what is known there. -/
theorem Stmt.Within.place {t : Stmt} {layers : List Layer} (h : t.Within layers s)
    {outside : List Layer} (tidy : s.Tidy p.scopes)
    (fit : List.Forall₂ Layer.Fits (p.scopes.behind s) outside) :
    ∃ q : Place, t.Tidy q.scopes ∧ t.mentions q ⊆ s.mentions p ∧
      List.Forall₂ Layer.Fits (q.scopes.behind t) (layers ++ outside) := by
  induction h generalizing p outside with
  | here => exact ⟨p, tidy, List.Subset.refl _, fit⟩
  | @yes _ condition yes no inside ih =>
    obtain ⟨noDeclaration, tidy'⟩ : yes.declared? = none ∧ yes.Tidy p.scopes := by
      cases no with
      | none => exact tidy
      | some no => exact tidy.1
    obtain ⟨q, tidy, mentions, fit⟩ := ih tidy' (Layer.fit_branch noDeclaration fit)
    refine ⟨q, tidy, fun μ hμ => ?_, fit⟩
    cases no <;> simp [Stmt.mentions, mentions hμ]
  | no inside ih =>
    obtain ⟨-, noDeclaration, tidy'⟩ := tidy
    obtain ⟨q, tidy, mentions, fit⟩ := ih tidy' (Layer.fit_branch noDeclaration fit)
    exact ⟨q, tidy, fun μ hμ => by simp [Stmt.mentions, mentions hμ], fit⟩
  | loop inside ih =>
    obtain ⟨noDeclaration, tidy'⟩ := tidy
    obtain ⟨q, tidy, mentions, fit⟩ := ih tidy' (Layer.fit_branch noDeclaration fit)
    exact ⟨q, tidy, fun μ hμ => by simp [Stmt.mentions, mentions hμ], fit⟩
  | block before s after inside ih =>
    have unknown : Scope.Knows [] [] := fun name => by simp
    obtain ⟨q, tidy, mentions, scope', behind, knows⟩ :=
      Place.exists_in_layer (p := p.inBlock (before ++ s :: after)) rfl unknown tidy
    have fit' : List.Forall₂ Layer.Fits (q.scopes.behind s) (⟨[], before, s⟩ :: outside) := by
      rw [behind]
      exact .cons (fun name => by simpa [Layer.declares, Layer.names] using knows name) fit
    obtain ⟨q', tidy', mentions', fit⟩ := ih tidy fit'
    exact ⟨q', tidy', List.Subset.trans mentions' mentions, by simpa using fit⟩
  | @function _ name parameters before s after inside ih =>
    obtain ⟨scope, opened, lookup⟩ :=
      @Scopes.introduceAll_cons [] (p.scopes.introduce name) parameters
    have known : Scope.Knows scope (parameters.map Token.lexeme) := fun other => by
      rw [lookup other]
      by_cases parameter : other ∈ parameters.map Token.lexeme <;> simp [parameter]
    obtain ⟨q, tidy, mentions, scope', behind, knows⟩ :=
      Place.exists_in_layer (p := p.inFunction name parameters (before ++ s :: after)) opened known
        tidy.2.2
    have fit' : List.Forall₂ Layer.Fits (q.scopes.behind s)
        (⟨parameters, before, s⟩ :: outside) := by
      rw [behind]
      exact .cons (fun name => by simpa [Layer.declares, Layer.names] using knows name) fit
    obtain ⟨q', tidy', mentions', fit⟩ := ih tidy fit'
    exact ⟨q', tidy', List.Subset.trans mentions' mentions, by simpa using fit⟩

/-- Where a statement stands in a program, and what is known there. -/
theorem Program.Holds.place {program : Program} {t : Stmt} {layers : List Layer}
    (h : program.Holds t layers) (tidy : Stmt.TidyAll [] program) :
    ∃ q : Place, t.Tidy q.scopes ∧ t.mentions q ⊆ programMentions program ∧
      List.Forall₂ Layer.Fits (q.scopes.behind t) layers := by
  obtain ⟨before, s, after, rfl, inside⟩ := h
  obtain ⟨p, outside, tidy, mentions⟩ := Place.exists_at_top (p := .top) rfl tidy
  have fit : List.Forall₂ Layer.Fits (p.scopes.behind s) [] := by
    rw [outside, Scopes.behind_nil]
    exact .nil
  obtain ⟨q, tidy, mentions', fit⟩ := inside.place tidy fit
  exact ⟨q, tidy, List.Subset.trans mentions' mentions, by simpa using fit⟩

/-! ## Distances -/

mutual

/-- Every reference in an expression is mentioned where the expression stands. -/
theorem Expr.mem_mentions (p : Place) {r : Reference} : ∀ e : Expr, r ∈ e.references →
    ⟨r.id, r.name, r.assigns, p⟩ ∈ e.mentions p
  | .literal _, h => by cases h
  | .grouping inner, h | .unary _ inner, h => Expr.mem_mentions p inner h
  | .binary left _ right, h | .logical left _ right, h => by
    rcases List.mem_append.1 h with inLeft | inRight
    · exact List.mem_append_left _ (Expr.mem_mentions p left inLeft)
    · exact List.mem_append_right _ (Expr.mem_mentions p right inRight)
  | .var id name, h => by
    rw [List.mem_singleton.1 h]
    exact List.mem_singleton_self _
  | .assign id target value, h => by
    rcases List.mem_cons.1 h with rfl | inValue
    · exact List.mem_append_right _ (List.mem_singleton_self _)
    · exact List.mem_append_left _ (Expr.mem_mentions p value inValue)
  | .call callee _ arguments, h => by
    rcases List.mem_append.1 h with inCallee | inArguments
    · exact List.mem_append_left _ (Expr.mem_mentions p callee inCallee)
    · exact List.mem_append_right _ (Expr.mem_mentionsAll p arguments inArguments)

theorem Expr.mem_mentionsAll (p : Place) {r : Reference} : ∀ es : List Expr,
    r ∈ Expr.referencesAll es → ⟨r.id, r.name, r.assigns, p⟩ ∈ Expr.mentionsAll p es
  | [], h => by cases h
  | e :: es, h => by
    rcases List.mem_append.1 h with first | others
    · exact List.mem_append_left _ (Expr.mem_mentions p e first)
    · exact List.mem_append_right _ (Expr.mem_mentionsAll p es others)

end

/-- That a value is ready does not change where its name is found. -/
theorem Scopes.distance?_define_declare (scopes : Scopes) (name other : String) :
    ((scopes.declare name).define name).distance? other =
      (scopes.declare name).distance? other := by
  cases scopes with
  | nil => rfl
  | cons scope outer =>
    obtain ⟨scope', declared, known⟩ := Scopes.declare_taken scope outer name
    obtain ⟨scope'', defined, marks⟩ := @Scopes.define_cons scope' outer name
    rw [declared, defined, marks.distance?, Scopes.distance?_cons]
    by_cases same : other = name
    · simp [same, known]
    · simp [same]

/-- The mentions that are a statement's own see what is known in its layers. -/
theorem Stmt.exists_mention (p : Place) (t : Stmt) {r : Reference} (own : r ∈ t.own) :
    ∃ μ ∈ t.mentions p, μ.id = r.id ∧
      μ.distance? = (p.scopes.behind t).distance? r.name.lexeme := by
  cases t with
  | expression value => exact ⟨_, value.mem_mentions p own, rfl, rfl⟩
  | print keyword value => exact ⟨_, value.mem_mentions p own, rfl, rfl⟩
  | var name initializer =>
    cases initializer with
    | none => cases own
    | some value =>
      refine ⟨_, value.mem_mentions (p.inInitializer name) own, rfl, ?_⟩
      exact (Scopes.distance?_define_declare p.scopes name.lexeme r.name.lexeme).symm
  | ret keyword value =>
    cases value with
    | none => cases own
    | some value => exact ⟨_, value.mem_mentions p own, rfl, rfl⟩
  | ifThen condition yes no =>
    have mention := condition.mem_mentions p own
    refine ⟨⟨r.id, r.name, r.assigns, p⟩, ?_, rfl, rfl⟩
    cases no <;> simp [Stmt.mentions, mention]
  | whileDo condition body =>
    exact ⟨_, List.mem_append_left _ (condition.mem_mentions p own), rfl, rfl⟩
  | block body => cases own
  | function name parameters body => cases own

/-- The distance of a mention in a program that has been checked is told from its layers. -/
theorem Program.Holds.distance {firstId nextId : RefId} {c : Checked} {t : Stmt}
    {layers : List Layer} {r : Reference} (holds : c.program.Holds t layers) (own : r ∈ t.own)
    (sound : c.Sound firstId nextId) :
    ((∅ : Std.HashMap RefId Nat).insertMany c.distances)[r.id]? =
      layers.findIdx? fun l => l.declares r.name.lexeme := by
  obtain ⟨q, -, mentions, fit⟩ := holds.place sound.tidy
  obtain ⟨μ, hμ, same, distance⟩ := Stmt.exists_mention q t own
  rw [← same, sound.learned (by simp) (mentions hμ), distance, Layer.distance?_eq fit]

/-- **Distances are told from positions.** The mentions in a program that resolution accepts have
identities of their own, and each stands in some statement, inside some layers. The distance that
resolution has for it is the number of layers between the mention and the innermost layer that
declares its name; there is none if no layer does. There are no other distances. -/
theorem resolve_positions {firstId nextId : RefId} {tokens : List Token} {program : Program}
    {distances : List (RefId × Nat)}
    (parsed : Program.ofTokens firstId tokens = (.ok program, nextId))
    (resolved : resolve program = .ok distances) :
    ((Stmt.referencesAll program).map Reference.id).Nodup ∧
      (∀ r ∈ Stmt.referencesAll program, ∃ t layers, program.Holds t layers ∧ r ∈ t.own) ∧
      (∀ t layers r, program.Holds t layers → r ∈ t.own →
        ((∅ : Std.HashMap RefId Nat).insertMany distances)[r.id]? =
          layers.findIdx? fun l => l.declares r.name.lexeme) ∧
      ∀ id distance, ((∅ : Std.HashMap RefId Nat).insertMany distances)[id]? = some distance →
        ∃ r ∈ Stmt.referencesAll program, r.id = id := by
  have sound : Checked.Sound firstId nextId ⟨program, distances⟩ :=
    Checked.sound_of_ofTokens parsed resolved
  refine ⟨(Program.distinct_of_ofTokens parsed).nodup, fun r mem => ?_,
    fun t layers r holds own => holds.distance own sound, fun id distance entry => ?_⟩
  · obtain ⟨before, s, after, t, layers, eq, inside, own⟩ :=
      Stmt.exists_within_of_all program mem
    exact ⟨t, layers, ⟨before, s, after, eq, inside⟩, own⟩
  · have mentioned : ∃ μ ∈ programMentions program, μ.id = id := by
      by_contra none
      have absent := sound.not_contains fun μ hμ same => absurd ⟨μ, hμ, same⟩ none
      rw [Std.HashMap.getElem?_insertMany_list_of_contains_eq_false absent] at entry
      simp at entry
    obtain ⟨μ, hμ, rfl⟩ := mentioned
    exact List.mem_map.1 ((Stmt.perm_referencesAll .top program).subset (List.mem_map_of_mem hμ))

/-- The tokens of `for(var i=true;i;i=false)print i;` -/
def onceTokens : List Token :=
  [⟨.keyword .for_, "for", 1, 0⟩, ⟨.symbol .leftParen, "(", 1, 3⟩, ⟨.keyword .var, "var", 1, 4⟩,
    ⟨.identifier, "i", 1, 8⟩, ⟨.symbol .equal, "=", 1, 9⟩, ⟨.keyword .true, "true", 1, 10⟩,
    ⟨.symbol .semicolon, ";", 1, 14⟩, ⟨.identifier, "i", 1, 15⟩, ⟨.symbol .semicolon, ";", 1, 16⟩,
    ⟨.identifier, "i", 1, 17⟩, ⟨.symbol .equal, "=", 1, 18⟩, ⟨.keyword .false, "false", 1, 19⟩,
    ⟨.symbol .rightParen, ")", 1, 24⟩, ⟨.keyword .print, "print", 1, 25⟩,
    ⟨.identifier, "i", 1, 31⟩, ⟨.symbol .semicolon, ";", 1, 32⟩]

/-- The body of the loop in `onceTokens`. -/
def onceBody : Stmt := .print ⟨.keyword .print, "print", 1, 25⟩ (.var 3 ⟨.identifier, "i", 1, 31⟩)

/-- The last clause of the loop in `onceTokens`. -/
def onceLast : Expr := .assign 2 ⟨.identifier, "i", 1, 17⟩ (.literal (.bool false))

/-- The loop in `onceTokens`. -/
def onceLoop : Stmt :=
  Grammar.desugarFor (some (.var ⟨.identifier, "i", 1, 8⟩ (some (.literal (.bool true)))))
    (some (.var 0 ⟨.identifier, "i", 1, 15⟩)) (some onceLast) onceBody

theorem ofTokens_once : Program.ofTokens 0 onceTokens = (.ok [onceLoop], 4) := by cbv

theorem resolve_once : resolve [onceLoop] = .ok [(0, 0), (3, 1), (2, 1)] := by cbv

/-- The last clause of a loop stands in a block with the body. The variable of the loop is declared
one scope further out. -/
theorem resolve_positions_once :
    Program.ofTokens 0 onceTokens = (.ok [onceLoop], 4) ∧
      resolve [onceLoop] = .ok [(0, 0), (3, 1), (2, 1)] ∧
      ((∅ : Std.HashMap RefId Nat).insertMany [(0, 0), (3, 1), (2, 1)])[2]? = some 1 := by
  refine ⟨ofTokens_once, resolve_once, ?_⟩
  have inside : Stmt.Within (.expression onceLast) _ onceLoop :=
    .block [_] _ [] (.loop (.block [onceBody] _ [] .here))
  exact (resolve_positions ofTokens_once resolve_once).2.2.1 _ _
    ⟨2, ⟨.identifier, "i", 1, 17⟩, true⟩ ⟨[], _, [], rfl, inside⟩ (List.mem_cons_self ..)

end Lox
