import Mathlib.Logic.Equiv.Basic
import Lox.Proofs.Renaming.Renamed
import Lox.Proofs.Scope.Checked

/-!
# Names that fit

In a program under another name, what is declared in a scope and what is bound there still go by the
same name.

* `Renaming.opens` — the scope of a site has the renamed declaration.
* `Renaming.key` — under which name a scope has what had some name before.
* `Renaming.Knows` — a mention gets the name that its scope has.
* `Stmt.Fits` — so do the declarations in a statement.
* `Checked.Sound.knows`, `Checked.Sound.fits` — this is so for all mentions and declarations of a
  program without errors, if the other name is not in it.
-/

namespace Lox

namespace Renaming

/-- The scope that the site opens has the declaration that gets another name. -/
def opens (r : Renaming) (site : Site) : Bool := r.declaration.any fun d => site.declares d

/-- The innermost of these sites has the renamed declaration. -/
def here (r : Renaming) (sites : List Site) : Bool := sites.head?.any r.opens

/-- In a scope that has the renamed declaration, the old name and the other one change places. -/
def key (r : Renaming) (own : Bool) (name : String) : String :=
  match own, r.declaration with
  | true, some d => Equiv.swap d.lexeme r.name name
  | _, _ => name

/-- The scope in which the name of the mention is found has the renamed declaration. -/
def binds (r : Renaming) (μ : Mention) : Bool :=
  μ.distance?.any fun distance => μ.place.sites[distance]?.any r.opens

variable {r : Renaming} {d : Token} {own : Bool} {name : String}

@[simp] theorem key_false (r : Renaming) (name : String) : r.key false name = name := rfl

@[simp] theorem opens_off (site : Site) : off.opens site = false := rfl

@[simp] theorem key_off (own : Bool) (name : String) : off.key own name = name := by
  cases own <;> rfl

theorem key_injective (r : Renaming) (own : Bool) : Function.Injective (r.key own) := by
  unfold key
  cases own with
  | false => exact fun _ _ same => same
  | true =>
    cases r.declaration with
    | none => exact fun _ _ same => same
    | some d => exact (Equiv.swap d.lexeme r.name).injective

/-- No other names change. -/
theorem key_of_ne (hd : r.declaration = some d) (notOld : name ≠ d.lexeme) (notNew : name ≠ r.name) :
    r.key own name = name := by
  cases own with
  | false => rfl
  | true =>
    simp only [key, hd]
    exact Equiv.swap_apply_of_ne_of_ne notOld notNew

theorem key_old (hd : r.declaration = some d) : r.key true d.lexeme = r.name := by
  simp only [key, hd]
  exact Equiv.swap_apply_left _ _

theorem opens_of_declares (hd : r.declaration = some d) (site : Site) :
    r.opens site = site.declares d := by rw [opens, hd, Option.any_some]

/-- The mention gets the name that its scope has. -/
def Knows (r : Renaming) (μ : Mention) : Prop :=
  (r.mention μ.id μ.name).lexeme = r.key (r.binds μ) μ.name.lexeme

/-- A local variable gets the name that its scope has, also where its value is just being worked out. -/
def Targets (r : Renaming) (p : Place) : Prop :=
  ∀ t, p.initializing = some t → p.scopes ≠ [] →
    (r.declare t).lexeme = r.key (r.here p.sites) t.lexeme

theorem Knows.lexeme {μ : Mention} (h : r.Knows μ) :
    (r.mention μ.id μ.name).lexeme = r.key (r.binds μ) μ.name.lexeme := h

theorem knows_off (μ : Mention) : off.Knows μ := by simp [Knows]

end Renaming

mutual

/-- The declarations in a statement get the names that their scopes have. Those directly in it are in
a scope that has the renamed declaration or not. -/
def Stmt.Fits (r : Renaming) (own : Bool) : Stmt → Prop
  | .var name _ => (r.declare name).lexeme = r.key own name.lexeme
  | .block body => Stmt.FitsAll r (r.opens (.block body)) body
  | .ifThen _ yes none => yes.Fits r own
  | .ifThen _ yes (some no) => yes.Fits r own ∧ no.Fits r own
  | .whileDo _ body => body.Fits r own
  | .function name parameters body =>
    r.key own name.lexeme = name.lexeme ∧
      (∀ t ∈ parameters, (r.declare t).lexeme =
        r.key (r.opens (.function name parameters body)) t.lexeme) ∧
      Stmt.FitsAll r (r.opens (.function name parameters body)) body
  | .expression _ | .print _ _ | .ret _ _ => True

/-- The declarations in statements get the names that their scopes have. -/
def Stmt.FitsAll (r : Renaming) (own : Bool) : List Stmt → Prop
  | [] => True
  | s :: ss => s.Fits r own ∧ Stmt.FitsAll r own ss

end

mutual

theorem Stmt.fits_off (own : Bool) : ∀ s : Stmt, s.Fits .off own
  | .var _ _ => by simp [Stmt.Fits]
  | .expression _ | .print _ _ | .ret _ _ => trivial
  | .block body => Stmt.fitsAll_off _ body
  | .ifThen _ yes none => Stmt.fits_off own yes
  | .ifThen _ yes (some no) => ⟨Stmt.fits_off own yes, Stmt.fits_off own no⟩
  | .whileDo _ body => Stmt.fits_off own body
  | .function _ _ body => ⟨by simp, by simp, Stmt.fitsAll_off _ body⟩

theorem Stmt.fitsAll_off (own : Bool) : ∀ ss : List Stmt, Stmt.FitsAll .off own ss
  | [] => trivial
  | s :: ss => ⟨Stmt.fits_off own s, Stmt.fitsAll_off own ss⟩

end

/-! ## Declarations in one scope -/

namespace Scopes

variable {scopes : Scopes} {name : String}

/-- A name that is taken stays so. -/
theorem taken_behind (s : Stmt) (h : scopes.taken name = true) :
    (scopes.behind s).taken name = true := by
  unfold behind
  cases s.declared? with
  | none => exact h
  | some t =>
    cases scopes with
    | nil => cases h
    | cons scope outer =>
      obtain ⟨scope', introduced, marks⟩ := introduce_cons scope outer t
      show taken (introduce (scope :: outer) t) name = true
      rw [introduced, taken, marks.isSome, Bool.or_eq_true]
      exact .inr h

/-- Behind its declaration a name is taken. -/
theorem taken_behind_self {s : Stmt} {t : Token} (inside : scopes ≠ [])
    (h : s.declared? = some t) : (scopes.behind s).taken t.lexeme = true := by
  unfold behind
  rw [h]
  cases scopes with
  | nil => exact absurd rfl inside
  | cons scope outer =>
    obtain ⟨scope', introduced, marks⟩ := introduce_cons scope outer t
    show taken (introduce (scope :: outer) t) t.lexeme = true
    rw [introduced, taken, marks.self]
    rfl

theorem behind_ne_nil (s : Stmt) (inside : scopes ≠ []) : scopes.behind s ≠ [] := by
  unfold behind
  cases s.declared? with
  | none => exact inside
  | some t =>
    cases scopes with
    | nil => exact absurd rfl inside
    | cons scope outer =>
      obtain ⟨scope', introduced, -⟩ := introduce_cons scope outer t
      show introduce (scope :: outer) t ≠ []
      rw [introduced]
      exact List.cons_ne_nil _ _

end Scopes

namespace Stmt

variable {d t t' : Token} {s s' : Stmt} {ss : List Stmt} {scopes : Scopes}

theorem isVariable_iff : s.isVariable d = true ↔ ∃ initializer, s = .var d initializer := by
  cases s <;> simp [isVariable]

theorem declared?_of_isVariable (h : s.isVariable d = true) : s.declared? = some d := by
  obtain ⟨initializer, rfl⟩ := isVariable_iff.1 h
  rfl

theorem Tidy.untaken (tidy : s.Tidy scopes) (h : s.declared? = some t) :
    scopes.taken t.lexeme = false := by
  cases s with
  | var name initializer =>
    cases h
    exact tidy
  | function name parameters body =>
    cases h
    exact tidy.1
  | _ => cases h

/-- What is declared in a scope was not there before. -/
theorem TidyAll.untaken (tidy : TidyAll scopes ss) (mem : s ∈ ss) (h : s.declared? = some t) :
    scopes.taken t.lexeme = false := by
  induction ss generalizing scopes with
  | nil => cases mem
  | cons first ss ih =>
    rcases List.mem_cons.1 mem with rfl | mem
    · exact tidy.1.untaken h
    · exact Bool.eq_false_iff.2 (mt (Scopes.taken_behind first) (Bool.eq_false_iff.1 (ih tidy.2 mem)))

/-- Behind a declaration no other one has its name. -/
theorem TidyAll.lexeme_ne (inside : scopes ≠ []) (tidy : TidyAll (scopes.behind s) ss)
    (h : s.declared? = some t) (mem : s' ∈ ss) (h' : s'.declared? = some t') :
    t.lexeme ≠ t'.lexeme := by
  intro same
  have untaken := tidy.untaken mem h'
  rw [← same, Scopes.taken_behind_self inside h] at untaken
  cases untaken

/-- A declaration in a scope is known by its name. -/
theorem TidyAll.unique (inside : scopes ≠ []) (tidy : TidyAll scopes ss) (mem : s ∈ ss)
    (mem' : s' ∈ ss) (h : s.declared? = some t) (h' : s'.declared? = some t')
    (same : t.lexeme = t'.lexeme) : s = s' := by
  induction ss generalizing scopes with
  | nil => cases mem
  | cons first ss ih =>
    rcases List.mem_cons.1 mem with rfl | later
    · rcases List.mem_cons.1 mem' with rfl | later'
      · rfl
      · exact absurd same (tidy.2.lexeme_ne inside h later' h')
    · rcases List.mem_cons.1 mem' with rfl | later'
      · exact absurd same.symm (tidy.2.lexeme_ne inside h' later h)
      · exact ih (Scopes.behind_ne_nil first inside) tidy.2 later later'

/-- The statement stands in a scope that has the declaration if it is this itself, and no other one
in such a scope has its name. -/
structure Direct (d : Token) (own : Bool) (s : Stmt) : Prop where
  own_of : s.isVariable d = true → own = true
  only : own = true → ∀ t, s.declared? = some t → t.lexeme = d.lexeme → s.isVariable d = true

theorem Direct.of_none {own : Bool} (h : s.declared? = none) : Direct d own s where
  own_of isVariable := by
    rw [declared?_of_isVariable isVariable] at h
    cases h
  only _ t ht _ := by
    rw [h] at ht
    cases ht

/-- So it is for all statements in a scope, which may have had the declaration before. -/
theorem TidyAll.direct (before : Bool) (inside : scopes ≠ []) (tidy : TidyAll scopes ss)
    (taken : before = true → scopes.taken d.lexeme = true) (mem : s ∈ ss) :
    Direct d (before || ss.any (isVariable d)) s where
  own_of isVariable := Bool.or_eq_true_iff.2 (.inr (List.any_eq_true.2 ⟨s, mem, isVariable⟩))
  only own t h same := by
    rcases Bool.or_eq_true_iff.1 own with earlier | among
    · have untaken := tidy.untaken mem h
      rw [same, taken earlier] at untaken
      cases untaken
    · obtain ⟨s', mem', isVariable⟩ := List.any_eq_true.1 among
      rw [tidy.unique inside mem mem' h (declared?_of_isVariable isVariable) same]
      exact isVariable

end Stmt

/-! ## Declarations -/

namespace Renaming

variable {r : Renaming} {d t : Token} {own : Bool}

/-- A declaration gets the name that its scope has, if the renamed one is in no other scope and no
other one in its scope has its name. -/
theorem lexeme_declare (hd : r.declaration = some d) (fresh : t.lexeme ≠ r.name)
    (own_of : t = d → own = true) (only : own = true → t.lexeme = d.lexeme → t = d) :
    (r.declare t).lexeme = r.key own t.lexeme := by
  by_cases same : t = d
  · subst same
    rw [own_of rfl, key_old hd, declare, if_pos hd]
  · have kept : r.declare t = t := by
      rw [declare, hd, if_neg fun h => same (Option.some.inj h).symm]
    rw [kept]
    cases own with
    | false => rfl
    | true => exact (key_of_ne hd (fun h => same (only rfl h)) fresh).symm

end Renaming

section Function

variable {d name : Token} {parameters : List Token} {body : List Stmt} {known : Scopes}

/-- The scopes at the beginning of a function have the parameters. -/
theorem Scopes.taken_introduceAll (name : String) :
    (introduceAll ([] :: known) parameters).2.taken name = true ↔
      name ∈ parameters.map Token.lexeme := by
  obtain ⟨scope, introduced, lookup⟩ := @introduceAll_cons [] known parameters
  rw [introduced, taken, lookup]
  split <;> simp [*]

theorem Scopes.introduceAll_ne_nil : (introduceAll ([] :: known) parameters).2 ≠ [] := by
  obtain ⟨scope, introduced, -⟩ := @introduceAll_cons [] known parameters
  rw [introduced]
  exact List.cons_ne_nil _ _

variable (tidy : Stmt.TidyAll (Scopes.introduceAll ([] :: known) parameters).2 body)
include tidy

/-- Statements in the body of a function stand in the scope of its parameters. -/
theorem Stmt.TidyAll.direct_function {s : Stmt} (mem : s ∈ body) :
    s.Direct d (Site.declares d (.function name parameters body)) := by
  refine tidy.direct _ Scopes.introduceAll_ne_nil (fun parameter => ?_) mem
  exact (Scopes.taken_introduceAll _).2 (List.mem_map_of_mem (List.contains_iff_mem.1 parameter))

/-- No other parameter has the name of a declaration in the scope of a function. -/
theorem Stmt.TidyAll.parameter_eq {t : Token} (nodup : (parameters.map Token.lexeme).Nodup)
    (mem : t ∈ parameters) (declares : Site.declares d (.function name parameters body) = true)
    (same : t.lexeme = d.lexeme) : t = d := by
  rcases Bool.or_eq_true_iff.1 declares with parameter | inBody
  · exact List.inj_on_of_nodup_map nodup mem (List.contains_iff_mem.1 parameter) same
  · obtain ⟨s, hs, isVariable⟩ := List.any_eq_true.1 inBody
    have untaken := tidy.untaken hs (declared?_of_isVariable isVariable)
    rw [(Scopes.taken_introduceAll _).2 (same ▸ List.mem_map_of_mem mem)] at untaken
    cases untaken

end Function

section Fits

variable {r : Renaming} {d : Token}

mutual

/-- The declarations in a tidy statement get the names that their scopes have. -/
theorem Stmt.fits (hd : r.declaration = some d) : ∀ (s : Stmt) {scopes : Scopes} {own : Bool},
    s.Tidy scopes → r.name ∉ s.names → s.Direct d own → s.Fits r own
  | .expression _, _, _, _, _, _ | .print _ _, _, _, _, _, _ | .ret _ _, _, _, _, _, _ => trivial
  | .var name initializer, _, _, _, fresh, direct => by
    refine Renaming.lexeme_declare hd (Ne.symm (List.ne_of_not_mem_cons fresh))
      (fun same => direct.own_of ?_) fun own same => ?_
    · rw [same]
      exact Stmt.isVariable_iff.2 ⟨initializer, rfl⟩
    · obtain ⟨_, h⟩ := Stmt.isVariable_iff.1 (direct.only own name rfl same)
      cases h
      rfl
  | .block body, _, _, tidy, fresh, _ => by
    refine Stmt.fitsAll hd body tidy fresh fun s mem => ?_
    rw [Renaming.opens_of_declares hd]
    exact tidy.direct false (List.cons_ne_nil _ _) (fun no => by cases no) mem
  | .ifThen _ yes none, _, _, ⟨noDeclaration, tidy⟩, fresh, _ =>
    Stmt.fits hd yes tidy (fun mem => fresh (List.mem_append_right _ mem)) (.of_none noDeclaration)
  | .ifThen _ yes (some no), _, _, ⟨⟨noDeclaration, tidy⟩, noDeclaration', tidy'⟩, fresh, _ =>
    ⟨Stmt.fits hd yes tidy (fun mem => fresh (List.mem_append_left _ (List.mem_append_right _ mem)))
      (.of_none noDeclaration),
    Stmt.fits hd no tidy' (fun mem => fresh (List.mem_append_right _ mem)) (.of_none noDeclaration')⟩
  | .whileDo _ body, _, _, ⟨noDeclaration, tidy⟩, fresh, _ =>
    Stmt.fits hd body tidy (fun mem => fresh (List.mem_append_right _ mem)) (.of_none noDeclaration)
  | .function name parameters body, _, own, ⟨_, nodup, tidy⟩, fresh, direct => by
    have freshName : name.lexeme ≠ r.name := Ne.symm (List.ne_of_not_mem_cons fresh)
    have freshParameter : ∀ t ∈ parameters, t.lexeme ≠ r.name := fun t mem same =>
      fresh (List.mem_append_left _ (List.mem_cons_of_mem _ (same ▸ List.mem_map_of_mem mem)))
    rw [Stmt.Fits, Renaming.opens_of_declares hd]
    refine ⟨?_, fun t mem => ?_, ?_⟩
    · -- a function has not the name of a variable of its scope
      cases own with
      | false => rfl
      | true =>
        refine Renaming.key_of_ne hd (fun same => ?_) freshName
        cases direct.only rfl name rfl same
    · refine Renaming.lexeme_declare hd (freshParameter t mem) (fun same => ?_)
        (tidy.parameter_eq nodup mem)
      rw [← same, Site.declares, List.contains_iff_mem.2 mem, Bool.true_or]
    · exact Stmt.fitsAll hd body tidy (fun mem => fresh (List.mem_append_right _ mem))
        fun s mem => tidy.direct_function mem

theorem Stmt.fitsAll (hd : r.declaration = some d) : ∀ (ss : List Stmt) {scopes : Scopes}
    {own : Bool}, Stmt.TidyAll scopes ss → r.name ∉ Stmt.namesAll ss →
    (∀ s ∈ ss, s.Direct d own) → Stmt.FitsAll r own ss
  | [], _, _, _, _, _ => trivial
  | s :: ss, _, _, ⟨tidy, tidyAll⟩, fresh, direct =>
    ⟨Stmt.fits hd s tidy (fun mem => fresh (List.mem_append_left _ mem))
      (direct s List.mem_cons_self),
      Stmt.fitsAll hd ss tidyAll (fun mem => fresh (List.mem_append_right _ mem))
        fun s' mem => direct s' (List.mem_cons_of_mem _ mem)⟩

end

/-- Outside of blocks and functions there is no scope, so that the variables declared there are
global. -/
theorem Stmt.fits_outside (hd : r.declaration = some d) {ss : List Stmt} {s : Stmt}
    (tidy : Stmt.TidyAll [] ss) (fresh : r.name ∉ Stmt.namesAll ss) (mem : s ∈ ss)
    (notGlobal : ∀ name initializer, s ≠ .var name initializer) : s.Fits r false := by
  induction ss with
  | nil => cases mem
  | cons first ss ih =>
    obtain ⟨notFirst, notOthers⟩ := not_or.1 (mt List.mem_append.2 fresh)
    rcases List.mem_cons.1 mem with rfl | mem
    · refine Stmt.fits hd s tidy.1 notFirst ⟨fun isVariable => ?_, fun no => by cases no⟩
      obtain ⟨initializer, h⟩ := Stmt.isVariable_iff.1 isVariable
      exact absurd h (notGlobal d initializer)
    · have tidy := tidy.2
      rw [Scopes.behind_nil] at tidy
      exact ih tidy notOthers mem

end Fits

/-! ## Mentions -/

mutual

/-- The names of mentions are among those of an expression. -/
theorem Expr.lexeme_mem_names (p : Place) {μ : Mention} : ∀ e : Expr, μ ∈ e.mentions p →
    μ.name.lexeme ∈ e.names
  | .literal _, h => by cases h
  | .grouping inner, h | .unary _ inner, h => Expr.lexeme_mem_names p inner h
  | .binary left _ right, h | .logical left _ right, h => by
    refine List.mem_append.2 ((List.mem_append.1 h).imp ?_ ?_)
    · exact Expr.lexeme_mem_names p left
    · exact Expr.lexeme_mem_names p right
  | .var id name, h => by
    rw [List.mem_singleton.1 h]
    exact List.mem_singleton_self _
  | .assign id target value, h => by
    rcases List.mem_append.1 h with inValue | own
    · exact List.mem_cons_of_mem _ (Expr.lexeme_mem_names p value inValue)
    · rw [List.mem_singleton.1 own]
      exact List.mem_cons_self
  | .call callee _ arguments, h => by
    refine List.mem_append.2 ((List.mem_append.1 h).imp ?_ ?_)
    · exact Expr.lexeme_mem_names p callee
    · exact Expr.lexeme_mem_namesAll p arguments

theorem Expr.lexeme_mem_namesAll (p : Place) {μ : Mention} : ∀ es : List Expr,
    μ ∈ Expr.mentionsAll p es → μ.name.lexeme ∈ Expr.namesAll es
  | [], h => by cases h
  | e :: es, h => by
    refine List.mem_append.2 ((List.mem_append.1 h).imp ?_ ?_)
    · exact Expr.lexeme_mem_names p e
    · exact Expr.lexeme_mem_namesAll p es

end

theorem Expr.lexeme_mem_names? (p : Place) {μ : Mention} (o : Option Expr)
    (h : μ ∈ Expr.mentions? p o) : μ.name.lexeme ∈ Expr.names? o := by
  cases o with
  | none => cases h
  | some e => exact e.lexeme_mem_names p h

mutual

/-- The names of mentions are among those of a statement. -/
theorem Stmt.lexeme_mem_names {μ : Mention} : ∀ (s : Stmt) (p : Place), μ ∈ s.mentions p →
    μ.name.lexeme ∈ s.names
  | .expression value, p, h | .print _ value, p, h => value.lexeme_mem_names p h
  | .var name initializer, p, h =>
    List.mem_cons_of_mem _ (Expr.lexeme_mem_names? _ initializer h)
  | .ret _ value, p, h => Expr.lexeme_mem_names? p value h
  | .block body, p, h => Stmt.lexeme_mem_namesAll body _ h
  | .ifThen condition yes none, p, h => by
    refine List.mem_append.2 ((List.mem_append.1 h).imp ?_ ?_)
    · exact condition.lexeme_mem_names p
    · exact Stmt.lexeme_mem_names yes p
  | .ifThen condition yes (some no), p, h => by
    refine List.mem_append.2 ((List.mem_append.1 h).imp (fun h => ?_) ?_)
    · refine List.mem_append.2 ((List.mem_append.1 h).imp ?_ ?_)
      · exact condition.lexeme_mem_names p
      · exact Stmt.lexeme_mem_names yes p
    · exact Stmt.lexeme_mem_names no p
  | .whileDo condition body, p, h => by
    refine List.mem_append.2 ((List.mem_append.1 h).imp ?_ ?_)
    · exact condition.lexeme_mem_names p
    · exact Stmt.lexeme_mem_names body p
  | .function name parameters body, p, h =>
    List.mem_append_right _ (Stmt.lexeme_mem_namesAll body _ h)

theorem Stmt.lexeme_mem_namesAll {μ : Mention} : ∀ (ss : List Stmt) (p : Place),
    μ ∈ Stmt.mentionsAll p ss → μ.name.lexeme ∈ Stmt.namesAll ss
  | [], _, h => by cases h
  | s :: ss, p, h => by
    refine List.mem_append.2 ((List.mem_append.1 h).imp ?_ ?_)
    · exact Stmt.lexeme_mem_names s p
    · exact Stmt.lexeme_mem_namesAll ss _

end

/-! ## Programs -/

/-- A mention that is bound to the declaration has its name, and is bound in its scope. -/
theorem Mention.isBoundTo_iff {r : Renaming} {d : Token} (hd : r.declaration = some d)
    (μ : Mention) :
    μ.isBoundTo d = true ↔ μ.name.lexeme = d.lexeme ∧ r.binds μ = true := by
  have same : r.opens = Site.declares d := funext (Renaming.opens_of_declares hd)
  rw [isBoundTo, Renaming.binds, same, Bool.and_eq_true, beq_iff_eq]

namespace Checked.Sound

variable {firstId nextId : RefId} {c : Checked} {d : Token} {name : String}

/-- Whether a mention is among chosen ones can be told by its identity. -/
theorem contains_iff (h : c.Sound firstId nextId) {μ : Mention} (hμ : μ ∈ programMentions c.program)
    (chosen : Mention → Bool) :
    (((programMentions c.program).filter chosen).map Mention.id).contains μ.id = true ↔
      chosen μ = true := by
  rw [List.contains_iff_mem, List.mem_map]
  constructor
  · rintro ⟨μ', mem, same⟩
    obtain ⟨hμ', holds⟩ := List.mem_filter.1 mem
    rwa [h.eq_of_id hμ hμ' same.symm]
  · exact fun holds => ⟨μ, List.mem_filter.2 ⟨hμ, holds⟩, rfl⟩

/-- Of the mentions of a program, those get another name that are bound to the declaration. -/
theorem renames_iff (h : c.Sound firstId nextId) {μ : Mention}
    (hμ : μ ∈ programMentions c.program) :
    (Renaming.of c.program d name).mentions.contains μ.id = true ↔ μ.isBoundTo d = true :=
  h.contains_iff hμ _

/-- Of the renamed mentions, those are premature that assign the variable in its initializer. -/
theorem premature_iff (h : c.Sound firstId nextId) {μ : Mention}
    (hμ : μ ∈ programMentions c.program) :
    (Renaming.of c.program d name).premature.contains μ.id = true ↔
      (Renaming.of c.program d name).mentions.contains μ.id = true ∧ μ.assigns = true ∧
        μ.place.initializing = some d := by
  rw [h.renames_iff hμ]
  refine (h.contains_iff hμ _).trans ?_
  rw [Mention.isPremature, Bool.and_eq_true, Bool.and_eq_true, beq_iff_eq]
  exact and_assoc.trans (and_left_comm)

/-- A mention gets the name that its scope has. -/
theorem knows (h : c.Sound firstId nextId) (fresh : name ∉ Stmt.namesAll c.program) {μ : Mention}
    (hμ : μ ∈ programMentions c.program) : (Renaming.of c.program d name).Knows μ := by
  have hd : (Renaming.of c.program d name).declaration = some d := rfl
  have other : μ.name.lexeme ≠ name := fun same =>
    fresh (same ▸ Stmt.lexeme_mem_namesAll c.program .top hμ)
  unfold Renaming.Knows Renaming.mention
  split
  · rename_i renamed
    obtain ⟨same, binds⟩ := (Mention.isBoundTo_iff hd μ).1 ((h.renames_iff hμ).1 renamed)
    rw [same, binds, Renaming.key_old hd]
  · rename_i kept
    rw [h.renames_iff hμ, Mention.isBoundTo_iff hd] at kept
    cases binds : (Renaming.of c.program d name).binds μ with
    | false => rfl
    | true => exact (Renaming.key_of_ne hd (fun same => kept ⟨same, binds⟩) other).symm

/-- The declarations in the blocks and functions of a program get the names that their scopes have. -/
theorem fits (h : c.Sound firstId nextId) (fresh : name ∉ Stmt.namesAll c.program) :
    ∀ s ∈ c.program, (∀ global initializer, s ≠ .var global initializer) →
      s.Fits (.of c.program d name) false :=
  fun _ mem => Stmt.fits_outside rfl h.tidy fresh mem

end Checked.Sound

end Lox
