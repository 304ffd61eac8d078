import Lox.Scope.Resolution

/-!
# Names in scopes

What the declaration of a name does to the scopes it is made in.

* `Scopes.distance?_cons` — a name is looked for from the innermost scope outwards.
* `Scopes.declare_cons`, `Scopes.introduce_cons` — a declaration only changes its own name in the
  innermost scope.
* `Scopes.Gets` — what they have in common.
* `Scopes.introduceAll_cons` — the same for parameters.
-/

namespace Lox.Scopes

variable {scope : Scope} {outer : Scopes} {name : String}

theorem distance?_cons :
    distance? (scope :: outer) name =
      if (scope.lookup name).isSome then some 0 else (distance? outer name).map (· + 1) := by
  simp only [distance?, List.findIdx?_cons]

/-- A new block changes no meaning, but puts every local name one scope further out. -/
theorem distance?_open : distance? ([] :: outer) name = (distance? outer name).map (· + 1) := by
  simp [distance?_cons]

/-- A scope in which one name has got a state and all others are as before. -/
structure Marks (scope scope' : Scope) (name : String) (ready : Bool) : Prop where
  self : scope'.lookup name = some ready
  others : ∀ other, other ≠ name → scope'.lookup other = scope.lookup other

theorem Marks.cons (scope : Scope) (name : String) (ready : Bool) :
    Marks scope ((name, ready) :: scope) name ready where
  self := by simp
  others other h := by
    have differs : (other == name) = false := beq_eq_false_iff_ne.2 h
    rw [List.lookup_cons, differs]

theorem Marks.trans {scope scope' scope'' : Scope} {ready ready' : Bool}
    (h : Marks scope scope' name ready) (h' : Marks scope' scope'' name ready') :
    Marks scope scope'' name ready' where
  self := h'.self
  others other hne := (h'.others other hne).trans (h.others other hne)

theorem Marks.isSome {scope scope' : Scope} {ready : Bool} (h : Marks scope scope' name ready)
    (other : String) :
    (scope'.lookup other).isSome = (decide (other = name) || (scope.lookup other).isSome) := by
  by_cases hne : other = name
  · subst hne
    simp [h.self]
  · simp [h.others other hne, hne]

/-- The name is bound in the innermost scope, and all others where they were. -/
theorem Marks.distance? {scope scope' : Scope} {ready : Bool} (h : Marks scope scope' name ready)
    (other : String) : Scopes.distance? (scope' :: outer) other =
      if other = name then some 0 else Scopes.distance? (scope :: outer) other := by
  rw [distance?_cons, distance?_cons, h.isSome]
  by_cases same : other = name <;> simp [same]

/-- A name that is declared is not ready yet. -/
theorem declare_cons (fresh : taken (scope :: outer) name = false) :
    ∃ scope', declare (scope :: outer) name = scope' :: outer ∧ Marks scope scope' name false := by
  refine ⟨(name, false) :: scope, ?_, .cons scope name false⟩
  have untaken : (scope.lookup name).isSome = false := fresh
  simp only [declare, untaken]
  rfl

/-- A declared name is in the innermost scope, whether it was there or not. -/
theorem declare_taken (scope : Scope) (outer : Scopes) (name : String) :
    ∃ scope', declare (scope :: outer) name = scope' :: outer ∧ (scope'.lookup name).isSome = true := by
  simp only [declare]
  split
  · rename_i taken
    exact ⟨scope, rfl, taken⟩
  · exact ⟨_, rfl, by simp⟩

/-- The declared name becomes ready. -/
theorem define_cons : ∃ scope', define (scope :: outer) name = scope' :: outer ∧
    Marks scope scope' name true :=
  ⟨(name, true) :: scope, rfl, .cons scope name true⟩

theorem introduce_cons (scope : Scope) (outer : Scopes) (name : Token) :
    ∃ scope', introduce (scope :: outer) name = scope' :: outer ∧
      Marks scope scope' name.lexeme true := by
  unfold introduce
  simp only [declare]
  split
  · exact ⟨_, rfl, .cons scope _ true⟩
  · exact ⟨_, rfl, (Marks.cons scope _ false).trans (.cons _ _ true)⟩

/-- The innermost scope gets a name with a state. At the top level there is none that could. -/
def Gets (scopes scopes' : Scopes) (name : String) (ready : Bool) : Prop :=
  match scopes with
  | [] => scopes' = []
  | scope :: outer => ∃ scope', scopes' = scope' :: outer ∧ Marks scope scope' name ready

theorem gets_declare {scopes : Scopes} (untaken : scopes.taken name = false) :
    Gets scopes (scopes.declare name) name false := by
  cases scopes with
  | nil => rfl
  | cons scope outer => exact declare_cons untaken

theorem gets_define (scopes : Scopes) (name : String) : Gets scopes (scopes.define name) name true := by
  cases scopes with
  | nil => rfl
  | cons scope outer => exact define_cons

theorem gets_introduce (scopes : Scopes) (name : Token) :
    Gets scopes (scopes.introduce name) name.lexeme true := by
  cases scopes with
  | nil => rfl
  | cons scope outer => exact introduce_cons scope outer name

theorem introduceAll_snd (scopes : Scopes) (names : List Token) :
    (scopes.introduceAll names).2 = names.foldl introduce scopes := by
  induction names generalizing scopes with
  | nil => rfl
  | cons name names ih => exact ih (scopes.introduce name)

/-- Parameters are ready, and nothing else in their scope changes. -/
theorem introduceAll_cons (names : List Token) :
    ∃ scope', (introduceAll (scope :: outer) names).2 = scope' :: outer ∧
      ∀ other, scope'.lookup other =
        if other ∈ names.map Token.lexeme then some true else scope.lookup other := by
  induction names generalizing scope with
  | nil => exact ⟨scope, rfl, fun other => by simp⟩
  | cons name names ih =>
    obtain ⟨scope₁, h₁, marks⟩ := introduce_cons scope outer name
    obtain ⟨scope₂, h₂, rest⟩ := @ih scope₁
    refine ⟨scope₂, ?_, fun other => ?_⟩
    · rw [introduceAll_snd] at h₂ ⊢
      rw [List.foldl_cons, h₁, h₂]
    · rw [rest other, List.map_cons]
      by_cases h : other ∈ names.map Token.lexeme
      · rw [if_pos h, if_pos (List.mem_cons_of_mem _ h)]
      · rw [if_neg h]
        by_cases hne : other = name.lexeme
        · subst hne
          simp [marks.self]
        · rw [if_neg (by simp [hne, h]), marks.others other hne]

/-- A declaration about which there is no error is the first one of its name. -/
theorem not_taken_of_declaring {scopes : Scopes} {name : Token}
    (h : ∀ f ∈ declaring scopes name, f.fault? = none) : taken scopes name.lexeme = false := by
  cases untaken : taken scopes name.lexeme with
  | false => rfl
  | true =>
    rw [declaring, if_pos untaken] at h
    cases h _ (List.mem_singleton_self _)

/-- Parameters about which there is no error have different names, of which none was there. -/
theorem nodup_of_introduceAll {names : List Token}
    (h : ∀ f ∈ (introduceAll (scope :: outer) names).1, f.fault? = none) :
    (names.map Token.lexeme).Nodup ∧ ∀ name ∈ names, scope.lookup name.lexeme = none := by
  induction names generalizing scope with
  | nil => exact ⟨List.nodup_nil, by simp⟩
  | cons name names ih =>
    obtain ⟨scope₁, h₁, marks⟩ := introduce_cons scope outer name
    have parts : (introduceAll (scope :: outer) (name :: names)).1 =
        declaring (scope :: outer) name ++ (introduceAll (scope₁ :: outer) names).1 := by
      rw [← h₁]
      rfl
    rw [parts, List.forall_mem_append] at h
    obtain ⟨unique, absent⟩ := ih h.2
    have fresh : scope.lookup name.lexeme = none := by
      have untaken : (scope.lookup name.lexeme).isSome = false := not_taken_of_declaring h.1
      exact Option.isSome_eq_false_iff.1 untaken |> Option.isNone_iff_eq_none.1
    refine ⟨List.nodup_cons.2 ⟨fun mem => ?_, unique⟩, ?_⟩
    · obtain ⟨other, hmem, same⟩ := List.mem_map.1 mem
      have := absent other hmem
      rw [same, marks.self] at this
      cases this
    · intro other hmem
      rcases List.mem_cons.1 hmem with rfl | hmem
      · exact fresh
      · by_cases hne : other.lexeme = name.lexeme
        · rw [hne]
          exact fresh
        · rw [← marks.others _ hne]
          exact absent other hmem

end Lox.Scopes
