import Lox.Proofs.Grammar.Derivation
import Lox.Proofs.Grammar.Steps

/-!
# Soundness of reading

What the rules read is derived from the grammar. A rule that ends with a tree, and notes no error,
has taken tokens that derive this tree, and the levels of nesting that were left suffice.

* `Sound x D` — what `x` reads without any error is in the relation `D` to the tokens taken.
* `expressionsSound`, `statementsSound` — all rules at once, by induction on their steps.
* `isDeclarations_of_ok` — a whole program is derived from all tokens.
-/

namespace Lox.Grammar

/-! ## Trees that are a name -/

section Names

variable {width : Nat} {id : RefId} {name : Token}

theorem IsOperands.of_var {k n : Nat} {left e : Expr} {us : List Token} (he : e = .var id name) :
    IsOperands width k n left us e → left = e ∧ us = []
  | .done => ⟨rfl, rfl⟩
  | .more joins _ others => by
    obtain ⟨rfl, -⟩ := IsOperands.of_var he others
    subst he
    cases joins

theorem IsCalls.of_var {n : Nat} {callee e : Expr} {us : List Token} (he : e = .var id name) :
    IsCalls width n callee us e → callee = e ∧ us = []
  | .done => ⟨rfl, rfl⟩
  | .call _ _ _ _ others => by
    obtain ⟨h, -⟩ := IsCalls.of_var he others
    rw [he] at h
    cases h

/-- Only an identifier on its own derives a name. -/
theorem IsLevel.of_var {k n : Nat} {ts : List Token} {e : Expr} (he : e = .var id name) :
    IsLevel width k n ts e → ts = [name] ∧ name.kind = .identifier
  | .infixes head others => by
    obtain ⟨rfl, rfl⟩ := others.of_var he
    obtain ⟨rfl, h⟩ := IsLevel.of_var he head
    exact ⟨rfl, h⟩
  | .unary inner => by
    subst he
    cases inner with
    | call head others =>
      obtain ⟨rfl, rfl⟩ := others.of_var rfl
      cases head with
      | name kind => exact ⟨rfl, kind⟩

end Names

/-! ## Taking tokens -/

/-- From `r` to `r'` the tokens `ts` were taken, and the nesting is the same. -/
structure Reader.Took (r r' : Reader) (ts : List Token) : Prop where
  rest : r.rest = ts ++ r'.rest
  depth : r'.depth = r.depth
  limit : r'.limit = r.limit

namespace Reader.Took

variable {r r' r'' : Reader} {ts us : List Token}

theorem refl (r : Reader) : r.Took r [] := ⟨rfl, rfl, rfl⟩

theorem trans (h : r.Took r' ts) (h' : r'.Took r'' us) : r.Took r'' (ts ++ us) :=
  ⟨by rw [h.rest, h'.rest, List.append_assoc], h'.depth.trans h.depth, h'.limit.trans h.limit⟩

theorem room_eq (h : r.Took r' ts) : r'.limit - r'.depth = r.limit - r.depth := by
  rw [h.depth, h.limit]

theorem skip {kind : Kind} (h : r.sees kind) : r.Took r.skip [r.next] :=
  ⟨(cons_of_sees h).2, rfl, rfl⟩

/-- What is taken one level deeper is taken. -/
theorem of_deeper (h : (r.atDepth (r.depth + 1)).Took r' ts) :
    r.Took (r'.atDepth (r'.depth - 1)) ts :=
  ⟨h.rest, by simp [h.depth], h.limit⟩

end Reader.Took

variable {α β : Type}

/-- If no error was noted up to `r'`, then none was up to `r`, and the tokens taken from there on
are in the relation `D` to `a`, given the levels of nesting that are left. -/
def Reads (D : Nat → List Token → α → Prop) (r : Reader) (a : α) (r' : Reader) : Prop :=
  r'.errors = #[] → r.errors = #[] ∧ ∃ ts, r.Took r' ts ∧ D (r.limit - r.depth) ts a

/-- What the computation reads is in the relation `D` to the tokens it takes. -/
def Sound (x : Parse α) (D : Nat → List Token → α → Prop) : Prop :=
  ∀ r, Ends x r (Reads D r) (fun _ _ => True)

namespace Sound

variable {x : Parse α} {D D' : Nat → List Token → α → Prop}

theorem mono (h : Sound x D) (hD : ∀ n ts a, D n ts a → D' n ts a) : Sound x D' := by
  intro r
  refine (h r).mono (fun a r' ha clean => ?_) fun _ _ _ => trivial
  obtain ⟨clean', ts, took, d⟩ := ha clean
  exact ⟨clean', ts, took, hD _ _ _ d⟩

/-- The parts of a sequence take tokens one after the other. -/
theorem bind {f : α → Parse β} {E : α → Nat → List Token → β → Prop} (hx : Sound x D)
    (hf : ∀ a, Sound (f a) (E a)) :
    Sound (x >>= f) fun n ts b => ∃ us vs a, ts = us ++ vs ∧ D n us a ∧ E a n vs b := by
  intro r
  rw [Ends.bind_iff]
  refine (hx r).mono (fun a r₁ h₁ => (hf a r₁).mono (fun b r₂ h₂ clean => ?_) fun _ _ h => h)
    fun _ _ h => h
  obtain ⟨clean₁, vs, took₂, e⟩ := h₂ clean
  obtain ⟨clean₀, us, took₁, d⟩ := h₁ clean₁
  rw [took₁.room_eq] at e
  exact ⟨clean₀, us ++ vs, took₁.trans took₂, us, vs, a, rfl, d, e⟩

theorem pure (a : α) : Sound (pure a : Parse α) fun _ ts b => ts = [] ∧ b = a :=
  fun r clean => ⟨clean, [], .refl r, rfl, rfl⟩

theorem sees (kind : Kind) : Sound (sees kind) fun _ ts _ => ts = [] :=
  fun r clean => ⟨clean, [], .refl r, rfl⟩

theorem map {f : α → β} (h : Sound x D) :
    Sound (f <$> x) fun n ts b => ∃ a, b = f a ∧ D n ts a := by
  intro r
  rw [Ends.map_iff]
  refine (h r).mono (fun a r' ha clean => ?_) fun _ _ h => h
  obtain ⟨clean', ts, took, d⟩ := ha clean
  exact ⟨clean', ts, took, a, rfl, d⟩

theorem ite {c : Prop} [Decidable c] {y : Parse α} (hx : Sound x D) (hy : Sound y D) :
    Sound (if c then x else y) D := by
  split
  · exact hx
  · exact hy

theorem exhausted : Sound (exhausted : Parse α) D := fun _ => trivial

theorem fail (cause : ParseError.Cause) : Sound (fail cause : Parse α) D := fun _ => trivial

/-- Once an error is noted there is no way on without errors. -/
theorem noteHere_bind {cause : ParseError.Cause} {f : Unit → Parse α} (hf : Advances (f ())) :
    Sound (noteHere cause >>= f) D := by
  intro r
  rw [Ends.bind_iff, ends_noteHere]
  exact (hf _).mono (fun _ _ later clean => absurd (later.errors_eq_empty clean) (by simp))
    fun _ _ _ => trivial

theorem expect (kind : Kind) (cause : ParseError.Cause) :
    Sound (expect kind cause) fun _ ts t => ts = [t] ∧ t.kind = kind := by
  intro r
  rw [ends_expect]
  split
  · rename_i seen
    exact fun clean => ⟨clean, _, .skip seen, rfl, (Reader.cons_of_sees seen).1⟩
  · trivial

theorem nested (h : Sound x D) :
    Sound (nested x) fun n ts a => ∃ m, n = m + 1 ∧ D m ts a := by
  intro r
  rw [ends_nested]
  split
  · trivial
  · refine (h _).mono (fun a r' ha clean => ?_) fun _ _ h => h
    obtain ⟨clean', ts, took, d⟩ := ha clean
    exact ⟨clean', ts, took.of_deeper, r.limit - (r.depth + 1), by omega, d⟩

/-- The part that is read behind a token of this kind, or else the one instead of it. -/
theorem accept_bind {kind : Kind} {y : Parse α} {E : Nat → List Token → α → Prop}
    (yes : Sound x E) (no : Sound y D) :
    Sound (accept kind >>= fun b => if b then x else y) fun n ts a =>
      (∃ t us, ts = t :: us ∧ t.kind = kind ∧ E n us a) ∨ D n ts a := by
  intro r
  rw [Ends.bind_iff, ends_accept]
  split
  · rename_i seen
    have hk := (Reader.cons_of_sees seen).1
    refine (yes r.skip).mono (fun a r' ha clean => ?_) fun _ _ h => h
    obtain ⟨clean', us, took, e⟩ := ha clean
    exact ⟨clean', _, (Reader.Took.skip seen).trans took, .inl ⟨r.next, us, rfl, hk, e⟩⟩
  · refine (no r).mono (fun a r' ha clean => ?_) fun _ _ h => h
    obtain ⟨clean', ts, took, d⟩ := ha clean
    exact ⟨clean', ts, took, .inr d⟩

/-- A part that may be missing, and is if a token of this kind comes next. -/
theorem unless_bind {kind : Kind} {none : α} {f : α → Parse β}
    {E : α → Nat → List Token → β → Prop} (hx : Sound x D) (hnone : ∀ n, D n [] none)
    (hf : ∀ a, Sound (f a) (E a)) :
    Sound (Grammar.sees kind >>= fun b => if b then Pure.pure none >>= f else x >>= f)
      fun n ts b => ∃ us vs a, ts = us ++ vs ∧ D n us a ∧ E a n vs b := by
  have missing : Sound (Pure.pure none : Parse α) D := (pure none).mono fun n ts a h => by
    rw [h.1, h.2]
    exact hnone n
  refine ((sees kind).bind fun _ => .ite (missing.bind hf) (hx.bind hf)).mono ?_
  rintro n _ b ⟨_, us, _, rfl, rfl, h⟩
  exact h

/-- The part that begins with the next token, which is of this kind. -/
theorem advance_bind {kind : Kind} {f : Token → Parse α} {E : Token → Nat → List Token → α → Prop}
    {r : Reader} (seen : r.sees kind) (hf : ∀ t, t.kind = kind → Sound (f t) (E t))
    (hD : ∀ n t us a, t.kind = kind → E t n us a → D n (t :: us) a) :
    Ends (advance >>= f) r (Reads D r) (fun _ _ => True) := by
  have hk := (Reader.cons_of_sees seen).1
  rw [Ends.bind_iff, ends_advance]
  refine (hf r.next hk r.skip).mono (fun a r' ha clean => ?_) fun _ _ h => h
  obtain ⟨clean', us, took, e⟩ := ha clean
  exact ⟨clean', _, (Reader.Took.skip seen).trans took, hD _ _ _ _ hk e⟩

/-- Like `accept_bind`, for a part that uses the token. -/
theorem sees_bind {kind : Kind} {f : Token → Parse α} {y : Parse α}
    {E : Token → Nat → List Token → α → Prop} (yes : ∀ t, t.kind = kind → Sound (f t) (E t))
    (no : Sound y D) :
    Sound (Grammar.sees kind >>= fun b => if b then advance >>= f else y) fun n ts a =>
      (∃ t us, ts = t :: us ∧ t.kind = kind ∧ E t n us a) ∨ D n ts a := by
  intro r
  rw [Ends.bind_iff, ends_sees]
  split
  · rename_i seen
    exact advance_bind seen yes fun _ t us _ hk e => .inl ⟨t, us, rfl, hk, e⟩
  · refine (no r).mono (fun a r' ha clean => ?_) fun _ _ h => h
    obtain ⟨clean', ts, took, d⟩ := ha clean
    exact ⟨clean', ts, took, .inr d⟩

/-- Coming back to the depth from which the first part started is coming back to the one from which
the second did, as the first part keeps it. -/
theorem levelled_bind {f : α → Parse β} {E : α → Nat → List Token → β → Prop} (hx : Sound x D)
    (hf : ∀ a, Sound (levelled (f a)) (E a)) :
    Sound (levelled (x >>= f)) fun n ts b =>
      ∃ us vs a, ts = us ++ vs ∧ D n us a ∧ E a n vs b := by
  intro r
  rw [ends_levelled, Ends.bind_iff]
  refine (hx r).mono (fun a r₁ h₁ => ?_) fun _ _ h => h
  have hfa := hf a r₁
  rw [ends_levelled] at hfa
  refine hfa.mono (fun b r₂ h₂ clean => ?_) fun _ _ h => h
  obtain ⟨clean₁, vs, took₂, e⟩ := h₂ clean
  obtain ⟨clean₀, us, took₁, d⟩ := h₁ clean₁
  rw [took₁.room_eq] at e
  rw [took₁.depth] at took₂
  exact ⟨clean₀, us ++ vs, took₁.trans took₂, us, vs, a, rfl, d, e⟩

end Sound

/-! ## Expressions -/

theorem levels_drop {k : Nat} {level : Level} {tighter : List Level}
    (h : levels.drop k = level :: tighter) :
    levels[k]? = some level ∧ tighter = levels.drop (k + 1) := by
  have hk : k < levels.length := by
    rcases Nat.lt_or_ge k levels.length with hk | hk
    · exact hk
    · rw [List.drop_eq_nil_of_le hk] at h
      cases h
  rw [List.drop_eq_getElem_cons hk] at h
  cases h
  exact ⟨List.getElem?_eq_getElem hk, rfl⟩

theorem sound_assignTo (target : Expr) (equals : Token) (value : Expr) :
    Sound (assignTo target equals value) fun _ ts e =>
      ts = [] ∧ ∃ id id' name, target = .var id name ∧ e = .assign id' name value := by
  intro r
  unfold assignTo
  split
  · exact fun clean => ⟨clean, [], ⟨rfl, rfl, rfl⟩, rfl, _, _, _, rfl, rfl⟩
  · exact fun clean => absurd clean (by simp)

/-- Every rule for expressions is sound, with so many steps. -/
structure ExpressionsSound (n : Nat) : Prop where
  assignment : Sound (assignment n) (IsAssignment maxArguments)
  leftAssociative : ∀ k ≤ 6, Sound (leftAssociative n (levels.drop k)) (IsLevel maxArguments k)
  operands : ∀ k level left, levels[k]? = some level →
    Sound (levelled (operands n level (levels.drop (k + 1)) left))
      fun m ts e => IsOperands maxArguments k m left ts e
  unary : Sound (unary n) (IsUnary maxArguments)
  calls : ∀ callee, Sound (calls n callee) fun m ts e => IsCalls maxArguments m callee ts e
  arguments : ∀ count, Sound (arguments n count) fun m ts es =>
    IsSeveral maxArguments m ts es ∧ count + es.length ≤ maxArguments
  primary : Sound (primary n) (IsPrimary maxArguments)

section

variable {n : Nat}

theorem sound_assignment (ih : ExpressionsSound n) :
    Sound (assignment (n + 1)) (IsAssignment maxArguments) := by
  rw [assignment]
  refine ((ih.leftAssociative 0 (Nat.zero_le _)).bind fun target =>
    .sees_bind (fun equals _ => ih.assignment.nested.bind fun value =>
      sound_assignTo target equals value) (.pure target)).mono ?_
  rintro m _ e ⟨us, vs, target, rfl, left, ⟨equals, _, rfl, kind, ws, _, value, rfl,
    ⟨k, rfl, inner⟩, rfl, id, id', name, rfl, rfl⟩ | ⟨rfl, rfl⟩⟩
  · obtain ⟨rfl, nameKind⟩ := left.of_var rfl
    simpa using IsAssignment.assign nameKind kind inner
  · simpa using IsAssignment.level left

theorem sound_leftAssociative (ih : ExpressionsSound n) {k : Nat} (hk : k ≤ 6) :
    Sound (leftAssociative (n + 1) (levels.drop k)) (IsLevel maxArguments k) := by
  cases h : levels.drop k with
  | nil =>
    obtain rfl : k = 6 := Nat.le_antisymm hk (List.drop_eq_nil_iff.1 h)
    rw [leftAssociative]
    exact ih.unary.mono fun _ _ _ => .unary
  | cons level tighter =>
    obtain ⟨hl, rfl⟩ := levels_drop h
    have hk : k < 6 := (List.getElem?_eq_some_iff.1 hl).1
    rw [leftAssociative]
    refine ((ih.leftAssociative (k + 1) hk).levelled_bind fun first =>
      ih.operands k level first hl).mono ?_
    rintro m _ e ⟨us, vs, first, rfl, head, others⟩
    exact .infixes head others

/-- The operators of a level add up to the left, each with what is to the right of it. -/
theorem sound_operands (ih : ExpressionsSound n) {k : Nat} {level : Level} (left : Expr)
    (hl : levels[k]? = some level) :
    Sound (levelled (operands (n + 1) level (levels.drop (k + 1)) left))
      fun m ts e => IsOperands maxArguments k m left ts e := by
  intro r
  have hk : k < 6 := (List.getElem?_eq_some_iff.1 hl).1
  rw [operands, ends_levelled, Ends.bind_iff, ends_seesLevel]
  split
  · rename_i seen
    obtain ⟨op, rest, hr, has⟩ : ∃ op rest, r.rest = op :: rest ∧ level.has op.kind := by
      cases hr : r.rest with
      | nil => simp [hr] at seen
      | cons op rest => exact ⟨op, rest, rfl, by simpa [hr] using seen⟩
    rw [Ends.bind_iff, ends_deepen]
    split
    · trivial
    rename_i room
    rw [Ends.bind_iff, ends_advance, Ends.bind_iff]
    refine (ih.leftAssociative (k + 1) hk _).mono (fun right r₁ h₁ => ?_) fun _ _ h => h
    have hothers := ih.operands k level (level.join left op right) hl r₁
    rw [ends_levelled] at hothers
    rw [show ((r.atDepth (r.depth + 1)).next) = op from Reader.next_cons hr]
    refine hothers.mono (fun e r₂ h₂ clean => ?_) fun _ _ h => h
    obtain ⟨clean₁, us, took₂, others⟩ := h₂ clean
    obtain ⟨clean₀, ts, took₁, operand⟩ := h₁ clean₁
    refine ⟨clean₀, op :: ts ++ us, ⟨?_, rfl, took₂.limit.trans took₁.limit⟩, ?_⟩
    · have := took₁.rest
      rw [Reader.skip_cons (r := r.atDepth (r.depth + 1)) hr, took₂.rest] at this
      simp [hr, this]
    · rw [took₁.room_eq] at others
      have := IsOperands.more ((joins_iff hl).2 ⟨has, rfl⟩) operand others
      simpa [show r.limit - (r.depth + 1) + 1 = r.limit - r.depth by omega] using this
  · exact fun clean => ⟨clean, [], ⟨rfl, rfl, rfl⟩, .done⟩

theorem sound_unary (ih : ExpressionsSound n) :
    Sound (unary (n + 1)) (IsUnary maxArguments) := by
  intro r
  rw [unary, Ends.bind_iff, ends_sees, Ends.bind_iff, ends_sees]
  split
  · rename_i seen
    rcases Bool.or_eq_true_iff.1 seen with seen | seen
    all_goals
      refine Sound.advance_bind seen (fun op _ => ih.unary.nested.bind fun right =>
        .pure (Expr.unary op right)) ?_
      rintro m op _ _ kind ⟨us, _, right, rfl, ⟨k, rfl, inner⟩, rfl, rfl⟩
      rw [List.append_nil]
    · exact .operator (.inl kind) inner
    · exact .operator (.inr kind) inner
  · refine (ih.primary.bind fun callee => ih.calls callee).mono ?_ r
    rintro m _ e ⟨us, vs, callee, rfl, head, others⟩
    exact .call head others

theorem sound_calls (ih : ExpressionsSound n) (callee : Expr) :
    Sound (calls (n + 1) callee) fun m ts e => IsCalls maxArguments m callee ts e := by
  rw [calls]
  have list : Sound (Grammar.arguments n 0) fun m ts es =>
      IsArguments maxArguments m ts es ∧ es.length ≤ maxArguments :=
    (ih.arguments 0).mono fun _ _ es h => ⟨.some h.1, by simpa using h.2⟩
  refine (Sound.accept_bind (list.unless_bind (fun _ => ⟨.none, Nat.zero_le _⟩) fun es =>
    (Sound.expect _ _).bind fun closing => ih.calls (callee.call closing es))
    (.pure callee)).mono ?_
  rintro m _ e (⟨opening, _, rfl, openingKind, us, _, es, rfl, ⟨inner, few⟩, _, vs, closing, rfl,
    ⟨rfl, closingKind⟩, others⟩ | ⟨rfl, rfl⟩)
  · exact .call openingKind inner few closingKind others
  · exact .done

theorem sound_arguments (ih : ExpressionsSound n) (count : Nat) :
    Sound (arguments (n + 1) count) fun m ts es =>
      IsSeveral maxArguments m ts es ∧ count + es.length ≤ maxArguments := by
  rw [arguments]
  split
  · have later := expressionsAdvance n
    exact .noteHere_bind (later.assignment.nested.bind fun _ => .bind (.accept _) fun _ =>
      .ite ((later.arguments _).bind fun _ => .pure _) (.pure _))
  rename_i few
  refine (ih.assignment.nested.bind fun first => .accept_bind
    ((ih.arguments (count + 1)).bind fun others => .pure (first :: others))
    (.pure [first])).mono ?_
  rintro m _ es ⟨us, _, first, rfl, ⟨k, rfl, inner⟩, ⟨comma, _, rfl, kind, vs, _, others, rfl,
    ⟨more, bound⟩, rfl, rfl⟩ | ⟨rfl, rfl⟩⟩
  · rw [List.append_nil]
    exact ⟨.more (.nested inner) kind more, by simp; omega⟩
  · rw [List.append_nil]
    exact ⟨.one (.nested inner), by simp; omega⟩

theorem sound_primary (ih : ExpressionsSound n) :
    Sound (primary (n + 1)) (IsPrimary maxArguments) := by
  intro r
  rw [primary, Ends.bind_iff, ends_peek]
  split
  · rename_i kind
    refine Sound.advance_bind (E := fun t _ ts e => ts = [] ∧ ∃ id, e = .var id t)
      (r.sees_of_next kind (by simp)) (fun name _ r => ?_) ?_
    · exact fun clean => ⟨clean, [], ⟨rfl, rfl, rfl⟩, rfl, _, rfl⟩
    · rintro m name _ _ kind ⟨rfl, id, rfl⟩
      exact .name kind
  · rename_i kind
    refine Sound.advance_bind (r.sees_of_next kind (by simp)) (fun opening _ =>
      ih.assignment.nested.bind fun inner => (Sound.expect _ _).bind fun _ =>
        .pure (Expr.grouping inner)) ?_
    rintro m opening _ _ openingKind ⟨us, _, e, rfl, ⟨k, rfl, inner⟩, _, _, closing, rfl,
      ⟨rfl, closingKind⟩, rfl, rfl⟩
    exact .group openingKind (.nested inner) closingKind
  · rename_i kind
    split
    · rename_i value hv
      have constant := isConstant_iff.2 hv
      refine Sound.advance_bind (r.sees_of_next rfl ?_) (fun _ _ => .pure (Expr.literal value)) ?_
      · intro h
        rw [h] at constant
        cases constant
      · rintro m t _ _ kind ⟨rfl, rfl⟩
        rw [← kind] at constant
        exact .constant constant
    · trivial

end

theorem expressionsSound (n : Nat) : ExpressionsSound n := by
  induction n with
  | zero =>
    constructor <;> intros <;>
      simp only [assignment, leftAssociative, operands, unary, calls, arguments, primary] <;>
      exact .exhausted
  | succ n ih =>
    exact ⟨sound_assignment ih, fun _ => sound_leftAssociative ih, fun _ _ => sound_operands ih,
      sound_unary ih, sound_calls ih, sound_arguments ih, sound_primary ih⟩

theorem sound_expression : Sound expression (IsExpression maxArguments) := by
  intro r
  rw [ends_expression]
  refine (expressionsSound _).assignment.nested.mono ?_ r
  rintro n ts e ⟨m, rfl, inner⟩
  exact .nested inner

/-! ## Statements -/

theorem sound_expressionUnless (kind : Kind) :
    Sound (expressionUnless kind) (IsOptional maxArguments) := by
  have missing : Sound (pure none : Parse (Option Expr)) (IsOptional maxArguments) :=
    (Sound.pure none).mono fun _ _ _ ⟨hts, ho⟩ => hts ▸ ho ▸ .none
  have present : Sound (some <$> expression) (IsOptional maxArguments) :=
    sound_expression.map.mono fun _ _ _ ⟨_, ho, inner⟩ => ho ▸ .some inner
  refine ((Sound.sees kind).bind fun _ => .ite missing present).mono ?_
  rintro n _ o ⟨_, ts, _, rfl, rfl, h⟩
  exact h

theorem sound_expressionStatement :
    Sound expressionStatement (IsExpressionStatement maxArguments) := by
  refine (sound_expression.bind fun value => (Sound.expect _ _).bind fun _ =>
    .pure (Stmt.expression value)).mono ?_
  rintro n _ _ ⟨ts, _, value, rfl, inner, _, _, semicolon, rfl, ⟨rfl, kind⟩, rfl, rfl⟩
  exact .mk inner kind

/-- The declaration of a variable is read behind the word that begins it. -/
theorem sound_variableDeclaration :
    Sound variableDeclaration fun n ts s =>
      ∀ keyword : Token, keyword.kind = .keyword .var →
        IsVariable maxArguments n (keyword :: ts) s := by
  have ended : ∀ (name : Token) (o : Option Expr), Sound (do
      let _ ← expect (.symbol .semicolon) .declarationEnd
      return Stmt.var name o) _ := fun name o =>
    (Sound.expect _ _).bind fun _ => .pure (Stmt.var name o)
  refine ((Sound.expect _ _).bind fun name => .accept_bind
    (sound_expression.map.bind (ended name)) ((Sound.pure none).bind (ended name))).mono ?_
  rintro n _ _ ⟨_, _, name, rfl, ⟨rfl, nameKind⟩, h⟩ keyword keywordKind
  rcases h with ⟨equals, _, rfl, equalsKind, ts, _, _, rfl, ⟨e, rfl, inner⟩, h⟩ |
    ⟨_, _, _, rfl, ⟨rfl, rfl⟩, h⟩
  all_goals obtain ⟨_, _, semicolon, rfl, ⟨rfl, kind⟩, rfl, rfl⟩ := h
  · exact .initialized keywordKind nameKind equalsKind inner kind
  · exact .bare keywordKind nameKind kind

theorem sound_parameters (n count : Nat) :
    Sound (parameters n count) fun _ ts names =>
      IsNames ts names ∧ count + names.length ≤ maxArguments := by
  induction n generalizing count with
  | zero => exact .exhausted
  | succ n ih =>
    rw [parameters]
    split
    · exact .noteHere_bind (.bind (.expect _ _) fun _ => .bind (.accept _) fun _ =>
        .ite ((advances_parameters _ _).bind fun _ => .pure _) (.pure _))
    rename_i few
    refine ((Sound.expect _ _).bind fun first => .accept_bind
      ((ih (count + 1)).bind fun others => .pure (first :: others)) (.pure [first])).mono ?_
    rintro m _ es ⟨_, _, first, rfl, ⟨rfl, kind⟩, ⟨comma, _, rfl, commaKind, us, _, others, rfl,
      ⟨more, bound⟩, rfl, rfl⟩ | ⟨rfl, rfl⟩⟩
    · rw [List.append_nil]
      exact ⟨.more kind commaKind more, by simp; omega⟩
    · exact ⟨.one kind, by simp; omega⟩

theorem sound_signature :
    Sound signature fun _ ts p => ∃ opening us closing left,
      ts = p.1 :: opening :: us ++ [closing, left] ∧ p.1.kind = .identifier ∧
      opening.kind = .symbol .leftParen ∧ IsParameters us p.2 ∧ p.2.length ≤ maxArguments ∧
      closing.kind = .symbol .rightParen ∧ left.kind = .symbol .leftBrace := by
  have list : Sound (fun r => parameters (r.rest.length + 1) 0 r) fun _ ts names =>
      IsParameters ts names ∧ names.length ≤ maxArguments := fun r =>
    (sound_parameters (r.rest.length + 1) 0).mono
      (fun _ _ names h => ⟨.some h.1, by simpa using h.2⟩) r
  refine ((Sound.expect _ _).bind fun name => (Sound.expect _ _).bind fun _ =>
    list.unless_bind (fun _ => ⟨.none, Nat.zero_le _⟩) fun names => (Sound.expect _ _).bind fun _ =>
    (Sound.expect _ _).bind fun _ => .pure (name, names)).mono ?_
  rintro n _ _ ⟨_, _, name, rfl, ⟨rfl, nameKind⟩, _, _, opening, rfl, ⟨rfl, openingKind⟩, us, _,
    names, rfl, ⟨inner, few⟩, _, _, closing, rfl, ⟨rfl, closingKind⟩, _, _, left, rfl,
    ⟨rfl, leftKind⟩, rfl, rfl⟩
  exact ⟨opening, us, closing, left, by simp, nameKind, openingKind, inner, few, closingKind,
    leftKind⟩

theorem sound_firstClause : Sound firstClause (IsFirstClause maxArguments) := by
  refine (Sound.accept_bind (.pure none) (.accept_bind sound_variableDeclaration.map
    sound_expressionStatement.map)).mono ?_
  rintro n _ _ (⟨semicolon, _, rfl, kind, rfl, rfl⟩ |
    ⟨keyword, us, rfl, kind, s, rfl, inner⟩ | ⟨s, rfl, inner⟩)
  · exact .none kind
  · exact .var (inner keyword kind)
  · exact .expression inner

theorem sound_condition (opening closing : ParseError.Cause) :
    Sound (condition opening closing) fun n ts e => ∃ left us right,
      ts = left :: us ++ [right] ∧ left.kind = .symbol .leftParen ∧
      IsExpression maxArguments n us e ∧ right.kind = .symbol .rightParen := by
  refine ((Sound.expect _ _).bind fun _ => sound_expression.bind fun test =>
    (Sound.expect _ _).bind fun _ => .pure test).mono ?_
  rintro n _ _ ⟨_, _, left, rfl, ⟨rfl, leftKind⟩, us, _, test, rfl, inner, _, _, right, rfl,
    ⟨rfl, rightKind⟩, rfl, rfl⟩
  exact ⟨left, us, right, by simp, leftKind, inner, rightKind⟩

theorem Sound.recover {x : Parse α} {D : Nat → List Token → α → Prop} (h : Sound x D) :
    Sound (recover x) fun n ts o => ∃ a, o = some a ∧ D n ts a := by
  intro r
  rw [ends_recover]
  refine (h r).mono (fun a r' ha clean => ?_) fun reason r' _ => ?_
  · obtain ⟨clean', ts, took, d⟩ := ha clean
    exact ⟨clean', ts, took, a, rfl, d⟩
  · cases reason with
    | fault e => exact fun clean => absurd clean (by simp)
    | exhausted => trivial

/-- Like `Sound`, for a relation that also looks at the tokens that are left. -/
def SoundBefore (x : Parse α) (D : Nat → List Token → α → List Token → Prop) : Prop :=
  ∀ r, Ends x r (fun a r' => Reads (fun n ts a => D n ts a r'.rest) r a r') (fun _ _ => True)

namespace SoundBefore

variable {x : Parse α} {D D' : Nat → List Token → α → List Token → Prop}

theorem mono (h : SoundBefore x D) (hD : ∀ n ts a rest, D n ts a rest → D' n ts a rest) :
    SoundBefore x D' := by
  intro r
  refine (h r).mono (fun a r' ha clean => ?_) fun _ _ _ => trivial
  obtain ⟨clean', ts, took, d⟩ := ha clean
  exact ⟨clean', ts, took, hD _ _ _ _ d⟩

theorem of_sound {D : Nat → List Token → α → Prop} (h : Sound x D) :
    SoundBefore x fun n ts a _ => D n ts a := h

theorem bind {f : α → Parse β} {D : Nat → List Token → α → Prop}
    {E : α → Nat → List Token → β → List Token → Prop} (hx : Sound x D)
    (hf : ∀ a, SoundBefore (f a) (E a)) :
    SoundBefore (x >>= f) fun n ts b rest =>
      ∃ us vs a, ts = us ++ vs ∧ D n us a ∧ E a n vs b rest := by
  intro r
  rw [Ends.bind_iff]
  refine (hx r).mono (fun a r₁ h₁ => (hf a r₁).mono (fun b r₂ h₂ clean => ?_) fun _ _ h => h)
    fun _ _ h => h
  obtain ⟨clean₁, vs, took₂, e⟩ := h₂ clean
  obtain ⟨clean₀, us, took₁, d⟩ := h₁ clean₁
  rw [took₁.room_eq] at e
  exact ⟨clean₀, us ++ vs, took₁.trans took₂, us, vs, a, rfl, d, e⟩

theorem advance_bind {kind : Kind} {f : Token → Parse α}
    {E : Token → Nat → List Token → α → List Token → Prop} {r : Reader} (seen : r.sees kind)
    (hf : ∀ t, t.kind = kind → SoundBefore (f t) (E t))
    (hD : ∀ n t us a rest, t.kind = kind → E t n us a rest → D n (t :: us) a rest) :
    Ends (advance >>= f) r (fun a r' => Reads (fun n ts a => D n ts a r'.rest) r a r')
      (fun _ _ => True) := by
  have hk := (Reader.cons_of_sees seen).1
  rw [Ends.bind_iff, ends_advance]
  refine (hf r.next hk r.skip).mono (fun a r' ha clean => ?_) fun _ _ h => h
  obtain ⟨clean', us, took, e⟩ := ha clean
  exact ⟨clean', _, (Reader.Took.skip seen).trans took, hD _ _ _ _ _ hk e⟩

/-- The last part of a statement, which stands one level deeper. -/
theorem nested_bind_pure {f : α → β} (h : SoundBefore x D) :
    SoundBefore (nested x >>= fun a => pure (f a)) fun n ts b rest =>
      ∃ m a, n = m + 1 ∧ b = f a ∧ D m ts a rest := by
  intro r
  rw [Ends.bind_iff, ends_nested]
  split
  · trivial
  · refine (h _).mono (fun a r' ha clean => ?_) fun _ _ h => h
    obtain ⟨clean', ts, took, d⟩ := ha clean
    exact ⟨clean', ts, took.of_deeper, r.limit - (r.depth + 1), a, by omega, rfl, d⟩

end SoundBefore

/-- These tokens are a statement, and it is not followed by an `else` that would belong to it. -/
def IsWholeStatement (n : Nat) (ts : List Token) (s : Stmt) (rest : List Token) : Prop :=
  ∃ dangling, IsStatement maxArguments dangling n ts s ∧ (dangling → startsElse rest = false)

/-- The statements of an `if`. The first of them cannot be dangling where an `else` follows, since
it would have taken the `else` itself. -/
theorem sound_branches {x : Parse Stmt} (h : SoundBefore x IsWholeStatement) (test : Expr) :
    SoundBefore (do
      let yes ← nested x
      if ← accept (.keyword .else_) then
        let no ← some <$> nested x
        return Stmt.ifThen test yes no
      else
        let no ← pure none
        return Stmt.ifThen test yes no)
      fun n ts s rest => ∃ k yes, n = k + 1 ∧
        ((∃ dangling, s = .ifThen test yes none ∧ IsStatement maxArguments dangling k ts yes ∧
          startsElse rest = false) ∨
        ∃ us separator vs no, s = .ifThen test yes (some no) ∧ ts = us ++ separator :: vs ∧
          IsStatement maxArguments false k us yes ∧ separator.kind = .keyword .else_ ∧
          IsWholeStatement k vs no rest) := by
  intro r
  rw [Ends.bind_iff, ends_nested]
  split
  · trivial
  rename_i room
  refine (h _).mono (fun yes r₁ h₁ => ?_) fun _ _ h => h
  rw [Ends.bind_iff, ends_accept]
  split
  · rename_i seen
    have hk := (Reader.cons_of_sees seen).1
    rw [if_pos rfl, Ends.bind_iff, Ends.map_iff, ends_nested]
    split
    · trivial
    refine (h _).mono (fun no r₂ h₂ clean => ?_) fun _ _ h => h
    obtain ⟨clean₁, vs, took₂, whole⟩ := h₂ clean
    obtain ⟨clean₀, us, took₁, dangling, inner, before⟩ := h₁ clean₁
    have closed : dangling = false := by
      cases dangling with
      | false => rfl
      | true =>
        have noElse : startsElse r₁.rest = false := before rfl
        have anElse : startsElse r₁.rest = true := seen
        exact absurd anElse (by simp [noElse])
    have took := (took₁.of_deeper.trans (.skip seen)).trans took₂.of_deeper
    have hd : r₁.depth - 1 = r.depth := by simp [took₁.depth]
    refine ⟨clean₀, _, took, r.limit - (r.depth + 1), yes, by omega, .inr ⟨us, _, vs, no, rfl,
      List.append_assoc us [_] vs, closed ▸ inner, hk, ?_⟩⟩
    simpa [hd, took₁.limit] using whole
  · rename_i seen
    intro clean
    obtain ⟨clean₀, us, took₁, dangling, inner, -⟩ := h₁ clean
    exact ⟨clean₀, us, took₁.of_deeper, r.limit - (r.depth + 1), yes, by omega,
      .inl ⟨dangling, rfl, inner, Bool.eq_false_iff.2 seen⟩⟩

/-- Every rule for statements is sound, with so many steps. -/
structure StatementsSound (n : Nat) : Prop where
  declaration : Sound (declaration n) fun m ts o =>
    ∃ s, o = some s ∧ IsDeclaration maxArguments m ts s
  statement : SoundBefore (statement n) IsWholeStatement
  block : Sound (block n) fun m ts ss => ∃ us right, ts = us ++ [right] ∧
    IsDeclarations maxArguments m us ss ∧ right.kind = .symbol .rightBrace

section

variable {n : Nat}

theorem sound_declaration (ih : StatementsSound n) :
    Sound (declaration (n + 1)) fun m ts o => ∃ s, o = some s ∧ IsDeclaration maxArguments m ts s := by
  rw [declaration]
  have other : Sound (statement n) (IsDeclaration maxArguments) := fun r =>
    (ih.statement r).mono (fun s r' hs clean => by
      obtain ⟨clean', ts, took, dangling, inner, -⟩ := hs clean
      exact ⟨clean', ts, took, .statement inner⟩) fun _ _ h => h
  refine (Sound.accept_bind (sound_signature.bind fun p => ih.block.nested.bind fun body =>
    .pure (Stmt.function p.1 p.2 body)) (.accept_bind sound_variableDeclaration
    ((Sound.sees _).bind fun _ => .ite (.fail _) other))).recover.mono ?_
  rintro m _ _ ⟨s, rfl, h⟩
  refine ⟨s, rfl, ?_⟩
  rcases h with ⟨keyword, _, rfl, keywordKind, _, _, ⟨name, names⟩, rfl, ⟨opening, us, closing,
    left, rfl, nameKind, openingKind, inner, few, closingKind, leftKind⟩, _, _, body, rfl,
    ⟨k, rfl, vs, right, rfl, declarations, rightKind⟩, rfl, rfl⟩ |
    ⟨keyword, us, rfl, kind, inner⟩ | ⟨_, us, _, rfl, rfl, inner⟩
  · simpa using IsDeclaration.function keywordKind nameKind openingKind inner few closingKind
      leftKind declarations rightKind
  · exact .var (inner keyword kind)
  · exact inner

theorem sound_statement (ih : StatementsSound n) :
    SoundBefore (statement (n + 1)) IsWholeStatement := by
  intro r
  rw [statement, Ends.bind_iff, ends_peek]
  split
  · rename_i kind
    refine SoundBefore.advance_bind (r.sees_of_next kind (by simp)) (fun keyword _ =>
      .bind (.expect _ _) fun _ => .bind sound_firstClause fun first =>
      .bind (sound_expressionUnless _) fun condition => .bind (.expect _ _) fun _ =>
      .bind (sound_expressionUnless _) fun last => .bind (.expect _ _) fun _ =>
      ih.statement.nested_bind_pure) ?_
    rintro m keyword _ _ rest keywordKind ⟨_, _, opening, rfl, ⟨rfl, openingKind⟩, ts, _, first,
      rfl, firstClause, us, _, condition, rfl, conditionClause, _, _, semicolon, rfl,
      ⟨rfl, semicolonKind⟩, vs, _, last, rfl, lastClause, _, ws, closing, rfl,
      ⟨rfl, closingKind⟩, k, body, rfl, rfl, dangling, inner, before⟩
    rw [desugarFor_eq]
    refine ⟨dangling, ?_, before⟩
    simpa using IsStatement.forLoop keywordKind openingKind firstClause conditionClause
      semicolonKind lastClause closingKind inner
  · rename_i kind
    refine SoundBefore.advance_bind (r.sees_of_next kind (by simp)) (fun keyword _ =>
      .bind (sound_condition _ _) fun test => sound_branches ih.statement test) ?_
    rintro m keyword _ _ rest keywordKind ⟨_, _, test, rfl, ⟨opening, ts, closing, rfl,
      openingKind, condition, closingKind⟩, k, yes, rfl, ⟨dangling, rfl, inner, before⟩ |
      ⟨us, separator, vs, no, rfl, rfl, inner, separatorKind, dangling, other, before⟩⟩
    · refine ⟨true, ?_, fun _ => before⟩
      simpa using IsStatement.ifThen keywordKind openingKind condition closingKind inner
    · refine ⟨dangling, ?_, before⟩
      simpa using IsStatement.ifThenElse keywordKind openingKind condition closingKind inner
        separatorKind other
  · rename_i kind
    refine SoundBefore.advance_bind (r.sees_of_next kind (by simp)) (fun keyword _ =>
      .of_sound (sound_expression.bind fun value => (Sound.expect _ _).bind fun _ =>
        .pure (Stmt.print keyword value))) ?_
    rintro m keyword _ _ rest keywordKind ⟨ts, _, value, rfl, inner, _, _, semicolon, rfl,
      ⟨rfl, semicolonKind⟩, rfl, rfl⟩
    exact ⟨false, .print keywordKind inner semicolonKind, by simp⟩
  · rename_i kind
    refine SoundBefore.advance_bind (r.sees_of_next kind (by simp)) (fun keyword _ =>
      .of_sound ((sound_expressionUnless _).bind fun value => (Sound.expect _ _).bind fun _ =>
        .pure (Stmt.ret keyword value))) ?_
    rintro m keyword _ _ rest keywordKind ⟨ts, _, value, rfl, inner, _, _, semicolon, rfl,
      ⟨rfl, semicolonKind⟩, rfl, rfl⟩
    exact ⟨false, .ret keywordKind inner semicolonKind, by simp⟩
  · rename_i kind
    refine SoundBefore.advance_bind (r.sees_of_next kind (by simp)) (fun keyword _ =>
      .bind (sound_condition _ _) fun test => ih.statement.nested_bind_pure) ?_
    rintro m keyword _ _ rest keywordKind ⟨_, us, test, rfl, ⟨opening, ts, closing, rfl,
      openingKind, condition, closingKind⟩, k, body, rfl, rfl, dangling, inner, before⟩
    refine ⟨dangling, ?_, before⟩
    simpa using IsStatement.whileDo keywordKind openingKind condition closingKind inner
  · rename_i kind
    refine SoundBefore.advance_bind (r.sees_of_next kind (by simp)) (fun left _ =>
      .of_sound (ih.block.nested.bind fun body => .pure (Stmt.block body))) ?_
    rintro m left _ _ rest leftKind ⟨_, _, body, rfl, ⟨k, rfl, ts, right, rfl, inner,
      rightKind⟩, rfl, rfl⟩
    refine ⟨false, ?_, by simp⟩
    simpa using IsStatement.block leftKind inner rightKind
  · exact (SoundBefore.of_sound sound_expressionStatement).mono
      (fun _ _ _ _ inner => ⟨false, .expression inner, by simp⟩) r

theorem sound_block (ih : StatementsSound n) :
    Sound (block (n + 1)) fun m ts ss => ∃ us right, ts = us ++ [right] ∧
      IsDeclarations maxArguments m us ss ∧ right.kind = .symbol .rightBrace := by
  intro r
  rw [block, Ends.bind_iff, ends_sees, Ends.bind_iff, ends_atEnd]
  split
  · refine ((Sound.expect _ _).bind fun _ => .pure []).mono ?_ r
    rintro m _ _ ⟨_, _, right, rfl, ⟨rfl, kind⟩, rfl, rfl⟩
    exact ⟨[], right, rfl, .nil, kind⟩
  · refine (ih.declaration.bind fun first => ih.block.bind fun others =>
      .pure (first.toList ++ others)).mono ?_ r
    rintro m _ _ ⟨ts, _, _, rfl, ⟨s, rfl, first⟩, _, _, others, rfl, ⟨us, right, rfl, inner, kind⟩,
      rfl, rfl⟩
    exact ⟨ts ++ us, right, by simp, .cons first inner, kind⟩

end

theorem statementsSound (n : Nat) : StatementsSound n := by
  induction n with
  | zero =>
    constructor <;> simp only [declaration, statement, block] <;> exact fun _ => trivial
  | succ n ih => exact ⟨sound_declaration ih, sound_statement ih, sound_block ih⟩

theorem sound_declarations (n : Nat) :
    ∀ r, Ends (declarations n) r (fun ss r' => r'.rest = [] ∧
      Reads (fun m ts ss => IsDeclarations maxArguments m ts ss) r ss r') (fun _ _ => True) := by
  induction n with
  | zero => exact fun _ => trivial
  | succ n ih =>
    intro r
    rw [declarations, Ends.bind_iff, ends_atEnd]
    split
    · rename_i empty
      exact ⟨List.isEmpty_iff.1 empty, fun clean => ⟨clean, [], .refl r, .nil⟩⟩
    · rw [Ends.bind_iff]
      refine ((statementsSound n).declaration r).mono (fun first r₁ h₁ => ?_) fun _ _ h => h
      rw [Ends.bind_iff]
      refine (ih r₁).mono (fun others r₂ h₂ => ⟨h₂.1, fun clean => ?_⟩) fun _ _ h => h
      obtain ⟨clean₁, us, took₂, inner⟩ := h₂.2 clean
      obtain ⟨clean₀, ts, took₁, s, rfl, declaration⟩ := h₁ clean₁
      rw [took₁.room_eq] at inner
      exact ⟨clean₀, ts ++ us, took₁.trans took₂, .cons declaration inner⟩

/-- A reader that takes a whole program, and has noted no error, has taken all tokens. -/
theorem isDeclarations_of_ok {n : Nat} {firstId : RefId} {tokens : List Token} {ss : List Stmt}
    {r : Reader} (read : declarations n
      ⟨tokens, Token.endOf tokens, Token.kind_endOf tokens, #[], 0, maxNesting, firstId⟩ = .ok ss r)
    (clean : r.errors = #[]) : IsDeclarations maxArguments maxNesting tokens ss := by
  obtain ⟨hrest, reads⟩ := (sound_declarations _ _).ok_of_eq read
  obtain ⟨-, ts, took, inner⟩ := reads clean
  have all : tokens = ts := by simpa [hrest] using took.rest
  rw [all]
  exact inner

end Lox.Grammar
