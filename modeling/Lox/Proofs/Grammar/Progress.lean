import Lox.Proofs.Grammar.Steps

/-!
# Progress

Reading ends for any tokens, and every declaration takes some of them.

* `Reader.load` — the tokens that are left together with the errors that are noted. A rule notes an
  error only where it has taken a token.
* `Continues extra left x`, `Opens left x` — from a reader with no more than `left` tokens, `x` does
  not run out of steps; the load grows by no more than `extra`, or it shrinks unless `x` stops at
  once.
* `expressionsProgress`, `statementsProgress` — all rules at once, by induction on their steps, with
  the number of steps that so many tokens take.
* `Takes` — a rule that comes to its end has taken a token; `expressionsTake`, `declaration_takes`.
* `InPieces` — declarations one after the other, each with its own tokens.
* `Program.ofTokens_inPieces` — every sequence of tokens is read to its end, piece by piece.
-/

namespace Lox.Grammar

variable {α β : Type} {r r' : Reader} {left extra n : Nat}

/-- The tokens that are left and the errors that are noted. -/
def Reader.load (r : Reader) : Nat := r.rest.length + r.errors.size

theorem Reader.load_noting (e : ParseError) : (r.noting e).load = r.load + 1 := by
  simp [load]
  omega

theorem Reader.load_skip (more : r.rest ≠ []) : r.skip.load + 1 = r.load := by
  have pos := List.length_pos_iff.2 more
  simp [load, skip]
  omega

theorem Reader.length_skip (more : r.rest ≠ []) : r.skip.rest.length + 1 = r.rest.length := by
  have pos := List.length_pos_iff.2 more
  simp [skip]
  omega

theorem Reader.ne_nil_of_sees {kind : Kind} (h : r.sees kind) : r.rest ≠ [] := by
  rw [(cons_of_sees h).2]
  exact List.cons_ne_nil _ _

theorem Reader.ne_nil_of_next {kind : Kind} (h : r.next.kind = kind) (hk : kind ≠ .endOfInput) :
    r.rest ≠ [] := ne_nil_of_sees (sees_of_next h hk)

/-! ## Bounded rules -/

/-- From `r`, the computation does not run out of steps, and the load grows by no more than
`extra`. -/
def ContinuesAt (extra : Nat) (r : Reader) (x : Parse α) : Prop :=
  Ends x r (fun _ r' => r'.rest.length ≤ r.rest.length ∧ r'.load ≤ r.load + extra)
    fun reason r' => reason ≠ .exhausted ∧ r'.load ≤ r.load + extra

/-- From `r`, the computation does not run out of steps. It takes a token and makes the load
smaller, or it stops before anything has happened. -/
def OpensAt (r : Reader) (x : Parse α) : Prop :=
  Ends x r (fun _ r' => r'.rest.length < r.rest.length ∧ r'.load < r.load)
    fun reason r' => reason ≠ .exhausted ∧
      (r'.load < r.load ∨ r'.rest = r.rest ∧ r'.errors = r.errors)

/-- So it is wherever no more than `left` tokens are left. -/
def Continues (extra left : Nat) (x : Parse α) : Prop :=
  ∀ r, r.rest.length ≤ left → ContinuesAt extra r x

/-- So it is wherever no more than `left` tokens are left. -/
def Opens (left : Nat) (x : Parse α) : Prop := ∀ r, r.rest.length ≤ left → OpensAt r x

section Rules

variable {x y : Parse α} {f : α → Parse β} {kind : Kind} {cause : ParseError.Cause}

/-- A token that is accepted is taken. -/
theorem ends_accept_bind {f : Bool → Parse α} {ok : α → Reader → Prop}
    {stop : Stop → Reader → Prop} :
    Ends (accept kind >>= f) r ok stop ↔
      if r.sees kind then Ends (advance >>= fun _ => f true) r ok stop
      else Ends (f false) r ok stop := by
  rw [Ends.bind_iff, ends_accept, Ends.bind_iff, ends_advance]

/-- What follows on a token that is there. -/
theorem OpensAt.advance_bind {f : Token → Parse α} (more : r.rest ≠ []) (hr : r.rest.length ≤ left)
    (hf : ∀ t, 0 < left → Continues 0 (left - 1) (f t)) : OpensAt r (advance >>= f) := by
  have pos := List.length_pos_iff.2 more
  have length := r.length_skip more
  have load := r.load_skip more
  unfold OpensAt
  rw [Ends.bind_iff, ends_advance]
  refine (hf r.next (by omega) r.skip (by omega)).mono (fun _ r' h => ?_) fun _ r' h => ?_
  · exact ⟨by omega, by omega⟩
  · exact ⟨h.1, .inl (by omega)⟩

/-- The token is there if it is of a kind that tokens have. -/
theorem OpensAt.next_bind {f : Token → Parse α} (h : r.next.kind = kind) (hk : kind ≠ .endOfInput)
    (hr : r.rest.length ≤ left) (hf : ∀ t, 0 < left → Continues 0 (left - 1) (f t)) :
    OpensAt r (advance >>= f) :=
  .advance_bind (Reader.ne_nil_of_next h hk) hr hf

theorem ContinuesAt.advance_bind {f : Token → Parse α} (more : r.rest ≠ [])
    (hr : r.rest.length ≤ left) (hf : ∀ t, 0 < left → Continues 1 (left - 1) (f t)) :
    ContinuesAt 0 r (advance >>= f) := by
  have pos := List.length_pos_iff.2 more
  have length := r.length_skip more
  have load := r.load_skip more
  unfold ContinuesAt
  rw [Ends.bind_iff, ends_advance]
  refine (hf r.next (by omega) r.skip (by omega)).mono (fun _ r' h => ?_) fun _ r' h => ?_
  · exact ⟨by omega, by omega⟩
  · exact ⟨h.1, by omega⟩

namespace Continues

theorem pure (a : α) : Continues 0 left (pure a : Parse α) := fun _ _ =>
  ⟨Nat.le_refl _, Nat.le_refl _⟩

theorem mono {extra' : Nat} (hx : Continues extra left x) (h : extra ≤ extra') :
    Continues extra' left x := fun r hr =>
  (hx r hr).mono (fun _ _ h' => ⟨h'.1, by omega⟩) fun _ _ h' => ⟨h'.1, by omega⟩

theorem bind (hx : Continues extra left x) (hf : ∀ a, Continues 0 left (f a)) :
    Continues extra left (x >>= f) := by
  intro r hr
  unfold ContinuesAt
  rw [Ends.bind_iff]
  refine (hx r hr).mono (fun a r' h => ?_) fun _ _ h => h
  refine (hf a r' (by omega)).mono (fun _ r'' h' => ?_) fun _ r'' h' => ?_
  · exact ⟨by omega, by omega⟩
  · exact ⟨h'.1, by omega⟩

theorem ite {c : Prop} [Decidable c] (hx : Continues extra left x) (hy : Continues extra left y) :
    Continues extra left (if c then x else y) := by
  split
  · exact hx
  · exact hy

theorem map {g : α → β} (hx : Continues extra left x) : Continues extra left (g <$> x) := by
  rw [map_eq_pure_bind]
  exact hx.bind fun a => pure (g a)

theorem noteHere : Continues 1 left (noteHere cause) := fun r _ =>
  ⟨Nat.le_refl _, Nat.le_of_eq (r.load_noting _)⟩

theorem note (e : ParseError) : Continues 1 left (note e) := fun r _ =>
  ⟨Nat.le_refl _, Nat.le_of_eq (r.load_noting _)⟩

theorem freshId : Continues 0 left freshId := fun _ _ => ⟨Nat.le_refl _, Nat.le_refl _⟩

theorem sees_bind {f : Bool → Parse α} (hf : ∀ b, Continues extra left (f b)) :
    Continues extra left (sees kind >>= f) := fun r hr => hf (r.sees kind) r hr

/-- What is taken with the token pays for an error. -/
theorem accept_bind {f : Bool → Parse α} (yes : 0 < left → Continues 1 (left - 1) (f true))
    (no : Continues 0 left (f false)) : Continues 0 left (accept kind >>= f) := by
  intro r hr
  unfold ContinuesAt
  rw [ends_accept_bind]
  split
  · rename_i seen
    exact ContinuesAt.advance_bind (Reader.ne_nil_of_sees seen) hr fun _ => yes
  · exact no r hr

theorem nested (hx : Continues extra left x) : Continues extra left (nested x) := by
  intro r hr
  unfold ContinuesAt
  rw [ends_nested]
  split
  · exact ⟨by simp, Nat.le_add_right _ _⟩
  · exact hx (r.atDepth (r.depth + 1)) hr

end Continues

namespace Opens

theorem continues (hx : Opens left x) : Continues 0 left x := by
  intro r hr
  refine (hx r hr).mono (fun _ r' h => ⟨by omega, by omega⟩) fun _ r' h => ⟨h.1, ?_⟩
  rcases h.2 with less | ⟨rest, errors⟩
  · omega
  · simp [Reader.load, rest, errors]

/-- What follows has one token less. -/
theorem bind (hx : Opens left x) (hf : ∀ a, 0 < left → Continues 0 (left - 1) (f a)) :
    Opens left (x >>= f) := by
  intro r hr
  unfold OpensAt
  rw [Ends.bind_iff]
  refine (hx r hr).mono (fun a r' h => ?_) fun _ _ h => h
  refine (hf a (by omega) r' (by omega)).mono (fun _ r'' h' => ?_) fun _ r'' h' => ?_
  · exact ⟨by omega, by omega⟩
  · exact ⟨h'.1, .inl (by omega)⟩

/-- What is taken first pays for an error in what follows. -/
theorem bind_extra (hx : Opens left x) (hf : ∀ a, 0 < left → Continues 1 (left - 1) (f a)) :
    Continues 0 left (x >>= f) := by
  intro r hr
  unfold ContinuesAt
  rw [Ends.bind_iff]
  refine ((hx r hr).and (hx.continues r hr)).mono (fun a r' h => ?_) fun _ _ h => h.2
  obtain ⟨⟨less, load⟩, -⟩ := h
  refine (hf a (by omega) r' (by omega)).mono (fun _ r'' h' => ?_) fun _ r'' h' => ?_
  · exact ⟨by omega, by omega⟩
  · exact ⟨h'.1, by omega⟩

theorem ite {c : Prop} [Decidable c] (hx : Opens left x) (hy : Opens left y) :
    Opens left (if c then x else y) := by
  split
  · exact hx
  · exact hy

theorem map {g : α → β} (hx : Opens left x) : Opens left (g <$> x) := by
  rw [map_eq_pure_bind]
  exact hx.bind fun a _ => .pure (g a)

theorem fail : Opens left (fail cause : Parse α) := fun _ _ => ⟨by simp, .inr ⟨rfl, rfl⟩⟩

theorem sees_bind {f : Bool → Parse α} (hf : ∀ b, Opens left (f b)) :
    Opens left (sees kind >>= f) := fun r hr => hf (r.sees kind) r hr

theorem expect : Opens left (expect kind cause) := by
  intro r hr
  unfold OpensAt
  rw [ends_expect]
  split
  · rename_i seen
    have more := Reader.ne_nil_of_sees seen
    have length := r.length_skip more
    have load := r.load_skip more
    exact ⟨by omega, by omega⟩
  · exact ⟨by simp, .inr ⟨rfl, rfl⟩⟩

theorem accept_bind {f : Bool → Parse α} (yes : 0 < left → Continues 0 (left - 1) (f true))
    (no : Opens left (f false)) : Opens left (accept kind >>= f) := by
  intro r hr
  unfold OpensAt
  rw [ends_accept_bind]
  split
  · rename_i seen
    exact OpensAt.advance_bind (Reader.ne_nil_of_sees seen) hr fun _ => yes
  · exact no r hr

theorem nested (hx : Opens left x) : Opens left (nested x) := by
  intro r hr
  unfold OpensAt
  rw [ends_nested]
  split
  · exact ⟨by simp, .inr ⟨rfl, rfl⟩⟩
  · exact hx (r.atDepth (r.depth + 1)) hr

theorem levelled (hx : Opens left x) : Opens left (levelled x) := by
  intro r hr
  unfold OpensAt
  rw [ends_levelled]
  exact hx r hr

end Opens

end Rules

/-! ## Expressions -/

/-- The rules for expressions with so many steps, where no more than `left` tokens are left.
Eleven steps for each token are enough, and a few for the rules entered before the first. -/
structure ExpressionsProgress (n left : Nat) : Prop where
  assignment : 11 * left + 10 ≤ n → Opens left (assignment n)
  leftAssociative : ∀ ls : List Level, ls.length ≤ 6 → 11 * left + ls.length + 3 ≤ n →
    Opens left (leftAssociative n ls)
  operands : ∀ level (tighter : List Level) e, tighter.length ≤ 5 → 11 * left + 1 ≤ n →
    Continues 0 left (operands n level tighter e)
  unary : 11 * left + 2 ≤ n → Opens left (unary n)
  calls : ∀ callee, 11 * left + 1 ≤ n → Continues 0 left (calls n callee)
  arguments : ∀ count, 11 * left + 11 ≤ n → Continues 1 left (arguments n count)
  primary : 11 * left + 1 ≤ n → Opens left (primary n)

theorem continues_assignTo (target : Expr) (equals : Token) (value : Expr) :
    Continues 1 left (assignTo target equals value) := by
  unfold assignTo
  split
  · exact (Continues.freshId.bind fun _ => .pure _).mono (by omega)
  · exact (Continues.note _).bind fun _ => .pure _

theorem continues_operands (ih : ∀ left, ExpressionsProgress n left) (level : Level)
    (tighter : List Level) (e : Expr) (short : tighter.length ≤ 5) (enough : 11 * left ≤ n) :
    Continues 0 left (operands (n + 1) level tighter e) := by
  intro r hr
  rw [operands]
  unfold ContinuesAt
  rw [Ends.bind_iff, ends_seesLevel]
  split
  · rename_i seen
    have more : r.rest ≠ [] := by
      rintro none
      simp [none] at seen
    rw [Ends.bind_iff, ends_deepen]
    split
    · exact ⟨by simp, Nat.le_refl _⟩
    · refine ContinuesAt.advance_bind (r := r.atDepth (r.depth + 1)) more hr fun op pos => ?_
      have right := (ih (left - 1)).leftAssociative tighter (by omega) (by omega)
      refine (right.continues.bind fun e' => ?_).mono (by omega)
      exact (ih (left - 1)).operands level tighter _ short (by omega)
  · exact ⟨Nat.le_refl _, Nat.le_refl _⟩

theorem opens_unary (ih : ∀ left, ExpressionsProgress n left) (enough : 11 * left + 1 ≤ n) :
    Opens left (unary (n + 1)) := by
  intro r hr
  rw [unary]
  unfold OpensAt
  rw [Ends.bind_iff, ends_sees, Ends.bind_iff, ends_sees]
  split
  · rename_i seen
    have more : r.rest ≠ [] := by
      rcases Bool.or_eq_true_iff.1 seen with seen | seen <;> exact Reader.ne_nil_of_sees seen
    refine OpensAt.advance_bind more hr fun op pos => ?_
    exact ((ih (left - 1)).unary (by omega)).nested.continues.bind fun _ => .pure _
  · refine ((ih left).primary enough).bind (fun callee pos => ?_) r hr
    exact (ih (left - 1)).calls callee (by omega)

theorem continues_calls (ih : ∀ left, ExpressionsProgress n left) (callee : Expr)
    (enough : 11 * left ≤ n) : Continues 0 left (calls (n + 1) callee) := by
  have closing (arguments : List Expr) (pos : 0 < left) : Continues 0 (left - 1) (do
      let closing ← expect (.symbol .rightParen) .argumentsClosing
      calls n (.call callee closing arguments)) :=
    Opens.expect.continues.bind fun _ => (ih (left - 1)).calls _ (by omega)
  rw [calls]
  refine .accept_bind (fun pos => .sees_bind fun empty => ?_) (.pure _)
  cases empty with
  | true => exact ((Continues.pure _).bind fun es => closing es pos).mono (by omega)
  | false => exact ((ih (left - 1)).arguments 0 (by omega)).bind fun es => closing es pos

theorem continues_arguments (ih : ∀ left, ExpressionsProgress n left) (count : Nat)
    (enough : 11 * left + 10 ≤ n) : Continues 1 left (arguments (n + 1) count) := by
  have several : Continues 0 left (do
      let first ← nested (assignment n)
      if ← accept (.symbol .comma) then
        let others ← arguments n (count + 1)
        return first :: others
      else
        return [first]) :=
    ((ih left).assignment enough).nested.continues.bind fun first =>
      .accept_bind
        (fun pos => ((ih (left - 1)).arguments (count + 1) (by omega)).bind fun _ => .pure _)
        (.pure _)
  rw [arguments]
  split
  · exact Continues.noteHere.bind fun _ => several
  · exact several.mono (by omega)

theorem opens_primary (ih : ∀ left, ExpressionsProgress n left) (enough : 11 * left ≤ n) :
    Opens left (primary (n + 1)) := by
  intro r hr
  rw [primary]
  unfold OpensAt
  rw [Ends.bind_iff, ends_peek]
  split
  · rename_i kind
    refine OpensAt.next_bind kind (by decide) hr fun name _ => ?_
    exact Continues.freshId.bind fun _ => .pure _
  · rename_i kind
    refine OpensAt.next_bind kind (by decide) hr fun _ pos => ?_
    exact ((ih (left - 1)).assignment (by omega)).nested.continues.bind fun _ =>
      Opens.expect.continues.bind fun _ => .pure _
  · split
    · rename_i constant
      refine OpensAt.next_bind rfl (fun ended => ?_) hr fun _ _ => .pure _
      simp [ended, literal?] at constant
    · exact Opens.fail r hr

theorem opens_assignment (ih : ∀ left, ExpressionsProgress n left) (enough : 11 * left + 9 ≤ n) :
    Opens left (assignment (n + 1)) := by
  rw [assignment]
  refine ((ih left).leftAssociative levels (by decide) (by simpa [levels] using enough)).bind
    fun target pos r hr => ?_
  unfold ContinuesAt
  rw [Ends.bind_iff, ends_sees]
  split
  · rename_i seen
    refine ContinuesAt.advance_bind (Reader.ne_nil_of_sees seen) hr fun equals pos' => ?_
    exact (((ih (left - 1 - 1)).assignment (by omega)).nested.bind_extra fun value _ =>
      continues_assignTo target equals value).mono (by omega)
  · exact ⟨Nat.le_refl _, Nat.le_refl _⟩

theorem expressionsProgress (n left : Nat) : ExpressionsProgress n left := by
  induction n generalizing left with
  | zero => constructor <;> intros <;> omega
  | succ n ih =>
    constructor
    case assignment => exact fun enough => opens_assignment ih (by omega)
    case leftAssociative =>
      intro ls few enough
      cases ls with
      | nil =>
        rw [leftAssociative]
        exact (ih left).unary (by simpa using enough)
      | cons level tighter =>
        rw [List.length_cons] at few enough
        rw [leftAssociative]
        refine (((ih left).leftAssociative tighter (by omega) (by omega)).bind
          fun first pos => ?_).levelled
        exact (ih (left - 1)).operands level tighter first (by omega) (by omega)
    case operands => exact fun level tighter e few enough =>
      continues_operands ih level tighter e few (by omega)
    case unary => exact fun enough => opens_unary ih (by omega)
    case calls => exact fun callee enough => continues_calls ih callee (by omega)
    case arguments => exact fun count enough => continues_arguments ih count (by omega)
    case primary => exact fun enough => opens_primary ih (by omega)

theorem opens_expression (left : Nat) : Opens left expression := by
  intro r hr
  unfold OpensAt
  rw [ends_expression]
  exact ((expressionsProgress (11 * (r.rest.length + 1)) r.rest.length).assignment
    (by omega)).nested r (Nat.le_refl _)

/-! ## Statements -/

theorem continues_expressionUnless (kind : Kind) : Continues 0 left (expressionUnless kind) :=
  .sees_bind fun _ => .ite (.pure _) (opens_expression left).map.continues

theorem opens_expressionStatement (left : Nat) : Opens left expressionStatement :=
  (opens_expression left).bind fun _ _ => Opens.expect.continues.bind fun _ => .pure _

theorem opens_variableDeclaration (left : Nat) : Opens left variableDeclaration := by
  have ending (name : Token) (initializer : Option Expr) (left : Nat) : Continues 0 left (do
      let _ ← expect (.symbol .semicolon) .declarationEnd
      return Stmt.var name initializer) :=
    Opens.expect.continues.bind fun _ => .pure _
  refine Opens.expect.bind fun name _ => .accept_bind (fun _ => ?_) ?_
  · exact ((opens_expression _).map.continues.bind fun _ => ending name _ _).mono (by omega)
  · exact (Continues.pure _).bind fun _ => ending name _ _

theorem continues_parameters (n count : Nat) (enough : left < n) :
    Continues 1 left (parameters n count) := by
  induction n generalizing left count with
  | zero => omega
  | succ n ih =>
    have several : Continues 0 left (do
        let first ← expect .identifier .parameterName
        if ← accept (.symbol .comma) then
          let others ← parameters n (count + 1)
          return first :: others
        else
          return [first]) :=
      Opens.expect.continues.bind fun first =>
        .accept_bind (fun pos => (ih (count + 1) (by omega)).bind fun _ => .pure _) (.pure _)
    rw [parameters]
    split
    · exact Continues.noteHere.bind fun _ => several
    · exact several.mono (by omega)

theorem opens_signature (left : Nat) : Opens left signature := by
  have ending (name : Token) (names : List Token) (left : Nat) : Continues 0 left (do
      let _ ← expect (.symbol .rightParen) .parametersClosing
      let _ ← expect (.symbol .leftBrace) .bodyOpening
      return (name, names)) :=
    Opens.expect.continues.bind fun _ => Opens.expect.continues.bind fun _ => .pure _
  have names (left : Nat) : Continues 1 left fun r => parameters (r.rest.length + 1) 0 r :=
    fun r _ => continues_parameters (r.rest.length + 1) 0 (Nat.lt_succ_self _) r (Nat.le_refl _)
  refine Opens.expect.bind fun name _ => Opens.expect.bind_extra fun _ _ =>
    .sees_bind fun empty => ?_
  cases empty with
  | true => exact ((Continues.pure _).bind fun _ => ending name _ _).mono (by omega)
  | false => exact (names _).bind fun _ => ending name _ _

theorem continues_firstClause (left : Nat) : Continues 0 left firstClause := by
  refine .accept_bind (fun _ => (Continues.pure _).mono (by omega)) (.accept_bind (fun _ => ?_) ?_)
  · exact (opens_variableDeclaration _).map.continues.mono (by omega)
  · exact (opens_expressionStatement _).map.continues

theorem opens_condition (opening closing : ParseError.Cause) (left : Nat) :
    Opens left (condition opening closing) :=
  Opens.expect.bind fun _ _ => (opens_expression _).continues.bind fun _ =>
    Opens.expect.continues.bind fun _ => .pure _

/-- The rules for statements with so many steps, where no more than `left` tokens are left. Four
steps for each token are enough, and a few for the rules entered before the first. A declaration
makes up for its own error. -/
structure StatementsProgress (n left : Nat) : Prop where
  declaration : 4 * left + 2 ≤ n → ∀ r, r.rest ≠ [] → r.rest.length ≤ left →
    Ends (declaration n) r (fun _ r' => r'.rest.length < r.rest.length ∧ r'.load ≤ r.load)
      fun _ _ => False
  statement : 4 * left + 1 ≤ n → Opens left (statement n)
  block : 4 * left + 3 ≤ n → Continues 0 left (block n)

theorem length_resume_le (ts : List Token) : (resume ts).length ≤ ts.length - 1 := by
  cases ts with
  | nil => exact Nat.le_refl _
  | cons t rest =>
    rw [resume]
    split
    · exact Nat.le_refl _
    · exact (resume_suffix rest).length_le

theorem ends_recover_of_opens {part : Parse α} (opens : OpensAt r part) (later : Advances part)
    (more : r.rest ≠ []) :
    Ends (recover part) r (fun _ r' => r'.rest.length < r.rest.length ∧ r'.load ≤ r.load)
      fun _ _ => False := by
  have pos := List.length_pos_iff.2 more
  rw [ends_recover]
  refine (opens.and (later r)).mono (fun _ r' h => ⟨h.1.1, Nat.le_of_lt h.1.2⟩)
    fun reason r' h => ?_
  obtain ⟨⟨going, stopped⟩, later⟩ := h
  cases reason with
  | exhausted => exact going rfl
  | fault e =>
    have dropped := length_resume_le r'.rest
    have noted := later.errors.length_le
    show (resume r'.rest).length < _ ∧ (resume r'.rest).length + (r'.errors.push e).size ≤ _
    simp only [Reader.load, Array.length_toList, Array.size_push] at *
    rcases stopped with less | ⟨rest, errors⟩
    · exact ⟨by omega, by omega⟩
    · rw [rest] at dropped
      rw [rest, errors]
      exact ⟨by omega, by omega⟩

theorem opens_declarationPart (ih : ∀ left, StatementsProgress n left) (enough : 4 * left + 1 ≤ n) :
    Opens left (declarationPart n) := by
  refine .accept_bind (fun pos => ?_) (.accept_bind (fun pos => ?_) ?_)
  · exact (opens_signature _).continues.bind fun _ =>
      ((ih (left - 1)).block (by omega)).nested.bind fun _ => .pure _
  · exact (opens_variableDeclaration _).continues
  · exact .sees_bind fun _ => .ite .fail ((ih left).statement enough)

theorem opens_statement (ih : ∀ left, StatementsProgress n left) (enough : 4 * left ≤ n) :
    Opens left (statement (n + 1)) := by
  have body (pos : 0 < left) : Continues 0 (left - 1) (nested (statement n)) :=
    ((ih (left - 1)).statement (by omega)).nested.continues
  intro r hr
  rw [statement]
  unfold OpensAt
  rw [Ends.bind_iff, ends_peek]
  split <;> rename_i kind
  · refine OpensAt.next_bind kind (by decide) hr fun _ pos => ?_
    exact Opens.expect.continues.bind fun _ => (continues_firstClause _).bind fun _ =>
      (continues_expressionUnless _).bind fun _ => Opens.expect.continues.bind fun _ =>
      (continues_expressionUnless _).bind fun _ => Opens.expect.continues.bind fun _ =>
      (body pos).bind fun _ => .pure _
  · refine OpensAt.next_bind kind (by decide) hr fun _ pos => ?_
    refine (opens_condition _ _ _).continues.bind fun _ => (body pos).bind fun _ =>
      .accept_bind (fun _ => ?_) ((Continues.pure _).bind fun _ => .pure _)
    have other := ((ih (left - 1 - 1)).statement (by omega)).nested
    exact (other.map.continues.bind fun _ => .pure _).mono (by omega)
  · refine OpensAt.next_bind kind (by decide) hr fun _ _ => ?_
    exact (opens_expression _).continues.bind fun _ => Opens.expect.continues.bind fun _ => .pure _
  · refine OpensAt.next_bind kind (by decide) hr fun _ _ => ?_
    exact (continues_expressionUnless _).bind fun _ => Opens.expect.continues.bind fun _ => .pure _
  · refine OpensAt.next_bind kind (by decide) hr fun _ pos => ?_
    exact (opens_condition _ _ _).continues.bind fun _ => (body pos).bind fun _ => .pure _
  · refine OpensAt.next_bind kind (by decide) hr fun _ pos => ?_
    exact ((ih (left - 1)).block (by omega)).nested.bind fun _ => .pure _
  · exact opens_expressionStatement left r hr

theorem continues_block (ih : ∀ left, StatementsProgress n left) (enough : 4 * left + 2 ≤ n) :
    Continues 0 left (block (n + 1)) := by
  intro r hr
  rw [block]
  unfold ContinuesAt
  rw [Ends.bind_iff, ends_sees, Ends.bind_iff, ends_atEnd]
  split
  · exact (Opens.expect.continues.bind fun _ => Continues.pure _) r hr
  · rename_i going
    have more : r.rest ≠ [] := by
      rintro none
      simp [none] at going
    have pos := List.length_pos_iff.2 more
    rw [Ends.bind_iff]
    refine ((ih left).declaration enough r more hr).mono (fun first r' h => ?_)
      fun _ _ no => no.elim
    have others : Continues 0 (left - 1) (do
        let others ← block n
        return first.toList ++ others) :=
      ((ih (left - 1)).block (by omega)).bind fun _ => .pure _
    refine (others r' (by omega)).mono (fun _ r'' h' => ⟨by omega, by omega⟩) fun _ r'' h' => ?_
    exact ⟨h'.1, by omega⟩

theorem statementsProgress (n left : Nat) : StatementsProgress n left := by
  induction n generalizing left with
  | zero => constructor <;> intros <;> omega
  | succ n ih =>
    constructor
    case declaration =>
      intro enough r more hr
      rw [declaration_succ]
      refine ends_recover_of_opens (opens_declarationPart ih (by omega) r hr) ?_ more
      exact advances_closed.declarationPart (advances_closed.statements n)
    case statement => exact fun enough => opens_statement ih (by omega)
    case block => exact fun enough => continues_block ih (by omega)

/-! ## Tokens taken -/

/-- When the computation comes to its end, it has taken a token. -/
def Takes (x : Parse α) : Prop :=
  ∀ r, Ends x r (fun _ r' => r'.rest.length < r.rest.length) fun _ _ => True

namespace Takes

variable {x : Parse α} {f : α → Parse β} {kind : Kind} {cause : ParseError.Cause}

theorem bind_left (hx : Takes x) (hf : ∀ a, Advances (f a)) : Takes (x >>= f) := by
  intro r
  rw [Ends.bind_iff]
  refine (hx r).mono (fun a r' h => ?_) fun _ _ _ => trivial
  refine (hf a r').mono (fun _ r'' later => ?_) fun _ _ _ => trivial
  exact Nat.lt_of_le_of_lt later.rest.length_le h

theorem bind_right (hx : Advances x) (hf : ∀ a, Takes (f a)) : Takes (x >>= f) := by
  intro r
  rw [Ends.bind_iff]
  refine (hx r).mono (fun a r' later => ?_) fun _ _ _ => trivial
  refine (hf a r').mono (fun _ r'' h => ?_) fun _ _ _ => trivial
  exact Nat.lt_of_lt_of_le h later.rest.length_le

theorem ite {c : Prop} [Decidable c] {y : Parse α} (hx : Takes x) (hy : Takes y) :
    Takes (if c then x else y) := by
  split
  · exact hx
  · exact hy

theorem fail : Takes (fail cause : Parse α) := fun _ => trivial

theorem expect : Takes (expect kind cause) := by
  intro r
  rw [ends_expect]
  split
  · rename_i seen
    exact Nat.lt_of_succ_le (Nat.le_of_eq (r.length_skip (Reader.ne_nil_of_sees seen)))
  · trivial

theorem nested (hx : Takes x) : Takes (nested x) :=
  bind_right advances_closed.deepen fun _ => hx.bind_left fun _ => advances_closed.ascend.bind
    fun _ => .pure _

theorem levelled (hx : Takes x) : Takes (levelled x) := by
  intro r
  rw [ends_levelled]
  exact (hx r).mono (fun _ _ h => h) fun _ _ _ => trivial

end Takes

/-- A token that is there is taken first. -/
theorem takes_advance_bind {f : Token → Parse α} (more : r.rest ≠ []) (hf : ∀ t, Advances (f t)) :
    Ends (advance >>= f) r (fun _ r' => r'.rest.length < r.rest.length) fun _ _ => True := by
  have length := r.length_skip more
  rw [Ends.bind_iff, ends_advance]
  refine (hf r.next r.skip).mono (fun _ r' later => ?_) fun _ _ _ => trivial
  have le := later.rest.length_le
  omega

/-- Where an expression is read, there was a token in it, with so many steps. -/
structure ExpressionsTake (n : Nat) : Prop where
  assignment : Takes (assignment n)
  leftAssociative : ∀ ls, Takes (leftAssociative n ls)
  unary : Takes (unary n)
  primary : Takes (primary n)

theorem takes_unary (ih : ExpressionsTake n) : Takes (unary (n + 1)) := by
  have all := expressionsAdvance n
  intro r
  rw [unary, Ends.bind_iff, ends_sees, Ends.bind_iff, ends_sees]
  split
  · rename_i seen
    have more : r.rest ≠ [] := by
      rcases Bool.or_eq_true_iff.1 seen with seen | seen <;> exact Reader.ne_nil_of_sees seen
    exact takes_advance_bind more fun _ => (advances_closed.nested all.unary).bind fun _ => .pure _
  · exact ih.primary.bind_left (fun callee => all.calls callee) r

theorem takes_primary (n : Nat) : Takes (primary (n + 1)) := by
  have inner := advances_closed.nested (expressionsAdvance n).assignment
  intro r
  rw [primary, Ends.bind_iff, ends_peek]
  split
  · rename_i kind
    exact takes_advance_bind (Reader.ne_nil_of_next kind Kind.noConfusion) fun _ =>
      Advances.freshId.bind fun _ => .pure _
  · rename_i kind
    exact takes_advance_bind (Reader.ne_nil_of_next kind Kind.noConfusion) fun _ =>
      inner.bind fun _ => (Advances.expect _ _).bind fun _ => .pure _
  · split
    · rename_i value constant
      refine takes_advance_bind (Reader.ne_nil_of_next rfl fun none => ?_) fun _ => .pure _
      rw [none] at constant
      cases constant
    · trivial

theorem expressionsTake (n : Nat) : ExpressionsTake n := by
  induction n with
  | zero =>
    constructor <;> intros <;> simp only [assignment, leftAssociative, unary, primary] <;>
      exact fun _ => trivial
  | succ n ih =>
    have all := expressionsAdvance n
    refine ⟨?_, fun ls => ?_, takes_unary ih, takes_primary n⟩
    · rw [assignment]
      refine (ih.leftAssociative _).bind_left fun target => (Advances.sees _).bind fun _ =>
        .ite ?_ (.pure _)
      exact Advances.advance.bind fun _ => (advances_closed.nested all.assignment).bind fun _ =>
        advances_closed.assignTo _ _ _
    · cases ls with
      | nil =>
        rw [leftAssociative]
        exact ih.unary
      | cons level tighter =>
        rw [leftAssociative]
        exact ((ih.leftAssociative _).bind_left fun _ => all.operands _ _ _).levelled

theorem takes_expressionStatement : Takes expressionStatement :=
  .bind_right advances_expression fun _ => Takes.expect.bind_left fun _ => .pure _

theorem takes_variableDeclaration : Takes variableDeclaration := by
  have ending (name : Token) (initializer : Option Expr) : Advances (do
      let _ ← expect (.symbol .semicolon) .declarationEnd
      return Stmt.var name initializer) :=
    (Advances.expect _ _).bind fun _ => .pure _
  refine Takes.expect.bind_left fun name => (Advances.accept _).bind fun _ => .ite ?_ ?_
  · exact advances_expression.map.bind fun _ => ending name _
  · exact (Advances.pure _).bind fun _ => ending name _

theorem takes_condition (opening closing : ParseError.Cause) : Takes (condition opening closing) :=
  Takes.expect.bind_left fun _ => advances_expression.bind fun _ => (Advances.expect _ _).bind
    fun _ => .pure _

theorem takes_statement (n : Nat) (hb : Takes (block n)) : Takes (statement (n + 1)) := by
  have all := advances_closed.statements n
  have body := all.statement.nested
  rw [statement]
  refine .bind_right .peek fun token => ?_
  split
  · exact .bind_right .advance fun _ => .bind_right (.expect _ _) fun _ =>
      .bind_right advances_closed.assembled.firstClause fun _ =>
      .bind_right (advances_expressionUnless _) fun _ => .bind_right (.expect _ _) fun _ =>
      .bind_right (advances_expressionUnless _) fun _ =>
      Takes.expect.bind_left fun _ => body.bind fun _ => .pure _
  · refine .bind_right .advance fun _ => (takes_condition _ _).bind_left fun _ => body.bind fun _ =>
      (Advances.accept _).bind fun _ => .ite ?_ ?_
    · exact body.map.bind fun _ => .pure _
    · exact (Advances.pure _).bind fun _ => .pure _
  · exact .bind_right .advance fun _ => .bind_right advances_expression fun _ =>
      Takes.expect.bind_left fun _ => .pure _
  · exact .bind_right .advance fun _ => .bind_right (advances_expressionUnless _) fun _ =>
      Takes.expect.bind_left fun _ => .pure _
  · exact .bind_right .advance fun _ => (takes_condition _ _).bind_left fun _ => body.bind fun _ =>
      .pure _
  · exact .bind_right .advance fun _ => hb.nested.bind_left fun _ => .pure _
  · exact takes_expressionStatement

/-- Whatever a block or a statement has read, there was a token in it. -/
theorem takes_statements (n : Nat) : Takes (statement n) ∧ Takes (block n) := by
  induction n with
  | zero => exact ⟨fun _ => trivial, fun _ => trivial⟩
  | succ n ih =>
    refine ⟨takes_statement n ih.2, ?_⟩
    rw [block]
    refine .bind_right (.sees _) fun _ => .bind_right .atEnd fun _ => .ite ?_ ?_
    · exact Takes.expect.bind_left fun _ => .pure _
    · exact .bind_right (statementsAdvance n).declaration fun _ => ih.2.bind_left fun _ => .pure _

theorem takes_declarationPart (n : Nat) : Takes (declarationPart n) := by
  refine .bind_right (.accept _) fun _ => .ite ?_ (.bind_right (.accept _) fun _ => .ite ?_ ?_)
  · exact .bind_right advances_signature fun _ =>
      (takes_statements n).2.nested.bind_left fun _ => .pure _
  · exact takes_variableDeclaration
  · exact .bind_right (.sees _) fun _ => .ite .fail (takes_statements n).1

/-- A declaration that is read in front of a token takes it, be it faulty or not. -/
theorem declaration_takes {result : Option Stmt} (more : r.rest ≠ [])
    (read : declaration n r = .ok result r') :
    ∃ piece, piece ≠ [] ∧ r.rest = piece ++ r'.rest := by
  have later := ((statementsAdvance n).declaration r).ok_of_eq read
  have pos := List.length_pos_iff.2 more
  have less : r'.rest.length < r.rest.length := by
    cases n with
    | zero => cases read
    | succ n =>
      have all := advances_closed.declarationPart (advances_closed.statements n)
      have taken : Ends (recover (declarationPart n)) r
          (fun _ r' => r'.rest.length < r.rest.length) fun _ _ => True := by
        rw [ends_recover]
        refine ((takes_declarationPart n r).and (all r)).mono (fun _ _ h => h.1)
          fun reason stuck h => ?_
        cases reason with
        | exhausted => trivial
        | fault e =>
          have dropped := length_resume_le stuck.rest
          have before := h.2.rest.length_le
          show (resume stuck.rest).length < r.rest.length
          omega
      exact taken.ok_of_eq (by rwa [declaration_succ] at read)
  obtain ⟨piece, eq⟩ := later.rest
  refine ⟨piece, ?_, eq.symm⟩
  rintro rfl
  rw [← eq] at less
  exact absurd less (Nat.lt_irrefl _)

/-! ## Whole programs -/

/-- The declarations of a program are read one after the other up to the end of the tokens. Each of
them takes its own piece of the tokens. -/
inductive InPieces : Reader → List (List Token) → Program → Reader → Prop
  | nil {r : Reader} (ended : r.rest = []) : InPieces r [] [] r
  | cons {n : Nat} {r r' r'' : Reader} {first : Option Stmt} {piece : List Token}
      {pieces : List (List Token)} {others : Program}
      (read : declaration n r = .ok first r') (some : piece ≠ [])
      (taken : r.rest = piece ++ r'.rest) (rest : InPieces r' pieces others r'') :
      InPieces r (piece :: pieces) (first.toList ++ others) r''

/-- Every token is in exactly one piece. -/
theorem InPieces.flatten {pieces : List (List Token)} {program : Program}
    (h : InPieces r pieces program r') : pieces.flatten = r.rest := by
  induction h with
  | nil ended => exact ended.symm
  | cons _ _ taken _ ih => rw [List.flatten_cons, ih, taken]

theorem declarations_inPieces (enough : 4 * r.rest.length + 3 ≤ n) :
    Ends (declarations n) r
      (fun program r' => (∃ pieces, InPieces r pieces program r') ∧ r'.load ≤ r.load)
      fun _ _ => False := by
  induction n generalizing r with
  | zero => omega
  | succ n ih =>
    rw [declarations, Ends.bind_iff, ends_atEnd]
    split
    · rename_i ended
      exact ⟨⟨[], .nil (by simpa using ended)⟩, Nat.le_refl _⟩
    · rename_i going
      have more : r.rest ≠ [] := by simpa using going
      have pos := List.length_pos_iff.2 more
      obtain ⟨first, r₁, read, less, load⟩ :=
        ((statementsProgress n r.rest.length).declaration (by omega) r more
          (Nat.le_refl _)).exists_ok
      obtain ⟨piece, some, taken⟩ := declaration_takes more read
      rw [Ends.bind_iff, Ends.of_eq_ok read, Ends.bind_iff]
      refine (ih (r := r₁) (by omega)).mono (fun others r₂ h => ?_) fun _ _ no => no
      obtain ⟨⟨pieces, rest⟩, load'⟩ := h
      exact ⟨⟨_, .cons read some taken rest⟩, by omega⟩

end Grammar

/-- **Reading ends for any tokens, and every declaration takes some of them.** The tokens fall apart
into pieces, one for each declaration that is read, and there are no more errors than tokens. In
front of a token, a declaration takes at least one whenever it comes to an end, in whatever block
it stands, and with four steps for each token it does come to an end. No rule ever goes back. -/
theorem Program.ofTokens_inPieces (firstId : RefId) (tokens : List Token) :
    (∃ program r pieces,
      Grammar.declarations (4 * (tokens.length + 1)) (.start firstId tokens) = .ok program r ∧
      Program.ofTokens firstId tokens =
        (if r.errors.isEmpty then .ok program else .error r.errors.toList, r.nextId) ∧
      Grammar.InPieces (.start firstId tokens) pieces program r ∧ pieces.flatten = tokens ∧
      r.errors.size ≤ tokens.length) ∧
    (∀ n r result r', r.rest ≠ [] → Grammar.declaration n r = .ok result r' →
      ∃ piece, piece ≠ [] ∧ r.rest = piece ++ r'.rest) ∧
    (∀ n r, r.rest ≠ [] → 4 * r.rest.length + 2 ≤ n →
      ∃ result r', Grammar.declaration n r = .ok result r') ∧
    ∀ n, Grammar.ExpressionsAdvance n ∧ Grammar.StatementsAdvance n := by
  refine ⟨?_, fun _ _ _ _ => Grammar.declaration_takes, fun n r more enough => ?_,
    fun n => ⟨Grammar.expressionsAdvance n, Grammar.statementsAdvance n⟩⟩
  · obtain ⟨program, r, read, ⟨pieces, inPieces⟩, load⟩ :=
      (Grammar.declarations_inPieces (r := .start firstId tokens)
        (n := 4 * (tokens.length + 1)) (Nat.le_succ _)).exists_ok
    refine ⟨program, r, pieces, read, by rw [ofTokens_eq, read], inPieces, inPieces.flatten, ?_⟩
    have start : (Grammar.Reader.start firstId tokens).load = tokens.length := rfl
    unfold Grammar.Reader.load at load start
    omega
  · obtain ⟨result, r', read, -⟩ :=
      ((Grammar.statementsProgress n r.rest.length).declaration enough r more
        (Nat.le_refl _)).exists_ok
    exact ⟨result, r', read⟩

/-- A token that begins nothing: the declaration in front of it is faulty, and takes it. -/
theorem Program.ofTokens_inPieces_equal :
    ∃ result r', Grammar.declaration 6 (.start 0 [⟨.symbol .equal, "=", 1, 0⟩]) = .ok result r' ∧
      ∃ piece, piece ≠ [] ∧ [⟨.symbol .equal, "=", 1, 0⟩] = piece ++ r'.rest := by
  obtain ⟨-, takes, ends, -⟩ := Program.ofTokens_inPieces 0 [⟨.symbol .equal, "=", 1, 0⟩]
  obtain ⟨result, r', read⟩ :=
    ends 6 (.start 0 [⟨.symbol .equal, "=", 1, 0⟩]) (by decide) (by decide)
  exact ⟨result, r', read, takes 6 _ result r' (by decide) read⟩

end Lox
