import Lox.Proofs.Grammar.Completeness
import Lox.Proofs.Grammar.Soundness
import Lox.Proofs.Syntax.Moving

/-!
# Reading moved tokens

What is read does not depend on where the tokens stand, on the identities given before, on what
follows behind the end, or on how many steps are left over. Two readers are compared: the second one
has the tokens of the first at another place, and perhaps more tokens behind them.

* `View` — how the tokens of the second reader differ; `View.Sees` — it stands where the first does.
* `Follows` — the second reader reads what the first one reads, as far as nothing behind the end
  comes into sight; `Follows.bind` — part by part.
* `expressionsFollow`, `statementsFollow` — all rules, by induction on their steps.
* `Program.ofTokens_moved` — with other identities a program is read as the same, or has the same
  errors.
* `Program.ofTokens_append` — one program behind another is read as the statements of both.
-/

namespace Lox

/-- The error at the place it has moved to. -/
def ParseError.moved (d : Shift) (e : ParseError) : ParseError := ⟨e.cause, e.token.moved d⟩

namespace Grammar

/-- The reason to stop, at the place it has moved to. -/
def Stop.moved (d : Shift) : Stop → Stop
  | .fault e => .fault (e.moved d)
  | .exhausted => .exhausted

/-- How the tokens of a second reader differ from those of a first one. -/
structure View where
  /-- How far they are moved. -/
  shift : Shift
  /-- The tokens behind them. -/
  behind : List Token
  /-- Stands for the next token when none is left. -/
  last : Token
  /-- The readers meet the same errors, too. -/
  same : Prop
  alone : same → behind = []
  noElse : startsElse behind = false

namespace View

variable (v : View)

/-- The second reader stands where the first one does. -/
structure Sees (r r' : Reader) : Prop where
  rest : r'.rest = r.rest.map (Token.moved v.shift) ++ v.behind
  last : r'.last = v.last
  ends : v.behind = [] → v.last = r.last.moved v.shift
  errors : r'.errors = r.errors.map (ParseError.moved v.shift)
  depth : r'.depth = r.depth
  limit : r'.limit = r.limit
  nextId : r'.nextId = r.nextId + v.shift.ids

/-- Where the first reader has got to, the tokens behind the end are not in sight. -/
def Clear (r : Reader) : Prop := v.behind = [] ∨ r.rest ≠ []

/-- The second reader can have got as far as the first one. Where a part is known to be complete,
the end may be in sight. -/
def Open (loose : Bool) (r : Reader) : Prop :=
  (v.same ∨ r.errors = #[]) ∧ (loose = true ∨ v.Clear r)

/-- The second reader has at least as many steps left as the first one. -/
def Steps (n n' : Nat) : Prop := n ≤ n' ∧ (v.same → n = n')

variable {v}

theorem Steps.pred {n n' : Nat} (h : v.Steps (n + 1) n') : ∃ m, n' = m + 1 ∧ v.Steps n m := by
  obtain ⟨le, eq⟩ := h
  cases n' with
  | zero => omega
  | succ m => exact ⟨m, rfl, by omega, fun same => Nat.succ.inj (eq same)⟩

namespace Sees

variable {r r' : Reader}

theorem clean (h : v.Sees r r') (clean : r.errors = #[]) : r'.errors = #[] := by
  rw [h.errors, clean, Array.map_empty]

theorem head? (h : v.Sees r r') (clear : v.Clear r) :
    r'.rest.head? = r.rest.head?.map (Token.moved v.shift) := by
  rw [h.rest]
  cases hr : r.rest with
  | nil => rcases clear with none | some <;> simp_all
  | cons t rest => rfl

theorem next (h : v.Sees r r') (clear : v.Clear r) : r'.next = r.next.moved v.shift := by
  unfold Reader.next
  rw [h.head? clear]
  cases hr : r.rest with
  | nil =>
    rcases clear with none | some
    · exact h.last.trans (h.ends none)
    · exact absurd hr some
  | cons t rest => rfl

theorem any (h : v.Sees r r') (clear : v.Clear r) (p : Kind → Bool) :
    r'.rest.head?.any (fun t => p t.kind) = r.rest.head?.any fun t => p t.kind := by
  rw [h.head? clear]
  cases r.rest.head? <;> rfl

theorem sees (h : v.Sees r r') (clear : v.Clear r) (kind : Kind) : r'.sees kind = r.sees kind :=
  h.any clear (· == kind)

/-- No `else` stands behind the end, so that both readers see one or none. -/
theorem seesElse (h : v.Sees r r') : r'.sees (.keyword .else_) = r.sees (.keyword .else_) := by
  cases hr : r.rest with
  | cons t rest => exact h.sees (.inr (by simp [hr])) _
  | nil =>
    have behind : startsElse v.behind = false := v.noElse
    unfold Reader.sees
    rw [h.rest, hr]
    exact behind

theorem skip (h : v.Sees r r') (clear : v.Clear r) : v.Sees r.skip r'.skip where
  rest := by
    show r'.rest.tail = r.rest.tail.map (Token.moved v.shift) ++ v.behind
    rw [h.rest]
    cases hr : r.rest with
    | nil => rcases clear with none | some <;> simp_all
    | cons t rest => rfl
  last := h.last
  ends := h.ends
  errors := h.errors
  depth := h.depth
  limit := h.limit
  nextId := h.nextId

theorem noting (h : v.Sees r r') (e : ParseError) :
    v.Sees (r.noting e) (r'.noting (e.moved v.shift)) :=
  ⟨h.rest, h.last, h.ends, by simp [Reader.noting, h.errors], h.depth, h.limit, h.nextId⟩

theorem atDepth (h : v.Sees r r') (depth : Nat) : v.Sees (r.atDepth depth) (r'.atDepth depth) :=
  ⟨h.rest, h.last, h.ends, h.errors, rfl, h.limit, h.nextId⟩

theorem errorHere (h : v.Sees r r') (clear : v.Clear r) (cause : ParseError.Cause) :
    r'.errorHere cause = (r.errorHere cause).moved v.shift := by
  unfold Reader.errorHere
  rw [h.next clear]
  rfl

end Sees

end View

/-- The computation needs a token: where none is left it ends with an error. -/
def Needs {α : Type} (x : Parse α) : Prop :=
  ∀ r a s, x r = .ok a s → s.errors = #[] → r.rest ≠ []

/-- If the first reader gets through `x` then the second one gets through `y`, as long as the tokens
behind the end are out of sight, and reads the same. If both meet the same errors, it also stops
where the first one does. -/
structure Follows {α β : Type} (v : View) (loose : Bool) (g : α → β) (x : Parse α)
    (y : Parse β) : Prop where
  advances : Advances x
  ok : ∀ {r r' : Reader} {a : α} {s : Reader}, v.Sees r r' → x r = .ok a s → v.Open loose s →
    ∃ s', y r' = .ok (g a) s' ∧ v.Sees s s'
  error : ∀ {r r' : Reader} {stop : Stop} {s : Reader}, v.same → v.Sees r r' →
    x r = .error stop s → ∃ s', y r' = .error (stop.moved v.shift) s' ∧ v.Sees s s'

namespace Needs

variable {α β : Type} {x : Parse α}

theorem bind_left {f : α → Parse β} (hx : Needs x) (hf : ∀ a, Advances (f a)) :
    Needs (x >>= f) := by
  intro r b t h clean
  show r.rest ≠ []
  simp only [Bind.bind, EStateM.bind] at h
  cases hr : x r with
  | ok a s =>
    rw [hr] at h
    exact hx r a s hr (((hf a s).ok_of_eq h).errors_eq_empty clean)
  | error stop s =>
    rw [hr] at h
    cases h

theorem bind_right {f : α → Parse β} (hx : Advances x) (hf : ∀ a, Needs (f a)) :
    Needs (x >>= f) := by
  intro r b t h clean
  simp only [Bind.bind, EStateM.bind] at h
  cases hr : x r with
  | ok a s =>
    rw [hr] at h
    have some := hf a s b t h clean
    have later := (hx r).ok_of_eq hr
    intro none
    exact some (List.suffix_nil.1 (none ▸ later.rest))
  | error stop s =>
    rw [hr] at h
    cases h

theorem ite {c : Prop} [Decidable c] {y : Parse α} (hx : Needs x) (hy : Needs y) :
    Needs (if c then x else y) := by
  split
  · exact hx
  · exact hy

theorem fail (cause : ParseError.Cause) : Needs (fail cause : Parse α) := by
  intro r a s h
  cases h

theorem expect (kind : Kind) (cause : ParseError.Cause) : Needs (expect kind cause) := by
  intro r t s h _ none
  have stopped : Ends (Grammar.expect kind cause) r (fun _ _ => False) fun _ _ => True :=
    ends_expect.2 (by simp [Reader.sees, none])
  exact stopped.ok_of_eq h

theorem nested (hx : Needs x) : Needs (nested x) := by
  refine .bind_right .deepen fun _ => ?_
  exact hx.bind_left fun a => Advances.ascend.bind fun _ => .pure a

/-- What is derived from the tokens taken is derived from some token. -/
theorem of_sound {D : Nat → List Token → α → List Token → Prop} (h : SoundBefore x D)
    (some : ∀ n a rest, ¬D n [] a rest) : Needs x := by
  intro r a s hr clean none
  obtain ⟨-, ts, took, d⟩ := (h r).ok_of_eq hr clean
  have nothing : ts = [] := (List.append_eq_nil_iff.1 (took.rest.symm.trans none)).1
  subst nothing
  exact some _ a _ d

end Needs

namespace Follows

variable {α β γ δ : Type} {v : View} {loose loose' : Bool} {g : α → β} {x : Parse α} {y : Parse β}

theorem pure (a : α) : Follows v loose g (Pure.pure a) (Pure.pure (g a)) where
  advances := .pure a
  ok h hr _ := by
    cases hr
    exact ⟨_, rfl, h⟩
  error _ _ hr := by cases hr

/-- One part after the other. If the end may be in sight only behind the second part, then this part
needs a token. -/
theorem bind {f : α → Parse γ} {f' : β → Parse δ} {k : γ → δ} (hx : Follows v loose g x y)
    (hf : ∀ a, Follows v loose' k (f a) (f' (g a)))
    (needs : loose = false → loose' = true → ∀ a, Needs (f a)) :
    Follows v loose' k (x >>= f) (y >>= f') where
  advances := hx.advances.bind fun a => (hf a).advances
  ok {r r' c t} h hr opened := by
    simp only [Bind.bind, EStateM.bind] at hr ⊢
    cases hs : x r with
    | error stop s =>
      rw [hs] at hr
      cases hr
    | ok a s =>
      rw [hs] at hr
      have later := ((hf a).advances s).ok_of_eq hr
      have openedBefore : v.Open loose s := by
        refine ⟨opened.1.imp id later.errors_eq_empty, ?_⟩
        cases loose with
        | true => exact .inl rfl
        | false =>
          refine .inr ?_
          cases loose' with
          | false =>
            rcases opened.2 with impossible | none | some
            · cases impossible
            · exact .inl none
            · refine .inr fun none => some ?_
              exact List.suffix_nil.1 (none ▸ later.rest)
          | true =>
            rcases opened.1 with same | clean
            · exact .inl (v.alone same)
            · exact .inr (needs rfl rfl a s c t hr clean)
      obtain ⟨s', hs', seen⟩ := hx.ok h hs openedBefore
      rw [hs']
      exact (hf a).ok seen hr opened
  error {r r' stop t} same h hr := by
    simp only [Bind.bind, EStateM.bind] at hr ⊢
    cases hs : x r with
    | error stop' s =>
      rw [hs] at hr
      cases hr
      obtain ⟨s', hs', seen⟩ := hx.error same h hs
      rw [hs']
      exact ⟨s', rfl, seen⟩
    | ok a s =>
      rw [hs] at hr
      obtain ⟨s', hs', seen⟩ := hx.ok h hs ⟨.inl same, .inr (.inl (v.alone same))⟩
      rw [hs']
      exact (hf a).error same seen hr

/-- Both parts may have the end in sight, or neither. -/
theorem then_ {f : α → Parse γ} {f' : β → Parse δ} {k : γ → δ} (hx : Follows v loose g x y)
    (hf : ∀ a, Follows v loose k (f a) (f' (g a))) : Follows v loose k (x >>= f) (y >>= f') :=
  hx.bind hf fun tight loose => by simp [tight] at loose

/-- What is followed even with the end in sight is followed where the end is not. -/
theorem tight (h : Follows v true g x y) : Follows v false g x y where
  advances := h.advances
  ok seen hr opened := h.ok seen hr ⟨opened.1, .inl rfl⟩
  error := h.error

theorem map {k : β → γ} {k' : α → δ} {k'' : δ → γ} (hx : Follows v loose g x y)
    (hk : ∀ a, k (g a) = k'' (k' a)) : Follows v loose k'' (k' <$> x) (k <$> y) where
  advances := hx.advances.map
  ok {r r' b s} h hr opened := by
    simp only [Functor.map, EStateM.map] at hr ⊢
    cases hs : x r with
    | error stop s =>
      rw [hs] at hr
      cases hr
    | ok a s =>
      rw [hs] at hr
      cases hr
      obtain ⟨s', hs', seen⟩ := hx.ok h hs opened
      rw [hs']
      exact ⟨s', congrArg (EStateM.Result.ok · s') (hk a), seen⟩
  error {r r' stop s} same h hr := by
    simp only [Functor.map, EStateM.map] at hr ⊢
    cases hs : x r with
    | ok a s =>
      rw [hs] at hr
      cases hr
    | error stop s =>
      rw [hs] at hr
      cases hr
      obtain ⟨s', hs', seen⟩ := hx.error same h hs
      rw [hs']
      exact ⟨s', rfl, seen⟩

theorem ite {c : Prop} [Decidable c] {x' : Parse α} {y' : Parse β} (hx : Follows v loose g x y)
    (hx' : Follows v loose g x' y') :
    Follows v loose g (if c then x else x') (if c then y else y') := by
  split
  · exact hx
  · exact hx'

/-! ### The steps -/

theorem exhausted (h : v.same → y = exhausted) : Follows v loose g (exhausted : Parse α) y where
  advances := .exhausted
  ok _ hr _ := by cases hr
  error same seen hr := by
    cases hr
    rw [h same]
    exact ⟨_, rfl, seen⟩

theorem fail (cause : ParseError.Cause) :
    Follows v loose g (fail cause : Parse α) (fail cause : Parse β) where
  advances := .fail cause
  ok _ hr _ := by cases hr
  error {r r' stop s} same seen hr := by
    cases hr
    refine ⟨r', ?_, seen⟩
    show EStateM.Result.error (Stop.fault (r'.errorHere cause)) r' = _
    rw [seen.errorHere (.inl (v.alone same))]
    rfl

theorem peek : Follows v false (Token.moved v.shift) peek peek where
  advances := .peek
  ok {r r' a s} seen hr opened := by
    cases hr
    refine ⟨r', ?_, seen⟩
    show EStateM.Result.ok r'.next r' = _
    rw [seen.next (opened.2.resolve_left (by simp))]
  error _ _ hr := by cases hr

theorem sees (kind : Kind) : Follows v false id (sees kind) (sees kind) where
  advances := .sees kind
  ok {r r' a s} seen hr opened := by
    cases hr
    refine ⟨r', ?_, seen⟩
    show EStateM.Result.ok (r'.sees kind) r' = _
    rw [seen.sees (opened.2.resolve_left (by simp))]
    rfl
  error _ _ hr := by cases hr

theorem seesLevel (level : Level) : Follows v false id (seesLevel level) (seesLevel level) where
  advances := .seesLevel level
  ok {r r' a s} seen hr opened := by
    cases hr
    refine ⟨r', ?_, seen⟩
    show EStateM.Result.ok (r'.rest.head?.any fun t => level.has t.kind) r' = _
    rw [seen.any (opened.2.resolve_left (by simp)) level.has]
    rfl
  error _ _ hr := by cases hr

theorem atEnd : Follows v false id atEnd atEnd where
  advances := .atEnd
  ok {r r' a s} seen hr opened := by
    cases hr
    refine ⟨r', ?_, seen⟩
    show EStateM.Result.ok r'.rest.isEmpty r' = _
    have clear := opened.2.resolve_left (by simp)
    rw [seen.rest]
    cases hrest : r.rest with
    | nil => rcases clear with none | some <;> simp_all
    | cons t rest => rfl
  error _ _ hr := by cases hr

theorem advance : Follows v false (Token.moved v.shift) advance advance where
  advances := .advance
  ok {r r' a s} seen hr opened := by
    cases hr
    have clear : v.Clear r := by
      rcases opened.2.resolve_left (by simp) with none | some
      · exact .inl none
      · refine .inr fun none => some ?_
        show r.rest.tail = []
        rw [none, List.tail_nil]
    refine ⟨r'.skip, ?_, seen.skip clear⟩
    show EStateM.Result.ok r'.next r'.skip = _
    rw [seen.next clear]
  error _ _ hr := by cases hr

/-- A token that is expected is there in front of the end, or nowhere. -/
theorem expect (kind : Kind) (cause : ParseError.Cause) :
    Follows v true (Token.moved v.shift) (expect kind cause) (expect kind cause) where
  advances := .expect kind cause
  ok {r r' t s} seen hr _ := by
    simp only [Grammar.expect, Bind.bind, EStateM.bind, Grammar.sees] at hr ⊢
    cases found : r.sees kind with
    | false =>
      rw [found] at hr
      cases hr
    | true =>
      rw [found] at hr
      cases hr
      have clear : v.Clear r := .inr (by simp [(Reader.cons_of_sees found).2])
      rw [seen.sees clear, found]
      refine ⟨r'.skip, ?_, seen.skip clear⟩
      show EStateM.Result.ok r'.next r'.skip = _
      rw [seen.next clear]
  error {r r' stop s} same seen hr := by
    simp only [Grammar.expect, Bind.bind, EStateM.bind, Grammar.sees] at hr ⊢
    rw [seen.sees (.inl (v.alone same))]
    cases found : r.sees kind with
    | false =>
      rw [found] at hr
      have stops : Follows v true (Token.moved v.shift) (Grammar.fail cause) (Grammar.fail cause) :=
        .fail cause
      exact stops.error same seen hr
    | true =>
      rw [found] at hr
      cases hr

theorem accept (kind : Kind) : Follows v false id (accept kind) (accept kind) :=
  (sees kind).then_ fun _ => .ite (advance.then_ fun _ => .pure true) (.pure false)

/-- There is no `else` behind the end that could be taken for one of the part before it. -/
theorem acceptElse :
    Follows v true id (Grammar.accept (.keyword .else_)) (Grammar.accept (.keyword .else_)) where
  advances := .accept _
  ok {r r' b s} seen hr opened := by
    simp only [Grammar.accept, Bind.bind, EStateM.bind, Grammar.sees, seen.seesElse] at hr ⊢
    cases found : r.sees (.keyword .else_) with
    | false =>
      rw [found] at hr
      cases hr
      exact ⟨r', rfl, seen⟩
    | true =>
      rw [found] at hr
      cases hr
      have clear : v.Clear r := .inr (by simp [(Reader.cons_of_sees found).2])
      exact ⟨r'.skip, rfl, seen.skip clear⟩
  error {r r' stop s} same seen hr := (accept _).error same seen hr

theorem note (e : ParseError) :
    Follows v loose id (note e) (note (e.moved v.shift)) where
  advances := .note e
  ok {r r' a s} seen hr _ := by
    cases hr
    exact ⟨_, rfl, seen.noting e⟩
  error _ _ hr := by cases hr

theorem noteHere (cause : ParseError.Cause) : Follows v false id (noteHere cause) (noteHere cause)
    where
  advances := .noteHere cause
  ok {r r' a s} seen hr opened := by
    cases hr
    refine ⟨_, rfl, ?_⟩
    rw [seen.errorHere (opened.2.resolve_left (by simp))]
    exact seen.noting _
  error _ _ hr := by cases hr

theorem freshId : Follows v loose (· + v.shift.ids) freshId freshId where
  advances := .freshId
  ok {r r' a s} seen hr _ := by
    cases hr
    refine ⟨{ r' with nextId := r'.nextId + 1 }, ?_, seen.rest, seen.last, seen.ends, seen.errors,
      seen.depth, seen.limit, ?_⟩
    · show EStateM.Result.ok r'.nextId _ = _
      rw [seen.nextId]
    · show r'.nextId + 1 = r.nextId + 1 + v.shift.ids
      rw [seen.nextId]
      exact Nat.add_right_comm _ _ _
  error _ _ hr := by cases hr

theorem deepen : Follows v loose id deepen deepen where
  advances := .deepen
  ok {r r' a s} seen hr _ := by
    have full : r'.limit ≤ r'.depth ↔ r.limit ≤ r.depth := by rw [seen.limit, seen.depth]
    unfold Grammar.deepen at hr ⊢
    split at hr
    · cases hr
    · rename_i room
      cases hr
      refine ⟨r'.atDepth (r'.depth + 1), if_neg (mt full.1 room), ?_⟩
      rw [seen.depth]
      exact seen.atDepth (r.depth + 1)
  error {r r' stop s} same seen hr := by
    have full : r'.limit ≤ r'.depth ↔ r.limit ≤ r.depth := by rw [seen.limit, seen.depth]
    unfold Grammar.deepen at hr ⊢
    split at hr
    · rename_i deep
      cases hr
      rw [if_pos (full.2 deep), seen.errorHere (.inl (v.alone same))]
      exact ⟨r', rfl, seen⟩
    · cases hr

theorem ascend : Follows v loose id ascend ascend where
  advances := .ascend
  ok {r r' a s} seen hr _ := by
    cases hr
    refine ⟨r'.atDepth (r'.depth - 1), rfl, ?_⟩
    rw [seen.depth]
    exact seen.atDepth _
  error _ _ hr := by cases hr

theorem nested (h : Follows v loose g x y) : Follows v loose g (nested x) (nested y) :=
  deepen.then_ fun _ => h.then_ fun a => ascend.then_ fun _ => .pure a

theorem levelled (h : Follows v loose g x y) : Follows v loose g (levelled x) (levelled y) where
  advances := h.advances.levelled
  ok {r r' a s} seen hr opened := by
    simp only [Grammar.levelled] at hr ⊢
    cases hs : x r with
    | error stop s =>
      rw [hs] at hr
      cases hr
    | ok a s =>
      rw [hs] at hr
      cases hr
      obtain ⟨s', hs', seen'⟩ := h.ok seen hs opened
      rw [hs', seen.depth]
      exact ⟨_, rfl, seen'.atDepth _⟩
  error {r r' stop s} same seen hr := by
    simp only [Grammar.levelled] at hr ⊢
    cases hs : x r with
    | ok a s =>
      rw [hs] at hr
      cases hr
    | error stop s =>
      rw [hs] at hr
      cases hr
      obtain ⟨s', hs', seen'⟩ := h.error same seen hs
      rw [hs']
      exact ⟨s', rfl, seen'⟩

end Follows

theorem resume_moved (d : Shift) (ts : List Token) :
    resume (ts.map (Token.moved d)) = (resume ts).map (Token.moved d) := by
  induction ts with
  | nil => rfl
  | cons t rest ih =>
    have same : (rest.map (Token.moved d)).head?.any Token.startsStatement =
        rest.head?.any Token.startsStatement := by cases rest <;> rfl
    rw [List.map_cons, resume, resume, same, ih, Token.kind_moved]
    split <;> rfl

/-- A part that is given up is given up by both readers, where both meet the same errors. -/
theorem Follows.recover {α β : Type} {v : View} {loose : Bool} {g : α → β} {x : Parse α}
    {y : Parse β} (h : Follows v loose g x y) :
    Follows v loose (Option.map g) (recover x) (recover y) where
  advances := h.advances.recover
  ok {r r' o s} seen hr opened := by
    simp only [Grammar.recover] at hr ⊢
    cases hs : x r with
    | ok a s =>
      rw [hs] at hr
      cases hr
      obtain ⟨s', hs', seen'⟩ := h.ok seen hs opened
      rw [hs']
      exact ⟨s', rfl, seen'⟩
    | error stop s =>
      rw [hs] at hr
      cases stop with
      | exhausted => cases hr
      | fault e =>
        cases hr
        have same : v.same := opened.1.resolve_right (by simp)
        obtain ⟨s', hs', seen'⟩ := h.error same seen hs
        rw [hs', seen.depth]
        refine ⟨_, rfl, ?_, seen'.last, seen'.ends, ?_, rfl, seen'.limit, seen'.nextId⟩
        · show resume s'.rest = (resume s.rest).map (Token.moved v.shift) ++ v.behind
          rw [seen'.rest, v.alone same, List.append_nil, List.append_nil, resume_moved]
        · exact (seen'.noting e).errors
  error {r r' stop s} same seen hr := by
    simp only [Grammar.recover] at hr ⊢
    cases hs : x r with
    | ok a s =>
      rw [hs] at hr
      cases hr
    | error stop s =>
      rw [hs] at hr
      cases stop with
      | fault e => cases hr
      | exhausted =>
        cases hr
        obtain ⟨s', hs', seen'⟩ := h.error same seen hs
        rw [hs']
        exact ⟨s', rfl, seen'⟩

/-! ## Expressions -/

variable {v : View} {n n' : Nat}

theorem join_moved (d : Shift) (level : Level) (left : Expr) (op : Token) (right : Expr) :
    (level.join left op right).moved d =
      level.join (left.moved d) (op.moved d) (right.moved d) := by
  cases level <;> rfl

/-- All rules for expressions are followed, with so many steps for each reader. -/
structure ExpressionsFollow (v : View) (n n' : Nat) : Prop where
  assignment : Follows v false (Expr.moved v.shift) (assignment n) (assignment n')
  leftAssociative : ∀ ls,
    Follows v false (Expr.moved v.shift) (leftAssociative n ls) (leftAssociative n' ls)
  operands : ∀ level tighter left, Follows v false (Expr.moved v.shift)
    (operands n level tighter left) (operands n' level tighter (left.moved v.shift))
  unary : Follows v false (Expr.moved v.shift) (unary n) (unary n')
  calls : ∀ callee, Follows v false (Expr.moved v.shift) (calls n callee)
    (calls n' (callee.moved v.shift))
  arguments : ∀ count,
    Follows v false (Expr.movedAll v.shift) (arguments n count) (arguments n' count)
  primary : Follows v false (Expr.moved v.shift) (primary n) (primary n')

theorem follows_assignTo (target : Expr) (equals : Token) (value : Expr) :
    Follows v false (Expr.moved v.shift) (assignTo target equals value)
      (assignTo (target.moved v.shift) (equals.moved v.shift) (value.moved v.shift)) := by
  cases target with
  | var id name => exact Follows.freshId.then_ fun id' => .pure (Expr.assign id' name value)
  | _ => exact (Follows.note ⟨.invalidTarget, equals⟩).then_ fun _ => .pure _

section

variable {m : Nat}

theorem follows_assignment (ih : ExpressionsFollow v n m) :
    Follows v false (Expr.moved v.shift) (assignment (n + 1)) (assignment (m + 1)) := by
  rw [assignment, assignment]
  refine (ih.leftAssociative _).then_ fun target => (Follows.sees _).then_ fun _ =>
    .ite ?_ (.pure target)
  exact Follows.advance.then_ fun equals => ih.assignment.nested.then_ fun value =>
    follows_assignTo target equals value

theorem follows_leftAssociative (ih : ExpressionsFollow v n m) (ls : List Level) :
    Follows v false (Expr.moved v.shift) (leftAssociative (n + 1) ls)
      (leftAssociative (m + 1) ls) := by
  cases ls with
  | nil =>
    rw [leftAssociative, leftAssociative]
    exact ih.unary
  | cons level tighter =>
    rw [leftAssociative, leftAssociative]
    exact ((ih.leftAssociative _).then_ fun first => ih.operands _ _ first).levelled

theorem follows_operands (ih : ExpressionsFollow v n m) (level : Level) (tighter : List Level)
    (left : Expr) :
    Follows v false (Expr.moved v.shift) (operands (n + 1) level tighter left)
      (operands (m + 1) level tighter (left.moved v.shift)) := by
  rw [operands, operands]
  refine (Follows.seesLevel level).then_ fun _ => .ite ?_ (.pure left)
  refine Follows.deepen.then_ fun _ => Follows.advance.then_ fun op =>
    (ih.leftAssociative _).then_ fun right => ?_
  rw [← join_moved]
  exact ih.operands _ _ _

theorem follows_unary (ih : ExpressionsFollow v n m) :
    Follows v false (Expr.moved v.shift) (unary (n + 1)) (unary (m + 1)) := by
  rw [unary, unary]
  refine (Follows.sees _).then_ fun _ => (Follows.sees _).then_ fun _ => .ite ?_ ?_
  · exact Follows.advance.then_ fun op => ih.unary.nested.then_ fun right =>
      .pure (Expr.unary op right)
  · exact ih.primary.then_ fun callee => ih.calls callee

theorem follows_calls (ih : ExpressionsFollow v n m) (callee : Expr) :
    Follows v false (Expr.moved v.shift) (calls (n + 1) callee)
      (calls (m + 1) (callee.moved v.shift)) := by
  rw [calls, calls]
  refine (Follows.accept _).then_ fun _ => .ite ((Follows.sees _).then_ fun _ => ?_)
    (.pure callee)
  have others (arguments : List Expr) : Follows v false (Expr.moved v.shift)
      (do
        let closing ← expect (.symbol .rightParen) .argumentsClosing
        calls n (.call callee closing arguments))
      (do
        let closing ← expect (.symbol .rightParen) .argumentsClosing
        calls m (.call (callee.moved v.shift) closing (Expr.movedAll v.shift arguments))) :=
    (Follows.expect _ _).tight.then_ fun closing => ih.calls (.call callee closing arguments)
  refine .ite ?_ ((ih.arguments 0).then_ others)
  exact (Follows.pure (g := Expr.movedAll v.shift) []).then_ others

theorem follows_arguments (ih : ExpressionsFollow v n m) (count : Nat) :
    Follows v false (Expr.movedAll v.shift) (arguments (n + 1) count)
      (arguments (m + 1) count) := by
  rw [arguments, arguments]
  have several : Follows v false (Expr.movedAll v.shift)
      (do
        let first ← nested (assignment n)
        if ← accept (.symbol .comma) then
          let others ← arguments n (count + 1)
          return first :: others
        else return [first])
      (do
        let first ← nested (assignment m)
        if ← accept (.symbol .comma) then
          let others ← arguments m (count + 1)
          return first :: others
        else return [first]) :=
    ih.assignment.nested.then_ fun first => (Follows.accept _).then_ fun _ =>
      .ite ((ih.arguments _).then_ fun others => .pure (first :: others)) (.pure [first])
  exact .ite ((Follows.noteHere _).then_ fun _ => several) several

theorem follows_primary (ih : ExpressionsFollow v n m) :
    Follows v false (Expr.moved v.shift) (primary (n + 1)) (primary (m + 1)) := by
  rw [primary, primary]
  refine Follows.peek.then_ fun token => ?_
  rw [Token.kind_moved]
  split
  · exact Follows.advance.then_ fun name => Follows.freshId.then_ fun id =>
      .pure (Expr.var id name)
  · exact Follows.advance.then_ fun _ => ih.assignment.nested.then_ fun inner =>
      (Follows.expect _ _).tight.then_ fun _ => .pure (Expr.grouping inner)
  · split
    · exact Follows.advance.then_ fun _ => .pure (Expr.literal _)
    · exact .fail _

end

theorem expressionsFollow (n n' : Nat) (steps : v.Steps n n') : ExpressionsFollow v n n' := by
  induction n generalizing n' with
  | zero =>
    -- the second reader has no steps either, or need not stop where the first one does
    have none : v.same → n' = 0 := fun same => (steps.2 same).symm
    constructor <;> intros <;>
      simp only [assignment, leftAssociative, operands, unary, calls, arguments, primary] <;>
      exact .exhausted fun same => by
        simp only [none same, assignment, leftAssociative, operands, unary, calls, arguments,
          primary]
  | succ n ih =>
    obtain ⟨m, rfl, fewer⟩ := steps.pred
    have ih := ih m fewer
    exact ⟨follows_assignment ih, follows_leftAssociative ih, follows_operands ih,
      follows_unary ih, follows_calls ih, follows_arguments ih, follows_primary ih⟩

/-- A part that is read in as many steps as tokens are left is followed as it is with any number of
steps. -/
theorem Follows.measured {α β : Type} {loose : Bool} {g : α → β} {x : Nat → Parse α}
    {y : Nat → Parse β} {size : Nat → Nat} (mono : ∀ a b, a ≤ b → size a ≤ size b)
    (h : ∀ n n', v.Steps n n' → Follows v loose g (x n) (y n')) :
    Follows v loose g (fun r => x (size r.rest.length) r) fun r => y (size r.rest.length) r := by
  have steps {r r' : Reader} (seen : v.Sees r r') :
      v.Steps (size r.rest.length) (size r'.rest.length) := by
    rw [seen.rest, List.length_append, List.length_map]
    refine ⟨mono _ _ (Nat.le_add_right _ _), fun same => ?_⟩
    rw [v.alone same, List.length_nil, Nat.add_zero]
  have itself (n : Nat) : v.Steps n n := ⟨Nat.le_refl n, fun _ => rfl⟩
  exact ⟨fun r => (h _ _ (itself _)).advances r, fun seen => (h _ _ (steps seen)).ok seen,
    fun same seen => (h _ _ (steps seen)).error same seen⟩

/-- An expression is read in as many steps as it takes. -/
theorem follows_expression : Follows v false (Expr.moved v.shift) expression expression :=
  .measured (fun _ _ le => Nat.mul_le_mul_left 11 (Nat.succ_le_succ le)) fun n n' steps =>
    (expressionsFollow n n' steps).assignment.nested

/-! ## Statements -/

theorem needs_statement (n : Nat) : Needs (statement n) := by
  refine .of_sound (statementsSound n).statement fun m s rest whole => ?_
  obtain ⟨dangling, inner, -⟩ := whole
  exact absurd inner.begins.length_pos (Nat.lt_irrefl 0)

theorem needs_block (n : Nat) : Needs (block n) := by
  refine .of_sound (.of_sound (statementsSound n).block) fun m ss rest inner => ?_
  obtain ⟨us, right, none, -⟩ := inner
  simp at none

theorem needs_expect_bind {α : Type} (kind : Kind) (cause : ParseError.Cause) {f : Token → Parse α}
    (hf : ∀ t, Advances (f t)) : Needs (expect kind cause >>= f) :=
  (Needs.expect kind cause).bind_left hf

/-- A part that reaches up to a token that is expected behind it. -/
theorem Follows.upTo {α β γ δ : Type} {g : α → β} {x : Parse α} {y : Parse β} {k : γ → δ}
    {f : α → Token → Parse γ} {f' : β → Token → Parse δ} (hx : Follows v false g x y)
    {kind : Kind} {cause : ParseError.Cause}
    (hf : ∀ a t, Follows v true k (f a t) (f' (g a) (t.moved v.shift))) :
    Follows v true k (x >>= fun a => Grammar.expect kind cause >>= f a)
      (y >>= fun b => Grammar.expect kind cause >>= f' b) :=
  hx.bind (fun a => (Follows.expect kind cause).then_ (hf a)) fun _ _ a =>
    needs_expect_bind kind cause fun t => (hf a t).advances

theorem follows_expressionUnless (kind : Kind) :
    Follows v false (Expr.moved? v.shift) (expressionUnless kind) (expressionUnless kind) :=
  (Follows.sees kind).then_ fun _ => .ite (.pure none) (follows_expression.map fun _ => rfl)

theorem follows_expressionStatement :
    Follows v true (Stmt.moved v.shift) expressionStatement expressionStatement :=
  follows_expression.upTo fun value _ => .pure (Stmt.expression value)

theorem follows_variableDeclaration :
    Follows v true (Stmt.moved v.shift) variableDeclaration variableDeclaration := by
  have ended (name : Token) {x y : Parse (Option Expr)}
      (h : Follows v false (Expr.moved? v.shift) x y) :
      Follows v true (Stmt.moved v.shift)
        (do
          let initializer ← x
          let _ ← expect (.symbol .semicolon) .declarationEnd
          return Stmt.var name initializer)
        (do
          let initializer ← y
          let _ ← expect (.symbol .semicolon) .declarationEnd
          return Stmt.var (name.moved v.shift) initializer) :=
    h.upTo fun initializer _ => .pure (Stmt.var name initializer)
  refine (Follows.expect _ _).then_ fun name => (Follows.accept _).bind (fun _ => .ite
    (ended name (follows_expression.map fun _ => rfl)) (ended name (.pure none))) fun _ _ _ => ?_
  exact .ite (.bind_right advances_expression.map fun _ => needs_expect_bind _ _ fun _ => .pure _)
    (.bind_right (.pure _) fun _ => needs_expect_bind _ _ fun _ => .pure _)

/-- Names are read up to the token behind them, so the end stays out of sight. -/
theorem follows_parameters (n n' count : Nat) (steps : v.Steps n n') :
    Follows v false (List.map (Token.moved v.shift)) (parameters n count)
      (parameters n' count) := by
  induction n generalizing n' count with
  | zero =>
    rw [parameters]
    exact .exhausted fun same => by rw [← steps.2 same, parameters]
  | succ n ih =>
    obtain ⟨m, rfl, fewer⟩ := steps.pred
    rw [parameters, parameters]
    have several : Follows v false (List.map (Token.moved v.shift))
        (do
          let first ← expect .identifier .parameterName
          if ← accept (.symbol .comma) then
            let others ← parameters n (count + 1)
            return first :: others
          else return [first])
        (do
          let first ← expect .identifier .parameterName
          if ← accept (.symbol .comma) then
            let others ← parameters m (count + 1)
            return first :: others
          else return [first]) :=
      (Follows.expect _ _).tight.then_ fun first => (Follows.accept _).then_ fun _ =>
        .ite ((ih m _ fewer).then_ fun others => .pure (first :: others)) (.pure [first])
    exact .ite ((Follows.noteHere _).then_ fun _ => several) several

theorem follows_signature :
    Follows v true
      (fun p : Token × List Token => (p.1.moved v.shift, p.2.map (Token.moved v.shift)))
      signature signature := by
  have ended (name : Token) {x y : Parse (List Token)}
      (h : Follows v false (List.map (Token.moved v.shift)) x y) :
      Follows v true
        (fun p : Token × List Token => (p.1.moved v.shift, p.2.map (Token.moved v.shift)))
        (do
          let names ← x
          let _ ← expect (.symbol .rightParen) .parametersClosing
          let _ ← expect (.symbol .leftBrace) .bodyOpening
          return (name, names))
        (do
          let names ← y
          let _ ← expect (.symbol .rightParen) .parametersClosing
          let _ ← expect (.symbol .leftBrace) .bodyOpening
          return (name.moved v.shift, names)) :=
    h.upTo fun names _ => (Follows.expect _ _).then_ fun _ => .pure (name, names)
  have names : Follows v false (List.map (Token.moved v.shift))
      (fun r => parameters (r.rest.length + 1) 0 r) fun r => parameters (r.rest.length + 1) 0 r :=
    .measured (fun _ _ => Nat.succ_le_succ) fun n n' => follows_parameters n n' 0
  refine (Follows.expect _ _).then_ fun name => (Follows.expect _ _).then_ fun _ =>
    (Follows.sees _).bind (fun _ => .ite (ended name (.pure [])) (ended name names)) fun _ _ _ => ?_
  exact .ite
    (.bind_right (.pure _) fun _ => needs_expect_bind _ _ fun _ =>
      .bind (.expect _ _) fun _ => .pure _)
    (.bind_right names.advances fun _ => needs_expect_bind _ _ fun _ =>
      .bind (.expect _ _) fun _ => .pure _)

theorem follows_firstClause :
    Follows v false (Option.map (Stmt.moved v.shift)) firstClause firstClause :=
  (Follows.accept _).then_ fun _ => .ite (.pure none) <| (Follows.accept _).then_ fun _ =>
    .ite (follows_variableDeclaration.tight.map fun _ => rfl)
      (follows_expressionStatement.tight.map fun _ => rfl)

theorem follows_condition (opening closing : ParseError.Cause) :
    Follows v true (Expr.moved v.shift) (condition opening closing) (condition opening closing) :=
  (Follows.expect _ _).then_ fun _ => follows_expression.upTo fun test _ => .pure test

theorem needs_condition (opening closing : ParseError.Cause) : Needs (condition opening closing) :=
  needs_expect_bind _ _ fun _ => advances_expression.bind fun _ =>
    .bind (.expect _ _) fun _ => .pure _

theorem needs_variableDeclaration : Needs variableDeclaration :=
  needs_expect_bind _ _ fun _ => .bind (.accept _) fun _ => .ite
    (advances_expression.map.bind fun _ => .bind (.expect _ _) fun _ => .pure _)
    (.bind (.pure _) fun _ => .bind (.expect _ _) fun _ => .pure _)

theorem desugarFor_moved (d : Shift) (first : Option Stmt) (condition last : Option Expr)
    (body : Stmt) : (desugarFor first condition last body).moved d =
      desugarFor (first.map (Stmt.moved d)) (Expr.moved? d condition) (Expr.moved? d last)
        (body.moved d) := by
  cases first <;> cases condition <;> cases last <;> rfl

theorem moved_ifThen (d : Shift) (test : Expr) (yes : Stmt) (no : Option Stmt) :
    (Stmt.ifThen test yes no).moved d =
      .ifThen (test.moved d) (yes.moved d) (no.map (Stmt.moved d)) := by
  cases no <;> rfl

theorem movedAll_toList (d : Shift) (first : Option Stmt) (others : List Stmt) :
    Stmt.movedAll d (first.toList ++ others) =
      (first.map (Stmt.moved d)).toList ++ Stmt.movedAll d others := by
  cases first <;> rfl

/-- All rules for statements are followed, with so many steps for each reader. -/
structure StatementsFollow (v : View) (n n' : Nat) : Prop where
  declaration : Follows v true (Option.map (Stmt.moved v.shift)) (declaration n) (declaration n')
  statement : Follows v true (Stmt.moved v.shift) (statement n) (statement n')
  block : Follows v true (Stmt.movedAll v.shift) (block n) (block n')

/-- The next token is in sight if the whole part needs one. -/
theorem Follows.peek_bind {γ δ : Type} {k : γ → δ} {f : Token → Parse γ} {f' : Token → Parse δ}
    (whole : Needs (Grammar.peek >>= f))
    (hf : ∀ t, Follows v true k (f t) (f' (t.moved v.shift))) :
    Follows v true k (Grammar.peek >>= f) (Grammar.peek >>= f') where
  advances := Advances.peek.bind fun t => (hf t).advances
  ok {r r' c s} seen hr opened := by
    have clear : v.Clear r := by
      rcases opened.1 with same | clean
      · exact .inl (v.alone same)
      · exact .inr (whole r c s hr clean)
    show ∃ s', f' r'.next r' = .ok (k c) s' ∧ v.Sees s s'
    rw [seen.next clear]
    exact (hf r.next).ok seen hr opened
  error {r r' stop s} same seen hr := by
    show ∃ s', f' r'.next r' = .error (stop.moved v.shift) s' ∧ v.Sees s s'
    rw [seen.next (.inl (v.alone same))]
    exact (hf r.next).error same seen hr

section

variable {m : Nat}

theorem follows_declaration (ih : StatementsFollow v n m) :
    Follows v true (Option.map (Stmt.moved v.shift)) (declaration (n + 1))
      (declaration (m + 1)) := by
  rw [declaration, declaration]
  refine .recover ((Follows.accept _).bind (fun _ => .ite ?_ ?_) fun _ _ _ => .ite ?_ ?_)
  · exact follows_signature.then_ fun p => ih.block.nested.then_ fun body =>
      .pure (Stmt.function p.1 p.2 body)
  · refine (Follows.accept _).bind (fun _ => .ite follows_variableDeclaration
      ((Follows.sees _).bind (fun _ => .ite (.fail _) ih.statement) ?_)) ?_
    · exact fun _ _ _ => .ite (.fail _) (needs_statement n)
    · exact fun _ _ _ => .ite needs_variableDeclaration <| .bind_right (.sees _) fun _ =>
        .ite (.fail _) (needs_statement n)
  · exact .bind_right advances_signature fun _ => (needs_block n).nested.bind_left fun _ => .pure _
  · exact .bind_right (.accept _) fun _ => .ite needs_variableDeclaration <|
      .bind_right (.sees _) fun _ => .ite (.fail _) (needs_statement n)

theorem follows_statement (ih : StatementsFollow v n m) :
    Follows v true (Stmt.moved v.shift) (statement (n + 1)) (statement (m + 1)) := by
  have whole := needs_statement (n + 1)
  rw [statement] at whole ⊢
  rw [statement]
  refine .peek_bind whole fun token => ?_
  rw [Token.kind_moved]
  split
  · refine Follows.advance.upTo fun _ _ => ?_
    refine follows_firstClause.bind (fun first => ?_) fun _ _ _ => ?_
    · refine (follows_expressionUnless _).upTo fun test _ => ?_
      refine (follows_expressionUnless _).upTo fun last _ => ?_
      refine ih.statement.nested.then_ fun body => ?_
      rw [← desugarFor_moved]
      exact .pure _
    · refine .bind_right (advances_expressionUnless _) fun _ => needs_expect_bind _ _ fun _ => ?_
      refine (advances_expressionUnless _).bind fun _ => .bind (.expect _ _) fun _ => ?_
      exact (statementsAdvance n).statement.nested.bind fun _ => .pure _
  · refine Follows.advance.bind (fun _ => ?_) fun _ _ _ => ?_
    · have other : Follows v true (Option.map (Stmt.moved v.shift))
          (some <$> nested (statement n)) (some <$> nested (statement m)) :=
        ih.statement.nested.map fun _ => rfl
      have joined (test : Expr) (yes : Stmt) (no : Option Stmt) :
          Follows v true (Stmt.moved v.shift) (pure (.ifThen test yes no))
            (pure (.ifThen (test.moved v.shift) (yes.moved v.shift)
              (no.map (Stmt.moved v.shift)))) :=
        moved_ifThen v.shift test yes no ▸ .pure _
      exact (follows_condition _ _).then_ fun test => ih.statement.nested.then_ fun yes =>
        Follows.acceptElse.then_ fun _ =>
          .ite (other.then_ (joined test yes))
            ((Follows.pure (g := Option.map (Stmt.moved v.shift)) none).then_ (joined test yes))
    · have later := (statementsAdvance n).statement.nested
      exact (needs_condition _ _).bind_left fun _ => later.bind fun _ => .bind (.accept _) fun _ =>
        .ite (later.map.bind fun _ => .pure _) (.bind (.pure _) fun _ => .pure _)
  · refine Follows.advance.bind (fun keyword => ?_) fun _ _ _ => ?_
    · exact follows_expression.upTo fun value _ => .pure (Stmt.print keyword value)
    · exact .bind_right advances_expression fun _ => needs_expect_bind _ _ fun _ => .pure _
  · refine Follows.advance.bind (fun keyword => ?_) fun _ _ _ => ?_
    · exact (follows_expressionUnless _).upTo fun value _ => .pure (Stmt.ret keyword value)
    · exact .bind_right (advances_expressionUnless _) fun _ =>
        needs_expect_bind _ _ fun _ => .pure _
  · refine Follows.advance.bind (fun _ => ?_) fun _ _ _ => ?_
    · exact (follows_condition _ _).then_ fun test => ih.statement.nested.then_ fun body =>
        .pure (Stmt.whileDo test body)
    · exact (needs_condition _ _).bind_left fun _ =>
        (statementsAdvance n).statement.nested.bind fun _ => .pure _
  · refine Follows.advance.bind (fun _ => ?_) fun _ _ _ => ?_
    · exact ih.block.nested.then_ fun body => .pure (Stmt.block body)
    · exact (needs_block n).nested.bind_left fun _ => .pure _
  · exact follows_expressionStatement

theorem follows_block (ih : StatementsFollow v n m) :
    Follows v true (Stmt.movedAll v.shift) (block (n + 1)) (block (m + 1)) := by
  rw [block, block]
  have parts (closing : Bool) : Follows v true (Stmt.movedAll v.shift)
      (if closing then do
        let _ ← expect (.symbol .rightBrace) .blockClosing
        return []
      else do
        let first ← declaration n
        let others ← block n
        return first.toList ++ others)
      (if closing then do
        let _ ← expect (.symbol .rightBrace) .blockClosing
        return []
      else do
        let first ← declaration m
        let others ← block m
        return first.toList ++ others) := by
    refine .ite ((Follows.expect _ _).then_ fun _ => .pure []) ?_
    refine ih.declaration.then_ fun first => ih.block.then_ fun others => ?_
    rw [← movedAll_toList]
    exact .pure _
  have needs (closing : Bool) : Needs
      (if closing then do
        let _ ← expect (.symbol .rightBrace) .blockClosing
        return []
      else do
        let first ← declaration n
        let others ← block n
        return first.toList ++ others) :=
    .ite (needs_expect_bind _ _ fun _ => .pure _)
      (.bind_right (statementsAdvance n).declaration fun _ =>
        (needs_block n).bind_left fun _ => .pure _)
  exact (Follows.sees _).bind (fun _ => Follows.atEnd.bind (fun _ => parts _) fun _ _ _ => needs _)
    fun _ _ _ => .bind_right .atEnd fun _ => needs _

end

theorem statementsFollow (n n' : Nat) (steps : v.Steps n n') : StatementsFollow v n n' := by
  induction n generalizing n' with
  | zero =>
    have none : v.same → n' = 0 := fun same => (steps.2 same).symm
    constructor <;> simp only [declaration, statement, block] <;>
      exact .exhausted fun same => by simp only [none same, declaration, statement, block]
  | succ n ih =>
    obtain ⟨m, rfl, fewer⟩ := steps.pred
    have ih := ih m fewer
    exact ⟨follows_declaration ih, follows_statement ih, follows_block ih⟩

theorem follows_declarations (n n' : Nat) (steps : v.Steps n n') :
    Follows v false (Stmt.movedAll v.shift) (declarations n) (declarations n') := by
  induction n generalizing n' with
  | zero =>
    rw [declarations]
    exact .exhausted fun same => by rw [← steps.2 same, declarations]
  | succ n ih =>
    obtain ⟨m, rfl, fewer⟩ := steps.pred
    rw [declarations, declarations]
    refine Follows.atEnd.then_ fun _ => .ite (.pure []) ?_
    refine (statementsFollow n m fewer).declaration.tight.then_ fun first =>
      (ih m fewer).then_ fun others => ?_
    rw [← movedAll_toList]
    exact .pure _

/-! ## Programs -/

theorem bind_eq_ok_iff {α β : Type} {x : Parse α} {f : α → Parse β} {r t : Reader} {b : β} :
    (x >>= f) r = .ok b t ↔ ∃ a s, x r = .ok a s ∧ f a s = .ok b t := by
  simp only [Bind.bind, EStateM.bind]
  cases x r with
  | ok a s =>
    refine ⟨fun h => ⟨a, s, rfl, h⟩, ?_⟩
    rintro ⟨_, _, ⟨⟩, h⟩
    exact h
  | error stop s =>
    refine ⟨fun h => (by cases h), ?_⟩
    rintro ⟨_, _, ⟨⟩, -⟩

/-- At its end a reader reads no declaration, and elsewhere the next one and then the others. -/
theorem declarations_eq_ok_iff {n : Nat} {r s : Reader} {ss : List Stmt} :
    declarations (n + 1) r = .ok ss s ↔
      (r.rest = [] ∧ ss = [] ∧ s = r) ∨ (r.rest ≠ [] ∧ ∃ first others r₁,
        declaration n r = .ok first r₁ ∧ declarations n r₁ = .ok others s ∧
          ss = first.toList ++ others) := by
  rw [declarations, bind_eq_ok_iff]
  constructor
  · rintro ⟨_, _, ⟨⟩, read⟩
    split at read
    · rename_i empty
      cases read
      exact .inl ⟨List.isEmpty_iff.1 empty, rfl, rfl⟩
    · rename_i some
      obtain ⟨first, r₁, hfirst, read⟩ := bind_eq_ok_iff.1 read
      obtain ⟨others, _, hothers, ⟨⟩⟩ := bind_eq_ok_iff.1 read
      exact .inr ⟨mt List.isEmpty_iff.2 some, first, others, r₁, hfirst, hothers, rfl⟩
  · rintro (⟨empty, rfl, rfl⟩ | ⟨some, first, others, r₁, hfirst, hothers, rfl⟩)
    · refine ⟨true, s, by rw [atEnd, empty, List.isEmpty_nil], rfl⟩
    · refine ⟨false, r, by rw [atEnd, List.isEmpty_eq_false_iff.2 some], ?_⟩
      exact bind_eq_ok_iff.2 ⟨first, r₁, hfirst, bind_eq_ok_iff.2 ⟨others, s, hothers, rfl⟩⟩

/-- Up to its end the first reader is followed also where tokens stand behind the end. There the
second one goes on. -/
theorem declarations_append (free : ¬v.same) {n m : Nat} {r r' s : Reader} {ss : List Stmt}
    (seen : v.Sees r r') (read : declarations n r = .ok ss s) (clean : s.errors = #[])
    (steps : n ≤ ss.length + m) :
    ∃ s', v.Sees s s' ∧ ∀ {others t}, declarations m s' = .ok others t →
      declarations (ss.length + m) r' = .ok (Stmt.movedAll v.shift ss ++ others) t := by
  induction n generalizing r r' ss with
  | zero => cases read
  | succ n ih =>
    rcases declarations_eq_ok_iff.1 read with ⟨-, rfl, rfl⟩ |
      ⟨some, first, others, r₁, hfirst, hothers, rfl⟩
    · refine ⟨r', seen, fun later => ?_⟩
      rwa [List.length_nil, Nat.zero_add]
    have clean₁ := ((advances_declarations n r₁).ok_of_eq hothers).errors_eq_empty clean
    obtain ⟨-, ts, -, whole, rfl, -⟩ := ((statementsSound n).declaration r).ok_of_eq hfirst clean₁
    have length : (Option.toList (Option.some whole) ++ others).length = others.length + 1 := rfl
    rw [length] at steps ⊢
    have more : v.Steps n (others.length + m) := ⟨by omega, fun same => absurd same free⟩
    obtain ⟨r₁', hfirst', seen₁⟩ :=
      (statementsFollow _ _ more).declaration.ok seen hfirst ⟨.inr clean₁, .inl rfl⟩
    obtain ⟨s', seen', go⟩ := ih seen₁ hothers more.1
    refine ⟨s', seen', fun {later t} hlater => ?_⟩
    rw [Nat.add_right_comm, declarations_eq_ok_iff]
    refine .inr ⟨?_, _, _, r₁', hfirst', go hlater, rfl⟩
    rw [seen.rest]
    simpa using fun none => absurd none some

/-! ## Whole programs -/

theorem moved_ids_errors (k : Nat) (errors : Array ParseError) :
    errors.map (ParseError.moved ⟨0, 0, k⟩) = errors := by
  rw [show ParseError.moved ⟨0, 0, k⟩ = id from rfl, Array.map_id]

/-- Each declaration takes a token. -/
theorem IsDeclarations.length_le {width n : Nat} {ts : List Token} {ss : List Stmt}
    (h : IsDeclarations width n ts ss) : ss.length ≤ ts.length := by
  induction ss generalizing ts with
  | nil => exact Nat.zero_le _
  | cons s ss ih =>
    cases h with
    | cons first others =>
      rw [List.length_cons, List.length_append]
      have := first.begins.length_pos
      have := ih others
      omega

theorem startsElse_map (d : Shift) (ts : List Token) :
    startsElse (ts.map (Token.moved d)) = startsElse ts := by
  cases ts <;> rfl

theorem endOf_append {ts us : List Token} (d : Shift) (some : us ≠ []) :
    Token.endOf (ts ++ us.map (Token.moved d)) = (Token.endOf us).moved d := by
  obtain ⟨last, hlast⟩ := Option.ne_none_iff_exists'.1 (mt List.getLast?_eq_none_iff.1 some)
  unfold Token.endOf
  rw [List.getLast?_append, List.getLast?_map, hlast]
  simp only [Option.map_some, Option.some_or, Token.moved, Nat.add_right_comm]

end Grammar

namespace Program

open Grammar

/-- The reader that starts to read a program. -/
abbrev start (firstId : RefId) (tokens : List Token) : Reader :=
  ⟨tokens, Token.endOf tokens, Token.kind_endOf tokens, #[], 0, maxNesting, firstId⟩

/-- With greater identities the same program is read, or the same errors are found. -/
theorem ofTokens_moved (firstId k : Nat) (tokens : List Token) :
    Program.ofTokens (firstId + k) tokens =
      ((Program.ofTokens firstId tokens).1.map (Stmt.movedAll ⟨0, 0, k⟩),
        (Program.ofTokens firstId tokens).2 + k) := by
  let v : View := ⟨⟨0, 0, k⟩, [], Token.endOf tokens, True, fun _ => rfl, rfl⟩
  have seen : v.Sees (start firstId tokens) (start (firstId + k) tokens) :=
    ⟨by simp [v], rfl, fun _ => rfl, by simp, rfl, rfl, rfl⟩
  have follows := follows_declarations (v := v) (4 * (tokens.length + 1)) _
    ⟨Nat.le_refl _, fun _ => rfl⟩
  have errors (s s' : Reader) (later : v.Sees s s') : s'.errors = s.errors :=
    later.errors.trans (moved_ids_errors k s.errors)
  unfold Program.ofTokens
  simp only
  cases hr : declarations (4 * (tokens.length + 1)) (start firstId tokens) with
  | ok ss s =>
    obtain ⟨s', hs', later⟩ := follows.ok seen hr ⟨.inl trivial, .inr (.inl rfl)⟩
    simp only [hs', errors s s' later, later.nextId]
    split <;> rfl
  | error stop s =>
    obtain ⟨s', hs', later⟩ := follows.error trivial seen hr
    simp only [hs', errors s s' later, later.nextId]
    rfl

/-- A program is read up to where the tokens of another one stand behind it. -/
theorem reach_behind {firstId : RefId} {tokens behind : List Token} {program : Program} {r : Reader}
    (noElse : startsElse behind = false) {n m : Nat}
    (read : declarations n (start firstId tokens) = .ok program r) (clean : r.errors = #[])
    (steps : n ≤ program.length + m) :
    ∃ s, s.rest = behind ∧ s.last = Token.endOf (tokens ++ behind) ∧ s.errors = #[] ∧ s.depth = 0 ∧
      s.limit = maxNesting ∧ s.nextId = r.nextId ∧
      ∀ {others t}, declarations m s = .ok others t →
        declarations (program.length + m) (start firstId (tokens ++ behind)) =
          .ok (program ++ others) t := by
  let v : View := ⟨.zero, behind, Token.endOf (tokens ++ behind), False, False.elim, noElse⟩
  have seen : v.Sees (start firstId tokens) (start firstId (tokens ++ behind)) := by
    refine ⟨by simp [v, Shift.zero], rfl, fun none => ?_, by simp, rfl, rfl, rfl⟩
    show Token.endOf (tokens ++ behind) = Token.endOf tokens
    rw [show behind = [] from none, List.append_nil]
  obtain ⟨empty, reads⟩ := (sound_declarations _ _).ok_of_eq read
  obtain ⟨-, _, took, -⟩ := reads clean
  obtain ⟨s, later, go⟩ := declarations_append id seen read clean steps
  refine ⟨s, ?_, later.last, later.clean clean, later.depth.trans took.depth,
    later.limit.trans took.limit, later.nextId, fun later => ?_⟩
  · rw [later.rest, empty]
    rfl
  · rw [go later, show v.shift = .zero from rfl, Stmt.movedAll_zero]

/-- The tokens of one program and then those of another one are both programs one behind the other,
if each of them is one. -/
theorem ofTokens_append {firstId nextId nextId' : RefId} {tokens tokens' : List Token}
    {program program' : Program} (lines bytes : Nat)
    (first : Program.ofTokens firstId tokens = (.ok program, nextId))
    (second : Program.ofTokens nextId tokens' = (.ok program', nextId')) :
    Program.ofTokens firstId (tokens ++ tokens'.map (Token.moved ⟨lines, bytes, 0⟩)) =
      (.ok (program ++ Stmt.movedAll ⟨lines, bytes, 0⟩ program'), nextId') := by
  obtain ⟨r, hr, clean, rfl⟩ := ok_of_ofTokens first
  obtain ⟨r', hr', clean', rfl⟩ := ok_of_ofTokens second
  by_cases some : tokens' = []
  · subst some
    rcases declarations_eq_ok_iff.1 hr' with ⟨-, rfl, rfl⟩ | ⟨some, -⟩
    · simpa [Stmt.movedAll] using first
    · exact absurd rfl some
  have noElse : startsElse (tokens'.map (Token.moved ⟨lines, bytes, 0⟩)) = false := by
    rw [startsElse_map, ← List.append_nil tokens']
    exact (isDeclarations_of_ok hr' clean').noElse rfl
  have length := (isDeclarations_of_ok hr clean).length_le
  obtain ⟨m, total⟩ : ∃ m, program.length + m = 4 * (tokens.length + tokens'.length + 1) :=
    Nat.le.dest (by omega)
  obtain ⟨s, rest, last, errors, depth, limit, nextId, go⟩ := reach_behind noElse hr clean
    (m := m) (by omega)
  -- the second program is read where the first one has ended
  let v : View := ⟨⟨lines, bytes, 0⟩, [], s.last, False, False.elim, rfl⟩
  have seen : v.Sees (start r.nextId tokens') s :=
    ⟨rest.trans (List.append_nil _).symm, rfl, fun _ => last.trans (endOf_append _ some),
      by simp [errors], depth, limit, nextId⟩
  obtain ⟨s', hs', later⟩ := (follows_declarations (v := v) _ m ⟨by omega, False.elim⟩).ok seen hr'
    ⟨.inr clean', .inr (.inl rfl)⟩
  have whole := go hs'
  rw [total] at whole
  simp only [Program.ofTokens, List.length_append, List.length_map, whole, later.clean clean',
    later.nextId]
  rfl

end Program

end Lox
