import Lox.Proofs.Ending
import Lox.Proofs.Grammar.Rules

/-!
# Steps of reading

How each step that the rules of the grammar are made of ends, so that the rules can be followed
without opening the steps.

* `Reader.start` — the reader of a whole program.
* `Reader.skip` — the reader behind its next token; `Reader.cons_of_sees` — the token that is
  seen is the first of those left.
* `ends_*` — the endings of the steps.
* `Reader.Later` — what never goes back while a part is read; `Advances`, `advances_closed` — every
  rule leads to a later reader, however it ends.
* `Program.ok_of_ofTokens` — the reader that has read a whole program.
-/

namespace Lox.Grammar

namespace Reader

/-- The reader behind the next token. -/
def skip (r : Reader) : Reader := { r with rest := r.rest.tail }

/-- The reader that the tokens of a program are read by. -/
def start (firstId : RefId) (tokens : List Token) : Reader :=
  ⟨tokens, Token.endOf tokens, Token.kind_endOf tokens, #[], 0, maxNesting, firstId⟩

/-- The reader with another depth. -/
def atDepth (r : Reader) (depth : Nat) : Reader := { r with depth := depth }

variable {r : Reader}

theorem cons_of_sees {kind : Kind} (h : r.sees kind) :
    r.next.kind = kind ∧ r.rest = r.next :: r.skip.rest := by
  unfold sees at h
  cases hr : r.rest with
  | nil => simp [hr] at h
  | cons t rest =>
    rw [hr] at h
    exact ⟨by simpa [next, hr] using h, by simp [next, skip, hr]⟩

theorem sees_of_next {kind : Kind} (h : r.next.kind = kind) (hk : kind ≠ .endOfInput) :
    r.sees kind := by
  unfold next at h
  cases hr : r.rest with
  | nil => exact absurd (h.symm.trans (by simpa [hr] using r.last_kind)) hk
  | cons t rest => simpa [sees, hr] using h

theorem sees_cons {kind : Kind} {t : Token} {rest : List Token} (h : r.rest = t :: rest) :
    r.sees kind = (t.kind == kind) := by
  simp [sees, h]

theorem next_cons {t : Token} {rest : List Token} (h : r.rest = t :: rest) : r.next = t := by
  simp [next, h]

theorem skip_cons {t : Token} {rest : List Token} (h : r.rest = t :: rest) :
    r.skip.rest = rest := by
  simp [skip, h]

@[simp] theorem errors_skip : r.skip.errors = r.errors := rfl
@[simp] theorem depth_skip : r.skip.depth = r.depth := rfl
@[simp] theorem limit_skip : r.skip.limit = r.limit := rfl
@[simp] theorem nextId_skip : r.skip.nextId = r.nextId := rfl

variable {depth : Nat}

@[simp] theorem rest_atDepth : (r.atDepth depth).rest = r.rest := rfl
@[simp] theorem errors_atDepth : (r.atDepth depth).errors = r.errors := rfl
@[simp] theorem depth_atDepth : (r.atDepth depth).depth = depth := rfl
@[simp] theorem limit_atDepth : (r.atDepth depth).limit = r.limit := rfl
@[simp] theorem nextId_atDepth : (r.atDepth depth).nextId = r.nextId := rfl

variable {e : ParseError}

@[simp] theorem rest_noting : (r.noting e).rest = r.rest := rfl
@[simp] theorem errors_noting : (r.noting e).errors = r.errors.push e := rfl
@[simp] theorem depth_noting : (r.noting e).depth = r.depth := rfl
@[simp] theorem limit_noting : (r.noting e).limit = r.limit := rfl
@[simp] theorem nextId_noting : (r.noting e).nextId = r.nextId := rfl

end Reader

/-! ## Endings -/

section Endings

variable {α : Type} {r : Reader} {kind : Kind} {cause : ParseError.Cause}
variable {stop : Stop → Reader → Prop}

@[simp] theorem ends_peek {ok : Token → Reader → Prop} : Ends peek r ok stop ↔ ok r.next r :=
  Iff.rfl

@[simp] theorem ends_sees {ok : Bool → Reader → Prop} :
    Ends (sees kind) r ok stop ↔ ok (r.sees kind) r := Iff.rfl

@[simp] theorem ends_atEnd {ok : Bool → Reader → Prop} :
    Ends atEnd r ok stop ↔ ok r.rest.isEmpty r := Iff.rfl

@[simp] theorem ends_seesLevel {level : Level} {ok : Bool → Reader → Prop} :
    Ends (seesLevel level) r ok stop ↔ ok (r.rest.head?.any fun t => level.has t.kind) r := Iff.rfl

@[simp] theorem ends_advance {ok : Token → Reader → Prop} :
    Ends advance r ok stop ↔ ok r.next r.skip := Iff.rfl

@[simp] theorem ends_note {e : ParseError} {ok : Unit → Reader → Prop} :
    Ends (note e) r ok stop ↔ ok () (r.noting e) := Iff.rfl

@[simp] theorem ends_noteHere {ok : Unit → Reader → Prop} :
    Ends (noteHere cause) r ok stop ↔ ok () (r.noting (r.errorHere cause)) := Iff.rfl

@[simp] theorem ends_freshId {ok : RefId → Reader → Prop} :
    Ends freshId r ok stop ↔ ok r.nextId { r with nextId := r.nextId + 1 } := Iff.rfl

@[simp] theorem ends_fail {ok : α → Reader → Prop} :
    Ends (fail cause) r ok stop ↔ stop (.fault (r.errorHere cause)) r := Iff.rfl

@[simp] theorem ends_exhausted {ok : α → Reader → Prop} :
    Ends exhausted r ok stop ↔ stop .exhausted r := Iff.rfl

theorem ends_accept {ok : Bool → Reader → Prop} :
    Ends (accept kind) r ok stop ↔ if r.sees kind then ok true r.skip else ok false r := by
  simp only [accept, Ends.bind_iff, ends_sees]
  split <;> simp

theorem ends_expect {ok : Token → Reader → Prop} :
    Ends (expect kind cause) r ok stop ↔
      if r.sees kind then ok r.next r.skip else stop (.fault (r.errorHere cause)) r := by
  simp only [expect, Ends.bind_iff, ends_sees]
  split <;> simp

theorem ends_deepen {ok : Unit → Reader → Prop} :
    Ends deepen r ok stop ↔
      if r.limit ≤ r.depth then stop (.fault (r.errorHere .tooMuchNesting)) r
      else ok () (r.atDepth (r.depth + 1)) := by
  by_cases h : r.limit ≤ r.depth <;> simp [Ends, deepen, h, Reader.atDepth]

theorem ends_nested {part : Parse α} {ok : α → Reader → Prop} :
    Ends (nested part) r ok stop ↔
      if r.limit ≤ r.depth then stop (.fault (r.errorHere .tooMuchNesting)) r
      else Ends part (r.atDepth (r.depth + 1)) (fun a r' => ok a (r'.atDepth (r'.depth - 1)))
        stop := by
  simp only [nested, Ends.bind_iff, ends_deepen]
  rfl

theorem ends_levelled {part : Parse α} {ok : α → Reader → Prop} :
    Ends (levelled part) r ok stop ↔
      Ends part r (fun a r' => ok a (r'.atDepth r.depth)) stop := by
  simp only [Ends, levelled]
  cases part r <;> rfl

theorem ends_recover {part : Parse α} {ok : Option α → Reader → Prop} :
    Ends (recover part) r ok stop ↔
      Ends part r (fun a r' => ok (some a) r') fun reason r' =>
        match reason with
        | .fault e => ok none { (r'.noting e).atDepth r.depth with rest := resume r'.rest }
        | .exhausted => stop .exhausted r' := by
  simp only [Ends, recover]
  cases part r with
  | ok a r' => rfl
  | error reason r' => cases reason <;> rfl

@[simp] theorem ends_expression {ok : Expr → Reader → Prop} :
    Ends expression r ok stop ↔
      Ends (nested (assignment (11 * (r.rest.length + 1)))) r ok stop := by
  simp only [Ends, expression]

end Endings

/-! ## Later readers -/

/-- What a reader reached from `r` has in common with it: errors are only added, tokens only taken,
identities only given, and the limit stays. -/
structure Reader.Later (r r' : Reader) : Prop where
  errors : r.errors.toList <+: r'.errors.toList
  rest : r'.rest <:+ r.rest
  limit : r'.limit = r.limit
  nextId : r.nextId ≤ r'.nextId

theorem resume_suffix (ts : List Token) : resume ts <:+ ts := by
  induction ts with
  | nil => exact List.suffix_rfl
  | cons t rest ih =>
    rw [resume]
    split
    · exact List.suffix_cons t rest
    · exact ih.trans (List.suffix_cons t rest)

namespace Reader.Later

variable {r r' r'' : Reader}

theorem refl (r : Reader) : r.Later r := ⟨List.prefix_rfl, List.suffix_rfl, rfl, Nat.le_refl _⟩

theorem trans (h : r.Later r') (h' : r'.Later r'') : r.Later r'' :=
  ⟨h.errors.trans h'.errors, h'.rest.trans h.rest, h'.limit.trans h.limit,
    Nat.le_trans h.nextId h'.nextId⟩

theorem skip (r : Reader) : r.Later r.skip :=
  ⟨List.prefix_rfl, List.tail_suffix r.rest, rfl, Nat.le_refl _⟩

theorem noting (r : Reader) (e : ParseError) : r.Later (r.noting e) :=
  ⟨by simp, List.suffix_rfl, rfl, Nat.le_refl _⟩

theorem atDepth (r : Reader) (depth : Nat) : r.Later (r.atDepth depth) :=
  ⟨List.prefix_rfl, List.suffix_rfl, rfl, Nat.le_refl _⟩

theorem fresh (r : Reader) : r.Later { r with nextId := r.nextId + 1 } :=
  ⟨List.prefix_rfl, List.suffix_rfl, rfl, Nat.le_succ _⟩

/-- Nothing was noted since if nothing was noted at all. -/
theorem errors_eq_empty (h : r.Later r') (clean : r'.errors = #[]) : r.errors = #[] := by
  have hp := h.errors
  rw [clean] at hp
  simpa using hp

end Reader.Later

/-- However the computation ends, it leads to a later reader. -/
def Advances {α : Type} (x : Parse α) : Prop := ∀ r, Ends x r (fun _ => r.Later) (fun _ => r.Later)

namespace Advances

variable {α β : Type} {x : Parse α}

theorem pure (a : α) : Advances (pure a : Parse α) := fun r => .refl r

theorem bind {f : α → Parse β} (hx : Advances x) (hf : ∀ a, Advances (f a)) :
    Advances (x >>= f) := by
  intro r
  rw [Ends.bind_iff]
  refine (hx r).mono (fun a r' h => ?_) (fun _ _ h => h)
  exact (hf a r').mono (fun _ _ h' => h.trans h') (fun _ _ h' => h.trans h')

theorem exhausted : Advances (exhausted : Parse α) := fun r => .refl r
theorem fail (cause : ParseError.Cause) : Advances (fail cause : Parse α) := fun r => .refl r
theorem peek : Advances peek := fun r => .refl r
theorem sees (kind : Kind) : Advances (sees kind) := fun r => .refl r
theorem seesLevel (level : Level) : Advances (seesLevel level) := fun r => .refl r
theorem atEnd : Advances atEnd := fun r => .refl r
theorem advance : Advances advance := fun r => .skip r
theorem note (e : ParseError) : Advances (note e) := fun r => .noting r e
theorem noteHere (cause : ParseError.Cause) : Advances (noteHere cause) := fun r => .noting r _
theorem freshId : Advances freshId := fun r => .fresh r

theorem deepen : Advances deepen := by
  intro r
  rw [ends_deepen]
  split
  · exact .refl r
  · exact .atDepth r _

theorem ascend : Advances ascend := fun r => .atDepth r _

theorem levelled (hx : Advances x) : Advances (levelled x) := by
  intro r
  rw [ends_levelled]
  exact (hx r).mono (fun _ _ h => h.trans (.atDepth _ _)) (fun _ _ h => h)

theorem recover (hx : Advances x) : Advances (recover x) := by
  intro r
  rw [ends_recover]
  refine (hx r).mono (fun _ _ h => h) fun reason r' h => ?_
  cases reason with
  | fault e =>
    have hn : r.Later ((r'.noting e).atDepth r.depth) := (h.trans (.noting _ _)).trans (.atDepth _ _)
    exact ⟨hn.errors, (resume_suffix r'.rest).trans h.rest, hn.limit, hn.nextId⟩
  | exhausted => exact h

end Advances

/-! ### The rules -/

theorem advances_closed : Closed @Advances where
  pure := Advances.pure
  bind := Advances.bind
  exhausted := Advances.exhausted
  fail := Advances.fail
  peek := Advances.peek
  sees := Advances.sees
  seesLevel := Advances.seesLevel
  atEnd := Advances.atEnd
  advance := Advances.advance
  note := Advances.note
  noteHere := Advances.noteHere
  freshId := Advances.freshId
  deepen := Advances.deepen
  ascend := Advances.ascend
  levelled := Advances.levelled
  recover := Advances.recover
  measured _ h r := h _ r

namespace Advances

variable {α β : Type} {x y : Parse α}

theorem map {f : α → β} (hx : Advances x) : Advances (f <$> x) := advances_closed.map hx

theorem ite {c : Prop} [Decidable c] (hx : Advances x) (hy : Advances y) :
    Advances (if c then x else y) := advances_closed.ite hx hy

theorem accept (kind : Kind) : Advances (accept kind) := advances_closed.accept kind

theorem expect (kind : Kind) (cause : ParseError.Cause) : Advances (expect kind cause) :=
  advances_closed.expect kind cause

theorem nested (hx : Advances x) : Advances (nested x) := advances_closed.nested hx

end Advances

/-- Every rule for expressions leads to a later reader, with so many steps. -/
structure ExpressionsAdvance (n : Nat) : Prop where
  assignment : Advances (assignment n)
  leftAssociative : ∀ ls, Advances (leftAssociative n ls)
  operands : ∀ level tighter left, Advances (operands n level tighter left)
  unary : Advances (unary n)
  calls : ∀ callee, Advances (calls n callee)
  arguments : ∀ count, Advances (arguments n count)
  primary : Advances (primary n)

theorem expressionsAdvance (n : Nat) : ExpressionsAdvance n :=
  have all := advances_closed.expressions n
  ⟨all.assignment, all.leftAssociative, all.operands, all.unary, all.calls, all.arguments,
    all.primary⟩

theorem advances_expression : Advances expression := advances_closed.expression

theorem advances_expressionUnless (kind : Kind) : Advances (expressionUnless kind) :=
  advances_closed.assembled.expressionUnless kind

theorem advances_parameters (n count : Nat) : Advances (parameters n count) :=
  advances_closed.assembled.parameters n count

theorem advances_signature : Advances signature := advances_closed.assembled.signature

/-- Every rule for statements leads to a later reader, with so many steps. -/
structure StatementsAdvance (n : Nat) : Prop where
  declaration : Advances (declaration n)
  statement : Advances (statement n)
  block : Advances (block n)

theorem statementsAdvance (n : Nat) : StatementsAdvance n :=
  have all := advances_closed.statements n
  ⟨all.declaration, all.statement, all.block⟩

theorem advances_declarations (n : Nat) : Advances (declarations n) :=
  advances_closed.assembled.declarations n

end Lox.Grammar

namespace Lox

/-- A program is what the reader of all its tokens gets, unless it notes an error. -/
theorem Program.ofTokens_eq (firstId : RefId) (tokens : List Token) :
    Program.ofTokens firstId tokens =
      match Grammar.declarations (4 * (tokens.length + 1)) (.start firstId tokens) with
      | .ok program r =>
        (if r.errors.isEmpty then .ok program else .error r.errors.toList, r.nextId)
      | .error _ r => (.error r.errors.toList, r.nextId) := rfl

/-- A program is read by a reader that has noted no error. -/
theorem Program.ok_of_ofTokens {firstId nextId : RefId} {tokens : List Token} {program : Program}
    (h : Program.ofTokens firstId tokens = (.ok program, nextId)) :
    ∃ r, Grammar.declarations (4 * (tokens.length + 1))
        ⟨tokens, Token.endOf tokens, Token.kind_endOf tokens, #[], 0, Grammar.maxNesting, firstId⟩ =
          .ok program r ∧ r.errors = #[] ∧ r.nextId = nextId := by
  unfold Program.ofTokens at h
  simp only at h
  split at h
  · rename_i r hr
    split at h
    · rename_i empty
      cases h
      exact ⟨r, hr, Array.isEmpty_iff.1 empty, rfl⟩
    · cases h
  · cases h

end Lox
