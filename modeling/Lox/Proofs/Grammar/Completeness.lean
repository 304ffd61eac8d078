import Lox.Proofs.Grammar.Lookahead
import Lox.Proofs.Grammar.Steps
import Lox.Proofs.Syntax.Erasure

/-!
# Completeness of reading

Tokens that derive a tree are read as this tree, up to identities, or else a limit of the language
is the first thing to be noted.

* `Gets x n ts us good` — in front of `ts` and then `us`, `x` takes exactly `ts` and makes of them
  something `good`, unless a limit is in its way.
* `expressionsComplete`, `statementsComplete` — all rules at once, by induction on their steps,
  which are bounded by the number of tokens.
* `gets_declarations` — a whole program is read, or one of its limits is in the way;
  `declarations_stops` — no other fault stops it.
* `Program.ok_of_isProgram` — within the limits, a program is read as it is derived.
-/

namespace Lox

/-- The program may be in order, but goes beyond what the language allows. -/
def ParseError.Cause.isLimit : ParseError.Cause → Bool
  | .tooMuchNesting | .tooManyArguments | .tooManyParameters => true
  | _ => false

namespace Grammar

/-- The bounds of a derivation, and the nesting that a reader allows. -/
structure Bounds where
  width : Nat
  nesting : Nat
  limit : Nat

/-- Some errors were noted since `before`, and the first of them is about a limit. -/
def LimitFirst (before after : List ParseError) : Prop :=
  ∃ e : ParseError, e.cause.isLimit = true ∧ before ++ [e] <+: after

theorem LimitFirst.later {before after after' : List ParseError} (h : LimitFirst before after)
    (hl : after <+: after') : LimitFirst before after' := by
  obtain ⟨e, he, hp⟩ := h
  exact ⟨e, he, hp.trans hl⟩

/-- If nothing was noted before, the first error of all is about a limit. -/
theorem LimitFirst.of_nil {errors : List ParseError} (h : LimitFirst [] errors) :
    ∃ e others, errors = e :: others ∧ e.cause.isLimit = true := by
  obtain ⟨e, he, others, rfl⟩ := h
  exact ⟨e, others, rfl, he⟩

variable {b : Bounds} {r r' r'' : Reader} {n : Nat}

/-- The reader stands in front of these tokens, and `n` levels deeper is as deep as the derivation
of the whole program goes. -/
structure Reader.Faces (b : Bounds) (r : Reader) (n : Nat) (tokens : List Token) : Prop where
  rest : r.rest = tokens
  limit : r.limit = b.limit
  depth : r.depth + n = b.nesting

theorem Reader.Faces.skip {t : Token} {ts : List Token} (h : r.Faces b n (t :: ts)) :
    r.skip.Faces b n ts :=
  ⟨Reader.skip_cons h.rest, h.limit, h.depth⟩

theorem Reader.Faces.deeper {tokens : List Token} (hr : r.Faces b (n + 1) tokens) :
    (r.atDepth (r.depth + 1)).Faces b n tokens :=
  ⟨hr.rest, hr.limit, (Nat.add_right_comm _ _ _).trans hr.depth⟩

/-- From `r` to `r'` nothing was noted, or first that there are too many arguments or
parameters. -/
def Noted (b : Bounds) (r r' : Reader) : Prop :=
  r'.errors = r.errors ∨
    maxArguments < b.width ∧ LimitFirst r.errors.toList r'.errors.toList

/-- There was no room for the derivation, and these are the errors behind the place where this or
another limit was noted. -/
def Spoiled (b : Bounds) (r : Reader) (errors : List ParseError) : Prop :=
  b.limit < b.nesting ∧ LimitFirst r.errors.toList errors

/-- All errors when reading stops. -/
def Stop.errors : Stop → Reader → List ParseError
  | .fault e, r => r.errors.toList ++ [e]
  | .exhausted, r => r.errors.toList

namespace Noted

theorem refl (b : Bounds) (r : Reader) : Noted b r r := .inl rfl

theorem errors (h : Noted b r r') : r.errors.toList <+: r'.errors.toList := by
  rcases h with same | ⟨-, e, -, hp⟩
  · exact ⟨[], by rw [List.append_nil, same]⟩
  · exact (List.prefix_append _ _).trans hp

theorem trans (h : Noted b r r') (h' : Noted b r' r'') : Noted b r r'' := by
  rcases h with same | ⟨wide, first⟩
  · simpa only [Noted, same] using h'
  · exact .inr ⟨wide, first.later h'.errors⟩

theorem spoiled {errors : List ParseError} (h : Noted b r r') (h' : Spoiled b r' errors) :
    Spoiled b r errors := by
  refine ⟨h'.1, ?_⟩
  rcases h with same | ⟨-, first⟩
  · rw [← same]
    exact h'.2
  · obtain ⟨-, _, -, hp⟩ := h'
    exact first.later ((List.prefix_append _ _).trans hp)

end Noted

/-- Where there is no room for one more level, the derivation goes deeper than the reader. -/
theorem Reader.Faces.spoiled {tokens : List Token} (hr : r.Faces b (n + 1) tokens)
    (full : r.limit ≤ r.depth) :
    Spoiled b r (Stop.errors (.fault (r.errorHere .tooMuchNesting)) r) := by
  have := hr.limit
  have := hr.depth
  exact ⟨by omega, _, rfl, List.prefix_rfl⟩

section Gets

variable {α β : Type}

/-- Reading from `r` to `r'` got something `good` and stands in front of `us`; or, if this is
allowed, it lost its way behind an error about a limit. -/
def Arrives (b : Bounds) (lost : Prop) (n : Nat) (us : List Token) (good : α → Prop) (r : Reader)
    (a : α) (r' : Reader) : Prop :=
  (r'.Faces b n us ∧ Noted b r r' ∧ good a) ∨ lost ∧ Spoiled b r r'.errors.toList

/-- In front of `ts` and then `us`, the computation takes `ts` and makes of them something `good`,
or it is stopped by a limit. If it recovers from that it gets `lost`. -/
def Gets (b : Bounds) (lost : Prop) (x : Parse α) (n : Nat) (ts us : List Token)
    (good : α → Prop) : Prop :=
  ∀ r : Reader, r.Faces b n (ts ++ us) →
    Ends x r (Arrives b lost n us good r) fun reason r' => Spoiled b r (reason.errors r')

theorem Noted.ends {x : Parse α} {lost : Prop} {us : List Token} {good : α → Prop}
    (h : Noted b r r')
    (hx : Ends x r' (Arrives b lost n us good r') fun reason r'' => Spoiled b r' (reason.errors r'')) :
    Ends x r' (Arrives b lost n us good r) fun reason r'' => Spoiled b r (reason.errors r'') := by
  refine hx.mono (fun a r'' ha => ?_) fun _ _ hs => h.spoiled hs
  rcases ha with ⟨faces, noted, good⟩ | ⟨lost, spoiled⟩
  · exact .inl ⟨faces, h.trans noted, good⟩
  · exact .inr ⟨lost, h.spoiled spoiled⟩

namespace Gets

variable {lost : Prop} {x y : Parse α} {f : α → Parse β} {ts ts' us : List Token}
variable {good : α → Prop} {good' : β → Prop} {t : Token} {kind kind' : Kind}
variable {cause : ParseError.Cause}

/-- What never gets lost may do so. -/
theorem of_strict (h : Gets b False x n ts us good) : Gets b lost x n ts us good :=
  fun r hr => (h r hr).mono (fun _ _ ha => .inl (ha.resolve_right (·.1))) fun _ _ hs => hs

theorem mono {good' : α → Prop} (h : Gets b lost x n ts us good) (hg : ∀ a, good a → good' a) :
    Gets b lost x n ts us good' :=
  fun r hr => (h r hr).mono
    (fun _ _ ha => ha.imp_left fun ⟨faces, noted, ha⟩ => ⟨faces, noted, hg _ ha⟩) fun _ _ hs => hs

/-- The parts of a sequence take tokens one after the other, and each is followed by what the next
ones take. -/
theorem bind (hx : Gets b False x n ts (ts' ++ us) good)
    (hf : ∀ a, good a → Gets b lost (f a) n ts' us good') :
    Gets b lost (x >>= f) n (ts ++ ts') us good' := by
  intro r hr
  rw [Ends.bind_iff]
  rw [List.append_assoc] at hr
  refine (hx r hr).mono (fun a r₁ h₁ => ?_) fun _ _ hs => hs
  obtain ⟨faces, noted, ha⟩ := h₁.resolve_right (·.1)
  exact noted.ends (hf a ha r₁ faces)

/-- Behind a part that gets lost, the errors noted until then stay the first ones. -/
theorem bind_lost (hx : Gets b True x n ts (ts' ++ us) good) (later : ∀ a, Advances (f a))
    (hf : ∀ a, good a → Gets b True (f a) n ts' us good') :
    Gets b True (x >>= f) n (ts ++ ts') us good' := by
  intro r hr
  rw [Ends.bind_iff]
  rw [List.append_assoc] at hr
  refine (hx r hr).mono (fun a r₁ h₁ => ?_) fun _ _ hs => hs
  rcases h₁ with ⟨faces, noted, ha⟩ | ⟨-, full, first⟩
  · exact noted.ends (hf a ha r₁ faces)
  · refine (later a r₁).mono (fun _ _ h => .inr ⟨trivial, full, first.later h.errors⟩)
      fun reason r₂ h => ⟨full, first.later (h.errors.trans ?_)⟩
    cases reason with
    | fault e => exact List.prefix_append _ _
    | exhausted => exact List.prefix_rfl

theorem pure {a : α} (ha : good a) : Gets b lost (pure a) n [] us good :=
  fun r hr => .inl ⟨hr, .refl b r, ha⟩

theorem map {g : α → β} (h : Gets b lost x n ts us fun a => good' (g a)) :
    Gets b lost (g <$> x) n ts us good' :=
  fun r hr => Ends.map_iff.2 (h r hr)

theorem peek_bind {f : Token → Parse β} (h : Gets b lost (f t) n (t :: ts) us good') :
    Gets b lost (peek >>= f) n (t :: ts) us good' := by
  intro r hr
  rw [Ends.bind_iff, ends_peek, Reader.next_cons hr.rest]
  exact h r hr

theorem advance_bind {f : Token → Parse β} (h : Gets b lost (f t) n ts us good') :
    Gets b lost (advance >>= f) n (t :: ts) us good' := by
  intro r hr
  rw [Ends.bind_iff, ends_advance, Reader.next_cons hr.rest]
  exact h r.skip hr.skip

theorem expect_bind {f : Token → Parse β} (hk : t.kind = kind)
    (h : Gets b lost (f t) n ts us good') :
    Gets b lost (expect kind cause >>= f) n (t :: ts) us good' := by
  intro r hr
  rw [Ends.bind_iff, ends_expect, if_pos (by rw [Reader.sees_cons hr.rest]; simpa using hk),
    Reader.next_cons hr.rest]
  exact h r.skip hr.skip

theorem sees_bind {f : Bool → Parse β} {seen : Bool}
    (hk : (ts ++ us).head?.any (·.kind == kind) = seen) (h : Gets b lost (f seen) n ts us good') :
    Gets b lost (sees kind >>= f) n ts us good' := by
  intro r hr
  rw [Ends.bind_iff, ends_sees, Reader.sees, hr.rest, hk]
  exact h r hr

theorem atEnd_bind {f : Bool → Parse β} {ended : Bool} (hk : (ts ++ us).isEmpty = ended)
    (h : Gets b lost (f ended) n ts us good') : Gets b lost (atEnd >>= f) n ts us good' := by
  intro r hr
  rw [Ends.bind_iff, ends_atEnd, hr.rest, hk]
  exact h r hr

theorem sees_yes (hk : t.kind = kind) (h : Gets b lost x n (t :: ts) us good) :
    Gets b lost (sees kind >>= fun seen => if seen then x else y) n (t :: ts) us good := by
  have seen : (t :: ts ++ us).head?.any (·.kind == kind) = true := by simpa using hk
  exact sees_bind seen h

theorem sees_no (hk : (ts ++ us).head?.any (·.kind == kind) = false)
    (h : Gets b lost y n ts us good) :
    Gets b lost (sees kind >>= fun seen => if seen then x else y) n ts us good :=
  sees_bind hk h

/-- One of two kinds is seen. -/
theorem sees_either (hk : t.kind = kind ∨ t.kind = kind') (h : Gets b lost x n (t :: ts) us good) :
    Gets b lost
      (sees kind >>= fun seen => sees kind' >>= fun seen' => if seen || seen' then x else y)
      n (t :: ts) us good := by
  refine sees_bind rfl (sees_bind rfl ?_)
  rw [if_pos (by simpa using hk)]
  exact h

theorem sees_neither (hk : (ts ++ us).head?.any (·.kind == kind) = false)
    (hk' : (ts ++ us).head?.any (·.kind == kind') = false) (h : Gets b lost y n ts us good) :
    Gets b lost
      (sees kind >>= fun seen => sees kind' >>= fun seen' => if seen || seen' then x else y)
      n ts us good :=
  sees_bind hk (sees_bind hk' h)

theorem accept_yes (hk : t.kind = kind) (h : Gets b lost x n ts us good) :
    Gets b lost (accept kind >>= fun seen => if seen then x else y) n (t :: ts) us good := by
  intro r hr
  have seen : r.sees kind = true := by rw [Reader.sees_cons hr.rest]; simpa using hk
  rw [Ends.bind_iff, ends_accept, if_pos seen, if_pos rfl]
  exact h r.skip hr.skip

theorem accept_no (hk : (ts ++ us).head?.any (·.kind == kind) = false)
    (h : Gets b lost y n ts us good) :
    Gets b lost (accept kind >>= fun seen => if seen then x else y) n ts us good := by
  intro r hr
  have unseen : r.sees kind = false := by rw [Reader.sees, hr.rest, hk]
  rw [Ends.bind_iff, ends_accept, if_neg (by simp [unseen]), if_neg (by simp)]
  exact h r hr

/-- Noting that there are too many is allowed if there are. -/
theorem noting {c : Prop} [Decidable c] (hc : c → maxArguments < b.width)
    (limit : cause.isLimit = true) (h : Gets b lost x n ts us good) :
    Gets b lost (if c then noteHere cause >>= fun _ => x else x) n ts us good := by
  intro r hr
  split
  · rename_i crossed
    rw [Ends.bind_iff, ends_noteHere]
    have noted : Noted b r (r.noting (r.errorHere cause)) :=
      .inr ⟨hc crossed, r.errorHere cause, limit, by simp⟩
    exact noted.ends (h _ ⟨hr.rest, hr.limit, hr.depth⟩)
  · exact h r hr

theorem nested (h : Gets b lost x n ts us good) : Gets b lost (nested x) (n + 1) ts us good := by
  intro r hr
  rw [ends_nested]
  split
  · rename_i full
    exact hr.spoiled full
  · refine (h _ hr.deeper).mono (fun a r' ha => ?_) fun _ _ hs => hs
    rcases ha with ⟨faces, noted, ha⟩ | lost
    · have sameDepth : r'.depth = r.depth + 1 := Nat.add_right_cancel
        (faces.depth.trans hr.deeper.depth.symm)
      exact .inl ⟨⟨faces.rest, faces.limit, by rw [sameDepth]; exact hr.depth⟩, noted, ha⟩
    · exact .inr lost

/-- Coming back to the depth from which the first part started is coming back to the one from which
the second did. -/
theorem levelled_bind (hx : Gets b False x n ts (ts' ++ us) good)
    (hf : ∀ a, good a → Gets b lost (levelled (f a)) n ts' us good') :
    Gets b lost (levelled (x >>= f)) n (ts ++ ts') us good' := by
  intro r hr
  rw [ends_levelled, Ends.bind_iff]
  rw [List.append_assoc] at hr
  refine (hx r hr).mono (fun a r₁ h₁ => ?_) fun _ _ hs => hs
  obtain ⟨faces, noted, ha⟩ := h₁.resolve_right (·.1)
  have hfa := noted.ends (hf a ha r₁ faces)
  have sameDepth : r₁.depth = r.depth := Nat.add_right_cancel (faces.depth.trans hr.depth.symm)
  rw [ends_levelled, sameDepth] at hfa
  exact hfa

theorem levelled_deepen (h : Gets b lost (levelled x) n ts us good) :
    Gets b lost (levelled (deepen >>= fun _ => x)) (n + 1) ts us good := by
  intro r hr
  rw [ends_levelled, Ends.bind_iff, ends_deepen]
  split
  · rename_i full
    exact hr.spoiled full
  · have inner := h _ hr.deeper
    rw [ends_levelled] at inner
    refine inner.mono (fun a r' ha => ?_) fun _ _ hs => hs
    rcases ha with ⟨faces, noted, ha⟩ | lost
    · exact .inl ⟨⟨faces.rest, faces.limit, hr.depth⟩, noted, ha⟩
    · exact .inr lost

theorem levelled_advance {f : Token → Parse α} (h : Gets b lost (levelled (f t)) n ts us good) :
    Gets b lost (levelled (advance >>= f)) n (t :: ts) us good := by
  intro r hr
  rw [ends_levelled, Ends.bind_iff, ends_advance, Reader.next_cons hr.rest]
  have inner := h _ hr.skip
  rw [ends_levelled] at inner
  exact inner

theorem levelled_sees {level : Level} (hl : level.has t.kind = true)
    (h : Gets b lost (levelled x) n (t :: ts) us good) :
    Gets b lost (levelled (seesLevel level >>= fun seen => if seen then x else y)) n (t :: ts) us
      good := by
  intro r hr
  rw [ends_levelled, Ends.bind_iff, ends_seesLevel, if_pos (by simp [hr.rest, hl])]
  have inner := h r hr
  rw [ends_levelled] at inner
  exact inner

theorem levelled_unseen {level : Level} {a : α} (ha : good a)
    (hl : us.head?.any (fun t => level.has t.kind) = false) :
    Gets b lost (levelled (seesLevel level >>= fun seen => if seen then x else Pure.pure a)) n [] us
      good := by
  intro r hr
  have unseen : r.rest.head?.any (fun t => level.has t.kind) = false := by
    rw [hr.rest]
    exact hl
  rw [ends_levelled, Ends.bind_iff, ends_seesLevel, if_neg (by simp [unseen])]
  exact .inl ⟨hr, .refl b r, ha⟩

end Gets

end Gets

/-! ## Expressions -/

/-- An expression of the tightest level is one of every level. -/
theorem IsLevel.of_unary {width : Nat} {ts : List Token} {e : Expr} (h : IsUnary width n ts e)
    {j : Nat} (hj : j ≤ 6) : IsLevel width (6 - j) n ts e := by
  induction j with
  | zero => exact .unary h
  | succ j ih =>
    have head := ih (Nat.le_of_succ_le hj)
    rw [show 6 - j = 6 - (j + 1) + 1 by omega, ← List.append_nil ts] at head
    rw [← List.append_nil ts, ← List.append_nil (ts ++ [])]
    exact .infixes head .done

/-- An identifier on its own is an expression of every level. -/
theorem IsLevel.of_name {width : Nat} {name : Token} (kind : name.kind = .identifier) {j : Nat}
    (hj : j ≤ 6) : IsLevel width (6 - j) n [name] (.var 0 name) := by
  have callee : IsUnary width n ([name] ++ []) (.var 0 name) := .call (.name kind) .done
  exact .of_unary callee hj

theorem erased_join (level : Level) (left : Expr) (op : Token) (right : Expr) :
    (level.join left op right).erased = level.join left.erased op right.erased := by
  cases level <;> rfl

theorem IsSeveral.length_pos {width : Nat} {ts : List Token} {es : List Expr}
    (h : IsSeveral width n ts es) : 0 < es.length := by
  cases h <;> exact Nat.succ_pos _

/-- Every rule for expressions is complete, with so many steps. -/
structure ExpressionsComplete (b : Bounds) (f : Nat) : Prop where
  assignment : ∀ {n ts us e}, IsAssignment b.width n ts e → Begins closes us →
    11 * ts.length ≤ f → Gets b False (assignment f) n ts us fun a => a.erased = e.erased
  leftAssociative : ∀ {k n ts us e}, IsLevel b.width k n ts e → Ended k us →
    11 * ts.length ≤ f + 1 + k →
    Gets b False (leftAssociative f (levels.drop k)) n ts us fun a => a.erased = e.erased
  operands : ∀ {k n level left left' ts us e}, levels[k]? = some level →
    IsOperands b.width k n left ts e → Ended k us → 11 * ts.length < f →
    left'.erased = left.erased →
    Gets b False (levelled (operands f level (levels.drop (k + 1)) left')) n ts us
      fun a => a.erased = e.erased
  unary : ∀ {n ts us e}, IsUnary b.width n ts e → Ended 6 us → 11 * ts.length ≤ f + 8 →
    Gets b False (unary f) n ts us fun a => a.erased = e.erased
  calls : ∀ {n callee callee' ts us e}, IsCalls b.width n callee ts e → Ended 6 us →
    11 * ts.length < f → callee'.erased = callee.erased →
    Gets b False (calls f callee') n ts us fun a => a.erased = e.erased
  arguments : ∀ {n count ts us es}, IsSeveral b.width n ts es →
    Begins (· == .symbol .rightParen) us → 11 * ts.length < f → count + es.length ≤ b.width →
    Gets b False (arguments f count) n ts us fun as => Expr.erasedAll as = Expr.erasedAll es
  primary : ∀ {n ts us e}, IsPrimary b.width n ts e → 11 * ts.length ≤ f + 9 →
    Gets b False (primary f) n ts us fun a => a.erased = e.erased

/-- A part that is missing in the derivation is not there. -/
theorem Gets.zero {α : Type} {x : Parse α} {ts us : List Token} {good : α → Prop}
    {kinds : Kind → Bool} (begins : Begins kinds ts) {k : Nat} (hk : 11 * ts.length ≤ k)
    (small : k < 11) : Gets b False x n ts us good := by
  have := begins.length_pos
  omega

theorem gets_assignTo {target value value' : Expr} {id : RefId} {equals name : Token}
    {us : List Token} (ht : target.erased = .var 0 name) (hv : value'.erased = value.erased) :
    Gets b False (assignTo target equals value') n [] us
      fun a => a.erased = (Expr.assign id name value).erased := by
  obtain ⟨_, rfl⟩ := Expr.eq_var_of_erased ht
  exact fun r hr => .inl ⟨⟨hr.rest, hr.limit, hr.depth⟩, .inl rfl, by simp [Expr.erased, hv]⟩

theorem IsLevel.le_six {width k n : Nat} {ts : List Token} {e : Expr} :
    IsLevel width k n ts e → k ≤ 6
  | .infixes head _ => Nat.le_of_succ_le (IsLevel.le_six head)
  | .unary _ => Nat.le_refl 6

section

variable {f : Nat}

theorem gets_assignment (ih : ExpressionsComplete b f) {ts us : List Token} {e : Expr}
    (h : IsAssignment b.width n ts e) (closed : Begins closes us) (hf : 11 * ts.length ≤ f + 1) :
    Gets b False (assignment (f + 1)) n ts us fun a => a.erased = e.erased := by
  rw [Grammar.assignment]
  cases h with
  | @assign n name equals ts id value nameKind equalsKind inner =>
    have target : Gets b False (leftAssociative f levels) (n + 1) [name] (equals :: ts ++ us)
        fun a => a.erased = .var 0 name :=
      ih.leftAssociative (IsLevel.of_name nameKind (Nat.le_refl 6)) (Ended.of_equal equalsKind)
        (by simp only [List.length_cons, List.length_nil] at hf ⊢; omega)
    refine target.bind fun target' ht => ?_
    refine .sees_yes equalsKind (.advance_bind ?_)
    have value := ih.assignment inner closed (by simp only [List.length_cons] at hf; omega)
    rw [← List.append_nil ts]
    exact value.nested.bind fun value' hv => gets_assignTo ht hv
  | level inner =>
    have first := ih.leftAssociative inner (Ended.of_closes closed) (by omega)
    rw [← List.append_nil ts]
    refine first.bind fun target ht => .sees_no ?_ (.pure ht)
    exact closed.head_ne rfl

theorem gets_leftAssociative (ih : ExpressionsComplete b f) {k : Nat} {ts us : List Token} {e : Expr}
    (h : IsLevel b.width k n ts e) (ended : Ended k us) (hf : 11 * ts.length ≤ f + 1 + 1 + k) :
    Gets b False (leftAssociative (f + 1) (levels.drop k)) n ts us fun a => a.erased = e.erased := by
  cases h with
  | @infixes k n ts us' first e head others =>
    have hk : k < levels.length := head.le_six
    have small : k < 6 := hk
    rw [List.drop_eq_getElem_cons hk, Grammar.leftAssociative]
    have hl := List.getElem?_eq_getElem hk
    have pos := head.begins.length_pos
    rw [List.length_append] at hf
    refine (ih.leftAssociative head (others.ended ended) (by omega)).levelled_bind
      fun first' hfirst => ?_
    exact ih.operands hl others ended (by omega) hfirst
  | unary inner =>
    rw [show levels.drop 6 = [] from rfl, Grammar.leftAssociative]
    exact ih.unary inner ended (by omega)

theorem gets_operands (ih : ExpressionsComplete b f) {k : Nat} {level : Level} {left left' : Expr}
    {ts us : List Token} {e : Expr} (hl : levels[k]? = some level)
    (h : IsOperands b.width k n left ts e) (ended : Ended k us) (hf : 11 * ts.length < f + 1)
    (hleft : left'.erased = left.erased) :
    Gets b False (levelled (operands (f + 1) level (levels.drop (k + 1)) left')) n ts us
      fun a => a.erased = e.erased := by
  rw [Grammar.operands]
  cases h with
  | done => exact .levelled_unseen hleft (ended.not_level hl)
  | @more k n left right joined e op ts us' joins operand others =>
    obtain ⟨has, rfl⟩ := (joins_iff hl).1 joins
    simp only [List.length_append, List.length_cons] at hf
    refine .levelled_sees has (.levelled_deepen (.levelled_advance ?_))
    refine (ih.leftAssociative operand (others.ended ended) (by omega)).levelled_bind
      fun right' hright => ?_
    refine ih.operands hl others ended (by omega) ?_
    rw [erased_join, erased_join, hleft, hright]

theorem gets_unary (ih : ExpressionsComplete b f) {ts us : List Token} {e : Expr}
    (h : IsUnary b.width n ts e) (ended : Ended 6 us) (hf : 11 * ts.length ≤ f + 1 + 8) :
    Gets b False (unary (f + 1)) n ts us fun a => a.erased = e.erased := by
  rw [Grammar.unary]
  cases h with
  | @operator n op ts e kind operand =>
    rw [List.length_cons] at hf
    have right := (ih.unary operand ended (by omega)).nested
    refine .sees_either (by rcases kind with kind | kind <;> simp [kind]) (.advance_bind ?_)
    rw [← List.append_nil ts]
    exact right.bind fun right' hr => .pure (by simp [Expr.erased, hr])
  | @call n ts us' callee e head others =>
    rw [List.length_append] at hf
    have pos := head.begins.length_pos
    have begins := (head.begins.append us').append us
    refine .sees_neither (begins.head_ne rfl) (begins.head_ne rfl) ?_
    refine (ih.primary head (by omega)).bind fun callee' hc => ?_
    exact ih.calls others ended (by omega) hc

theorem gets_calls (ih : ExpressionsComplete b f) {callee callee' : Expr} {ts us : List Token}
    {e : Expr} (h : IsCalls b.width n callee ts e) (ended : Ended 6 us)
    (hf : 11 * ts.length < f + 1) (hc : callee'.erased = callee.erased) :
    Gets b False (calls (f + 1) callee') n ts us fun a => a.erased = e.erased := by
  rw [Grammar.calls]
  cases h with
  | done => exact .accept_no ended.not_call (.pure hc)
  | @call n callee e opening closing ts us' es openingKind inner few closingKind others =>
    simp only [List.length_append, List.length_cons] at hf
    refine .accept_yes openingKind ?_
    have rest : ∀ es', Expr.erasedAll es' = Expr.erasedAll es → Gets b False (do
        let closing ← expect (.symbol .rightParen) .argumentsClosing
        Grammar.calls f (.call callee' closing es')) n (closing :: us') us _ := fun es' hes =>
      .expect_bind closingKind (ih.calls others ended (by omega) (by simp [Expr.erased, hc, hes]))
    cases inner with
    | none => exact .sees_yes closingKind (rest [] rfl)
    | some inner =>
      refine .sees_no ?_ ?_
      · exact ((inner.begins.append (closing :: us')).append us).head_ne rfl
      · exact (ih.arguments inner (.cons (by simp [closingKind]) _) (by omega)
          (by simpa using few)).bind rest

theorem gets_arguments (ih : ExpressionsComplete b f) {count : Nat} {ts us : List Token}
    {es : List Expr} (h : IsSeveral b.width n ts es) (closed : Begins (· == .symbol .rightParen) us)
    (hf : 11 * ts.length < f + 1) (few : count + es.length ≤ b.width) :
    Gets b False (arguments (f + 1) count) n ts us
      fun as => Expr.erasedAll as = Expr.erasedAll es := by
  rw [Grammar.arguments]
  refine .noting (by have := h.length_pos; omega) rfl ?_
  cases h with
  | one inner =>
    cases inner with
    | nested inner =>
      rw [← List.append_nil ts]
      have closes : Begins closes us := closed.mono fun _ h => by rw [beq_iff_eq.1 h]; rfl
      refine (ih.assignment inner closes (by omega)).nested.bind fun first' hfirst => ?_
      exact .accept_no (closed.head_ne rfl) (.pure (by simp [Expr.erasedAll, hfirst]))
  | @more n ts us' e es comma first kind others =>
    simp only [List.length_append, List.length_cons] at hf
    rw [List.length_cons] at few
    cases first with
    | nested inner =>
      have closes : Begins closes (comma :: us' ++ us) := .cons (by simp [kind, closes]) _
      refine (ih.assignment inner closes (by omega)).nested.bind fun first' hfirst => ?_
      refine .accept_yes kind ?_
      rw [← List.append_nil us']
      exact (ih.arguments others closed (by omega) (by omega)).bind fun others' ho =>
        .pure (by simp [Expr.erasedAll, hfirst, ho])

theorem gets_primary (ih : ExpressionsComplete b f) {ts us : List Token} {e : Expr}
    (h : IsPrimary b.width n ts e) (hf : 11 * ts.length ≤ f + 1 + 9) :
    Gets b False (primary (f + 1)) n ts us fun a => a.erased = e.erased := by
  rw [Grammar.primary]
  cases h with
  | @constant n t value kind =>
    have value : Gets b False (do let _ ← advance; return Expr.literal value) n [t] us
        fun a => a.erased = .literal value := .advance_bind (.pure rfl)
    refine .peek_bind ?_
    generalize t.kind = k at kind
    cases kind <;> exact value
  | @name n name id kind =>
    refine .peek_bind ?_
    rw [kind]
    refine .advance_bind fun r hr => ?_
    exact .inl ⟨⟨hr.rest, hr.limit, hr.depth⟩, .inl rfl, rfl⟩
  | @group n opening closing ts e openingKind inner closingKind =>
    simp only [List.length_append, List.length_cons, List.length_nil] at hf
    refine .peek_bind ?_
    rw [openingKind]
    refine .advance_bind ?_
    cases inner with
    | nested inner =>
      have closes : Begins closes ([closing] ++ us) := .cons (by simp [closingKind, closes]) _
      refine (ih.assignment inner closes (by omega)).nested.bind fun e' he => ?_
      exact .expect_bind closingKind (.pure (by simp [Expr.erased, he]))

end

theorem expressionsComplete (b : Bounds) (f : Nat) : ExpressionsComplete b f := by
  induction f with
  | zero =>
    constructor <;> intros
    case assignment h _ hf => exact .zero h.begins hf (by decide)
    case leftAssociative h _ hf => exact .zero h.begins hf (by have := h.le_six; omega)
    case unary h _ hf => exact .zero h.begins hf (by decide)
    case primary h hf => exact .zero h.begins hf (by decide)
    all_goals omega
  | succ f ih =>
    exact ⟨gets_assignment ih, gets_leftAssociative ih, gets_operands ih, gets_unary ih,
      gets_calls ih, gets_arguments ih, gets_primary ih⟩

/-- Expressions are read with as many steps as tokens allow. -/
theorem gets_expression {ts us : List Token} {e : Expr} (h : IsExpression b.width n ts e)
    (closed : Begins closes us) : Gets b False expression n ts us fun a => a.erased = e.erased := by
  intro r hr
  rw [ends_expression]
  cases h with
  | nested inner =>
    refine ((expressionsComplete b _).assignment inner closed ?_).nested r hr
    rw [hr.rest, List.length_append]
    omega

/-! ## Statements -/

section Parts

variable {ts us : List Token}

/-- An expression may be missing in front of a token that cannot begin one. -/
theorem gets_expressionUnless {kind : Kind} {o : Option Expr} (h : IsOptional b.width n ts o)
    (next : Begins (· == kind) us) (closed : closes kind = true)
    (noBegin : beginsExpression kind = false) :
    Gets b False (expressionUnless kind) n ts us fun a => Expr.erased? a = Expr.erased? o := by
  unfold expressionUnless
  cases h with
  | none =>
    obtain ⟨t, rest, rfl, ht⟩ := next
    have seen : ([] ++ t :: rest : List Token).head?.any (·.kind == kind) = true := by
      simpa using ht
    exact .sees_bind seen (.pure rfl)
  | @some _ e inner =>
    have closes : Begins closes us := next.mono fun _ h => by rw [beq_iff_eq.1 h]; exact closed
    have present := gets_expression inner closes
    refine .sees_no ((inner.begins.append us).head_ne noBegin) (.map ?_)
    exact present.mono fun a ha => by simp [Expr.erased?, ha]

theorem gets_expressionStatement {s : Stmt} (h : IsExpressionStatement b.width n ts s) :
    Gets b False expressionStatement n ts us fun a => a.erased = s.erased := by
  cases h with
  | mk inner kind =>
    refine (gets_expression inner (.cons (by simp [kind, closes]) us)).bind fun a ha => ?_
    exact .expect_bind kind (.pure (by simp [Stmt.erased, ha]))

theorem gets_variableDeclaration {s : Stmt} (h : IsVariable b.width n ts s) :
    ∃ keyword rest, ts = keyword :: rest ∧ keyword.kind = .keyword .var ∧
      ∀ us, Gets b False variableDeclaration n rest us fun a => a.erased = s.erased := by
  cases h with
  | @bare keyword name semicolon keywordKind nameKind kind =>
    refine ⟨keyword, _, rfl, keywordKind, fun us => .expect_bind nameKind ?_⟩
    refine .accept_no (by simp [kind]) ?_
    exact .expect_bind kind (.pure rfl)
  | @initialized keyword name equals semicolon ts e keywordKind nameKind equalsKind inner kind =>
    refine ⟨keyword, _, rfl, keywordKind, fun us => .expect_bind nameKind ?_⟩
    refine .accept_yes equalsKind ?_
    have value : Gets b False (some <$> expression) n ts ([semicolon] ++ us)
        fun a => Expr.erased? a = Expr.erased? (some e) :=
      .map ((gets_expression inner (.cons (by simp [kind, closes]) us)).mono
        fun a ha => by simp [Expr.erased?, ha])
    exact value.bind fun a ha => .expect_bind kind (.pure (by simp [Stmt.erased, ha]))

theorem gets_parameters {names : List Token} (h : IsNames ts names) {f count : Nat}
    (closing : Begins (· == .symbol .rightParen) us) (hf : ts.length ≤ f)
    (few : count + names.length ≤ b.width) :
    Gets b False (parameters f count) n ts us (· = names) := by
  induction h generalizing f count with
  | @one name kind =>
    cases f with
    | zero => cases hf
    | succ f =>
      rw [parameters]
      rw [List.length_singleton] at few
      refine .noting (by omega) rfl (.expect_bind kind ?_)
      exact .accept_no (closing.head_ne rfl) (.pure rfl)
  | @more name comma ts names kind commaKind others ih =>
    cases f with
    | zero => cases hf
    | succ f =>
      rw [parameters]
      simp only [List.length_cons] at few hf
      refine .noting (by omega) rfl (.expect_bind kind (.accept_yes commaKind ?_))
      rw [← List.append_nil ts]
      refine (ih (by omega) (by omega)).bind fun others ho => .pure ?_
      rw [ho]

theorem gets_signature {name opening closing left : Token} {names : List Token}
    (nameKind : name.kind = .identifier) (openingKind : opening.kind = .symbol .leftParen)
    (h : IsParameters ts names) (few : names.length ≤ b.width)
    (closingKind : closing.kind = .symbol .rightParen)
    (leftKind : left.kind = .symbol .leftBrace) :
    Gets b False signature n (name :: opening :: (ts ++ [closing, left])) us (· = (name, names)) := by
  unfold signature
  refine .expect_bind nameKind (.expect_bind openingKind ?_)
  have rest : Gets b False (do
      let _ ← expect (.symbol .rightParen) .parametersClosing
      let _ ← expect (.symbol .leftBrace) .bodyOpening
      return (name, names)) n [closing, left] us (· = (name, names)) :=
    .expect_bind closingKind (.expect_bind leftKind (.pure rfl))
  cases h with
  | none => exact .sees_yes closingKind rest
  | some inner =>
    refine .sees_no ?_ ?_
    · cases inner with
      | one kind | more kind => simp [kind]
    · have list : Gets b False (fun r => parameters (r.rest.length + 1) 0 r) n ts
          ([closing, left] ++ us) (· = names) := by
        intro r hr
        refine gets_parameters inner (.cons (by simp [closingKind]) _) ?_ (by simpa using few) r hr
        rw [hr.rest, List.length_append]
        omega
      exact list.bind fun _ h => h ▸ rest

theorem gets_firstClause {o : Option Stmt} (h : IsFirstClause b.width n ts o) :
    Gets b False firstClause n ts us fun a => Stmt.erased? a = Stmt.erased? o := by
  unfold firstClause
  cases h with
  | none kind => exact .accept_yes kind (.pure rfl)
  | var inner =>
    obtain ⟨keyword, rest, rfl, kind, declaration⟩ := gets_variableDeclaration inner
    refine .accept_no (by simp [kind]) (.accept_yes kind (.map ?_))
    exact (declaration us).mono fun a ha => by simp [Stmt.erased?, ha]
  | expression inner =>
    have begins := inner.begins.append us
    refine .accept_no (begins.head_ne rfl) (.accept_no (begins.head_ne rfl) (.map ?_))
    exact (gets_expressionStatement inner).mono fun a ha => by simp [Stmt.erased?, ha]

theorem gets_condition {left right : Token} {e : Expr} {opening closing : ParseError.Cause}
    (leftKind : left.kind = .symbol .leftParen) (h : IsExpression b.width n ts e)
    (rightKind : right.kind = .symbol .rightParen) :
    Gets b False (condition opening closing) n (left :: (ts ++ [right])) us
      fun a => a.erased = e.erased := by
  refine .expect_bind leftKind ?_
  refine (gets_expression h (.cons (by simp [rightKind, closes]) us)).bind fun a ha => ?_
  exact .expect_bind rightKind (.pure ha)

end Parts

theorem erased_forLoop (first : Option Stmt) (condition last : Option Expr) (body : Stmt) :
    (forLoop first condition last body).erased =
      forLoop (Stmt.erased? first) (Expr.erased? condition) (Expr.erased? last) body.erased := by
  cases first <;> cases condition <;> cases last <;> rfl

theorem IsDeclarations.begins {width : Nat} {ts : List Token} {ss : List Stmt}
    (h : IsDeclarations width n ts ss) : ts = [] ∨ Begins beginsDeclaration ts := by
  cases h with
  | nil => exact .inl rfl
  | cons first => exact .inr (first.begins.append _)

/-- No `else` follows declarations. -/
theorem IsDeclarations.noElse {width : Nat} {ts us : List Token} {ss : List Stmt}
    (h : IsDeclarations width n ts ss) (hu : startsElse us = false) :
    startsElse (ts ++ us) = false := by
  rcases h.begins with rfl | begins
  · exact hu
  · exact (begins.append us).head_ne rfl

theorem Gets.recover {α : Type} {x : Parse α} {ts us : List Token} {good : α → Prop}
    {good' : Option α → Prop} (h : Gets b True x n ts us good)
    (hg : ∀ a, good a → good' (some a)) : Gets b True (recover x) n ts us good' := by
  intro r hr
  rw [ends_recover]
  refine (h r hr).mono (fun a r' ha => ?_) fun reason r' hs => ?_
  · exact ha.imp_left fun ⟨faces, noted, ha⟩ => ⟨faces, noted, hg a ha⟩
  · cases reason with
    | fault e =>
      refine .inr ⟨trivial, ?_⟩
      simpa [Stop.errors] using hs
    | exhausted => exact hs

/-- Every rule for statements is complete, with so many steps. -/
structure StatementsComplete (b : Bounds) (f : Nat) : Prop where
  declaration : ∀ {n ts us s}, IsDeclaration b.width n ts s → startsElse us = false →
    4 * ts.length ≤ f + 1 →
    Gets b True (declaration f) n ts us fun o => Stmt.erased? o = some s.erased
  statement : ∀ {dangling n ts us s}, IsStatement b.width dangling n ts s →
    (dangling = true → startsElse us = false) → 4 * ts.length ≤ f + 2 →
    Gets b True (statement f) n ts us fun a => a.erased = s.erased
  block : ∀ {n ts us ss right}, IsDeclarations b.width n ts ss →
    right.kind = .symbol .rightBrace → 4 * (ts.length + 1) ≤ f + 3 →
    Gets b True (block f) n (ts ++ [right]) us fun as => Stmt.erasedAll as = Stmt.erasedAll ss

theorem erasedAll_cons {first : Option Stmt} {others ss : List Stmt} {s : Stmt}
    (h : Stmt.erased? first = some s.erased)
    (ho : Stmt.erasedAll others = Stmt.erasedAll ss) :
    Stmt.erasedAll (first.toList ++ others) = Stmt.erasedAll (s :: ss) := by
  cases first with
  | none => cases h
  | some first => simpa [Stmt.erasedAll, Stmt.erased?, ho] using h

/-- The statement that ends another one. -/
theorem Gets.nested_return {α β : Type} {x : Parse α} {ts us : List Token} {good : α → Prop}
    {good' : β → Prop} {g : α → β} (h : Gets b True x n ts us good)
    (hg : ∀ a, good a → good' (g a)) :
    Gets b True (Grammar.nested x >>= fun a => Pure.pure (g a)) (n + 1) ts us good' := by
  rw [← List.append_nil ts]
  exact h.nested.bind_lost (fun a => .pure (g a)) fun a ha => .pure (hg a ha)

section

variable {f : Nat} {ts us vs ws : List Token}

theorem gets_declaration (ih : StatementsComplete b f) {s : Stmt}
    (h : IsDeclaration b.width n ts s) (next : startsElse us = false)
    (hf : 4 * ts.length ≤ f + 1 + 1) :
    Gets b True (declaration (f + 1)) n ts us fun o => Stmt.erased? o = some s.erased := by
  rw [Grammar.declaration]
  refine .recover ?_ fun a (ha : a.erased = s.erased) => by simp [Stmt.erased?, ha]
  cases h with
  | @function n keyword name opening closing left right ps ts names body keywordKind nameKind
      openingKind parameters few closingKind leftKind inner rightKind =>
    simp only [List.length_append, List.length_cons, List.length_nil] at hf
    have tokens : keyword :: name :: opening :: ps ++ closing :: left :: ts ++ [right] =
        keyword :: ((name :: opening :: (ps ++ [closing, left])) ++ (ts ++ [right])) := by simp
    rw [tokens]
    refine .accept_yes keywordKind ?_
    refine (gets_signature nameKind openingKind parameters few closingKind leftKind).bind ?_
    rintro _ rfl
    exact (ih.block inner rightKind (by omega)).nested_return fun body' hbody => by
      simp [Stmt.erased, hbody]
  | var inner =>
    obtain ⟨keyword, rest, rfl, kind, declaration⟩ := gets_variableDeclaration inner
    refine .accept_no (by simp [kind]) (.accept_yes kind ?_)
    exact (declaration us).of_strict
  | statement inner =>
    have begins := inner.begins.append us
    refine .accept_no (begins.head_ne rfl) (.accept_no (begins.head_ne rfl) ?_)
    refine .sees_no (begins.head_ne rfl) ?_
    exact ih.statement inner (fun _ => next) (by omega)

/-- Behind the first branch of an `if`. -/
theorem advances_elseBranch (f : Nat) (test : Expr) (yes : Stmt) : Advances (do
    let no ← if ← accept (.keyword .else_) then some <$> nested (statement f) else pure none
    return Stmt.ifThen test yes no) :=
  .bind (.accept _) fun _ =>
    .ite ((statementsAdvance f).statement.nested.map.bind fun _ => .pure _) (.pure _)

theorem gets_forLoop (ih : StatementsComplete b f) {dangling : Bool}
    {keyword opening semicolon closing : Token} {first : Option Stmt} {test last : Option Expr}
    {body : Stmt} {rest : List Token} (keywordKind : keyword.kind = .keyword .for_)
    (openingKind : opening.kind = .symbol .leftParen)
    (firstClause : IsFirstClause b.width (n + 1) ts first)
    (conditionClause : IsOptional b.width (n + 1) us test)
    (semicolonKind : semicolon.kind = .symbol .semicolon)
    (lastClause : IsOptional b.width (n + 1) vs last)
    (closingKind : closing.kind = .symbol .rightParen)
    (inner : IsStatement b.width dangling n ws body)
    (next : dangling = true → startsElse rest = false) (hf : 4 * ws.length ≤ f + 2) :
    Gets b True (statement (f + 1)) (n + 1)
      (keyword :: opening :: ts ++ us ++ semicolon :: vs ++ closing :: ws) rest
      fun a => a.erased = (forLoop first test last body).erased := by
  rw [statement]
  simp only [List.append_assoc, List.cons_append]
  refine .peek_bind ?_
  rw [keywordKind]
  refine .advance_bind (.expect_bind openingKind ?_)
  refine (gets_firstClause firstClause).bind fun first' hfirst => ?_
  refine (gets_expressionUnless conditionClause (.cons (by simp [semicolonKind]) _) rfl
    rfl).bind fun test' htest => .expect_bind semicolonKind ?_
  refine (gets_expressionUnless lastClause (.cons (by simp [closingKind]) _) rfl rfl).bind
    fun last' hlast => .expect_bind closingKind ?_
  refine (ih.statement inner next hf).nested_return fun body' hbody => ?_
  rw [desugarFor_eq, erased_forLoop, erased_forLoop, hfirst, htest, hlast, hbody]

theorem gets_ifThen (ih : StatementsComplete b f) {dangling : Bool}
    {keyword opening closing : Token} {test : Expr} {yes : Stmt} {rest : List Token}
    (keywordKind : keyword.kind = .keyword .if_) (openingKind : opening.kind = .symbol .leftParen)
    (condition : IsExpression b.width (n + 1) ts test)
    (closingKind : closing.kind = .symbol .rightParen)
    (inner : IsStatement b.width dangling n us yes) (noElse : startsElse rest = false)
    (hf : 4 * us.length ≤ f + 2) :
    Gets b True (statement (f + 1)) (n + 1) (keyword :: opening :: ts ++ closing :: us) rest
      fun a => a.erased = (Stmt.ifThen test yes none).erased := by
  rw [statement]
  have tokens : keyword :: opening :: ts ++ closing :: us =
      keyword :: ((opening :: (ts ++ [closing])) ++ us) := by simp
  rw [tokens]
  refine .peek_bind ?_
  rw [keywordKind]
  refine .advance_bind ((gets_condition openingKind condition closingKind).bind
    fun test' htest => ?_)
  rw [← List.append_nil us]
  refine (ih.statement inner (fun _ => noElse) hf).nested.bind_lost
    (fun _ => advances_elseBranch f _ _) fun yes' hyes => ?_
  exact .accept_no noElse (.pure (by simp [Stmt.erased, htest, hyes]))

theorem gets_ifThenElse (ih : StatementsComplete b f) {dangling : Bool}
    {keyword opening closing separator : Token} {test : Expr} {yes no : Stmt} {rest : List Token}
    (keywordKind : keyword.kind = .keyword .if_) (openingKind : opening.kind = .symbol .leftParen)
    (condition : IsExpression b.width (n + 1) ts test)
    (closingKind : closing.kind = .symbol .rightParen) (inner : IsStatement b.width false n us yes)
    (separatorKind : separator.kind = .keyword .else_)
    (other : IsStatement b.width dangling n vs no)
    (next : dangling = true → startsElse rest = false) (hf : 4 * us.length ≤ f + 2)
    (hf' : 4 * vs.length ≤ f + 2) :
    Gets b True (statement (f + 1)) (n + 1)
      (keyword :: opening :: ts ++ closing :: us ++ separator :: vs) rest
      fun a => a.erased = (Stmt.ifThen test yes (some no)).erased := by
  rw [statement]
  have tokens : keyword :: opening :: ts ++ closing :: us ++ separator :: vs =
      keyword :: ((opening :: (ts ++ [closing])) ++ (us ++ separator :: vs)) := by simp
  rw [tokens]
  refine .peek_bind ?_
  rw [keywordKind]
  refine .advance_bind ((gets_condition openingKind condition closingKind).bind
    fun test' htest => ?_)
  refine (ih.statement inner (by simp) hf).nested.bind_lost
    (fun _ => advances_elseBranch f _ _) fun yes' hyes => ?_
  refine .accept_yes separatorKind ?_
  have other := (ih.statement other next hf').nested
  have present : Gets b True (some <$> nested (statement f)) (n + 1) vs rest
      fun a => Stmt.erased? a = Stmt.erased? (some no) :=
    .map (other.mono fun a ha => by simp [Stmt.erased?, ha])
  rw [← List.append_nil vs]
  refine present.bind_lost (fun _ => .pure _) fun no' hno => .pure ?_
  cases no' with
  | none => cases hno
  | some no' => simpa [Stmt.erased, htest, hyes, Stmt.erased?] using hno

theorem gets_statement (ih : StatementsComplete b f) {dangling : Bool} {s : Stmt}
    (h : IsStatement b.width dangling n ts s) (next : dangling = true → startsElse us = false)
    (hf : 4 * ts.length ≤ f + 1 + 2) :
    Gets b True (statement (f + 1)) n ts us fun a => a.erased = s.erased := by
  rw [Grammar.statement]
  cases h with
  | expression inner =>
    obtain ⟨t, rest, rfl, ht⟩ := inner.begins
    refine .peek_bind ?_
    split
    case h_7 => exact (gets_expressionStatement inner).of_strict
    all_goals
      rename_i kind
      rw [kind] at ht
      cases ht
  | @forLoop dangling n keyword opening semicolon closing ts us' vs ws first test last body
      keywordKind openingKind firstClause conditionClause semicolonKind lastClause closingKind
      inner =>
    simp only [List.length_append, List.length_cons] at hf
    exact gets_forLoop ih keywordKind openingKind firstClause conditionClause semicolonKind
      lastClause closingKind inner next (by omega)
  | @ifThen dangling n keyword opening closing ts us' test yes keywordKind openingKind condition
      closingKind inner =>
    simp only [List.length_append, List.length_cons] at hf
    exact gets_ifThen ih keywordKind openingKind condition closingKind inner (next rfl) (by omega)
  | @ifThenElse dangling n keyword opening closing separator ts us' vs test yes no keywordKind
      openingKind condition closingKind inner separatorKind other =>
    simp only [List.length_append, List.length_cons] at hf
    exact gets_ifThenElse ih keywordKind openingKind condition closingKind inner separatorKind
      other next (by omega) (by omega)
  | @print n keyword semicolon ts value keywordKind inner semicolonKind =>
    simp only [List.cons_append]
    refine .peek_bind ?_
    rw [keywordKind]
    refine .advance_bind ((gets_expression inner (.cons (by simp [semicolonKind, closes]) _)).bind
      fun value' hvalue => .expect_bind semicolonKind (.pure ?_))
    simp [Stmt.erased, hvalue]
  | @ret n keyword semicolon ts value keywordKind inner semicolonKind =>
    simp only [List.cons_append]
    refine .peek_bind ?_
    rw [keywordKind]
    refine .advance_bind ((gets_expressionUnless inner (.cons (by simp [semicolonKind]) _) rfl
      rfl).bind fun value' hvalue => .expect_bind semicolonKind (.pure ?_))
    simp [Stmt.erased, hvalue]
  | @whileDo dangling n keyword opening closing ts us' test body keywordKind openingKind condition
      closingKind inner =>
    simp only [List.length_append, List.length_cons] at hf
    have tokens : keyword :: opening :: ts ++ closing :: us' =
        keyword :: ((opening :: (ts ++ [closing])) ++ us') := by simp
    rw [tokens]
    refine .peek_bind ?_
    rw [keywordKind]
    refine .advance_bind ((gets_condition openingKind condition closingKind).bind
      fun test' htest => ?_)
    exact (ih.statement inner next (by omega)).nested_return fun body' hbody => by
      simp [Stmt.erased, htest, hbody]
  | @block n left right ts body leftKind inner rightKind =>
    simp only [List.length_append, List.length_cons, List.length_nil] at hf
    simp only [List.cons_append]
    refine .peek_bind ?_
    rw [leftKind]
    exact .advance_bind ((ih.block inner rightKind (by omega)).nested_return fun body' hbody => by
      simp [Stmt.erased, hbody])

theorem gets_block (ih : StatementsComplete b f) {ss : List Stmt} {right : Token}
    (h : IsDeclarations b.width n ts ss) (rightKind : right.kind = .symbol .rightBrace)
    (hf : 4 * (ts.length + 1) ≤ f + 1 + 3) :
    Gets b True (block (f + 1)) n (ts ++ [right]) us
      fun as => Stmt.erasedAll as = Stmt.erasedAll ss := by
  rw [Grammar.block]
  cases h with
  | nil =>
    have seen : ([] ++ [right] ++ us : List Token).head?.any
        (·.kind == .symbol .rightBrace) = true := by simp [rightKind]
    exact .sees_bind seen (.atEnd_bind rfl (.expect_bind rightKind (.pure rfl)))
  | @cons n ts us' s ss first others =>
    have pos := first.begins.length_pos
    have begins := ((first.begins.append us').append [right]).append us
    rw [List.length_append] at hf
    refine .sees_bind (begins.head_ne rfl) (.atEnd_bind begins.isEmpty ?_)
    rw [List.append_assoc]
    refine (ih.declaration first ?_ (by omega)).bind_lost
      (fun _ => (statementsAdvance f).block.bind fun _ => .pure _) fun first' hfirst => ?_
    · rw [List.append_assoc]
      exact others.noElse (by simp [startsElse, rightKind])
    rw [← List.append_nil (us' ++ [right])]
    exact (ih.block others rightKind (by omega)).bind_lost (fun _ => .pure _) fun others' ho =>
      .pure (erasedAll_cons hfirst ho)

end

theorem statementsComplete (b : Bounds) (f : Nat) : StatementsComplete b f := by
  induction f with
  | zero =>
    constructor
    case declaration =>
      intro n ts us s h _ hf
      have := h.begins.length_pos
      omega
    case statement =>
      intro dangling n ts us s h _ hf
      have := h.begins.length_pos
      omega
    case block =>
      intro n ts us ss right h _ hf
      omega
  | succ f ih => exact ⟨gets_declaration ih, gets_statement ih, gets_block ih⟩

theorem gets_declarations (f : Nat) {ts : List Token} {ss : List Stmt}
    (h : IsDeclarations b.width n ts ss) (hf : 4 * (ts.length + 1) ≤ f) :
    Gets b True (declarations f) n ts [] fun as => Stmt.erasedAll as = Stmt.erasedAll ss := by
  induction f generalizing ts ss with
  | zero => omega
  | succ f ih =>
    rw [declarations]
    cases h with
    | nil => exact .atEnd_bind rfl (.pure rfl)
    | @cons n ts us s ss first others =>
      have pos := first.begins.length_pos
      rw [List.length_append] at hf
      refine .atEnd_bind ((first.begins.append us).append []).isEmpty ?_
      refine ((statementsComplete b f).declaration first ?_ (by omega)).bind_lost
        (fun _ => (advances_declarations f).bind fun _ => .pure _) fun first' hfirst => ?_
      · exact others.noElse rfl
      rw [← List.append_nil us]
      exact (ih others (by omega)).bind_lost (fun _ => .pure _) fun others' ho =>
        .pure (erasedAll_cons hfirst ho)

/-- A fault never gets past the declaration it is in. -/
theorem declarations_stops (f : Nat) (r : Reader) :
    Ends (declarations f) r (fun _ _ => True) fun reason _ => reason = .exhausted := by
  have recovers : ∀ (x : Parse Stmt) (r : Reader),
      Ends (recover x) r (fun _ _ => True) fun reason _ => reason = .exhausted := by
    intro x r
    simp only [Ends, recover]
    cases x r with
    | ok a r' => trivial
    | error reason r' => cases reason <;> trivial
  induction f generalizing r with
  | zero => rfl
  | succ f ih =>
    rw [declarations, Ends.bind_iff, ends_atEnd]
    split
    · trivial
    · rw [Ends.bind_iff]
      have first : Ends (declaration f) r (fun _ _ => True) fun reason _ => reason = .exhausted := by
        cases f with
        | zero => rfl
        | succ f => rw [declaration]; exact recovers _ r
      refine first.mono (fun _ r' _ => ?_) fun _ _ hs => hs
      rw [Ends.bind_iff]
      exact (ih r').mono (fun _ _ _ => trivial) fun _ _ hs => hs

theorem Reader.Faces.start {width nesting limit : Nat} (tokens : List Token) (firstId : RefId) :
    Reader.Faces ⟨width, nesting, limit⟩
      ⟨tokens, Token.endOf tokens, Token.kind_endOf tokens, #[], 0, limit, firstId⟩ nesting
      (tokens ++ []) :=
  ⟨(List.append_nil tokens).symm, rfl, Nat.zero_add nesting⟩

end Grammar

/-- Within the limits, a program is read as the tree of its derivation, up to identities. -/
theorem Program.ok_of_isProgram (firstId : RefId) {width nesting : Nat} {tokens : List Token}
    {program : Program} (h : Grammar.IsProgram width nesting tokens program)
    (narrow : width ≤ Grammar.maxArguments) (flat : nesting ≤ Grammar.maxNesting) :
    ∃ program' nextId, Program.ofTokens firstId tokens = (.ok program', nextId) ∧
      Stmt.erasedAll program' = Stmt.erasedAll program := by
  have read := Grammar.gets_declarations (b := ⟨width, nesting, Grammar.maxNesting⟩)
    (4 * (tokens.length + 1)) h (Nat.le_refl _) _ (.start tokens firstId)
  have room : ¬Grammar.maxNesting < nesting := Nat.not_lt.2 flat
  unfold Ends at read
  unfold Program.ofTokens
  simp only
  split at read
  · rename_i program' r hr
    rw [hr]
    rcases read with ⟨-, clean | ⟨wide, -⟩, same⟩ | ⟨-, deep, -⟩
    · exact ⟨program', r.nextId, by simp [clean], same⟩
    · exact absurd wide (Nat.not_lt.2 narrow)
    · exact absurd deep room
  · exact absurd read.1 room

end Lox
