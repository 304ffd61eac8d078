import Lox.Proofs.Grammar.Derivation
import Lox.Proofs.Grammar.Progress
import Lox.Proofs.Grammar.Recovery
import Lox.Proofs.Token.Coverage

/-!
# The order of syntax errors

Errors are listed as the tokens stand that they are about, with one exception. What cannot be assigned
to is noticed only when the value has been read, and so it is listed behind what is wrong inside of the
value.

* `Token.Precedes`, `inRow_of_scan` — scanned tokens, and the one behind them, stand in a row.
* `ParseError.FoundIn` — an error at one of the tokens of a value, noted while this value is read;
  `ParseError.Late` — an error about a target, listed behind an error in its value.
* `Grammar.Way` — the tokens that are taken and the errors that are noted on the way between readers.
* `Grammar.expressionsOrderly`, `Grammar.orderly_assembled` — so it is in all rules.
* `errors_inOrder` — the errors of a program; `errors_unordered` — their lines may decrease.
-/

namespace Lox

/-! ## Places -/

/-- The token begins before the other one and ends on no later line. -/
structure Token.Precedes (t u : Token) : Prop where
  line : t.line ≤ u.line
  offset : t.offset < u.offset

/-- The token stands where the other one stands or before it. -/
structure Token.UpTo (t u : Token) : Prop where
  line : t.line ≤ u.line
  offset : t.offset ≤ u.offset

theorem Token.UpTo.refl (t : Token) : t.UpTo t := ⟨Nat.le_refl _, Nat.le_refl _⟩

theorem Token.UpTo.trans {t u v : Token} (h : t.UpTo u) (h' : u.UpTo v) : t.UpTo v :=
  ⟨h.line.trans h'.line, h.offset.trans h'.offset⟩

theorem Token.Precedes.upTo {t u : Token} (h : t.Precedes u) : t.UpTo u := ⟨h.line, h.offset.le⟩

/-- The tokens and the one behind them stand one behind the other. -/
def InRow (tokens : List Token) : Prop :=
  (tokens ++ [Token.endOf tokens]).Pairwise Token.Precedes

/-- Tokens that cover a text end on lines in order. -/
theorem Covers.lines {before rest : List Char} {ts : List Token} (h : Covers before rest ts) :
    (∀ t ∈ ts, 1 + lineEnds before ≤ t.line) ∧ ts.Pairwise fun t u => t.line ≤ u.line := by
  induction h with
  | layout _ => exact ⟨fun t mem => absurd mem List.not_mem_nil, .nil⟩
  | @token before gap chars rest first ts _ spells _ ih =>
    obtain ⟨behind, ordered⟩ := ih
    have line := spells.line
    constructor
    · intro t mem
      rcases List.mem_cons.1 mem with rfl | mem
      · rw [line, lineEnds_append, lineEnds_append]
        omega
      · have le := behind t mem
        rw [lineEnds_append, lineEnds_append] at le
        omega
    · refine List.pairwise_cons.2 ⟨fun t mem => ?_, ordered⟩
      rw [line]
      exact behind t mem

/-- Scanned tokens stand in a row. -/
theorem inRow_of_scan {source : String} {tokens : List Token} (h : scan source = .ok tokens) :
    InRow tokens := by
  have covers : Covers [] source.toList tokens := covers_foundBehind [] source.toList tokens
    (scan_eq_ok_iff.1 h)
  have row : tokens.Pairwise fun t u => t.line ≤ u.line ∧ t.EndsBefore u :=
    covers.lines.2.and covers.ordered.2
  refine List.pairwise_append.2 ⟨row.imp fun h => ⟨h.1, h.2.1⟩, List.pairwise_singleton _ _, ?_⟩
  intro t mem u hu
  rw [List.mem_singleton] at hu
  obtain rfl | ⟨front, last, rfl⟩ := List.eq_nil_or_concat' tokens
  · cases mem
  have place : u = ⟨.endOfInput, "", last.line, last.offset + last.lexeme.utf8ByteSize⟩ := by
    rw [hu, Token.endOf, List.getLast?_concat]
  have size : 0 < last.lexeme.utf8ByteSize := by
    have found : .ok last ∈ foundBehind [] source.toList := by
      show .ok last ∈ scanFrom 1 0 source.toList
      rw [scan_eq_ok_iff.1 h]
      exact List.mem_map_of_mem List.mem_concat_self
    have written := (standsIn_foundBehind source [] source.toList rfl last found).writtenAs
    rw [← String.ofList_toList (s := last.lexeme), byteSize_eq]
    exact byteSize_pos written.ne_nil
  rw [List.pairwise_append] at row
  rcases List.mem_append.1 mem with mem | mem
  · have before := row.2.2 t mem last List.mem_cons_self
    exact ⟨by rw [place]; exact before.1, by rw [place]; exact Nat.lt_add_right _ before.2.1⟩
  · rw [List.mem_singleton.1 mem, place]
    exact ⟨Nat.le_refl _, Nat.lt_add_of_pos_right size⟩

/-! ## Late errors -/

/-- The token may stand in an expression: no statement begins or ends with it. -/
def Token.InExpression (t : Token) : Prop :=
  t.startsStatement = false ∧ t.kind ≠ .keyword .else_ ∧ t.kind ≠ .symbol .semicolon ∧
    t.kind ≠ .symbol .leftBrace ∧ t.kind ≠ .symbol .rightBrace

/-- What is found wrong inside of an expression that is read to its end. -/
def ParseError.Cause.IsInner (c : ParseError.Cause) : Prop := c = .invalidTarget ∨ c = .tooManyArguments

/-- Behind an `=`, the tokens `value` are read as what is assigned, with `rest` left behind them. The
error is noted on the way, and it is about one of these tokens. -/
structure ParseError.FoundIn (e : ParseError) (value rest : List Token) : Prop where
  place : e.token ∈ value
  noted : ∃ (n : Nat) (r r' : Grammar.Reader) (a : Expr) (errors : List ParseError),
    r.rest = value ++ rest ∧ Grammar.nested (Grammar.assignment n) r = .ok a r' ∧ r'.rest = rest ∧
    r'.errors.toList = r.errors.toList ++ errors ∧ e ∈ errors

/-- The second error is about a target. The first one is found in its value, which is read before: at
one of the tokens that are taken as the value behind the `=`. No statement begins or ends between the
two places. -/
structure ParseError.Late (tokens : List Token) (e target : ParseError) : Prop where
  cause : target.cause = .invalidTarget
  inner : e.cause.IsInner
  inValue : ∃ front value rest, tokens = front ++ target.token :: (value ++ rest) ∧ e.FoundIn value rest
  behind : target.token.offset < e.token.offset
  together : ∀ t ∈ tokens, target.token.offset < t.offset → t.offset < e.token.offset → t.InExpression

/-- The first error may be listed in front of the second one. -/
def ParseError.Listed (tokens : List Token) (e e' : ParseError) : Prop :=
  e.token.UpTo e'.token ∨ e.Late tokens e'

namespace Grammar

/-! ## Readers on the way -/

/-- The reader is somewhere in the tokens. -/
structure Reader.In (tokens : List Token) (r : Reader) : Prop where
  rest : r.rest <:+ tokens
  last : r.last = Token.endOf tokens

variable {tokens : List Token} {T : Token → Prop} {C : ParseError.Cause → Prop} {N : Prop}
  {r r' r'' : Reader}

theorem Reader.next_mem (r : Reader) : r.next ∈ r.rest ++ [r.last] := by
  unfold Reader.next
  cases r.rest with
  | nil => exact List.mem_cons_self
  | cons t rest => exact List.mem_cons_self

/-- The tokens that are left stand in a row. -/
theorem Reader.In.row (at_ : r.In tokens) (row : InRow tokens) :
    (r.rest ++ [r.last]).Pairwise Token.Precedes := by
  rw [at_.last]
  exact row.sublist (at_.rest.sublist.append_right _)

theorem Reader.In.skip (at_ : r.In tokens) : r.skip.In tokens :=
  ⟨(List.tail_suffix r.rest).trans at_.rest, at_.last⟩

/-- The next token stands before those that are left. -/
theorem Reader.In.next_upTo (at_ : r.In tokens) (row : InRow tokens) {t : Token}
    (mem : t ∈ r.rest ++ [r.last]) : r.next.UpTo t := by
  have behind := at_.row row
  unfold Reader.next
  cases left : r.rest with
  | nil =>
    rw [left, List.nil_append, List.mem_singleton] at mem
    rw [mem]
    exact .refl _
  | cons u us =>
    rw [left, List.cons_append] at mem behind
    rcases List.mem_cons.1 mem with rfl | mem
    · exact .refl _
    · exact ((List.pairwise_cons.1 behind).1 t mem).upTo

/-- From `r` to `r'` the tokens `ts` were taken, which have the property `T`, and the errors `es` were
noted, whose causes have the property `C` and which may be listed in their order. Each is about one of
these tokens, or about the next one if `N` holds. -/
structure Way (tokens : List Token) (T : Token → Prop) (C : ParseError.Cause → Prop) (N : Prop)
    (r r' : Reader) (ts : List Token) (es : List ParseError) : Prop where
  last : r'.last = r.last
  rest : r.rest = ts ++ r'.rest
  taken : ∀ t ∈ ts, T t
  errors : r'.errors.toList = r.errors.toList ++ es
  listed : es.Pairwise (ParseError.Listed tokens)
  causes : ∀ e ∈ es, C e.cause
  places : ∀ e ∈ es, e.token ∈ ts ∨ N ∧ e.token = r'.next

/-- On some way the first reader comes to the second one. -/
def Goes (tokens : List Token) (T : Token → Prop) (C : ParseError.Cause → Prop) (N : Prop)
    (r r' : Reader) : Prop :=
  ∃ ts es, Way tokens T C N r r' ts es

namespace Way

variable {ts us : List Token} {es fs : List ParseError}

theorem in_ (h : Way tokens T C N r r' ts es) (at_ : r.In tokens) : r'.In tokens :=
  ⟨(h.rest ▸ List.suffix_append ts r'.rest).trans at_.rest, h.last.trans at_.last⟩

/-- The tokens that were taken and those that are left stand in a row. -/
theorem row (h : Way tokens T C N r r' ts es) (at_ : r.In tokens) (row : InRow tokens) :
    (ts ++ (r'.rest ++ [r'.last])).Pairwise Token.Precedes := by
  have whole := at_.row row
  rwa [h.rest, ← h.last, List.append_assoc] at whole

/-- What was taken, and what is next, stands between the two places. -/
theorem between (h : Way tokens T C N r r' ts es) (at_ : r.In tokens) (row : InRow tokens) {t : Token}
    (place : t ∈ ts ∨ t = r'.next) : r.next.UpTo t ∧ t.UpTo r'.next := by
  have whole := List.pairwise_append.1 (h.row at_ row)
  have mem : t ∈ r.rest ++ [r.last] := by
    rw [h.rest, ← h.last, List.append_assoc]
    rcases place with mem | rfl
    · exact List.mem_append_left _ mem
    · exact List.mem_append_right _ r'.next_mem
  refine ⟨at_.next_upTo row mem, ?_⟩
  rcases place with mem | rfl
  · exact (whole.2.2 t mem _ r'.next_mem).upTo
  · exact .refl _

/-- An error stands between the two places. -/
theorem error_between (h : Way tokens T C N r r' ts es) (at_ : r.In tokens) (row : InRow tokens)
    {e : ParseError} (mem : e ∈ es) : r.next.UpTo e.token ∧ e.token.UpTo r'.next :=
  h.between at_ row ((h.places e mem).imp_right And.right)

/-- The next token is taken if any is, and else it is still the next one. -/
theorem next (h : Way tokens T C N r r' ts es) : r.next ∈ ts ∨ r.next = r'.next := by
  have rest := h.rest
  cases ts with
  | nil =>
    right
    rw [List.nil_append] at rest
    rw [Reader.next, Reader.next, rest, h.last]
  | cons t ts => exact .inl (Reader.next_cons rest ▸ List.mem_cons_self)

theorem trans (h : Way tokens T C N r r' ts es) (h' : Way tokens T C N r' r'' us fs)
    (at_ : r.In tokens) (row : InRow tokens) : Way tokens T C N r r'' (ts ++ us) (es ++ fs) where
  last := h'.last.trans h.last
  rest := by rw [h.rest, h'.rest, List.append_assoc]
  taken := List.forall_mem_append.2 ⟨h.taken, h'.taken⟩
  errors := by rw [h'.errors, h.errors, List.append_assoc]
  listed := List.pairwise_append.2 ⟨h.listed, h'.listed, fun _ mem _ mem' =>
    .inl ((h.error_between at_ row mem).2.trans (h'.error_between (h.in_ at_) row mem').1)⟩
  causes := List.forall_mem_append.2 ⟨h.causes, h'.causes⟩
  places := by
    refine List.forall_mem_append.2 ⟨fun e mem => ?_, fun e mem => ?_⟩
    · rcases h.places e mem with mem | ⟨next, here⟩
      · exact .inl (List.mem_append_left _ mem)
      · rw [here]
        exact h'.next.imp (List.mem_append_right _) fun same => ⟨next, same⟩
    · exact (h'.places e mem).imp_left (List.mem_append_right _)

/-- The tokens of a value. -/
theorem inExpression (h : Way tokens Token.InExpression C N r.skip r' ts es) (at_ : r.In tokens)
    (row : InRow tokens) {t : Token} {rest : List Token} (left : r.rest = t :: rest) :
    ∀ u ∈ tokens, t.offset < u.offset → u.offset < r'.next.offset → u.InExpression := by
  intro u mem behind before
  obtain ⟨front, whole⟩ := at_.rest
  have at_' : r'.In tokens := h.in_ at_.skip
  rw [← whole, left, ← Reader.skip_cons left, h.rest] at mem
  simp only [List.mem_append, List.mem_cons] at mem
  rcases mem with mem | rfl | mem | mem
  · rw [InRow, ← whole, List.append_assoc, left, List.pairwise_append] at row
    have earlier := row.2.2 u mem t List.mem_cons_self
    exact absurd behind (Nat.not_lt.2 earlier.offset.le)
  · exact absurd behind (Nat.lt_irrefl _)
  · exact h.taken u mem
  · have later := at_'.next_upTo row (List.mem_append_left _ mem)
    exact absurd before (Nat.not_lt.2 later.offset)

/-- An error in a value may be listed in front of the one about its target. -/
theorem late {n : Nat} {a : Expr} (read : nested (assignment n) r.skip = .ok a r')
    (h : Way tokens Token.InExpression ParseError.Cause.IsInner False r.skip r' ts es)
    (at_ : r.In tokens) (row : InRow tokens) {t : Token} {rest : List Token}
    (left : r.rest = t :: rest) {e : ParseError} (mem : e ∈ es) :
    e.Late tokens ⟨.invalidTarget, t⟩ where
  cause := rfl
  inner := h.causes e mem
  inValue := by
    obtain ⟨front, whole⟩ := at_.rest
    refine ⟨front, ts, r'.rest, ?_, (h.places e mem).resolve_right fun here => here.1,
      n, r.skip, r', a, es, h.rest, read, rfl, h.errors, mem⟩
    rw [← whole, left, ← h.rest, Reader.skip_cons left]
  behind := by
    have row' := at_.row row
    rw [left, List.cons_append, List.pairwise_cons] at row'
    have front := (h.error_between at_.skip row mem).1
    have next := r.skip.next_mem
    rw [Reader.skip_cons left] at next
    exact (row'.1 _ next).offset.trans_le front.offset
  together := by
    have back := (h.error_between at_.skip row mem).2
    exact fun u mem after before => h.inExpression at_ row left u mem after (before.trans_le back.offset)

end Way

namespace Goes

/-- Nothing is taken and nothing noted. -/
theorem still (last : r'.last = r.last) (rest : r'.rest = r.rest) (errors : r'.errors = r.errors) :
    Goes tokens T C N r r' := by
  refine ⟨[], [], last, rest.symm, fun _ mem => ?_, ?_, .nil, fun _ mem => ?_, fun _ mem => ?_⟩
  · cases mem
  · rw [errors, List.append_nil]
  · cases mem
  · cases mem

theorem mono {T' : Token → Prop} {C' : ParseError.Cause → Prop} {N' : Prop} (h : Goes tokens T C N r r')
    (hT : ∀ t, T t → T' t) (hC : ∀ c, C c → C' c) (hN : N → N') : Goes tokens T' C' N' r r' := by
  obtain ⟨ts, es, way⟩ := h
  exact ⟨ts, es, way.last, way.rest, fun t mem => hT t (way.taken t mem), way.errors, way.listed,
    fun e mem => hC _ (way.causes e mem), fun e mem => (way.places e mem).imp_right (.imp_left hN)⟩

/-- Errors may also be about the next token. -/
theorem loosely (h : Goes tokens T C N r r') : Goes tokens T C True r r' :=
  h.mono (fun _ => id) (fun _ => id) fun _ => trivial

theorem in_ (h : Goes tokens T C N r r') (at_ : r.In tokens) : r'.In tokens := by
  obtain ⟨_, _, way⟩ := h
  exact way.in_ at_

theorem trans (h : Goes tokens T C N r r') (h' : Goes tokens T C N r' r'') (at_ : r.In tokens)
    (row : InRow tokens) : Goes tokens T C N r r'' := by
  obtain ⟨_, _, way⟩ := h
  obtain ⟨_, _, way'⟩ := h'
  exact ⟨_, _, way.trans way' at_ row⟩

/-- A computation that starts where the first step has led goes on from there. -/
theorem andThen (step : Goes tokens T C N r r') (at_ : r.In tokens) (row : InRow tokens) {α : Type}
    {x : Parse α} {s : Reader}
    (h : Ends x s (fun _ => Goes tokens T C N r') fun _ => Goes tokens T C True r') :
    Ends x s (fun _ => Goes tokens T C N r) fun _ => Goes tokens T C True r :=
  h.mono (fun _ _ goes => step.trans goes at_ row) fun _ _ goes => step.loosely.trans goes at_ row

/-- Tokens are left out. -/
theorem leaveOut {ts : List Token} (last : r'.last = r.last) (rest : r.rest = ts ++ r'.rest)
    (all : ∀ t ∈ ts, T t) (errors : r'.errors = r.errors) : Goes tokens T C N r r' := by
  refine ⟨ts, [], last, rest, all, ?_, .nil, fun _ mem => ?_, fun _ mem => ?_⟩
  · rw [errors, List.append_nil]
  · cases mem
  · cases mem

/-- A token is taken. -/
theorem skip {t : Token} {rest : List Token} (left : r.rest = t :: rest) (token : T t) :
    Goes tokens T C N r r.skip := by
  have rest : r.rest = [t] ++ r.skip.rest := by rw [left, Reader.skip_cons left, List.singleton_append]
  exact .leaveOut rfl rest (List.forall_mem_singleton.2 token) rfl

/-- An error is noted at the next token. -/
theorem noteHere {e : ParseError} (cause : C e.cause) (here : e.token = r.next) :
    Goes tokens T C True r (r.noting e) :=
  ⟨[], [e], rfl, rfl, fun _ mem => absurd mem List.not_mem_nil, Array.toList_push,
    List.pairwise_singleton _ _, List.forall_mem_singleton.2 cause,
    List.forall_mem_singleton.2 (.inr ⟨trivial, here⟩)⟩

/-- The token at which an error is noted first is taken afterwards. -/
theorem noteFirst {e : ParseError} (h : Goes tokens T C N (r.noting e) r') (cause : C e.cause)
    (here : e.token = r.next) (takes : r'.rest.length < r.rest.length) (at_ : r.In tokens)
    (row : InRow tokens) : Goes tokens T C N r r' := by
  obtain ⟨ts, es, way⟩ := h
  have at_' : (r.noting e).In tokens := ⟨at_.rest, at_.last⟩
  have place : e.token ∈ ts := by
    have rest := way.rest
    cases ts with
    | nil =>
      rw [List.nil_append, Reader.rest_noting] at rest
      rw [rest] at takes
      exact absurd takes (Nat.lt_irrefl _)
    | cons t ts =>
      rw [here]
      exact Reader.next_cons rest ▸ List.mem_cons_self
  refine ⟨ts, e :: es, way.last, way.rest, way.taken, ?_, List.pairwise_cons.2 ⟨fun f mem => ?_, way.listed⟩,
    List.forall_mem_cons.2 ⟨cause, way.causes⟩, List.forall_mem_cons.2 ⟨.inl place, way.places⟩⟩
  · rw [way.errors, Reader.errors_noting, Array.toList_push, List.append_assoc, List.singleton_append]
  · rw [ParseError.Listed, here]
    exact .inl (way.error_between at_' row mem).1

/-- An error about a target is noted behind those in its value. -/
theorem noteTarget {n : Nat} {a : Expr} (read : nested (assignment n) r.skip = .ok a r')
    (value : Goes tokens Token.InExpression ParseError.Cause.IsInner False r.skip r')
    (at_ : r.In tokens) (row : InRow tokens) {t : Token} {rest : List Token} (left : r.rest = t :: rest)
    (token : t.InExpression) : Goes tokens Token.InExpression ParseError.Cause.IsInner False r
      (r'.noting ⟨.invalidTarget, t⟩) := by
  obtain ⟨ts, es, way⟩ := value
  refine ⟨t :: ts, es ++ [⟨.invalidTarget, t⟩], way.last, ?_, List.forall_mem_cons.2 ⟨token, way.taken⟩,
    ?_, List.pairwise_append.2 ⟨way.listed, List.pairwise_singleton _ _, fun e mem f last => ?_⟩,
    List.forall_mem_append.2 ⟨way.causes, List.forall_mem_singleton.2 (.inl rfl)⟩, ?_⟩
  · rw [left, Reader.rest_noting, List.cons_append, ← way.rest, Reader.skip_cons left]
  · rw [Reader.errors_noting, Array.toList_push, way.errors, Reader.errors_skip, List.append_assoc]
  · rw [List.mem_singleton.1 last]
    exact .inr (way.late read at_ row left mem)
  · refine List.forall_mem_append.2 ⟨fun e mem => ?_, List.forall_mem_singleton.2 (.inl List.mem_cons_self)⟩
    exact .inl (List.mem_cons_of_mem _ ((way.places e mem).resolve_right fun here => here.1))

end Goes

/-! ## Rules -/

/-- On its way to where it ends the computation takes tokens and notes errors so. If it stops early,
errors may be about the next token in any case. -/
def Orderly (tokens : List Token) (T : Token → Prop) (C : ParseError.Cause → Prop) (N : Prop) {α : Type}
    (x : Parse α) : Prop :=
  ∀ r, r.In tokens → Ends x r (fun _ => Goes tokens T C N r) (fun _ => Goes tokens T C True r)

namespace Orderly

variable {α β : Type} {x y : Parse α}

/-- The computation leaves the reader where it is. -/
theorem of_still (h : ∀ r, Ends x r (fun _ r' => r'.last = r.last ∧ r'.rest = r.rest ∧ r'.errors = r.errors)
    fun _ r' => r' = r) : Orderly tokens T C N x := by
  intro r _
  refine (h r).mono (fun _ r' same => .still same.1 same.2.1 same.2.2) fun _ r' same => ?_
  rw [same]
  exact .still rfl rfl rfl

theorem bind (row : InRow tokens) {f : α → Parse β} (hx : Orderly tokens T C N x)
    (hf : ∀ a, Orderly tokens T C N (f a)) : Orderly tokens T C N (x >>= f) := by
  intro r at_
  rw [Ends.bind_iff]
  exact (hx r at_).mono (fun a r' h => h.andThen at_ row (hf a r' (h.in_ at_))) fun _ _ h => h

theorem ite {c : Prop} [Decidable c] (hx : Orderly tokens T C N x) (hy : Orderly tokens T C N y) :
    Orderly tokens T C N (if c then x else y) := by
  split
  · exact hx
  · exact hy

theorem pure (a : α) : Orderly tokens T C N (pure a : Parse α) := .of_still fun _ => ⟨rfl, rfl, rfl⟩

theorem fail (cause : ParseError.Cause) : Orderly tokens T C N (fail cause : Parse α) :=
  .of_still fun _ => rfl

theorem exhausted : Orderly tokens T C N (exhausted : Parse α) := .of_still fun _ => rfl

theorem sees (kind : Kind) : Orderly tokens T C N (sees kind) := .of_still fun _ => ⟨rfl, rfl, rfl⟩

theorem freshId : Orderly tokens T C N freshId := .of_still fun _ => ⟨rfl, rfl, rfl⟩

theorem deepen : Orderly tokens T C N deepen := by
  refine .of_still fun r => ?_
  rw [ends_deepen]
  split
  · rfl
  · exact ⟨rfl, rfl, rfl⟩

theorem ascend : Orderly tokens T C N ascend := .of_still fun _ => ⟨rfl, rfl, rfl⟩

theorem nested (row : InRow tokens) (hx : Orderly tokens T C N x) : Orderly tokens T C N (nested x) :=
  .bind row .deepen fun _ => .bind row hx fun a => .bind row .ascend fun _ => .pure a

theorem levelled (row : InRow tokens) (hx : Orderly tokens T C N x) : Orderly tokens T C N (levelled x) := by
  intro r at_
  rw [ends_levelled]
  refine (hx r at_).mono (fun _ r' h => ?_) fun _ _ h => h
  exact h.trans (.still rfl rfl rfl) at_ row

theorem noteHere {cause : ParseError.Cause} (h : C cause) : Orderly tokens T C True (noteHere cause) :=
  fun _ _ => .noteHere h rfl

/-- An error is noted at a token that is taken afterwards. -/
theorem noteHere_bind (row : InRow tokens) {cause : ParseError.Cause} (h : C cause)
    (hx : Orderly tokens T C N x) (takes : Takes x) :
    Orderly tokens T C N (Grammar.noteHere cause >>= fun _ => x) := by
  intro r at_
  rw [Ends.bind_iff, ends_noteHere]
  have noted : Goes tokens T C True r (r.noting (r.errorHere cause)) := .noteHere h rfl
  refine ((hx _ (noted.in_ at_)).and (takes _)).mono (fun _ r' ⟨goes, less⟩ => ?_) fun _ r' ⟨goes, _⟩ => ?_
  · exact goes.noteFirst h rfl less at_ row
  · exact noted.trans goes at_ row

/-- A token is taken first. -/
theorem advance_bind (row : InRow tokens) {f : Token → Parse α} (hf : Orderly tokens T C N (f r.next))
    (at_ : r.In tokens) (left : r.rest = r.next :: r.skip.rest) (token : T r.next) :
    Ends (advance >>= f) r (fun _ => Goes tokens T C N r) (fun _ => Goes tokens T C True r) := by
  have step : Goes tokens T C N r r.skip := .skip left token
  rw [Ends.bind_iff, ends_advance]
  exact step.andThen at_ row (hf r.skip (step.in_ at_))

theorem accept {kind : Kind} (h : ∀ t, t.kind = kind → T t) : Orderly tokens T C N (accept kind) := by
  intro r at_
  rw [ends_accept]
  split
  · rename_i seen
    obtain ⟨next, left⟩ := Reader.cons_of_sees seen
    exact .skip left (h _ next)
  · exact .still rfl rfl rfl

theorem expect {kind : Kind} {cause : ParseError.Cause} (h : ∀ t, t.kind = kind → T t) :
    Orderly tokens T C N (expect kind cause) := by
  intro r at_
  rw [ends_expect]
  split
  · rename_i seen
    obtain ⟨next, left⟩ := Reader.cons_of_sees seen
    exact .skip left (h _ next)
  · exact .still rfl rfl rfl

end Orderly

/-! ## Expressions -/

theorem inExpression_of_symbol {s : Symbol}
    (h : s ≠ .semicolon ∧ s ≠ .leftBrace ∧ s ≠ .rightBrace) {t : Token} (kind : t.kind = .symbol s) :
    t.InExpression := by
  simp [Token.InExpression, Token.startsStatement, kind, h]

theorem inExpression_of_constant {t : Token} {value : Literal} (h : IsConstant t.kind value) :
    t.InExpression := by
  unfold Token.InExpression Token.startsStatement
  generalize t.kind = kind at h
  cases h <;> simp [Keyword.startsStatement]

/-- The operators of the level may stand in an expression. -/
def Level.Inside (level : Level) : Prop := ∀ t : Token, level.has t.kind → t.InExpression

theorem levels_inside : ∀ level ∈ levels, level.Inside := by
  have operators : ∀ symbols : List Symbol, (∀ s ∈ symbols, s ≠ .semicolon ∧ s ≠ .leftBrace ∧
      s ≠ .rightBrace) → (Level.operators symbols).Inside := by
    intro symbols all t has
    obtain ⟨s, mem, kind⟩ := Level.has_operators has
    exact inExpression_of_symbol (all s mem) kind
  have or : (Level.connective .or).Inside := fun t has => by
    simp [Token.InExpression, Token.startsStatement, Keyword.startsStatement, Level.has_or has]
  have and : (Level.connective .and).Inside := fun t has => by
    simp [Token.InExpression, Token.startsStatement, Keyword.startsStatement, Level.has_and has]
  simp only [levels, List.forall_mem_cons]
  exact ⟨or, and, operators _ (by decide), operators _ (by decide), operators _ (by decide),
    operators _ (by decide), List.forall_mem_nil _⟩

/-- Taking tokens of expressions and noting inner errors at them. -/
abbrev Inside (tokens : List Token) {α : Type} (x : Parse α) : Prop :=
  Orderly tokens Token.InExpression ParseError.Cause.IsInner False x

/-- The rules for expressions note their errors in order, with so many steps. -/
structure ExpressionsOrderly (tokens : List Token) (n : Nat) : Prop where
  assignment : Inside tokens (assignment n)
  leftAssociative : ∀ ls, (∀ level ∈ ls, level.Inside) → Inside tokens (leftAssociative n ls)
  operands : ∀ level tighter left, level.Inside → (∀ level ∈ tighter, level.Inside) →
    Inside tokens (operands n level tighter left)
  unary : Inside tokens (unary n)
  calls : ∀ callee, Inside tokens (calls n callee)
  arguments : ∀ count, Inside tokens (arguments n count)
  primary : Inside tokens (primary n)

section Expressions

variable {n : Nat}

/-- Behind an `=` the value is read. Only then it is known whether there is an error. -/
theorem inside_value (row : InRow tokens) (ih : ExpressionsOrderly tokens n) (target : Expr)
    (at_ : r.In tokens) (sees : r.sees (.symbol .equal)) :
    Ends (nested (assignment n) >>= assignTo target r.next) r.skip
      (fun _ => Goes tokens Token.InExpression ParseError.Cause.IsInner False r)
      (fun _ => Goes tokens Token.InExpression ParseError.Cause.IsInner True r) := by
  obtain ⟨kind, left⟩ := Reader.cons_of_sees sees
  have token : r.next.InExpression := inExpression_of_symbol (by decide) kind
  have step : Goes tokens Token.InExpression ParseError.Cause.IsInner False r r.skip :=
    .skip left token
  rw [Ends.bind_iff]
  refine (Orderly.nested row ih.assignment r.skip (step.in_ at_)).with_eq.mono
    (fun value r' ⟨read, h⟩ => ?_) fun _ _ ⟨_, h⟩ => step.loosely.trans h at_ row
  unfold assignTo
  split
  · exact step.trans (h.trans (.still rfl rfl rfl) (step.in_ at_) row) at_ row
  · exact h.noteTarget read at_ row left token

theorem inside_assignment (row : InRow tokens) (ih : ExpressionsOrderly tokens n) :
    Inside tokens (assignment (n + 1)) := by
  rw [assignment]
  refine .bind row (ih.leftAssociative levels levels_inside) fun target r at_ => ?_
  rw [Ends.bind_iff, ends_sees]
  split
  · rename_i sees
    exact inside_value row ih target at_ sees
  · exact .still rfl rfl rfl

theorem inside_operands (row : InRow tokens) (ih : ExpressionsOrderly tokens n) (level : Level)
    (tighter : List Level) (left : Expr) (inside : level.Inside)
    (others : ∀ level ∈ tighter, level.Inside) :
    Inside tokens (operands (n + 1) level tighter left) := by
  intro r at_
  rw [operands, Ends.bind_iff, ends_seesLevel]
  split
  · rename_i sees
    obtain ⟨has, front⟩ : level.has r.next.kind ∧ r.rest = r.next :: r.skip.rest := by
      cases left : r.rest with
      | nil => simp [left] at sees
      | cons t rest => simpa [left, Reader.next_cons left, Reader.skip_cons left] using sees
    rw [Ends.bind_iff, ends_deepen]
    split
    · exact .still rfl rfl rfl
    · have deeper : Goes tokens Token.InExpression ParseError.Cause.IsInner False r
          (r.atDepth (r.depth + 1)) := .still rfl rfl rfl
      exact deeper.andThen at_ row (Orderly.advance_bind row
        (.bind row (ih.leftAssociative tighter others) fun _ => ih.operands level tighter _ inside others)
        (deeper.in_ at_) front (inside _ has))
  · exact .still rfl rfl rfl

theorem inside_unary (row : InRow tokens) (ih : ExpressionsOrderly tokens n) :
    Inside tokens (unary (n + 1)) := by
  have operator (kind : Kind) (inside : ∀ t : Token, t.kind = kind → t.InExpression) (r : Reader)
      (at_ : r.In tokens) (sees : r.sees kind) :
      Ends (do
        let op ← advance
        let right ← nested (unary n)
        pure (Expr.unary op right)) r
        (fun _ => Goes tokens Token.InExpression ParseError.Cause.IsInner False r)
        (fun _ => Goes tokens Token.InExpression ParseError.Cause.IsInner True r) := by
    obtain ⟨next, left⟩ := Reader.cons_of_sees sees
    exact Orderly.advance_bind row (.bind row (.nested row ih.unary) fun _ => .pure _) at_ left
      (inside _ next)
  intro r at_
  rw [unary, Ends.bind_iff, ends_sees, Ends.bind_iff, ends_sees]
  split
  · rename_i either
    rcases Bool.or_eq_true_iff.1 either with sees | sees
    · exact operator _ (fun _ => inExpression_of_symbol (by decide)) r at_ sees
    · exact operator _ (fun _ => inExpression_of_symbol (by decide)) r at_ sees
  · exact Orderly.bind row ih.primary (fun _ => ih.calls _) r at_

theorem inside_calls (row : InRow tokens) (ih : ExpressionsOrderly tokens n) (callee : Expr) :
    Inside tokens (calls (n + 1) callee) := by
  have parenthesis {s : Symbol} (h : s ≠ .semicolon ∧ s ≠ .leftBrace ∧ s ≠ .rightBrace) :
      ∀ t : Token, t.kind = .symbol s → t.InExpression := fun _ => inExpression_of_symbol h
  rw [calls]
  refine .bind row (.accept (parenthesis (by decide))) fun _ => .ite ?_ (.pure _)
  refine .bind row (.sees _) fun _ => .ite (.bind row (.pure _) fun _ => ?_)
    (.bind row (ih.arguments 0) fun _ => ?_) <;>
    exact .bind row (.expect (parenthesis (by decide))) fun _ => ih.calls _

theorem inside_arguments (row : InRow tokens) (ih : ExpressionsOrderly tokens n) (count : Nat) :
    Inside tokens (arguments (n + 1) count) := by
  have comma : ∀ t : Token, t.kind = .symbol .comma → t.InExpression := fun _ =>
    inExpression_of_symbol (by decide)
  have others : Inside tokens (do
      let first ← nested (assignment n)
      if ← accept (.symbol .comma) then
        let others ← arguments n (count + 1)
        return first :: others
      else
        return [first]) :=
    .bind row (.nested row ih.assignment) fun _ => .bind row (.accept comma) fun _ =>
      .ite (.bind row (ih.arguments _) fun _ => .pure _) (.pure _)
  have takes : Takes (do
      let first ← nested (assignment n)
      if ← accept (.symbol .comma) then
        let others ← arguments n (count + 1)
        return first :: others
      else
        return [first]) :=
    (expressionsTake n).assignment.nested.bind_left fun _ => (Advances.accept _).bind fun _ =>
      .ite (((expressionsAdvance n).arguments _).bind fun _ => .pure _) (.pure _)
  rw [arguments]
  exact .ite (.noteHere_bind row (.inr rfl) others takes) others

theorem inside_primary (row : InRow tokens) (ih : ExpressionsOrderly tokens n) :
    Inside tokens (primary (n + 1)) := by
  have parenthesis {s : Symbol} (h : s ≠ .semicolon ∧ s ≠ .leftBrace ∧ s ≠ .rightBrace) :
      ∀ t : Token, t.kind = .symbol s → t.InExpression := fun _ => inExpression_of_symbol h
  intro r at_
  rw [primary, Ends.bind_iff, ends_peek]
  have front : r.next.kind ≠ .endOfInput → r.rest = r.next :: r.skip.rest := fun other =>
    (Reader.cons_of_sees (Reader.sees_of_next rfl other)).2
  split
  · rename_i kind
    refine Orderly.advance_bind row (.bind row .freshId fun _ => .pure _) at_ (front ?_) ?_
    · rw [kind]
      exact Kind.noConfusion
    · simp [Token.InExpression, Token.startsStatement, kind]
  · rename_i kind
    refine Orderly.advance_bind row (.bind row (.nested row ih.assignment) fun _ =>
      .bind row (.expect (parenthesis (by decide))) fun _ => .pure _) at_ (front ?_)
      (parenthesis (by decide) _ kind)
    rw [kind]
    exact Kind.noConfusion
  · split
    · rename_i value constant
      refine Orderly.advance_bind row (.pure _) at_ (front ?_) ?_
      · intro none
        rw [none] at constant
        cases constant
      · exact inExpression_of_constant (isConstant_iff.2 constant)
    · exact .still rfl rfl rfl

end Expressions

theorem expressionsOrderly (row : InRow tokens) (n : Nat) : ExpressionsOrderly tokens n := by
  induction n with
  | zero =>
    constructor <;> intros <;>
      simp only [assignment, leftAssociative, operands, unary, calls, arguments, primary] <;>
      exact .exhausted
  | succ n ih =>
    refine ⟨inside_assignment row ih, fun ls all => ?_, inside_operands row ih, inside_unary row ih,
      inside_calls row ih, inside_arguments row ih, inside_primary row ih⟩
    cases ls with
    | nil =>
      rw [leftAssociative]
      exact ih.unary
    | cons level tighter =>
      rw [List.forall_mem_cons] at all
      rw [leftAssociative]
      exact .levelled row (.bind row (ih.leftAssociative _ all.2) fun _ =>
        ih.operands _ _ _ all.1 all.2)

/-! ## Programs -/

/-- The computation notes its errors in order, and stops at a token that stands behind them. -/
def ListsInOrder (tokens : List Token) {α : Type} (x : Parse α) : Prop :=
  FaultsHere x ∧ Orderly tokens (fun _ => True) (fun _ => True) True x

/-- Any tokens are taken, and errors with any causes noted. -/
theorem Orderly.anyhow {α : Type} {x : Parse α} (h : Orderly tokens T C N x) :
    Orderly tokens (fun _ => True) (fun _ => True) True x := by
  have any {N : Prop} {r r' : Reader} (goes : Goes tokens T C N r r') :
      Goes tokens (fun _ => True) (fun _ => True) True r r' :=
    goes.mono (fun _ _ => trivial) (fun _ _ => trivial) fun _ => trivial
  exact fun r at_ => (h r at_).mono (fun _ _ goes => any goes) fun _ _ goes => any goes

/-- A fault is noted where it has occurred, and tokens are left out behind it. -/
theorem ListsInOrder.recover (row : InRow tokens) {α : Type} {x : Parse α} (hx : ListsInOrder tokens x) :
    ListsInOrder tokens (recover x) := by
  refine ⟨.recover x, fun r at_ => ?_⟩
  have outcome := (hx.2 r at_).and (hx.1 r)
  rw [ends_recover]
  refine outcome.mono (fun _ _ h => h.1) fun reason r' h => ?_
  cases reason with
  | exhausted => exact h.1
  | fault e =>
    obtain ⟨goes, here⟩ := h
    obtain ⟨ts, rest⟩ := resume_suffix r'.rest
    have noted := goes.trans (.noteHere trivial (here e rfl)) at_ row
    exact noted.trans (.leaveOut rfl rest.symm (fun _ _ => trivial) rfl) at_ row

theorem inOrder_steps (row : InRow tokens) : Steps (@ListsInOrder tokens) where
  pure a := ⟨faultsHere_closed.pure a, .pure a⟩
  bind hx hf := ⟨faultsHere_closed.bind hx.1 fun a => (hf a).1, .bind row hx.2 fun a => (hf a).2⟩
  exhausted := ⟨faultsHere_closed.exhausted, .exhausted⟩
  fail cause := ⟨faultsHere_closed.fail cause, .fail cause⟩
  peek := ⟨faultsHere_closed.peek, .of_still fun _ => ⟨rfl, rfl, rfl⟩⟩
  sees kind := ⟨faultsHere_closed.sees kind, .sees kind⟩
  seesLevel level := ⟨faultsHere_closed.seesLevel level, .of_still fun _ => ⟨rfl, rfl, rfl⟩⟩
  atEnd := ⟨faultsHere_closed.atEnd, .of_still fun _ => ⟨rfl, rfl, rfl⟩⟩
  advance := ⟨faultsHere_closed.advance, fun r _ => by
    cases left : r.rest with
    | nil => exact .still rfl (show r.rest.tail = r.rest by rw [left, List.tail_nil]) rfl
    | cons t rest => exact .skip left trivial⟩
  noteHere cause := ⟨faultsHere_closed.noteHere cause, .noteHere trivial⟩
  freshId := ⟨faultsHere_closed.freshId, .freshId⟩
  deepen := ⟨faultsHere_closed.deepen, .deepen⟩
  ascend := ⟨faultsHere_closed.ascend, .ascend⟩
  levelled hx := ⟨faultsHere_closed.levelled hx.1, .levelled row hx.2⟩
  recover := .recover row
  measured _ h := ⟨fun r => (h _).1 r, fun r at_ => (h _).2 r at_⟩

/-- All rules note their errors in order. -/
theorem orderly_assembled (row : InRow tokens) : Assembled (@ListsInOrder tokens) where
  toSteps := inOrder_steps row
  expression := by
    refine ⟨faultsHere_closed.expression, fun r at_ => ?_⟩
    have inside := Orderly.nested row (expressionsOrderly row (11 * (r.rest.length + 1))).assignment
    rw [ends_expression]
    exact inside.anyhow r at_

/-- The errors of a program are listed in order. -/
theorem listed_of_ofTokens (row : InRow tokens) {firstId nextId : RefId} {errors : List ParseError}
    (rejected : Program.ofTokens firstId tokens = (.error errors, nextId)) :
    errors.Pairwise (ParseError.Listed tokens) := by
  have goes := ((orderly_assembled row).declarations (4 * (tokens.length + 1))).2
    (.start firstId tokens) ⟨List.suffix_rfl, rfl⟩
  have listed : ∀ r', Goes tokens (fun _ => True) (fun _ => True) True (.start firstId tokens) r' →
      r'.errors.toList.Pairwise (ParseError.Listed tokens) := by
    rintro r' ⟨ts, es, way⟩
    rw [way.errors]
    exact way.listed
  rw [Program.ofTokens_eq] at rejected
  unfold Ends at goes
  split at goes <;> rename_i outcome <;> rw [outcome] at rejected
  · dsimp only at rejected
    split at rejected
    · cases rejected
    · cases rejected
      exact listed _ goes
  · cases rejected
    exact listed _ goes

end Grammar

/-! ## Order -/

/-- **Syntax errors are listed as their tokens stand**, and so their lines do not decrease, with one
exception: what cannot be assigned to is noticed behind its value. Such an error is listed late only
behind those that are found at tokens of this value, which is read behind the `=` in the same
expression. -/
theorem errors_inOrder {source : String} {tokens : List Token} {firstId nextId : RefId}
    {errors : List ParseError} (scanned : scan source = .ok tokens)
    (rejected : Program.ofTokens firstId tokens = (.error errors, nextId)) :
    errors.Pairwise fun e e' =>
      (e.token.line ≤ e'.token.line ∧ e.token.offset ≤ e'.token.offset) ∨ e.Late tokens e' :=
  (Grammar.listed_of_ofTokens (inRow_of_scan scanned) rejected).imp fun listed =>
    listed.imp_left fun upTo => ⟨upTo.line, upTo.offset⟩

/-- The tokens of `1 =`, and on the next line `2 = 3; var;`. -/
def nestedTargets : List Token :=
  [⟨.number ⟨0x3FF0000000000000⟩, "1", 1, 0⟩, ⟨.symbol .equal, "=", 1, 2⟩,
    ⟨.number ⟨0x4000000000000000⟩, "2", 2, 4⟩, ⟨.symbol .equal, "=", 2, 6⟩,
    ⟨.number ⟨0x4008000000000000⟩, "3", 2, 8⟩, ⟨.symbol .semicolon, ";", 2, 9⟩,
    ⟨.keyword .var, "var", 2, 11⟩, ⟨.symbol .semicolon, ";", 2, 14⟩]

theorem scan_nestedTargets : scan "1 =\n2 = 3; var;" = .ok nestedTargets := by cbv

/-- The target in the value comes first, then the one on the line above. -/
theorem ofTokens_nestedTargets : Program.ofTokens 0 nestedTargets =
    (.error [⟨.invalidTarget, ⟨.symbol .equal, "=", 2, 6⟩⟩, ⟨.invalidTarget, ⟨.symbol .equal, "=", 1, 2⟩⟩,
      ⟨.variableName, ⟨.symbol .semicolon, ";", 2, 14⟩⟩], 0) := by cbv

/-- A target in a value, the target of this value, and an error behind both. -/
theorem errors_inOrder_nestedTargets :
    [(⟨.invalidTarget, ⟨.symbol .equal, "=", 2, 6⟩⟩ : ParseError),
      ⟨.invalidTarget, ⟨.symbol .equal, "=", 1, 2⟩⟩,
      ⟨.variableName, ⟨.symbol .semicolon, ";", 2, 14⟩⟩].Pairwise fun e e' =>
        (e.token.line ≤ e'.token.line ∧ e.token.offset ≤ e'.token.offset) ∨ e.Late nestedTargets e' :=
  errors_inOrder scan_nestedTargets ofTokens_nestedTargets

/-- Lines of errors may decrease. -/
theorem errors_unordered : ¬∀ (source : String) (tokens : List Token) (firstId nextId : RefId)
    (errors : List ParseError), scan source = .ok tokens →
    Program.ofTokens firstId tokens = (.error errors, nextId) →
    errors.Pairwise fun e e' => e.token.line ≤ e'.token.line ∧ e.token.offset ≤ e'.token.offset := by
  intro ordered
  have listed := ordered _ _ _ _ _ scan_nestedTargets ofTokens_nestedTargets
  rw [List.pairwise_cons] at listed
  exact absurd (listed.1 _ List.mem_cons_self).1 (by decide)

end Lox
