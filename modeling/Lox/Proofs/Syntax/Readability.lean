import Lox.Proofs.Grammar.Operators
import Lox.Proofs.Grammar.Parts
import Lox.Proofs.Grammar.Programs
import Lox.Proofs.Number.Printing
import Lox.Proofs.Syntax.Forms

/-!
# Reading prefix forms

The prefix form of an expression shows all of it, apart from places and identities. Strings may have
blanks, parentheses and operators in them, but no quotation mark, and names are no reserved words.

* `Expr.placeless` — the expression without places and identities.
* `Expr.form` — the form that the text of an expression has.
* `Form.expr` — reading a form back.
* `Expr.Readable` — what scanned tokens make of a node, with a finite number.
* `Expr.expr_form`, `Expr.sound_form` — forms of such nodes are read back, and known by their texts.
* `text_unambiguous` — no two expressions in programs have the same text.
-/

namespace Lox

/-! ## Places -/

/-- The token without its place. -/
def Token.placeless (t : Token) : Token := { t with line := 0, offset := 0 }

mutual

/-- The expression without places and identities. -/
def Expr.placeless : Expr → Expr
  | .literal value => .literal value
  | .grouping inner => .grouping inner.placeless
  | .unary op right => .unary op.placeless right.placeless
  | .binary left op right => .binary left.placeless op.placeless right.placeless
  | .logical left op right => .logical left.placeless op right.placeless
  | .var _ name => .var 0 name.placeless
  | .assign _ target value => .assign 0 target.placeless value.placeless
  | .call callee closing arguments =>
    .call callee.placeless closing.placeless (Expr.placelessAll arguments)

/-- The expressions without places and identities. -/
def Expr.placelessAll : List Expr → List Expr
  | [] => []
  | e :: es => e.placeless :: Expr.placelessAll es

end

/-! ## Forms of expressions -/

/-- The form of a constant. -/
def Literal.form : Literal → Form
  | .string s => .quoted s.toList
  | value => .word value.text.toList

mutual

/-- The form of an expression. -/
def Expr.form : Expr → Form
  | .literal value => value.form
  | .grouping inner => .list "group".toList [inner.form]
  | .unary op right => .list op.lexeme.toList [right.form]
  | .binary left op right => .list op.lexeme.toList [left.form, right.form]
  | .logical left op right => .list op.text.toList [left.form, right.form]
  | .var _ name => .word name.lexeme.toList
  | .assign _ target value => .list "=".toList [.word target.lexeme.toList, value.form]
  | .call callee _ arguments => .list "call".toList (callee.form :: Expr.forms arguments)

/-- The forms of expressions in order. -/
def Expr.forms : List Expr → List Form
  | [] => []
  | e :: es => e.form :: Expr.forms es

end

theorem Literal.chars_form (value : Literal) : value.form.chars = value.text.toList := by
  cases value with
  | string s => simp [Literal.form, Form.chars, Literal.text]
  | nil | bool b | number x => rfl

mutual

/-- The text of an expression is that of its form. -/
theorem Expr.chars_form : ∀ e : Expr, e.form.chars = e.text.toList
  | .literal value => value.chars_form
  | .grouping inner | .unary _ inner => by
    simp [Expr.form, Form.chars, Form.itemChars, Expr.text, toList_listText, Expr.chars_form inner]
  | .binary left _ right | .logical left _ right => by
    simp [Expr.form, Form.chars, Form.itemChars, Expr.text, toList_listText, Expr.chars_form left,
      Expr.chars_form right]
  | .var _ _ => rfl
  | .assign _ _ value => by
    simp [Expr.form, Form.chars, Form.itemChars, Expr.text, toList_listText, Expr.chars_form value]
  | .call callee _ arguments => by
    simp [Expr.form, Form.chars, Form.itemChars, Expr.text, toList_listText, Expr.chars_form callee,
      Expr.itemChars_forms arguments]

theorem Expr.itemChars_forms : ∀ es : List Expr,
    Form.itemChars (Expr.forms es) = (Expr.texts es).flatMap fun item => ' ' :: item.toList
  | [] => rfl
  | e :: es => by
    simp [Expr.forms, Form.itemChars, Expr.texts, Expr.chars_form e, Expr.itemChars_forms es]

end

/-! ## Reading forms -/

/-- The expression that a word stands for. -/
def wordExpr (w : List Char) : Expr :=
  if w.head?.any Piece.isDigit then .literal (.number (Decimal.ofNumeral w).toNumber)
  else if w = Keyword.nil.chars then .literal .nil
  else if w = Keyword.true.chars then .literal (.bool true)
  else if w = Keyword.false.chars then .literal (.bool false)
  else .var 0 ⟨.identifier, String.ofList w, 0, 0⟩

/-- The operator that is spelled so. -/
def operatorToken (spelling : List Char) : Token :=
  ⟨(Symbol.all.find? fun s => s.chars == spelling).elim .endOfInput .symbol,
    String.ofList spelling, 0, 0⟩

/-- The parenthesis behind the arguments of a call. -/
def closingToken : Token := ⟨.symbol .rightParen, ")", 0, 0⟩

/-- The expression that a list with two items stands for. -/
def pairExpr (head : List Char) (left right : Expr) : Expr :=
  if head = Keyword.and.chars then .logical left .and right
  else if head = Keyword.or.chars then .logical left .or right
  else
    match left with
    | .var _ name => if head = Symbol.equal.chars then .assign 0 name right
      else .binary left (operatorToken head) right
    | _ => .binary left (operatorToken head) right

/-- The expression that a list stands for, if it is the form of one. -/
def listExpr (head : List Char) (items : List Expr) : Expr :=
  if head = "call".toList then .call (items.headD (.literal .nil)) closingToken items.tail
  else
    match items with
    | [inner] => if head = "group".toList then .grouping inner else .unary (operatorToken head) inner
    | [left, right] => pairExpr head left right
    | _ => .literal .nil

namespace Form

mutual

/-- The expression that a form stands for, if it is the form of one. -/
def expr : Form → Expr
  | .word w => wordExpr w
  | .quoted text => .literal (.string (String.ofList text))
  | .list head items => listExpr head (exprs items)

/-- The expressions that forms stand for. -/
def exprs : List Form → List Expr
  | [] => []
  | f :: fs => f.expr :: exprs fs

end

end Form

/-! ## Readable nodes -/

/-- The token is a name. -/
def Token.IsName (t : Token) : Prop :=
  t.kind = .identifier ∧ IsWord t.lexeme.toList ∧ ∀ k : Keyword, t.lexeme.toList ≠ k.chars

/-- The node is one that scanned tokens make; if it is a number, a finite one. -/
def Expr.Readable : Expr → Prop
  | .literal (.number x) => x.isFinite = true ∧ x.isNegative = false
  | .literal (.string s) => '"' ∉ s.toList
  | .literal _ | .grouping _ | .logical _ _ _ => True
  | .unary op _ => op.IsUnary
  | .binary _ op _ => op.IsBinary
  | .var _ name | .assign _ name _ => name.IsName
  | .call _ closing _ => closing.placeless = closingToken

theorem IsLexeme.isWord {chars : List Char} (h : IsLexeme chars (some .identifier)) :
    IsWord chars ∧ ∀ k : Keyword, chars ≠ k.chars := by
  cases h with
  | identifier isWord free => exact ⟨isWord, free⟩

/-- No quotation mark stands in a string. -/
theorem IsLexeme.not_mem_string {chars : List Char} {s : String}
    (h : IsLexeme chars (some (.string s))) : '"' ∉ s.toList := by
  cases h with
  | string inside => rwa [String.toList_ofList]

/-- Numbers have no sign. -/
theorem IsLexeme.not_isNegative {chars : List Char} {x : Number}
    (h : IsLexeme chars (some (.number x))) : x.isNegative = false := by
  cases h with
  | number reads nearest => exact nearest.sign

/-- The token is spelled as its kind requires and as no token of another kind. -/
def Token.Lexical (t : Token) : Prop := t.Written ∧ IsLexeme t.lexeme.toList (some t.kind)

theorem Token.Lexical.isName {t : Token} (h : t.Lexical) (kind : t.kind = .identifier) : t.IsName := by
  have lexeme := h.2
  rw [kind] at lexeme
  exact ⟨kind, lexeme.isWord⟩

/-- Scanned tokens make readable nodes, as far as numbers are finite. -/
theorem readable_nodes {width : Nat} : Grammar.Nodewise width Token.Lexical
    (fun e => (∀ x, e = .literal (.number x) → x.isFinite = true) → e.Readable) where
  constant := by
    rintro t value ⟨-, lexeme⟩ constant finite
    generalize t.kind = kind at constant lexeme
    cases constant with
    | number x => exact ⟨finite x rfl, lexeme.not_isNegative⟩
    | string s => exact lexeme.not_mem_string
    | false | true | nil => trivial
  always _ := trivial
  name lexical kind _ := lexical.isName kind
  assign lexical kind _ := lexical.isName kind
  joins := by
    rintro k left right e op ⟨written, -⟩ joins -
    have binary : ∀ s ∈ Symbol.binary, op.kind = .symbol s → op.IsBinary := fun s mem kind =>
      ⟨written, s, mem, kind⟩
    cases joins with
    | or _ | and _ => trivial
    | equality kind => rcases kind with kind | kind <;> exact binary _ (by decide) kind
    | comparison kind => rcases kind with kind | kind | kind | kind <;> exact binary _ (by decide) kind
    | term kind => rcases kind with kind | kind <;> exact binary _ (by decide) kind
    | factor kind => rcases kind with kind | kind <;> exact binary _ (by decide) kind
  operator lexical kind _ := ⟨lexical.1, kind⟩
  call := by
    rintro callee t arguments ⟨written, -⟩ kind - -
    rw [Token.Written, kind] at written
    have spelled : t.lexeme = ")" := String.toList_injective written
    rw [Expr.Readable, Token.placeless, kind, spelled, closingToken]
  group _ := trivial

/-! ## Reading back -/

theorem isWord_head {w : List Char} (h : IsWord w) : w.head?.any Piece.isDigit = false := by
  cases h with
  | mk first others => exact Piece.not_isDigit_of_startsWord first

/-- Names are read as such. -/
theorem wordExpr_name {t : Token} (h : t.IsName) :
    wordExpr t.lexeme.toList = .var 0 t.placeless := by
  obtain ⟨kind, isWord, free⟩ := h
  rw [wordExpr, isWord_head isWord, if_neg Bool.false_ne_true, if_neg (free .nil), if_neg (free .true),
    if_neg (free .false), String.ofList_toList, Token.placeless, kind]

theorem wordExpr_number {x : Number} (finite : x.isFinite = true) (sign : x.isNegative = false) :
    wordExpr x.text.toList = .literal (.number x) := by
  obtain ⟨numeral, reads⟩ := Number.absText_reads finite sign
  obtain ⟨c, cs, whole⟩ := List.exists_cons_of_ne_nil
    (@Kind.WrittenAs.ne_nil _ (.number x) ⟨numeral, reads.symm⟩)
  have digit : x.absText.head?.any Piece.isDigit = true := by
    rw [whole]
    exact Piece.head_isDigit numeral ((List.append_nil _).trans whole)
  rw [Number.text_of_not_isNegative finite sign, String.toList_ofList, wordExpr, if_pos digit, reads]

theorem operatorToken_lexeme {t : Token} {s : Symbol} (written : t.Written) (kind : t.kind = .symbol s) :
    operatorToken t.lexeme.toList = t.placeless := by
  have spelled : t.lexeme.toList = s.chars := by
    rw [Token.Written, kind] at written
    exact written
  have found : (Symbol.all.find? fun s' => s'.chars == s.chars) = some s := by cases s <;> rfl
  rw [operatorToken, String.ofList_toList, spelled, found, Token.placeless, kind]
  rfl

/-- The spelling of an operator is no word. -/
theorem IsUnary.listExpr_eq {op : Token} (h : op.IsUnary) (inner : Expr) :
    listExpr op.lexeme.toList [inner] = .unary op.placeless inner := by
  obtain ⟨written, kind⟩ := h
  obtain ⟨s, kind, word⟩ : ∃ s, op.kind = .symbol s ∧ s.chars ≠ "call".toList ∧
      s.chars ≠ "group".toList := by
    rcases kind with kind | kind <;> exact ⟨_, kind, by decide, by decide⟩
  have token := operatorToken_lexeme written kind
  rw [Token.Written, kind] at written
  have spelled : op.lexeme.toList = s.chars := written
  rw [listExpr, if_neg (by rw [spelled]; exact word.1), if_neg (by rw [spelled]; exact word.2), token]

theorem IsBinary.listExpr_eq {op : Token} (h : op.IsBinary) (left right : Expr) :
    listExpr op.lexeme.toList [left, right] = .binary left op.placeless right := by
  obtain ⟨written, s, mem, kind⟩ := h
  have words : s.chars ≠ "call".toList ∧ s.chars ≠ Keyword.and.chars ∧ s.chars ≠ Keyword.or.chars ∧
      s.chars ≠ Symbol.equal.chars := by
    clear kind
    revert mem
    cases s <;> decide
  have token := operatorToken_lexeme written kind
  rw [Token.Written, kind] at written
  have spelled : op.lexeme.toList = s.chars := written
  rw [← spelled] at words
  obtain ⟨call, and, or, equal⟩ := words
  rw [listExpr, if_neg call]
  unfold pairExpr
  rw [if_neg and, if_neg or, token]
  cases left with
  | var id name => exact if_neg equal
  | _ => rfl

theorem Literal.expr_form {value : Literal} (h : (Expr.literal value).Readable) :
    value.form.expr = .literal value := by
  cases value with
  | nil => rfl
  | bool b => cases b <;> rfl
  | number x => exact wordExpr_number h.1 h.2
  | string s => simp [Literal.form, Form.expr]

mutual

/-- Forms of readable expressions are read back. -/
theorem Expr.expr_form : ∀ e : Expr, (∀ p ∈ e.parts, p.Readable) → e.form.expr = e.placeless
  | .literal value, h => Literal.expr_form (h _ (Expr.mem_parts _))
  | .grouping inner, h => by
    rw [Expr.parts, List.forall_mem_cons] at h
    rw [Expr.form, Form.expr, Form.exprs, Form.exprs, Expr.expr_form inner h.2]
    rfl
  | .unary op right, h => by
    rw [Expr.parts, List.forall_mem_cons] at h
    rw [Expr.form, Form.expr, Form.exprs, Form.exprs, Expr.expr_form right h.2]
    exact IsUnary.listExpr_eq h.1 _
  | .binary left op right, h => by
    rw [Expr.parts, List.forall_mem_cons, List.forall_mem_append] at h
    rw [Expr.form, Form.expr, Form.exprs, Form.exprs, Form.exprs, Expr.expr_form left h.2.1,
      Expr.expr_form right h.2.2]
    exact IsBinary.listExpr_eq h.1 _ _
  | .logical left op right, h => by
    rw [Expr.parts, List.forall_mem_cons, List.forall_mem_append] at h
    rw [Expr.form, Form.expr, Form.exprs, Form.exprs, Form.exprs, Expr.expr_form left h.2.1,
      Expr.expr_form right h.2.2]
    cases op <;> rfl
  | .var _ name, h => wordExpr_name (h _ (Expr.mem_parts _))
  | .assign _ target value, h => by
    rw [Expr.parts, List.forall_mem_cons] at h
    rw [Expr.form, Form.expr, Form.exprs, Form.exprs, Form.exprs, Form.expr, wordExpr_name h.1,
      Expr.expr_form value h.2]
    rfl
  | .call callee closing arguments, h => by
    rw [Expr.parts, List.forall_mem_cons, List.forall_mem_append] at h
    rw [Expr.form, Form.expr, Form.exprs, Expr.expr_form callee h.2.1,
      Expr.exprs_forms arguments h.2.2, Expr.placeless, show closing.placeless = _ from h.1]
    rfl

theorem Expr.exprs_forms : ∀ es : List Expr, (∀ p ∈ Expr.partsAll es, p.Readable) →
    Form.exprs (Expr.forms es) = Expr.placelessAll es
  | [], _ => rfl
  | e :: es, h => by
    rw [Expr.partsAll, List.forall_mem_append] at h
    rw [Expr.forms, Form.exprs, Expr.expr_form e h.1, Expr.exprs_forms es h.2, Expr.placelessAll]

end

/-! ## Sound forms -/

theorem plain_of_continuesWord {c : Char} (h : Piece.continuesWord c = true) : Form.plain c = true := by
  rw [Form.plain, Bool.not_eq_true']
  by_contra delimits
  rw [Bool.not_eq_false] at delimits
  simp only [Bool.or_eq_true, beq_iff_eq] at delimits
  rcases delimits with ((rfl | rfl) | rfl) | rfl <;> exact absurd h (by decide)

theorem Token.IsName.sound {t : Token} (h : t.IsName) : (Form.word t.lexeme.toList).Sound := by
  obtain ⟨-, isWord, -⟩ := h
  refine ⟨?some, ?plain⟩
  case some =>
    intro none
    rw [none] at isWord
    cases isWord
  case plain =>
    generalize t.lexeme.toList = w at isWord
    obtain ⟨first, others⟩ := isWord
    intro c mem
    rcases List.mem_cons.1 mem with rfl | mem
    · exact plain_of_continuesWord (Piece.continuesWord_of_startsWord first)
    · exact plain_of_continuesWord (others c mem)

theorem sound_absText {x : Number} (finite : x.isFinite = true) (sign : x.isNegative = false) :
    (Form.word x.absText).Sound := by
  obtain ⟨numeral, reads⟩ := Number.absText_reads finite sign
  refine ⟨@Kind.WrittenAs.ne_nil _ (.number x) ⟨numeral, reads.symm⟩, ?_⟩
  exact numeral.forall_mem
    (fun _ digit => plain_of_continuesWord (Piece.continuesWord_of_isDigit digit)) (by decide)

theorem plain_symbol {t : Token} {s : Symbol} (written : t.Written) (kind : t.kind = .symbol s)
    (left : s ≠ .leftParen) (right : s ≠ .rightParen) :
    ∀ c ∈ t.lexeme.toList, Form.plain c = true := by
  rw [Token.Written, kind] at written
  have spelled : t.lexeme.toList = s.chars := written
  rw [spelled]
  cases s with
  | leftParen => exact absurd rfl left
  | rightParen => exact absurd rfl right
  | _ => exact List.all_eq_true.1 (by decide)

theorem Token.IsUnary.plain {op : Token} (h : op.IsUnary) : ∀ c ∈ op.lexeme.toList, Form.plain c = true := by
  obtain ⟨written, kind | kind⟩ := h <;> exact plain_symbol written kind (by decide) (by decide)

theorem Token.IsBinary.plain {op : Token} (h : op.IsBinary) :
    ∀ c ∈ op.lexeme.toList, Form.plain c = true := by
  obtain ⟨written, s, mem, kind⟩ := h
  refine plain_symbol written kind ?_ ?_ <;>
  · rintro rfl
    exact absurd mem (by decide)

theorem Literal.sound_form {value : Literal} (h : (Expr.literal value).Readable) :
    value.form.Sound := by
  cases value with
  | nil => exact ⟨by decide, List.all_eq_true.1 (by decide)⟩
  | bool b => cases b <;> exact ⟨by decide, List.all_eq_true.1 (by decide)⟩
  | number x =>
    show (Form.word x.text.toList).Sound
    rw [Number.text_of_not_isNegative h.1 h.2, String.toList_ofList]
    exact sound_absText h.1 h.2
  | string s => exact h

mutual

/-- Forms of readable expressions are sound. -/
theorem Expr.sound_form : ∀ e : Expr, (∀ p ∈ e.parts, p.Readable) → e.form.Sound
  | .literal value, h => Literal.sound_form (h _ (Expr.mem_parts _))
  | .grouping inner, h => by
    rw [Expr.parts, List.forall_mem_cons] at h
    exact ⟨List.all_eq_true.1 (by decide), Expr.sound_form inner h.2, trivial⟩
  | .unary op right, h => by
    rw [Expr.parts, List.forall_mem_cons] at h
    exact ⟨Token.IsUnary.plain h.1, Expr.sound_form right h.2, trivial⟩
  | .binary left op right, h => by
    rw [Expr.parts, List.forall_mem_cons, List.forall_mem_append] at h
    exact ⟨Token.IsBinary.plain h.1, Expr.sound_form left h.2.1, Expr.sound_form right h.2.2, trivial⟩
  | .logical left op right, h => by
    rw [Expr.parts, List.forall_mem_cons, List.forall_mem_append] at h
    exact ⟨List.all_eq_true.1 (by cases op <;> decide), Expr.sound_form left h.2.1, Expr.sound_form right h.2.2, trivial⟩
  | .var _ name, h => Token.IsName.sound (h _ (Expr.mem_parts _))
  | .assign _ target value, h => by
    rw [Expr.parts, List.forall_mem_cons] at h
    exact ⟨List.all_eq_true.1 (by decide), Token.IsName.sound h.1, Expr.sound_form value h.2, trivial⟩
  | .call callee closing arguments, h => by
    rw [Expr.parts, List.forall_mem_cons, List.forall_mem_append] at h
    exact ⟨List.all_eq_true.1 (by decide), Expr.sound_form callee h.2.1, Expr.soundAll_forms arguments h.2.2⟩

theorem Expr.soundAll_forms : ∀ es : List Expr, (∀ p ∈ Expr.partsAll es, p.Readable) →
    Form.SoundAll (Expr.forms es)
  | [], _ => trivial
  | e :: es, h => by
    rw [Expr.partsAll, List.forall_mem_append] at h
    exact ⟨Expr.sound_form e h.1, Expr.soundAll_forms es h.2⟩

end

/-- Readable expressions with the same text are the same. -/
theorem Expr.placeless_eq_of_text {e e' : Expr} (h : ∀ p ∈ e.parts, p.Readable)
    (h' : ∀ p ∈ e'.parts, p.Readable) (same : e.text = e'.text) : e.placeless = e'.placeless := by
  have forms : e.form = e'.form := Form.eq_of_chars (e.sound_form h) (e'.sound_form h') <| by
    rw [e.chars_form, e'.chars_form, same]
  rw [← e.expr_form h, ← e'.expr_form h', forms]

/-- What is read from tokens that were scanned is readable, as far as numbers are finite. -/
theorem readable_of_ofTokens {source : String} {tokens : List Token} {firstId nextId : RefId}
    {program : Program} (scanned : scan source = .ok tokens)
    (read : Program.ofTokens firstId tokens = (.ok program, nextId)) :
    ∀ p ∈ Stmt.partsAll program, (∀ x, p = .literal (.number x) → x.isFinite = true) → p.Readable := by
  obtain ⟨r, reading, clean, -⟩ := Program.ok_of_ofTokens read
  exact readable_nodes.program (Grammar.isDeclarations_of_ok reading clean) fun t mem =>
    ⟨written_of_scan scanned t mem, isLexeme_of_scan scanned t mem⟩

/-- **Prefix forms are unambiguous.** Of all expressions in programs that are read from texts, and all
expressions in these, no two with the same text are different trees, as far as their numbers are
finite: they have the same nodes, operators, names, constants and arguments, and differ at most in
identities and in the places of their tokens. -/
theorem text_unambiguous {source source' : String} {tokens tokens' : List Token}
    {firstId nextId firstId' nextId' : RefId} {program program' : Program} {e e' : Expr}
    (scanned : scan source = .ok tokens) (scanned' : scan source' = .ok tokens')
    (read : Program.ofTokens firstId tokens = (.ok program, nextId))
    (read' : Program.ofTokens firstId' tokens' = (.ok program', nextId'))
    (mem : e ∈ Stmt.partsAll program) (mem' : e' ∈ Stmt.partsAll program')
    (finite : ∀ x, Expr.literal (.number x) ∈ e.parts → x.isFinite = true)
    (finite' : ∀ x, Expr.literal (.number x) ∈ e'.parts → x.isFinite = true)
    (same : e.text = e'.text) : e.placeless = e'.placeless := by
  refine Expr.placeless_eq_of_text (fun p part => ?_) (fun p part => ?_) same
  · refine readable_of_ofTokens scanned read p (Stmt.partsAll_subset program e mem part) ?_
    rintro x rfl
    exact finite x part
  · refine readable_of_ofTokens scanned' read' p (Stmt.partsAll_subset program' e' mem' part) ?_
    rintro x rfl
    exact finite' x part

/-- A call of `a` with a string and the number one, with its identity and places. -/
def spacedCall (id : RefId) (line a closing : Nat) : Expr :=
  .call (.var id ⟨.identifier, "a", 1, a⟩) ⟨.symbol .rightParen, ")", line, closing⟩
    [.literal (.string "b c)"), .literal (.number ⟨0x3FF0000000000000⟩)]

/-- A call is known by its text, although a parenthesis stands in the string and the number may be
written in other ways. -/
theorem text_unambiguous_call :
    (∃ tokens program nextId, scan "a(\"b c)\", 1);" = .ok tokens ∧
      Program.ofTokens 0 tokens = (.ok program, nextId) ∧ spacedCall 0 1 0 11 ∈ Stmt.partsAll program) ∧
    (spacedCall 0 1 0 11).text = "(call a \"b c)\" 1)" ∧
    (spacedCall 0 1 0 11).placeless = (spacedCall 7 2 1 17).placeless := by
  obtain ⟨tokens, scanned, program, nextId, read, mem⟩ : ∃ tokens, scan "a(\"b c)\", 1);" = .ok tokens ∧
      ∃ program nextId, Program.ofTokens 0 tokens = (.ok program, nextId) ∧
        spacedCall 0 1 0 11 ∈ Stmt.partsAll program :=
    ⟨_, by cbv, _, _, by cbv, List.mem_cons_self⟩
  obtain ⟨tokens', scanned', program', nextId', read', mem'⟩ :
      ∃ tokens, scan " a(\"b c)\",\n  1.0 );" = .ok tokens ∧
      ∃ program nextId, Program.ofTokens 7 tokens = (.ok program, nextId) ∧
        spacedCall 7 2 1 17 ∈ Stmt.partsAll program :=
    ⟨_, by cbv, _, _, by cbv, List.mem_cons_self⟩
  have finite : ∀ id line a closing x, Expr.literal (.number x) ∈ (spacedCall id line a closing).parts →
      x.isFinite = true := by
    intro id line a closing x part
    simp only [spacedCall, Expr.parts, Expr.partsAll, List.mem_cons, List.mem_append,
      List.not_mem_nil, reduceCtorEq, Expr.literal.injEq, Literal.number.injEq, or_false, false_or] at part
    rw [part]
    decide
  exact ⟨⟨tokens, program, nextId, scanned, read, mem⟩, by decide +kernel,
    text_unambiguous scanned scanned' read read' mem mem' (finite _ _ _ _) (finite _ _ _ _) rfl⟩

end Lox
