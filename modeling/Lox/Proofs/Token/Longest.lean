import Lox.Proofs.Number.Nearest
import Lox.Proofs.Token.Stepwise

/-!
# The longest lexemes

A text is tokenized by its lexical grammar alone: again and again the longest prefix of what is left
that is a lexeme is taken. The scanner does the same, with one or two characters of lookahead.

* `NumeralValue` — the value of a numeral.
* `IsLexeme` — the lexical grammar, with what each lexeme means.
* `IsLongest` — a prefix that is at least as long as any lexeme in front.
* `LongestMatch` — what is found in a text by longest lexemes.
* `Piece.length_le_cut` — no lexeme in front of a text is longer than what the scanner cuts off.
* `longestMatch_cons` — the first step is that of the scanner.
* `scan_longest` — scanning finds the same.
-/

namespace Lox

/-! ## The lexical grammar -/

/-- The value of a numeral. Behind the point each digit is worth a tenth of what it is in front. -/
inductive NumeralValue : List Char → ℚ → Prop where
  | whole {digits : List Char} (some : digits ≠ []) (all : ∀ c ∈ digits, Piece.isDigit c = true) :
      NumeralValue digits (Nat.ofDigitChars 10 digits 0)
  | fraction {digits others : List Char} (some : digits ≠ [])
      (all : ∀ c ∈ digits, Piece.isDigit c = true) (some' : others ≠ [])
      (all' : ∀ c ∈ others, Piece.isDigit c = true) : NumeralValue (digits ++ '.' :: others)
        (Nat.ofDigitChars 10 digits 0 + Nat.ofDigitChars 10 others 0 / 10 ^ others.length)

/-- The lexemes, each with the kind of token that it is. Blanks and comments are none. -/
inductive IsLexeme : List Char → Option Kind → Prop where
  | symbol (s : Symbol) : IsLexeme s.chars (some (.symbol s))
  | comment {body : List Char} (inside : '\n' ∉ body) : IsLexeme ('/' :: '/' :: body) none
  | blank {c : Char} (blank : Piece.isBlank c = true) : IsLexeme [c] none
  | string {text : List Char} (inside : '"' ∉ text) :
      IsLexeme ('"' :: text ++ ['"']) (some (.string (String.ofList text)))
  | number {numeral : List Char} {q : ℚ} {x : Number} (reads : NumeralValue numeral q)
      (nearest : x.IsNearest q) : IsLexeme numeral (some (.number x))
  | keyword (k : Keyword) : IsLexeme k.chars (some (.keyword k))
  | identifier {word : List Char} (isWord : IsWord word) (free : ∀ k : Keyword, word ≠ k.chars) :
      IsLexeme word (some .identifier)

/-- No lexeme in front of the text is longer. -/
structure IsLongest (chars text : List Char) : Prop where
  front : chars <+: text
  longest : ∀ other form, other <+: text → IsLexeme other form → other.length ≤ chars.length

/-- What is found in a text that stands behind `before`. The longest lexeme in front is a token or it
is skipped. Where there is no lexeme, this is an error, and it goes on behind the first character, or
behind all of the text if that is a quote. -/
inductive LongestMatch : List Char → List Char → List (Except ScanError Token) → Prop where
  | done {before : List Char} : LongestMatch before [] []
  | token {before chars rest : List Char} {kind : Kind} {found : List (Except ScanError Token)}
      (lexeme : IsLexeme chars (some kind)) (longest : IsLongest chars (chars ++ rest))
      (others : LongestMatch (before ++ chars) rest found) :
      LongestMatch before (chars ++ rest)
        (.ok ⟨kind, String.ofList chars, 1 + lineEnds (before ++ chars), byteSize before⟩ :: found)
  | skipped {before chars rest : List Char} {found : List (Except ScanError Token)}
      (lexeme : IsLexeme chars none) (longest : IsLongest chars (chars ++ rest))
      (others : LongestMatch (before ++ chars) rest found) : LongestMatch before (chars ++ rest) found
  | stray {before rest : List Char} {c : Char} {found : List (Except ScanError Token)}
      (none : ∀ chars form, chars <+: c :: rest → ¬IsLexeme chars form) (noQuote : c ≠ '"')
      (others : LongestMatch (before ++ [c]) rest found) :
      LongestMatch before (c :: rest)
        (.error ⟨.unexpectedCharacter c, 1 + lineEnds (before ++ [c]), byteSize before⟩ :: found)
  | openQuote {before rest : List Char}
      (none : ∀ chars form, chars <+: '"' :: rest → ¬IsLexeme chars form) :
      LongestMatch before ('"' :: rest)
        [.error ⟨.unterminatedString, 1 + lineEnds (before ++ '"' :: rest), byteSize before⟩]

/-! ## Numerals -/

theorem NumeralValue.isNumeral {numeral : List Char} {q : ℚ} (h : NumeralValue numeral q) :
    IsNumeral numeral := by
  cases h with
  | whole some all => exact .whole some all
  | fraction some all some' all' => exact .fraction some all some' all'

theorem ne_point_of_isDigit {c : Char} (digit : Piece.isDigit c = true) :
    decide (c ≠ '.') = true := by
  refine decide_eq_true ?_
  rintro rfl
  exact absurd digit (by decide)

/-- A numeral is read as the decimal with its value. -/
theorem NumeralValue.value_eq {numeral : List Char} {q : ℚ} (h : NumeralValue numeral q) :
    (Decimal.ofNumeral numeral).value = q := by
  cases h with
  | whole some all =>
    have noPoint : ∀ c ∈ numeral, decide (c ≠ '.') = true := fun c mem => ne_point_of_isDigit (all c mem)
    rw [Decimal.ofNumeral, List.takeWhile_eq_self_iff.2 noPoint, List.dropWhile_eq_nil_iff.2 noPoint,
      Decimal.value]
    simp
  | @fraction digits others some all some' all' =>
    obtain ⟨taken, left⟩ := @split_exact (· ≠ '.') digits ('.' :: others)
      (fun c mem => ne_point_of_isDigit (all c mem)) (by simp)
    rw [Decimal.ofNumeral, taken, left, Decimal.value, List.drop_succ_cons, List.drop_zero,
      Nat.ofDigitChars_append, Nat.ofDigitChars_eq_ofDigitChars_zero, zpow_neg, zpow_natCast]
    push_cast
    field_simp

theorem exists_numeralValue {numeral : List Char} (h : IsNumeral numeral) :
    ∃ q, NumeralValue numeral q := by
  cases h with
  | whole some all => exact ⟨_, .whole some all⟩
  | fraction some all some' all' => exact ⟨_, .fraction some all some' all'⟩

/-- The number that the scanner reads is the nearest one. -/
theorem isLexeme_number {numeral : List Char} (h : IsNumeral numeral) :
    IsLexeme numeral (some (.number (Decimal.ofNumeral numeral).toNumber)) := by
  obtain ⟨q, reads⟩ := exists_numeralValue h
  have nearest := (Decimal.ofNumeral numeral).isNearest_toNumber
  rw [reads.value_eq] at nearest
  exact .number reads nearest

/-- There is no choice of the number. -/
theorem eq_toNumber {numeral : List Char} {q : ℚ} {x : Number} (reads : NumeralValue numeral q)
    (nearest : x.IsNearest q) : x = (Decimal.ofNumeral numeral).toNumber := by
  have nearest' := (Decimal.ofNumeral numeral).isNearest_toNumber
  rw [reads.value_eq] at nearest'
  exact nearest.unique nearest'

namespace Piece

/-! ## What is cut off -/

/-- What a lexeme is cut off as. -/
def ofForm : Option Kind → Piece
  | none => .layout
  | some kind => .token kind

theorem ofForm_injective : Function.Injective ofForm := by
  rintro (_ | kind) (_ | kind') same <;> cases same <;> rfl

theorem isLexeme_wordKind {word : List Char} (isWord : IsWord word) :
    IsLexeme word (some (wordKind word)) := by
  unfold wordKind
  cases found : Keyword.all.find? (fun k => k.chars == word) with
  | some k =>
    have same := List.find?_some found
    rw [← beq_iff_eq.1 same]
    exact .keyword k
  | none =>
    refine .identifier isWord fun k same => ?_
    have mem : k ∈ Keyword.all := by cases k <;> decide
    have other := List.find?_eq_none.1 found k mem
    exact other (beq_iff_eq.2 same.symm)

variable {rest chars : List Char} {piece : Piece} {form : Option Kind}

/-- What is cut off as a token or as layout is a lexeme. -/
theorem IsCut.isLexeme (h : IsCut rest (ofForm form) chars) : IsLexeme chars form := by
  cases form with
  | none =>
    change IsCut rest .layout chars at h
    cases h with
    | blank blank => exact .blank blank
    | comment inside _ => exact .comment inside
  | some kind =>
    change IsCut rest (.token kind) chars at h
    cases h with
    | string inside => exact .string inside
    | number numeral => exact isLexeme_number numeral
    | word isWord => exact isLexeme_wordKind isWord
    | symbol _ => exact .symbol _

/-! ## Lexemes in front -/

theorem quoted {text : List Char} (inside : '"' ∉ text) (rest : List Char) :
    (text ++ '"' :: rest).takeWhile (· ≠ '"') = text ∧
      (text ++ '"' :: rest).dropWhile (· ≠ '"') = '"' :: rest :=
  split_exact (all_ne inside) (by simp)

/-- At least the whole numeral is cut off. -/
theorem length_le_splitNumber {numeral : List Char} (h : IsNumeral numeral) (rest : List Char) :
    numeral.length ≤ (splitNumber (numeral ++ rest)).1.length := by
  cases h with
  | whole some all =>
    have front : numeral.length ≤ ((numeral ++ rest).takeWhile isDigit).length := by
      rw [List.takeWhile_append_of_pos all, List.length_append]
      omega
    unfold splitNumber
    split
    · split
      · rw [List.length_append]
        omega
      · exact front
    · exact front
  | @fraction digits others some all some' all' =>
    have point : ∀ c ∈ ('.' :: (others ++ rest)).head?, isDigit c = false := by
      rintro c ⟨⟩
      decide
    obtain ⟨taken, left⟩ := split_exact all point
    obtain ⟨d, ds, rfl⟩ := List.exists_cons_of_ne_nil some'
    have behind : (d :: ds).length ≤ ((d :: ds ++ rest).takeWhile isDigit).length := by
      rw [List.takeWhile_append_of_pos all', List.length_append]
      omega
    rw [List.append_assoc, List.cons_append, splitNumber, taken, left]
    simp only [List.cons_append, all' d List.mem_cons_self, if_true, List.length_append,
      List.length_cons] at behind ⊢
    omega

theorem head_isDigit {numeral rest : List Char} {c : Char} {cs : List Char} (h : IsNumeral numeral)
    (text : numeral ++ rest = c :: cs) : isDigit c = true := by
  have first : ∀ digits others : List Char, digits ≠ [] → (∀ d ∈ digits, isDigit d = true) →
      digits ++ others = c :: cs → isDigit c = true := by
    intro digits others some all split
    obtain ⟨d, ds, rfl⟩ := List.exists_cons_of_ne_nil some
    obtain ⟨rfl, -⟩ := List.cons.inj split
    exact all d List.mem_cons_self
  cases h with
  | whole some all => exact first _ rest some all text
  | fraction some all => exact first _ _ some all (by rw [← text, List.append_assoc])

theorem isWord_keyword (k : Keyword) : IsWord k.chars := by
  cases k <;> exact ⟨by decide, List.all_eq_true.1 (by decide)⟩

theorem wordKind_of_free {word : List Char} (free : ∀ k : Keyword, word ≠ k.chars) :
    wordKind word = .identifier := by
  have none : Keyword.all.find? (fun k => k.chars == word) = none :=
    List.find?_eq_none.2 fun k _ same => free k (beq_iff_eq.1 same).symm
  rw [wordKind, none]

/-- Something is always cut off. -/
theorem length_cut_pos (c : Char) (cs : List Char) : 1 ≤ (cut c cs).2.1.length := by
  have whole := congrArg List.length (cut_append c cs)
  have shorter := length_cut_lt c cs
  rw [List.length_append] at whole
  omega

theorem length_le_cut_word {word rest : List Char} {c : Char} {cs : List Char} (isWord : IsWord word)
    (text : word ++ rest = c :: cs) : word.length ≤ (cut c cs).2.1.length := by
  obtain ⟨first, others⟩ := isWord
  rw [List.cons_append] at text
  obtain ⟨rfl, rfl⟩ := List.cons.inj text
  rw [cut_word _ first, List.takeWhile_append_of_pos others]
  simp

theorem length_le_cut_double {d c : Char} {alone withEqual : Symbol} {rest cs : List Char}
    (double : Doubles d alone withEqual) (text : [d, '='] ++ rest = c :: cs) :
    2 ≤ (cut c cs).2.1.length := by
  cases text
  rw [double.cut_eq]
  exact Nat.le_refl 2

/-- No lexeme in front of a text is longer than what is cut off. -/
theorem length_le_cut {c : Char} {cs : List Char} (h : IsLexeme chars form)
    (front : chars <+: c :: cs) : chars.length ≤ (cut c cs).2.1.length := by
  have some := length_cut_pos c cs
  obtain ⟨rest, text⟩ := front
  cases h with
  | symbol s =>
    cases s with
    | bangEqual => exact length_le_cut_double .bang text
    | equalEqual => exact length_le_cut_double .equal text
    | greaterEqual => exact length_le_cut_double .greater text
    | lessEqual => exact length_le_cut_double .less text
    | _ => exact some
  | blank => exact some
  | @comment body inside =>
    obtain ⟨rfl, rfl⟩ := List.cons.inj (show '/' :: ('/' :: body ++ rest) = c :: cs from text)
    rw [List.cons_append, cut_comment, List.takeWhile_append_of_pos (all_ne inside)]
    simp
  | @string body inside =>
    have split : '"' :: (body ++ '"' :: rest) = c :: cs := by simpa using text
    obtain ⟨rfl, rfl⟩ := List.cons.inj split
    obtain ⟨taken, left⟩ := quoted inside rest
    rw [cut_quote, taken, left]
  | number reads nearest =>
    have long := length_le_splitNumber reads.isNumeral rest
    rw [text] at long
    rw [cut_digit cs (head_isDigit reads.isNumeral text)]
    exact long
  | keyword k => exact length_le_cut_word (isWord_keyword k) text
  | identifier isWord free => exact length_le_cut_word isWord text

/-- A lexeme by itself is cut off as what it is. -/
theorem cut_lexeme (h : IsLexeme chars form) :
    ∃ c cs, chars = c :: cs ∧ (cut c cs).1 = ofForm form := by
  cases h with
  | symbol s => cases s <;> exact ⟨_, _, rfl, rfl⟩
  | comment inside => exact ⟨_, _, rfl, rfl⟩
  | blank blank => exact ⟨_, _, rfl, congrArg Prod.fst (cut_blank [] blank)⟩
  | @string text inside =>
    obtain ⟨taken, left⟩ := quoted inside []
    refine ⟨_, _, rfl, ?_⟩
    show (cut '"' (text ++ ['"'])).1 = _
    rw [cut_quote, taken, left]
    rfl
  | number reads nearest =>
    have some := @Kind.WrittenAs.ne_nil _ (.number _) ⟨reads.isNumeral, rfl⟩
    obtain ⟨c, cs, rfl⟩ := List.exists_cons_of_ne_nil some
    -- nothing is left, since not less than the whole numeral is cut off
    have long := length_le_splitNumber reads.isNumeral []
    have whole := splitNumber_append (c :: cs)
    rw [List.append_nil] at long
    have front : (splitNumber (c :: cs)).1 <+: c :: cs := ⟨_, whole⟩
    have all := front.eq_of_length_le long
    refine ⟨c, cs, rfl, ?_⟩
    have first := head_isDigit reads.isNumeral (List.append_nil _)
    rw [cut_digit cs first, all, eq_toNumber reads nearest]
    rfl
  | keyword k => cases k <;> exact ⟨_, _, rfl, rfl⟩
  | @identifier word isWord free =>
    obtain ⟨first, others⟩ := isWord
    rename_i c cs
    refine ⟨c, cs, rfl, ?_⟩
    rw [cut_word cs first, List.takeWhile_eq_self_iff.2 others]
    exact congrArg Piece.token (wordKind_of_free free)

/-- Each lexeme means one thing. -/
theorem form_unique {form' : Option Kind} (h : IsLexeme chars form) (h' : IsLexeme chars form') :
    form = form' := by
  obtain ⟨c, cs, rfl, same⟩ := cut_lexeme h
  obtain ⟨d, ds, text, same'⟩ := cut_lexeme h'
  obtain ⟨rfl, rfl⟩ := List.cons.inj text
  exact ofForm_injective (same.symm.trans same')

/-! ## Places without a lexeme -/

/-- Every lexeme begins with a character with which something can begin. -/
theorem readable_of_isLexeme {c : Char} {cs : List Char} (h : IsLexeme (c :: cs) form) :
    readable c = true := by
  obtain ⟨d, ds, text, same⟩ := cut_lexeme h
  obtain ⟨rfl, rfl⟩ := List.cons.inj text
  cases known : readable c with
  | true => rfl
  | false =>
    rw [cut_of_unreadable cs known] at same
    cases form <;> cases same

/-- A lexeme that begins with a quote ends with another one. -/
theorem mem_of_isLexeme {cs : List Char} (h : IsLexeme ('"' :: cs) form) : '"' ∈ cs := by
  by_contra inside
  obtain ⟨d, ds, text, same⟩ := cut_lexeme h
  obtain ⟨rfl, rfl⟩ := List.cons.inj text
  rw [cut_quote, List.dropWhile_eq_nil_iff.2 (all_ne inside)] at same
  cases form <;> cases same

/-- Where an error is reported no lexeme is in front. -/
theorem IsCut.no_lexeme (h : IsCut rest piece chars) (error : ∀ form, piece ≠ ofForm form)
    {other : List Char} (front : other <+: chars ++ rest) : ¬IsLexeme other form := by
  intro lexeme
  obtain ⟨c, cs, rfl, -⟩ := cut_lexeme lexeme
  cases h with
  | blank | comment => exact error none rfl
  | string | number | word | symbol => exact error (some _) rfl
  | unexpected unreadable =>
    obtain ⟨rfl, -⟩ := List.cons_prefix_cons.1 front
    rw [readable_of_isLexeme lexeme] at unreadable
    cases unreadable
  | @unterminated text inside ends =>
    subst ends
    rw [List.append_nil] at front
    obtain ⟨rfl, behind⟩ := List.cons_prefix_cons.1 front
    exact inside (behind.subset (mem_of_isLexeme lexeme))

/-- What is cut off is the longest lexeme in front of the text, if there is one. -/
theorem cut_of_longest {c : Char} {cs : List Char} (h : IsLexeme chars form)
    (longest : IsLongest chars (chars ++ rest)) (text : chars ++ rest = c :: cs) :
    cut c cs = (ofForm form, chars, rest) := by
  rw [text] at longest
  have isCut := isCut_cut c cs
  have whole := cut_append c cs
  have lexeme : ∃ form', (cut c cs).1 = ofForm form' := by
    by_contra error
    refine isCut.no_lexeme (fun form' same => error ⟨form', same⟩) ?_ h
    rw [whole]
    exact longest.front
  obtain ⟨form', piece⟩ := lexeme
  rw [piece] at isCut
  -- both are lexemes in front of the text, and neither is longer than the other
  have same : (cut c cs).2.1 = chars := by
    have front : (cut c cs).2.1 <+: c :: cs := ⟨_, whole⟩
    have le := length_le_cut h longest.front
    have ge := longest.longest _ _ front isCut.isLexeme
    have both := List.prefix_of_prefix_length_le front longest.front ge
    exact both.eq_of_length (Nat.le_antisymm ge le)
  have lexeme := isCut.isLexeme
  rw [same] at lexeme
  rw [same, ← text, List.append_cancel_left_eq] at whole
  rw [form_unique h lexeme, ← piece, ← same, ← whole]

/-- What is cut off as a token or as layout is the longest lexeme in front. -/
theorem isLongest_cut {c : Char} {cs : List Char} (piece : (cut c cs).1 = ofForm form) :
    IsLexeme (cut c cs).2.1 form ∧ IsLongest (cut c cs).2.1 (c :: cs) := by
  have isCut := isCut_cut c cs
  rw [piece] at isCut
  exact ⟨isCut.isLexeme, ⟨_, cut_append c cs⟩, fun _ _ front lexeme => length_le_cut lexeme front⟩

/-- Where no lexeme is in front, the first character is cut off, or all of the text behind a quote. -/
theorem cut_of_no_lexeme {c : Char} {cs : List Char}
    (noLexeme : ∀ chars form, chars <+: c :: cs → ¬IsLexeme chars form) :
    cut c cs = if c = '"' then (.unterminated, c :: cs, []) else (.unexpected c, [c], cs) := by
  have isCut := isCut_cut c cs
  have whole := cut_append c cs
  have error : ∀ form, (cut c cs).1 ≠ ofForm form := fun form piece =>
    noLexeme _ _ ⟨_, whole⟩ (isLongest_cut piece).1
  generalize cut c cs = cutOff at isCut whole error
  obtain ⟨piece, chars, rest⟩ := cutOff
  dsimp only at isCut whole error
  cases isCut with
  | blank | comment => exact absurd rfl (error none)
  | string | number | word | symbol => exact absurd rfl (error (some _))
  | @unexpected d unreadable =>
    obtain ⟨rfl, rfl⟩ := List.cons.inj (show d :: rest = c :: cs from whole)
    have noQuote : d ≠ '"' := by
      rintro rfl
      exact absurd unreadable (by decide)
    rw [if_neg noQuote]
  | @unterminated text inside ends =>
    subst ends
    rw [List.append_nil] at whole
    obtain ⟨rfl, rfl⟩ := List.cons.inj whole
    rfl

end Piece

/-! ## Texts -/

variable {before cs : List Char} {c : Char} {found : List (Except ScanError Token)}

theorem longestMatch_nil : LongestMatch before [] found ↔ found = [] := by
  constructor
  · intro h
    generalize text : ([] : List Char) = cs at h
    cases h with
    | done => rfl
    | token lexeme | skipped lexeme =>
      obtain ⟨c, cs, rfl, -⟩ := Piece.cut_lexeme lexeme
      cases text
    | stray | openQuote => cases text
  · rintro rfl
    exact .done

/-- The first step of longest match is a cut. -/
theorem longestMatch_cons : LongestMatch before (c :: cs) found ↔
    ∃ behind, LongestMatch (before ++ (Piece.cut c cs).2.1) (Piece.cut c cs).2.2 behind ∧
      found = ((Piece.cut c cs).1.found? before (Piece.cut c cs).2.1).toList ++ behind := by
  constructor
  · intro h
    generalize text : c :: cs = cs' at h
    cases h with
    | done => cases text
    | token lexeme longest others | skipped lexeme longest others =>
      rw [Piece.cut_of_longest lexeme longest text.symm]
      exact ⟨_, others, rfl⟩
    | stray noLexeme noQuote others =>
      obtain ⟨rfl, rfl⟩ := List.cons.inj text
      rw [Piece.cut_of_no_lexeme noLexeme, if_neg noQuote]
      exact ⟨_, others, rfl⟩
    | openQuote noLexeme =>
      obtain ⟨rfl, rfl⟩ := List.cons.inj text
      rw [Piece.cut_of_no_lexeme noLexeme, if_pos rfl]
      exact ⟨[], .done, rfl⟩
  · rintro ⟨behind, others, rfl⟩
    have whole := Piece.cut_append c cs
    by_cases lexeme : ∃ form, (Piece.cut c cs).1 = Piece.ofForm form
    · obtain ⟨form, piece⟩ := lexeme
      obtain ⟨isLexeme, longest⟩ := Piece.isLongest_cut piece
      rw [← whole] at longest
      rw [piece, ← whole]
      cases form with
      | none => exact .skipped isLexeme longest others
      | some kind => exact .token isLexeme longest others
    · have noLexeme : ∀ chars form, chars <+: c :: cs → ¬IsLexeme chars form := by
        intro chars form front
        rw [← whole] at front
        exact (Piece.isCut_cut c cs).no_lexeme (fun form same => lexeme ⟨form, same⟩) front
      have known := Piece.cut_of_no_lexeme noLexeme
      split_ifs at known with quote
      · subst quote
        rw [known] at others ⊢
        cases longestMatch_nil.1 others
        exact .openQuote noLexeme
      · rw [known] at others ⊢
        exact .stray noLexeme quote others

/-- Longest match finds one thing in each text, and it is what scanning finds. -/
theorem longestMatch_iff : LongestMatch before cs found ↔ found = foundBehind before cs := by
  induction h : cs.length using Nat.strongRecOn generalizing before cs found with
  | ind n ih =>
    subst h
    cases cs with
    | nil =>
      have nothing : foundBehind before [] = [] := by rw [foundBehind, scanFrom]
      rw [longestMatch_nil, nothing]
    | cons c cs =>
      have shorter := Piece.length_cut_lt c cs
      rw [longestMatch_cons, foundBehind_cons]
      constructor
      · rintro ⟨behind, others, rfl⟩
        rw [(ih _ shorter rfl).1 others]
      · rintro rfl
        exact ⟨_, (ih _ shorter rfl).2 rfl, rfl⟩

/-- **Scanning is tokenization by longest lexemes.** For any text, the tokens are those that the
lexical grammar gives when the longest lexeme in front is taken again and again: what it means is
fixed by its characters, a keyword is a whole word, the text of a string stands between its quotes,
and a number is the one nearest to its numeral. Where no lexeme is in front, this is reported. A scanner
that looks one or two characters ahead finds the same. -/
theorem scan_longest (source : String) :
    (∀ tokens, scan source = .ok tokens ↔ LongestMatch [] source.toList (tokens.map .ok)) ∧
      (∀ errors, scan source = .error errors ↔
        errors ≠ [] ∧ ∃ found, LongestMatch [] source.toList found ∧ errorsOf found = errors) ∧
      Stepwise.scan source = .ok (scan source) := by
  have all : ∀ found, LongestMatch [] source.toList found ↔ found = scanFrom 1 0 source.toList :=
    fun _ => longestMatch_iff
  refine ⟨fun tokens => ?_, fun errors => ?_, Stepwise.scan_eq source⟩
  · rw [scan_eq_ok_iff, all, eq_comm]
  · have outcome : scan source = if (errorsOf (scanFrom 1 0 source.toList)).isEmpty then
        .ok ((scanFrom 1 0 source.toList).filterMap Except.toOption)
      else .error (errorsOf (scanFrom 1 0 source.toList)) := rfl
    rw [outcome]
    constructor
    · intro failed
      split_ifs at failed with none
      cases failed
      exact ⟨fun empty => none (List.isEmpty_iff.2 empty), _, (all _).2 rfl, rfl⟩
    · rintro ⟨some, found, matched, rfl⟩
      rw [(all found).1 matched] at some ⊢
      rw [if_neg (mt List.isEmpty_iff.1 some)]

example : (scan "1.2.3 ===// =").toOption.map (·.map Token.lexeme) =
    some ["1.2", ".", "3", "==", "="] := by decide +kernel

end Lox
