import Mathlib
import Lox.Proofs.Token.Coverage

/-!
# What is cut off

What a text is cut at depends on the character that it begins with.

* `split_exact` — how far a run of characters goes.
* `Piece.cut_blank`, `Piece.cut_comment`, `Piece.cut_quote`, `Piece.cut_digit`, `Piece.cut_word` — the
  lexemes that begin with a class of characters.
* `Piece.cut_slash`, `Piece.Doubles.cut_eq` — the symbols that others begin with.
* `Piece.cut_of_unreadable` — characters that nothing begins with.
-/

namespace Lox

/-- A run of characters ends where the first other one stands. -/
theorem split_exact {p : Char → Bool} {body rest : List Char} (inside : ∀ c ∈ body, p c = true)
    (ends : ∀ c ∈ rest.head?, p c = false) :
    (body ++ rest).takeWhile p = body ∧ (body ++ rest).dropWhile p = rest := by
  rw [List.takeWhile_append_of_pos inside, List.dropWhile_append_of_pos inside]
  cases rest with
  | nil => simp
  | cons c cs => simp [ends c rfl]

/-- A run of anything but `c` goes over characters among which it is not. -/
theorem all_ne {c : Char} {body : List Char} (inside : c ∉ body) :
    ∀ d ∈ body, decide (d ≠ c) = true := by
  intro d mem
  refine decide_eq_true ?_
  rintro rfl
  exact inside mem

namespace Piece

theorem cut_blank {c : Char} (cs : List Char) (blank : isBlank c = true) :
    cut c cs = (.layout, [c], cs) := if_pos blank

theorem cut_comment (cs : List Char) : cut '/' ('/' :: cs) =
    (.layout, '/' :: '/' :: cs.takeWhile (· ≠ '\n'), cs.dropWhile (· ≠ '\n')) := rfl

theorem cut_quote (cs : List Char) : cut '"' cs =
    match cs.dropWhile (· ≠ '"') with
    | [] => (.unterminated, '"' :: cs.takeWhile (· ≠ '"'), [])
    | quote :: rest => (.token (.string (String.ofList (cs.takeWhile (· ≠ '"')))),
      '"' :: cs.takeWhile (· ≠ '"') ++ [quote], rest) := rfl

/-- What identifiers and numbers go on with is neither a blank nor a quote nor a slash. -/
theorem not_blank_of_continuesWord {c : Char} (h : continuesWord c = true) : isBlank c = false := by
  rw [Bool.eq_false_iff]
  intro blank
  simp only [isBlank, Bool.or_eq_true, beq_iff_eq] at blank
  rcases blank with ((rfl | rfl) | rfl) | rfl <;> exact absurd h (by decide)

theorem continuesWord_of_isDigit {c : Char} (h : isDigit c = true) : continuesWord c = true := by
  have digit : c.isDigit = true := h
  simp [continuesWord, Char.isAlphanum, digit]

/-- No word begins with a digit. -/
theorem not_isDigit_of_startsWord {c : Char} (h : startsWord c = true) : isDigit c = false := by
  rw [Bool.eq_false_iff]
  intro digit
  have known : c.isAlpha = true ∨ c = '_' := by simpa [startsWord] using h
  rcases known with alpha | rfl
  · simp only [isDigit, Char.isDigit, Char.isAlpha, Char.isUpper, Char.isLower, Bool.or_eq_true,
      Bool.and_eq_true, decide_eq_true_eq] at digit alpha
    rcases alpha with ⟨low, -⟩ | ⟨low, -⟩
    · exact absurd (UInt32.le_trans low digit.2) (by decide)
    · exact absurd (UInt32.le_trans low digit.2) (by decide)
  · exact absurd digit (by decide)

theorem cut_digit {c : Char} (cs : List Char) (digit : isDigit c = true) : cut c cs =
    (.token (.number (Decimal.ofNumeral (splitNumber (c :: cs)).1).toNumber),
      (splitNumber (c :: cs)).1, (splitNumber (c :: cs)).2) := by
  have blank := not_blank_of_continuesWord (continuesWord_of_isDigit digit)
  obtain ⟨-, quote, slash⟩ := readable_digit digit
  simp [cut, blank, quote, slash, digit]

theorem cut_word {c : Char} (cs : List Char) (starts : startsWord c = true) : cut c cs =
    (.token (wordKind (c :: cs.takeWhile continuesWord)), c :: cs.takeWhile continuesWord,
      cs.dropWhile continuesWord) := by
  have goesOn := continuesWord_of_startsWord starts
  have blank := not_blank_of_continuesWord goesOn
  have digit := not_isDigit_of_startsWord starts
  obtain ⟨-, quote, slash⟩ := readable_continuesWord goesOn
  simp [cut, blank, quote, slash, digit, starts]

theorem cut_slash {cs : List Char} (next : cs.head? ≠ some '/') :
    cut '/' cs = (.token (.symbol .slash), ['/'], cs) := by
  cases cs with
  | nil => rfl
  | cons d ds =>
    have other : d ≠ '/' := fun same => next (same ▸ rfl)
    simp [cut, isBlank, isDigit, startsWord, splitSymbol?, Symbol.all, Symbol.chars, other,
      Char.isDigit, Char.isAlpha, Char.isUpper, Char.isLower, List.findSome?]

/-- The symbols that an equals sign makes others of. -/
inductive Doubles : Char → Symbol → Symbol → Prop where
  | bang : Doubles '!' .bang .bangEqual
  | equal : Doubles '=' .equal .equalEqual
  | less : Doubles '<' .less .lessEqual
  | greater : Doubles '>' .greater .greaterEqual

/-- The longer symbol is taken. -/
theorem Doubles.cut_eq {c : Char} {alone withEqual : Symbol} (h : Doubles c alone withEqual)
    (cs : List Char) : cut c cs =
      if cs.head? = some '=' then (.token (.symbol withEqual), [c, '='], cs.tail)
      else (.token (.symbol alone), [c], cs) := by
  cases cs with
  | nil => cases h <;> rfl
  | cons d ds =>
    by_cases equal : d = '='
    · subst equal
      cases h <;> rfl
    · have other : '=' ≠ d := fun same => equal same.symm
      cases h <;>
        simp [cut, isBlank, isDigit, startsWord, splitSymbol?,
          Symbol.all, Symbol.chars, equal, other, Char.isDigit, Char.isAlpha, Char.isUpper,
          Char.isLower, List.findSome?]

/-- Where nothing can begin, a character is cut off. -/
theorem cut_of_unreadable {c : Char} (cs : List Char) (h : readable c = false) :
    cut c cs = (.unexpected c, [c], cs) := by
  have heads : ∀ s ∈ Symbol.all, s.chars.isPrefixOf (c :: cs) = false := by
    intro s mem
    have none : Symbol.all.any (fun s => s.chars.head? == some c) = false := by
      simp only [readable, Bool.or_eq_false_iff] at h
      exact h.2
    have differs := List.any_eq_false.1 none s mem
    cases form : s.chars with
    | nil => cases s <;> cases form
    | cons d ds =>
      have other : d ≠ c := by simpa [form] using differs
      rw [List.isPrefixOf_cons_cons, beq_false_of_ne other, Bool.false_and]
  have symbol : splitSymbol? (c :: cs) = none := by
    refine List.findSome?_eq_none_iff.2 fun s mem => ?_
    simp [heads s mem]
  have slash : c ≠ '/' := by
    rintro rfl
    exact absurd h (by decide)
  simp only [readable, Bool.or_eq_false_iff, beq_eq_false_iff_ne] at h
  obtain ⟨⟨⟨⟨blank, digit⟩, word⟩, quote⟩, -⟩ := h
  simp [cut, blank, digit, word, quote, slash, symbol]

end Piece

end Lox
