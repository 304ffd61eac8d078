import Lox.Token

/-!
# Lexemes

Cutting the first lexeme off a text.

* `Piece` — what the cut-off characters are: a token, layout, or something that cannot be read.
* `Piece.cut` — the longest lexeme at the start of a text, its characters and the rest.
* `Piece.length_cut_lt` — the rest is shorter, so cutting comes to an end.
-/

namespace Lox

/-- What a run of characters at the start of a text turned out to be. -/
inductive Piece where
  | token (kind : Kind)
  /-- A blank or a comment. -/
  | layout
  /-- A character that no lexeme starts with. -/
  | unexpected (c : Char)
  /-- A string that is still open at the end of the text. -/
  | unterminated
  deriving DecidableEq

namespace Piece

/-- A digit; ASCII only. -/
def isDigit (c : Char) : Bool := c.isDigit

/-- What an identifier or reserved word starts with; ASCII only. -/
def startsWord (c : Char) : Bool := c.isAlpha || c == '_'

/-- What an identifier or reserved word goes on with; ASCII only. -/
def continuesWord (c : Char) : Bool := c.isAlphanum || c == '_'

/-- The single characters that separate tokens and mean nothing else. -/
def isBlank (c : Char) : Bool := c == ' ' || c == '\r' || c == '\t' || c == '\n'

/-- A word is a reserved word if all of it is one, otherwise an identifier. -/
def wordKind (word : List Char) : Kind :=
  match Keyword.all.find? (fun k => k.chars == word) with
  | some k => .keyword k
  | none => .identifier

/-- The digits of a number and the rest of the text. A point belongs to the number only if a
digit follows it. -/
def splitNumber (cs : List Char) : List Char × List Char :=
  let whole := cs.takeWhile isDigit
  match cs.dropWhile isDigit with
  | '.' :: d :: rest =>
    if isDigit d then (whole ++ '.' :: (d :: rest).takeWhile isDigit, (d :: rest).dropWhile isDigit)
    else (whole, '.' :: d :: rest)
  | rest => (whole, rest)

/-- The longest symbol that the text starts with, and the rest. -/
def splitSymbol? (cs : List Char) : Option (Symbol × List Char) :=
  Symbol.all.findSome? fun s =>
    if s.chars.isPrefixOf cs then some (s, cs.drop s.chars.length) else none

/-- Cuts the longest lexeme off the text `c :: cs`: what it is, its characters, and the rest.
Where no lexeme starts, one character is cut off; an open string takes all that is left. -/
def cut (c : Char) (cs : List Char) : Piece × List Char × List Char :=
  if isBlank c then (.layout, [c], cs)
  else if c = '/' ∧ cs.head? = some '/' then
    (.layout, c :: cs.takeWhile (· ≠ '\n'), cs.dropWhile (· ≠ '\n'))
  else if c = '"' then
    let text := cs.takeWhile (· ≠ '"')
    match cs.dropWhile (· ≠ '"') with
    | [] => (.unterminated, c :: text, [])
    | quote :: rest => (.token (.string (String.ofList text)), c :: text ++ [quote], rest)
  else if isDigit c then
    let (digits, rest) := splitNumber (c :: cs)
    (.token (.number (Decimal.ofNumeral digits).toNumber), digits, rest)
  else if startsWord c then
    let word := c :: cs.takeWhile continuesWord
    (.token (wordKind word), word, cs.dropWhile continuesWord)
  else
    match splitSymbol? (c :: cs) with
    | some (s, rest) => (.token (.symbol s), s.chars, rest)
    | none => (.unexpected c, [c], cs)

theorem length_dropWhile_le (p : Char → Bool) (cs : List Char) :
    (cs.dropWhile p).length ≤ cs.length :=
  (List.dropWhile_sublist p).length_le

theorem length_splitNumber_le (cs : List Char) :
    (splitNumber cs).2.length ≤ (cs.dropWhile isDigit).length := by
  unfold splitNumber
  split
  · rename_i d rest h
    split
    · have := length_dropWhile_le isDigit (d :: rest)
      simp [h] at this ⊢
      omega
    · simp [h]
  · simp

theorem length_splitSymbol_lt {cs rest : List Char} {s : Symbol}
    (h : splitSymbol? cs = some (s, rest)) : rest.length < cs.length := by
  obtain ⟨t, -, ht⟩ := List.exists_of_findSome?_eq_some h
  split at ht
  · rename_i hp
    obtain ⟨tail, rfl⟩ := List.isPrefixOf_iff_prefix.1 hp
    simp only [Option.some.injEq, Prod.mk.injEq] at ht
    obtain ⟨rfl, rfl⟩ := ht
    cases t <;> simp only [Symbol.chars, List.length_append, List.length_cons, List.length_nil,
      List.length_drop] <;> omega
  · cases ht

/-- What is left after a cut is shorter than the text. -/
theorem length_cut_lt (c : Char) (cs : List Char) : (cut c cs).2.2.length < (c :: cs).length := by
  have le := fun p => length_dropWhile_le p cs
  unfold cut
  split
  · simp
  split
  · simpa [Nat.lt_succ_iff] using le (· ≠ '\n')
  split
  · have := le (· ≠ '"')
    split
    · simp
    · rename_i h
      rw [h] at this
      simp only [List.length_cons] at this ⊢
      omega
  split
  · rename_i hd
    have h₁ := length_splitNumber_le (c :: cs)
    have h₂ := le isDigit
    simp only [List.dropWhile_cons, hd, if_true] at h₁
    simp only [List.length_cons]
    omega
  split
  · simpa [Nat.lt_succ_iff] using le continuesWord
  split
  · rename_i h
    exact length_splitSymbol_lt h
  · simp

end Piece

end Lox
