import Lox.Proofs.Syntax.Moving
import Lox.Proofs.Token.Scanning

/-!
# Joined texts

A line end closes whatever stands in front of it but a string, and the other blanks close all but
comments and strings. So the tokens of two texts that are joined by a line end are the tokens of the
first text and then those of the second one, which stand further down.

* `Piece.cut_append` — nothing is lost when a lexeme is cut off.
* `Piece.cut_join` — the lexeme at the start of a text is the same where a blank and more follow.
* `scanFrom_join` — the tokens and errors of joined texts; `scanFrom_moved` — those of a text that
  stands further down.
* `scan_join` — two texts without errors give one without errors.
-/

namespace Lox

/-! ## Sizes -/

theorem lineEnds_append (cs ds : List Char) : lineEnds (cs ++ ds) = lineEnds cs + lineEnds ds :=
  List.count_append

theorem byteSize_append (cs ds : List Char) : byteSize (cs ++ ds) = byteSize cs + byteSize ds := by
  induction cs with
  | nil => rw [List.nil_append, byteSize, Nat.zero_add]
  | cons c cs ih => rw [List.cons_append, byteSize, byteSize, ih, Nat.add_assoc]

namespace Piece

/-! ## Cutting -/

theorem splitNumber_append (cs : List Char) : (splitNumber cs).1 ++ (splitNumber cs).2 = cs := by
  have whole := List.takeWhile_append_dropWhile (p := isDigit) (l := cs)
  unfold splitNumber
  split
  · rename_i d rest point
    rw [point] at whole
    split
    · rw [List.append_assoc, List.cons_append, List.takeWhile_append_dropWhile]
      exact whole
    · exact whole
  · exact whole

theorem splitSymbol?_append {cs rest : List Char} {s : Symbol}
    (h : splitSymbol? cs = some (s, rest)) : s.chars ++ rest = cs := by
  obtain ⟨t, -, ht⟩ := List.exists_of_findSome?_eq_some h
  split at ht
  · rename_i front
    obtain ⟨tail, rfl⟩ := List.isPrefixOf_iff_prefix.1 front
    cases ht
    rw [List.drop_left]
  · cases ht

/-- The characters of a lexeme and the rest are the text. -/
theorem cut_append (c : Char) (cs : List Char) : (cut c cs).2.1 ++ (cut c cs).2.2 = c :: cs := by
  unfold cut
  split
  · rfl
  split
  · rw [List.cons_append, List.takeWhile_append_dropWhile]
  split
  · have whole := List.takeWhile_append_dropWhile (p := (· ≠ '"')) (l := cs)
    split <;> rename_i left <;> rw [left] at whole
    · rw [List.append_nil] at whole ⊢
      exact congrArg (c :: ·) whole
    · rw [List.append_assoc]
      exact congrArg (c :: ·) whole
  split
  · exact splitNumber_append _
  split
  · rw [List.cons_append, List.takeWhile_append_dropWhile]
  split
  · rename_i h
    exact splitSymbol?_append h
  · rfl

section Join

variable {p : Char → Bool} {b : Char}

theorem cases_of_isBlank (blank : isBlank b = true) :
    b = ' ' ∨ b = '\r' ∨ b = '\t' ∨ b = '\n' := by
  simpa [isBlank, or_assoc] using blank

/-- What does not hold of a character does not go on behind one. -/
theorem takeWhile_join (stops : p b = false) (cs t : List Char) :
    (cs ++ b :: t).takeWhile p = cs.takeWhile p := by
  induction cs with
  | nil => rw [List.nil_append, List.takeWhile_cons, stops]; rfl
  | cons c cs ih => rw [List.cons_append, List.takeWhile_cons, List.takeWhile_cons, ih]

theorem dropWhile_join (stops : p b = false) (cs t : List Char) :
    (cs ++ b :: t).dropWhile p = cs.dropWhile p ++ b :: t := by
  induction cs with
  | nil => rw [List.nil_append, List.dropWhile_cons, stops]; rfl
  | cons c cs ih =>
    rw [List.cons_append, List.dropWhile_cons, List.dropWhile_cons, ih]
    split <;> rfl

theorem splitNumber_join (blank : isBlank b = true) (cs t : List Char) :
    splitNumber (cs ++ b :: t) = ((splitNumber cs).1, (splitNumber cs).2 ++ b :: t) := by
  have stops : isDigit b = false ∧ b ≠ '.' := by
    rcases cases_of_isBlank blank with rfl | rfl | rfl | rfl <;> decide
  obtain ⟨stops, noPoint⟩ := stops
  unfold splitNumber
  rw [takeWhile_join stops, dropWhile_join stops]
  generalize cs.takeWhile isDigit = whole, cs.dropWhile isDigit = left
  rcases left with _ | ⟨c, _ | ⟨d, rest⟩⟩
  · simp [noPoint]
  · -- behind a point stands the blank, which is no digit
    by_cases point : c = '.'
    · subst point
      simp [stops]
    · simp [point]
  · by_cases point : c = '.'
    · subst point
      have first := takeWhile_join stops (d :: rest) t
      have others := dropWhile_join stops (d :: rest) t
      simp only [List.cons_append] at first others ⊢
      rw [first, others]
      split <;> rfl
    · simp [point]

/-- What goes on behind a character has it inside. -/
theorem isPrefixOf_join {front : List Char} (inside : b ∉ front) (cs t : List Char) :
    front.isPrefixOf (cs ++ b :: t) = front.isPrefixOf cs := by
  induction front generalizing cs with
  | nil => rfl
  | cons c front ih =>
    obtain ⟨other, inside⟩ := not_or.1 (mt List.mem_cons.2 inside)
    cases cs with
    | nil =>
      show (c == b && _) = false
      rw [beq_eq_false_iff_ne.2 (Ne.symm other), Bool.false_and]
    | cons d cs => rw [List.cons_append, List.isPrefixOf, List.isPrefixOf, ih inside]

/-- No symbol has a blank in it. -/
theorem not_mem_symbol (blank : isBlank b = true) (s : Symbol) : b ∉ s.chars := by
  rcases cases_of_isBlank blank with rfl | rfl | rfl | rfl <;> cases s <;> decide

theorem splitSymbol?_join (blank : isBlank b = true) (cs t : List Char) :
    splitSymbol? (cs ++ b :: t) = (splitSymbol? cs).map fun (s, rest) => (s, rest ++ b :: t) := by
  unfold splitSymbol?
  rw [List.map_findSome?]
  congr 1
  funext s
  rw [isPrefixOf_join (not_mem_symbol blank s), Function.comp]
  split
  · rename_i front
    obtain ⟨tail, rfl⟩ := List.isPrefixOf_iff_prefix.1 front
    simp
  · rfl

/-- A string that is closed is so whatever follows. -/
theorem takeWhile_append_of_left {cs : List Char} (left : cs.dropWhile p ≠ []) (us : List Char) :
    (cs ++ us).takeWhile p = cs.takeWhile p ∧ (cs ++ us).dropWhile p = cs.dropWhile p ++ us := by
  induction cs with
  | nil => exact absurd rfl left
  | cons c cs ih =>
    rw [List.dropWhile_cons] at left
    rw [List.cons_append, List.takeWhile_cons, List.takeWhile_cons, List.dropWhile_cons,
      List.dropWhile_cons]
    cases hc : p c with
    | true =>
      rw [hc] at left
      simpa using ih left
    | false => simp

/-- The lexeme at the start of a text is the same where a blank and more follow, but a comment goes on
unless this is a line end. -/
theorem cut_join (separates : isBlank b = true) (c : Char) (cs t : List Char)
    (closed : (cut c cs).1 ≠ .unterminated) (ended : c = '/' ∧ cs.head? = some '/' → b = '\n') :
    cut c (cs ++ b :: t) = ((cut c cs).1, (cut c cs).2.1, (cut c cs).2.2 ++ b :: t) := by
  have others : b ≠ '/' ∧ continuesWord b = false := by
    rcases cases_of_isBlank separates with rfl | rfl | rfl | rfl <;> decide
  obtain ⟨noSlash, wordEnds⟩ := others
  have slash : (cs ++ b :: t).head? = some '/' ↔ cs.head? = some '/' := by
    cases cs <;> simp [noSlash]
  have number := splitNumber_join separates (c :: cs) t
  have symbol := splitSymbol?_join separates (c :: cs) t
  rw [List.cons_append] at number symbol
  simp only [cut, slash, number, symbol] at closed ⊢
  by_cases blank : isBlank c = true
  · simp only [if_pos blank]
  by_cases comment : c = '/' ∧ cs.head? = some '/'
  · simp only [if_neg blank, if_pos comment]
    cases ended comment
    rw [takeWhile_join (by decide), dropWhile_join (by decide)]
  by_cases quote : c = '"'
  · simp only [if_neg blank, if_neg comment, if_pos quote] at closed ⊢
    have left : cs.dropWhile (· ≠ '"') ≠ [] := by
      intro none
      rw [none] at closed
      exact closed rfl
    -- the quote that closes the string is in front of the blank
    obtain ⟨text, rest⟩ := takeWhile_append_of_left left (b :: t)
    rw [text, rest]
    generalize cs.dropWhile (· ≠ '"') = behind at left
    cases behind with
    | nil => exact absurd rfl left
    | cons quote rest => rfl
  by_cases digit : isDigit c = true
  · simp only [if_neg blank, if_neg comment, if_neg quote, if_pos digit]
  by_cases word : startsWord c = true
  · simp only [if_neg blank, if_neg comment, if_neg quote, if_neg digit, if_pos word]
    rw [takeWhile_join wordEnds, dropWhile_join wordEnds]
  · simp only [if_neg blank, if_neg comment, if_neg quote, if_neg digit, if_neg word]
    cases splitSymbol? (c :: cs) <;> rfl

end Join

end Piece

/-! ## Scanning -/

/-- The error at the place it has moved to. -/
def ScanError.moved (d : Shift) (e : ScanError) : ScanError :=
  { e with line := e.line + d.lines, offset := e.offset + d.bytes }

/-- What is found in a text that has moved. -/
def foundMoved (d : Shift) : Except ScanError Token → Except ScanError Token
  | .ok t => .ok (t.moved d)
  | .error e => .error (e.moved d)

/-- In a text that stands further down the same is found. -/
theorem scanFrom_moved (d : Shift) (line offset : Nat) (cs : List Char) :
    scanFrom (line + d.lines) (offset + d.bytes) cs =
      (scanFrom line offset cs).map (foundMoved d) := by
  induction h : cs.length using Nat.strongRecOn generalizing cs line offset with
  | ind n ih =>
    subst h
    cases cs with
    | nil => rw [scanFrom, scanFrom, List.map_nil]
    | cons c cs =>
      have rest := ih _ (Piece.length_cut_lt c cs) (line + lineEnds (Piece.cut c cs).2.1)
        (offset + byteSize (Piece.cut c cs).2.1) _ rfl
      rw [Nat.add_right_comm, Nat.add_right_comm offset] at rest
      rw [scanFrom, scanFrom, rest, Nat.add_right_comm]
      cases (Piece.cut c cs).1 <;> rfl

/-- No string is open at the end of the text. -/
def AllClosed (found : List (Except ScanError Token)) : Prop :=
  ∀ e, .error e ∈ found → e.cause ≠ .unterminatedString

/-- Behind a text in which no string is left open, a line end changes nothing. -/
theorem scanFrom_join (line offset : Nat) (cs t : List Char)
    (closed : AllClosed (scanFrom line offset cs)) :
    scanFrom line offset (cs ++ '\n' :: t) = scanFrom line offset cs ++
      scanFrom (line + (lineEnds cs + 1)) (offset + (byteSize cs + 1)) t := by
  induction h : cs.length using Nat.strongRecOn generalizing cs line offset with
  | ind n ih =>
    subst h
    cases cs with
    | nil =>
      -- the line end itself is layout
      rw [List.nil_append, scanFrom, scanFrom]
      rfl
    | cons c cs =>
      have lines := congrArg lineEnds (Piece.cut_append c cs)
      have bytes := congrArg byteSize (Piece.cut_append c cs)
      rw [lineEnds_append] at lines
      rw [byteSize_append] at bytes
      have join := fun closed => Piece.cut_join (b := '\n') (by decide) c cs t closed fun _ => rfl
      have rest := fun closed => ih _ (Piece.length_cut_lt c cs)
        (line + lineEnds (Piece.cut c cs).2.1) (offset + byteSize (Piece.cut c cs).2.1)
        (Piece.cut c cs).2.2 closed rfl
      rw [← lines, ← bytes, List.cons_append, scanFrom, scanFrom]
      rw [scanFrom] at closed
      simp only [Nat.add_assoc] at rest ⊢
      generalize Piece.cut c cs = cutOff at join rest closed ⊢
      obtain ⟨piece, chars, left⟩ := cutOff
      cases piece with
      | unterminated =>
        exact absurd rfl (closed _ List.mem_cons_self)
      | layout =>
        rw [join Piece.noConfusion]
        exact rest closed
      | token kind =>
        rw [join Piece.noConfusion]
        exact congrArg (_ :: ·) (rest (fun e mem => closed e (List.mem_cons_of_mem _ mem)))
      | unexpected c' =>
        rw [join Piece.noConfusion]
        exact congrArg (_ :: ·) (rest (fun e mem => closed e (List.mem_cons_of_mem _ mem)))

/-- How far the text that is joined to this one stands down. -/
def joinShift (source : String) : Shift :=
  ⟨lineEnds source.toList + 1, byteSize source.toList + 1, 0⟩

/-- Two texts joined by a line end have the tokens of both, those of the second one further down. -/
theorem scan_join {first second : String} {tokens tokens' : List Token}
    (scanned : scan first = .ok tokens) (scanned' : scan second = .ok tokens') :
    scan (first ++ "\n" ++ second) =
      .ok (tokens ++ tokens'.map (Token.moved (joinShift first))) := by
  rw [scan_eq_ok_iff] at scanned scanned' ⊢
  have closed : AllClosed (scanFrom 1 0 first.toList) := fun e mem => by
    rw [scanned] at mem
    simp at mem
  have text : (first ++ "\n" ++ second).toList = first.toList ++ '\n' :: second.toList := by simp
  rw [text, scanFrom_join _ _ _ _ closed, scanned, List.map_append, List.map_map]
  have behind := scanFrom_moved (joinShift first) 1 0 second.toList
  rw [scanned', List.map_map] at behind
  exact congrArg _ behind

end Lox
