import Lox.Proofs.Token.Cutting

/-!
# Scanning character by character

A scanner with a cursor, which reads one character after the other and cuts lexemes out of the bytes
behind it. In several places it can break down, with texts that are no program and with others. It
never does, and finds what the scanner by longest lexemes finds.

* `Breakdown` — ways in which the scanner may fail that are no fault of the text.
* `Cursor`, `Stepwise` — where the scanner stands, and a step of it.
* `Stepwise.lexeme` — reads one lexeme.
* `Stepwise.scan` — the tokens of a program, or all its errors, or a breakdown.
* `Stepwise.scan_eq` — there is no breakdown.
* `scan_accounts` — so every text is accounted for: tokens and layout make it up, or its faults are
  reported.
-/

namespace Lox

/-! ## Bytes -/

/-- The text without its first bytes. None if it has too few or if they end inside of a character. -/
def dropBytes? : Nat → List Char → Option (List Char)
  | 0, cs => some cs
  | _ + 1, [] => none
  | n + 1, c :: cs => if c.utf8Size ≤ n + 1 then dropBytes? (n + 1 - c.utf8Size) cs else none

/-- The first bytes of the text. None if it has too few or if they end inside of a character. -/
def takeBytes? : Nat → List Char → Option (List Char)
  | 0, _ => some []
  | _ + 1, [] => none
  | n + 1, c :: cs =>
    if c.utf8Size ≤ n + 1 then (takeBytes? (n + 1 - c.utf8Size) cs).map (c :: ·) else none

/-- The characters between two places in the bytes of a text. -/
def slice? (text : List Char) (first last : Nat) : Option (List Char) :=
  if first ≤ last then (dropBytes? first text).bind (takeBytes? (last - first)) else none

theorem dropBytes?_append (cs rest : List Char) :
    dropBytes? (byteSize cs) (cs ++ rest) = some rest := by
  induction cs with
  | nil => rw [byteSize, dropBytes?, List.nil_append]
  | cons c cs ih =>
    obtain ⟨n, size⟩ : ∃ n, byteSize (c :: cs) = n + 1 :=
      Nat.exists_eq_add_one.2 (byteSize_pos (List.cons_ne_nil c cs))
    have others : n + 1 - c.utf8Size = byteSize cs := by
      rw [← size, byteSize]
      omega
    have fits : c.utf8Size ≤ n + 1 := by
      rw [← size, byteSize]
      omega
    rw [size, List.cons_append, dropBytes?, if_pos fits, others]
    exact ih

theorem takeBytes?_append (cs rest : List Char) :
    takeBytes? (byteSize cs) (cs ++ rest) = some cs := by
  induction cs with
  | nil => rw [byteSize, takeBytes?]
  | cons c cs ih =>
    obtain ⟨n, size⟩ : ∃ n, byteSize (c :: cs) = n + 1 :=
      Nat.exists_eq_add_one.2 (byteSize_pos (List.cons_ne_nil c cs))
    have others : n + 1 - c.utf8Size = byteSize cs := by
      rw [← size, byteSize]
      omega
    have fits : c.utf8Size ≤ n + 1 := by
      rw [← size, byteSize]
      omega
    rw [size, List.cons_append, takeBytes?, if_pos fits, others, ih]
    rfl

/-- Between characters of a text there are the characters themselves. -/
theorem slice?_append (before cs after : List Char) :
    slice? (before ++ cs ++ after) (byteSize before) (byteSize (before ++ cs)) = some cs := by
  have size := byteSize_append before cs
  have le : byteSize before ≤ byteSize (before ++ cs) := by omega
  have length : byteSize (before ++ cs) - byteSize before = byteSize cs := by omega
  rw [slice?, if_pos le, List.append_assoc, dropBytes?_append, Option.bind_some, length,
    takeBytes?_append]

/-! ## Numerals -/

/-- The number that a numeral stands for. None unless there are digits only, at least one, with at
most one point among or beside them. -/
def readNumeral? (cs : List Char) : Option Number :=
  let whole := cs.takeWhile Piece.isDigit
  match cs.dropWhile Piece.isDigit with
  | [] => if whole.isEmpty then none else some (Decimal.ofNumeral cs).toNumber
  | '.' :: fraction =>
    if (whole ++ fraction).isEmpty || !fraction.all Piece.isDigit then none
    else some (Decimal.ofNumeral cs).toNumber
  | _ :: _ => none

theorem readNumeral?_of_isNumeral {cs : List Char} (h : IsNumeral cs) :
    readNumeral? cs = some (Decimal.ofNumeral cs).toNumber := by
  cases h with
  | whole some all =>
    have taken := List.takeWhile_eq_self_iff.2 all
    have left := List.dropWhile_eq_nil_iff.2 all
    unfold readNumeral?
    simp [taken, left, some]
  | @fraction digits others some all some' all' =>
    obtain ⟨taken, left⟩ := @split_exact _ digits ('.' :: others) all (by simp; decide)
    unfold readNumeral?
    rw [taken, left]
    simpa [some] using all'

/-! ## Steps -/

/-- Ways in which the scanner may fail that are no fault of the text. -/
inductive Breakdown where
  /-- There is no further character. -/
  | noCharacter
  /-- These places in the bytes are none between characters of the text. -/
  | noSlice (first last : Nat)
  /-- The characters were taken for a number, but are none. -/
  | noNumeral (chars : List Char)
  /-- It does not come to the end of the text. -/
  | noEnd

/-- Where the scanner stands in a text. -/
structure Cursor where
  source : List Char
  /-- The characters that are not read yet. -/
  ahead : List Char
  /-- Where the lexeme begins, counted in bytes. -/
  start : Nat
  /-- Where the next character begins, counted in bytes. -/
  position : Nat
  line : Nat

/-- Why there is no lexeme. -/
inductive Setback where
  | reported (e : ScanError)
  | broken (b : Breakdown)

/-- A step of the scanner. The cursor moves also if there is a setback. -/
abbrev Stepwise := EStateM Setback Cursor

namespace Stepwise

/-- Reads a character, if there is one. -/
def advance : Stepwise (Option Char) := fun k =>
  match k.ahead with
  | [] => .ok none k
  | c :: cs => .ok (some c) { k with ahead := cs, position := k.position + c.utf8Size }

/-- The next character. -/
def peek : Stepwise (Option Char) := fun k => .ok k.ahead.head? k

/-- The character behind the next one. -/
def peekSecond : Stepwise (Option Char) := fun k => .ok k.ahead.tail.head? k

/-- Counts a line. -/
def endLine : Stepwise Unit := fun k => .ok () { k with line := k.line + 1 }

/-- Reads the next character if it is the expected one. -/
def matchNext (expected : Char) : Stepwise Bool := do
  if (← peek) = some expected then
    let _ ← advance
    return true
  else return false

/-- Reads on as long as the next character is one of these, doing something about each. There are no
more of them than characters. -/
def advanceWhile (p : Char → Bool) (each : Char → Stepwise Unit) : Stepwise Unit := fun k =>
  go k.ahead.length k
where
  /-- Reads so many characters at most. -/
  go : Nat → Stepwise Unit
    | 0 => return ()
    | n + 1 => do
      match ← peek with
      | none => return ()
      | some c =>
        if p c then
          each c
          let _ ← advance
          go n
        else return ()

/-- Reads on as long as the next character is one of these. -/
def skipWhile (p : Char → Bool) : Stepwise Unit := advanceWhile p fun _ => return ()

/-- Reports an error. -/
def report {α : Type} (cause : ScanError.Cause) : Stepwise α := fun k =>
  .error (.reported ⟨cause, k.line, k.start⟩) k

/-- Breaks down. -/
def breakDown {α : Type} (b : Breakdown) : Stepwise α := fun k => .error (.broken b) k

/-- The characters between two places, which depend on where the lexeme begins and ends. -/
def slice (first last : Cursor → Nat) : Stepwise (List Char) := fun k =>
  match slice? k.source (first k) (last k) with
  | some chars => .ok chars k
  | none => .error (.broken (.noSlice (first k) (last k))) k

/-- The characters of the lexeme. -/
def chars : Stepwise (List Char) := slice Cursor.start Cursor.position

/-- A token from the beginning of the lexeme up to here. -/
def token (kind : Kind) : Stepwise (Option Token) := do
  let lexeme ← chars
  let k ← get
  return some ⟨kind, String.ofList lexeme, k.line, k.start⟩

/-- Counts the line that the character ends, if it does. -/
def countLine (c : Char) : Stepwise Unit := if c = '\n' then endLine else return ()

/-- Reads the rest of a string. -/
def string : Stepwise (Option Token) := do
  advanceWhile (· ≠ '"') countLine
  if (← peek).isNone then report .unterminatedString
  else
    let _ ← advance
    let text ← slice (fun k => k.start + 1) fun k => k.position - 1
    token (.string (String.ofList text))

/-- Reads a point and digits, if there is a digit behind the point. -/
def fraction : Stepwise Unit := do
  if (← peek) = some '.' then
    if (← peekSecond).any Piece.isDigit then
      let _ ← advance
      skipWhile Piece.isDigit
    else return ()
  else return ()

/-- Reads the rest of a number. -/
def number : Stepwise (Option Token) := do
  skipWhile Piece.isDigit
  fraction
  let numeral ← chars
  match readNumeral? numeral with
  | some value => token (.number value)
  | none => breakDown (.noNumeral numeral)

/-- Reads the rest of an identifier or of a reserved word. -/
def word : Stepwise (Option Token) := do
  skipWhile Piece.continuesWord
  let text ← chars
  token (Piece.wordKind text)

/-- A symbol, or the longer one that an equals sign behind it makes of it. -/
def symbol (alone withEqual : Symbol) : Stepwise (Option Token) := do
  if ← matchNext '=' then token (.symbol withEqual) else token (.symbol alone)

/-- Reads the rest of a comment, if there is a second slash, and else a slash. -/
def slash : Stepwise (Option Token) := do
  if ← matchNext '/' then
    skipWhile (· ≠ '\n')
    return none
  else token (.symbol .slash)

/-- Reads a lexeme. Blanks and comments are no tokens. -/
def lexeme : Stepwise (Option Token) := do
  match ← advance with
  | none => breakDown .noCharacter
  | some c =>
    match c with
    | '(' => token (.symbol .leftParen)
    | ')' => token (.symbol .rightParen)
    | '\x7b' => token (.symbol .leftBrace)
    | '\x7d' => token (.symbol .rightBrace)
    | ',' => token (.symbol .comma)
    | '.' => token (.symbol .dot)
    | '-' => token (.symbol .minus)
    | '+' => token (.symbol .plus)
    | ';' => token (.symbol .semicolon)
    | '*' => token (.symbol .star)
    | '!' => symbol .bang .bangEqual
    | '=' => symbol .equal .equalEqual
    | '<' => symbol .less .lessEqual
    | '>' => symbol .greater .greaterEqual
    | '/' => slash
    | ' ' | '\r' | '\t' => return none
    | '\n' => do
      endLine
      return none
    | '"' => string
    | c =>
      if Piece.isDigit c then number
      else if Piece.startsWord c then word
      else report (.unexpectedCharacter c)

/-- Reads lexemes up to the end of the text, which does not take more of them than so many. -/
def lexemes : Nat → Cursor → List Token → List ScanError →
    Except Breakdown (Except (List ScanError) (List Token))
  | 0, k, tokens, errors =>
    if k.ahead.isEmpty then .ok (if errors.isEmpty then .ok tokens else .error errors)
    else .error .noEnd
  | n + 1, k, tokens, errors =>
    if k.ahead.isEmpty then .ok (if errors.isEmpty then .ok tokens else .error errors)
    else
      match lexeme { k with start := k.position } with
      | .ok (some t) k' => lexemes n k' (tokens ++ [t]) errors
      | .ok none k' => lexemes n k' tokens errors
      | .error (.reported e) k' => lexemes n k' tokens (errors ++ [e])
      | .error (.broken b) _ => .error b

/-- The tokens of a program; if any place in it cannot be read, all such places instead. -/
def scan (source : String) : Except Breakdown (Except (List ScanError) (List Token)) :=
  lexemes source.toList.length ⟨source.toList, source.toList, 0, 0, 1⟩ [] []

/-! ## Each step -/

variable {before read rest : List Char} {line : Nat}

/-- The scanner has read so much of a lexeme that stands behind `before`. -/
def within (before read rest : List Char) (line : Nat) : Cursor where
  source := before ++ read ++ rest
  ahead := rest
  start := byteSize before
  position := byteSize (before ++ read)
  line := line

theorem bind_eq {α β : Type} {x : Stepwise α} {f : α → Stepwise β} {k k' : Cursor} {a : α}
    (h : x k = .ok a k') : (x >>= f) k = f a k' := by
  show EStateM.bind x f k = f a k'
  rw [EStateM.bind, h]

theorem advance_within (c : Char) : advance (within before read (c :: rest) line) =
    .ok (some c) (within before (read ++ [c]) rest line) := by
  simp [advance, within, byteSize_append, byteSize, Nat.add_assoc]

theorem peek_within : peek (within before read rest line) =
    .ok rest.head? (within before read rest line) := rfl

theorem matchNext_within (expected : Char) : matchNext expected (within before read rest line) =
    if rest.head? = some expected then
      .ok true (within before (read ++ [expected]) rest.tail line)
    else .ok false (within before read rest line) := by
  rw [matchNext, bind_eq peek_within]
  by_cases next : rest.head? = some expected
  · rw [if_pos next, if_pos next]
    obtain ⟨others, rfl⟩ := List.head?_eq_some_iff.1 next
    exact bind_eq (advance_within expected)
  · rw [if_neg next, if_neg next]
    rfl

theorem go_cons {p : Char → Bool} {each : Char → Stepwise Unit} {lines : Char → Nat} (n : Nat)
    (counts : ∀ k c, each c k = .ok () { k with line := k.line + lines c }) (c : Char) :
    advanceWhile.go p each (n + 1) (within before read (c :: rest) line) =
      if p c then advanceWhile.go p each n (within before (read ++ [c]) rest (line + lines c))
      else .ok () (within before read (c :: rest) line) := by
  rw [advanceWhile.go, bind_eq peek_within]
  dsimp only [List.head?_cons]
  split
  · rw [bind_eq (counts _ c)]
    exact bind_eq (advance_within c)
  · rfl

/-- What is read are the characters in front of the first other one. -/
theorem advanceWhile_within (p : Char → Bool) {each : Char → Stepwise Unit} {lines : Char → Nat}
    (counts : ∀ k c, each c k = .ok () { k with line := k.line + lines c }) :
    advanceWhile p each (within before read rest line) =
      .ok () (within before (read ++ rest.takeWhile p) (rest.dropWhile p)
        (line + ((rest.takeWhile p).map lines).sum)) := by
  suffices ∀ n, rest.length ≤ n → advanceWhile.go p each n (within before read rest line) =
      .ok () (within before (read ++ rest.takeWhile p) (rest.dropWhile p)
        (line + ((rest.takeWhile p).map lines).sum)) from
    this rest.length (Nat.le_refl _)
  intro n enough
  have done : ∀ n, advanceWhile.go p each n (within before read [] line) =
      .ok () (within before read [] line) := fun n => by cases n <;> rfl
  induction n generalizing read rest line with
  | zero =>
    have empty : rest = [] := List.length_eq_zero_iff.1 (Nat.le_zero.1 enough)
    subst empty
    simp [done]
  | succ n ih =>
    cases rest with
    | nil => simp [done]
    | cons c rest =>
      rw [go_cons n counts]
      by_cases goesOn : p c = true
      · rw [if_pos goesOn, ih (by simpa using enough) (fun n => by cases n <;> rfl)]
        simp [goesOn, Nat.add_assoc]
      · simp [goesOn]

theorem skipWhile_within (p : Char → Bool) : skipWhile p (within before read rest line) =
    .ok () (within before (read ++ rest.takeWhile p) (rest.dropWhile p) line) := by
  have nothing : ∀ (k : Cursor) (c : Char), (pure () : Stepwise Unit) k =
      .ok () { k with line := k.line + (fun _ => 0) c } := fun _ _ => rfl
  have sum : ((rest.takeWhile p).map fun _ => 0).sum = 0 := by simp [List.map_const']
  rw [skipWhile, advanceWhile_within p nothing, sum]
  rfl

theorem countLine_eq (k : Cursor) (c : Char) :
    countLine c k = .ok () { k with line := k.line + lineEnds [c] } := by
  unfold countLine
  split
  · rename_i newline
    subst newline
    rfl
  · rename_i other
    have none : lineEnds [c] = 0 := by simp [lineEnds, other]
    rw [none]
    rfl

theorem sum_lineEnds (cs : List Char) : (cs.map fun c => lineEnds [c]).sum = lineEnds cs := by
  induction cs with
  | nil => rfl
  | cons c cs ih => rw [List.map_cons, List.sum_cons, ih, ← lineEnds_append, List.singleton_append]

theorem chars_within : chars (within before read rest line) =
    .ok read (within before read rest line) := by
  have between := slice?_append before read rest
  show slice Cursor.start Cursor.position (within before read rest line) = _
  unfold slice
  dsimp only [within]
  rw [between]

theorem token_within (kind : Kind) : token kind (within before read rest line) =
    .ok (some ⟨kind, String.ofList read, line, byteSize before⟩) (within before read rest line) :=
  bind_eq chars_within

/-- The text of a string stands between its quotes. -/
theorem text_within (text : List Char) :
    slice (fun k => k.start + 1) (fun k => k.position - 1)
        (within before ('"' :: text ++ ['"']) rest line) =
      .ok text (within before ('"' :: text ++ ['"']) rest line) := by
  have quote : '"'.utf8Size = 1 := rfl
  have between := slice?_append (before ++ ['"']) text ('"' :: rest)
  have whole : before ++ ['"'] ++ text ++ '"' :: rest = before ++ ('"' :: text ++ ['"']) ++ rest := by
    simp
  have first : byteSize (before ++ ['"']) = byteSize before + 1 := by
    rw [byteSize_append, byteSize, byteSize, quote]
  have last : byteSize (before ++ ['"'] ++ text) = byteSize (before ++ ('"' :: text ++ ['"'])) - 1 := by
    simp only [byteSize_append, byteSize, List.cons_append, quote]
    omega
  rw [whole, last, first] at between
  unfold slice
  dsimp only [within]
  rw [between]

theorem splitNumber_eq (c : Char) (cs : List Char) (digit : Piece.isDigit c = true) :
    (do skipWhile Piece.isDigit; fraction) (within before [c] cs line) =
      .ok () (within before (Piece.splitNumber (c :: cs)).1 (Piece.splitNumber (c :: cs)).2 line) := by
  have whole : (c :: cs).takeWhile Piece.isDigit = [c] ++ cs.takeWhile Piece.isDigit := by simp [digit]
  have left : (c :: cs).dropWhile Piece.isDigit = cs.dropWhile Piece.isDigit := by simp [digit]
  rw [bind_eq (skipWhile_within Piece.isDigit), ← whole, ← left, fraction, bind_eq peek_within]
  unfold Piece.splitNumber
  generalize (c :: cs).takeWhile Piece.isDigit = read
  generalize (c :: cs).dropWhile Piece.isDigit = rest
  by_cases point : rest.head? = some '.'
  · obtain ⟨rest, rfl⟩ := List.head?_eq_some_iff.1 point
    rw [if_pos point]
    cases rest with
    | nil => rfl
    | cons d rest =>
      rw [bind_eq (show peekSecond _ = .ok (some d) _ from rfl)]
      by_cases behind : Piece.isDigit d = true
      · simp only [Option.any_some, behind, if_true]
        rw [bind_eq (advance_within '.'), skipWhile_within, List.append_assoc, List.singleton_append]
      · simp only [Option.any_some, behind]
        rfl
  · rw [if_neg point]
    split
    · exact absurd rfl point
    · rfl

/-! ## Lexemes -/

/-- What comes of reading what is cut off the front of a text that stands behind `before`. -/
def outcome (before : List Char) (cutOff : Piece × List Char × List Char) :
    EStateM.Result Setback Cursor (Option Token) :=
  let behind := within before cutOff.2.1 cutOff.2.2 (1 + lineEnds (before ++ cutOff.2.1))
  match cutOff.1.found? before cutOff.2.1 with
  | none => .ok none behind
  | some (.ok t) => .ok (some t) behind
  | some (.error e) => .error (.reported e) behind

theorem token_eq (kind : Kind) (ends : line = 1 + lineEnds (before ++ read)) :
    token kind (within before read rest line) = outcome before (.token kind, read, rest) := by
  rw [token_within, ends]
  rfl

/-- A character that ends no line leaves the line as it is. -/
theorem line_eq {c : Char} (other : c ≠ '\n') :
    1 + lineEnds before = 1 + lineEnds (before ++ [c]) := by
  rw [lineEnds_append]
  simp [lineEnds, other]

theorem symbol_within {c : Char} {alone withEqual : Symbol} (h : Piece.Doubles c alone withEqual)
    (cs : List Char) : symbol alone withEqual (within before [c] cs (1 + lineEnds before)) =
      outcome before (Piece.cut c cs) := by
  have other : c ≠ '\n' := by cases h <;> decide
  have moved := @matchNext_within before [c] cs (1 + lineEnds before) '='
  rw [h.cut_eq, symbol]
  by_cases next : cs.head? = some '='
  · rw [if_pos next] at moved ⊢
    rw [bind_eq moved]
    refine token_eq _ ?_
    rw [lineEnds_append]
    simp [lineEnds, other]
  · rw [if_neg next] at moved ⊢
    rw [bind_eq moved]
    exact token_eq _ (line_eq other)

theorem slash_within (cs : List Char) :
    slash (within before ['/'] cs (1 + lineEnds before)) = outcome before (Piece.cut '/' cs) := by
  have moved := @matchNext_within before ['/'] cs (1 + lineEnds before) '/'
  rw [slash]
  by_cases next : cs.head? = some '/'
  · rw [if_pos next] at moved
    obtain ⟨rest, rfl⟩ := List.head?_eq_some_iff.1 next
    rw [bind_eq moved]
    have sameLine : lineEnds ('/' :: '/' :: rest.takeWhile (· ≠ '\n')) = 0 := by
      have inside := Piece.not_mem_takeWhile '\n' rest
      simpa [lineEnds] using List.count_eq_zero.2 inside
    rw [Piece.cut_comment]
    simp only [if_true, List.tail_cons]
    rw [bind_eq (skipWhile_within _), outcome]
    simp only [Piece.found?, lineEnds_append, sameLine]
    rfl
  · rw [if_neg next] at moved
    rw [bind_eq moved, Piece.cut_slash next]
    exact token_eq _ (line_eq (by decide))

theorem string_within (cs : List Char) :
    string (within before ['"'] cs (1 + lineEnds before)) = outcome before (Piece.cut '"' cs) := by
  have moved := @advanceWhile_within before ['"'] cs (1 + lineEnds before) (· ≠ '"') _ _ countLine_eq
  rw [sum_lineEnds] at moved
  have ends := Piece.head?_dropWhile (· ≠ '"') cs
  rw [string, bind_eq moved, Piece.cut_quote]
  generalize cs.takeWhile (· ≠ '"') = text
  generalize cs.dropWhile (· ≠ '"') = rest at ends
  have line : 1 + lineEnds before + lineEnds text = 1 + lineEnds (before ++ '"' :: text) := by
    simp [lineEnds, Nat.add_assoc]
  rw [bind_eq peek_within, line]
  cases rest with
  | nil => rfl
  | cons quote rest =>
    have same : quote = '"' := by simpa using ends quote rfl
    subst same
    have closed : ¬('"' :: rest).head?.isNone = true := by simp
    rw [if_neg closed, bind_eq (advance_within '"')]
    refine (bind_eq (text_within text)).trans ?_
    refine token_eq _ ?_
    simp [lineEnds]

theorem isNumeral_line {numeral : List Char} (h : IsNumeral numeral) : lineEnds numeral = 0 := by
  have other : ∀ c ∈ numeral, c ≠ '\n' := by
    refine h.forall_mem (fun c digit => ?_) (by decide)
    rintro rfl
    exact absurd digit (by decide)
  exact List.count_eq_zero.2 fun mem => other _ mem rfl

/-- What is taken for a number is one. -/
theorem number_within {c : Char} (cs : List Char) (digit : Piece.isDigit c = true) :
    number (within before [c] cs (1 + lineEnds before)) = outcome before (Piece.cut c cs) := by
  have numeral := Piece.isNumeral_splitNumber cs digit
  have both := @splitNumber_eq before (1 + lineEnds before) c cs digit
  have line := isNumeral_line numeral
  rw [Piece.cut_digit cs digit, number, ← bind_assoc, bind_eq both]
  generalize (Piece.splitNumber (c :: cs)).1 = digits at numeral line
  rw [bind_eq chars_within, readNumeral?_of_isNumeral numeral]
  refine token_eq _ ?_
  rw [lineEnds_append, line]
  rfl

theorem word_within {c : Char} (cs : List Char) (starts : Piece.startsWord c = true) :
    word (within before [c] cs (1 + lineEnds before)) = outcome before (Piece.cut c cs) := by
  rw [Piece.cut_word cs starts, word, bind_eq (skipWhile_within _), bind_eq chars_within]
  refine token_eq _ ?_
  have newline : '\n' ∉ c :: cs.takeWhile Piece.continuesWord := by
    intro mem
    rcases List.mem_cons.1 mem with rfl | mem
    · exact absurd starts (by decide)
    · exact absurd (List.all_eq_true.1 List.all_takeWhile _ mem) (by decide)
  have none : lineEnds (c :: cs.takeWhile Piece.continuesWord) = 0 := List.count_eq_zero.2 newline
  rw [List.singleton_append, lineEnds_append, none]
  rfl

/-- Reading a lexeme is cutting it off. -/
theorem lexeme_within (c : Char) (cs : List Char) :
    lexeme (within before [] (c :: cs) (1 + lineEnds before)) = outcome before (Piece.cut c cs) := by
  rw [lexeme, bind_eq (advance_within c)]
  dsimp only [List.nil_append]
  split
  iterate 10 exact token_eq _ (line_eq (by decide))
  · exact symbol_within .bang cs
  · exact symbol_within .equal cs
  · exact symbol_within .less cs
  · exact symbol_within .greater cs
  · exact slash_within cs
  · rw [@line_eq before ' ' (by decide)]
    rfl
  · rw [@line_eq before '\r' (by decide)]
    rfl
  · rw [@line_eq before '\t' (by decide)]
    rfl
  · rw [bind_eq (show endLine _ = .ok () _ from rfl)]
    simp [outcome, Piece.cut, Piece.isBlank, Piece.found?, within, lineEnds]
    rfl
  · exact string_within cs
  · rename_i others
    split
    · rename_i digit
      exact number_within cs digit
    split
    · rename_i starts
      exact word_within cs starts
    · rename_i digit starts
      have unreadable : Piece.readable c = false := by
        simp [Piece.readable, Piece.isBlank, Symbol.all, Symbol.chars, digit, starts]
        grind
      rw [Piece.cut_of_unreadable cs unreadable]
      have newline : c ≠ '\n' := by
        rintro rfl
        exact absurd unreadable (by decide)
      rw [@line_eq before c newline]
      rfl

/-! ## Texts -/

/-- The tokens among the things that are found, or the errors if there are any. -/
def verdict (tokens : List Token) (errors : List ScanError) (found : List (Except ScanError Token)) :
    Except (List ScanError) (List Token) :=
  if (errors ++ errorsOf found).isEmpty then .ok (tokens ++ found.filterMap Except.toOption)
  else .error (errors ++ errorsOf found)

theorem lexemes_eq (n : Nat) (before read rest : List Char) (start : Nat) (tokens : List Token)
    (errors : List ScanError) (enough : rest.length ≤ n) :
    lexemes n { within before read rest (1 + lineEnds (before ++ read)) with start := start } tokens
      errors = .ok (verdict tokens errors (foundBehind (before ++ read) rest)) := by
  induction n generalizing before read rest start tokens errors with
  | zero =>
    have empty : rest = [] := List.length_eq_zero_iff.1 (Nat.le_zero.1 enough)
    subst empty
    simp [lexemes, within, verdict, foundBehind, scanFrom, errorsOf]
  | succ n ih =>
    cases rest with
    | nil => simp [lexemes, within, verdict, foundBehind, scanFrom, errorsOf]
    | cons c cs =>
      have fewer : (Piece.cut c cs).2.2.length ≤ n := by
        have shorter := Piece.length_cut_lt c cs
        simp only [List.length_cons] at enough shorter
        omega
      have next : { within before read (c :: cs) (1 + lineEnds (before ++ read)) with
          start := byteSize (before ++ read) } =
          within (before ++ read) [] (c :: cs) (1 + lineEnds (before ++ read)) := by
        simp [within]
      have behind := fun tokens errors =>
        ih (before ++ read) (Piece.cut c cs).2.1 (Piece.cut c cs).2.2 (byteSize (before ++ read)) tokens
          errors fewer
      show (match lexeme { within before read (c :: cs) (1 + lineEnds (before ++ read)) with
          start := byteSize (before ++ read) } with
        | .ok (some t) k => lexemes n k (tokens ++ [t]) errors
        | .ok none k => lexemes n k tokens errors
        | .error (.reported e) k => lexemes n k tokens (errors ++ [e])
        | .error (.broken b) _ => .error b) = _
      rw [next, lexeme_within, foundBehind_cons, outcome]
      cases (Piece.cut c cs).1.found? (before ++ read) (Piece.cut c cs).2.1 with
      | none => exact behind tokens errors
      | some f =>
        cases f with
        | ok t =>
          refine (behind (tokens ++ [t]) errors).trans ?_
          simp [verdict, errorsOf, Except.toOption]
        | error e =>
          refine (behind tokens (errors ++ [e])).trans ?_
          simp [verdict, errorsOf]

/-- **The scanner never breaks down.** Read character by character, any text has the tokens and errors
that it has by its longest lexemes. -/
theorem scan_eq (source : String) : scan source = .ok (Lox.scan source) :=
  lexemes_eq source.toList.length [] [] source.toList 0 [] [] (Nat.le_refl _)

end Stepwise

/-- **Scanning accounts for every byte of a text.** Either tokens and layout in turn make up the
text; then each token has the bytes of the text at its place and the line on which it ends, and they
stand in order without overlapping. Or the faults of the text are reported: every character outside
of strings and comments with which nothing can begin, from front to back, and then the string that is
open at the end. Tokens are cut out between characters also in a text with faults, and a scanner that
moves a cursor over the bytes never breaks down on its way. -/
theorem scan_accounts (source : String) :
    Stepwise.scan source = .ok (scan source) ∧
    match scan source with
    | .ok tokens => faults source = [] ∧ Covers [] source.toList tokens ∧
      (∀ t ∈ tokens, t.StandsIn source) ∧ tokens.Pairwise Token.EndsBefore
    | .error errors => errors = faults source ∧ errors ≠ [] ∧
      (errors.Pairwise fun e f => e.offset < f.offset) ∧
      ∀ t, .ok t ∈ scanFrom 1 0 source.toList → t.StandsIn source := by
  refine ⟨Stepwise.scan_eq source, ?_⟩
  have outcome := scan_eq source
  have found : ∀ t, .ok t ∈ scanFrom 1 0 source.toList → t.StandsIn source :=
    standsIn_foundBehind source [] source.toList rfl
  cases scanned : scan source with
  | ok tokens =>
    have all := scan_eq_ok_iff.1 scanned
    have covers : Covers [] source.toList tokens := covers_foundBehind [] source.toList tokens all
    have clean : faults source = [] := by
      cases none : faults source with
      | nil => rfl
      | cons e es => simp [scanned, none] at outcome
    have standsIn : ∀ t ∈ tokens, t.StandsIn source := by
      intro t mem
      apply found
      rw [all]
      exact List.mem_map_of_mem mem
    exact ⟨clean, covers, standsIn, covers.ordered.2⟩
  | error errors =>
    rw [scanned] at outcome
    split at outcome
    · cases outcome
    · rename_i some
      cases outcome
      exact ⟨rfl, fun none => some (by rw [none]; rfl), faults_ordered source, found⟩

end Lox
