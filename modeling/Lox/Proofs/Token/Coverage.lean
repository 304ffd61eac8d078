import Lox.Proofs.Token.Joining

/-!
# What the characters of a text belong to

Scanning loses nothing. Every character of a text is part of a token, of layout, or of a place that
is reported.

* `Piece.IsCut` — what is cut off the front of a text, by the form of its characters.
* `found_induction` — scanning by induction on the pieces.
* `Covers` — tokens and layout in turn make up a text.
* `Token.StandsIn` — a token has the bytes of the text at its place, and the line it ends on.
* `faults` — the places that are reported, found without looking for tokens.
* `scan_eq` — scanning fails where there are faults, and reports them; `faults_ordered` — in order.
-/

namespace Lox

/-! ## Pieces -/

/-- Digits, and maybe a point with digits behind it. -/
inductive IsNumeral : List Char → Prop where
  | whole {digits : List Char} (some : digits ≠ []) (all : ∀ c ∈ digits, Piece.isDigit c = true) :
      IsNumeral digits
  | fraction {digits others : List Char} (some : digits ≠ [])
      (all : ∀ c ∈ digits, Piece.isDigit c = true) (some' : others ≠ [])
      (all' : ∀ c ∈ others, Piece.isDigit c = true) : IsNumeral (digits ++ '.' :: others)

/-- What holds of digits and of the point holds of all characters of a numeral. -/
theorem IsNumeral.forall_mem {P : Char → Prop} {numeral : List Char} (h : IsNumeral numeral)
    (digit : ∀ c, Piece.isDigit c = true → P c) (point : P '.') : ∀ c ∈ numeral, P c := by
  cases h with
  | whole _ all => exact fun c mem => digit c (all c mem)
  | fraction _ all _ all' =>
    intro c mem
    rcases List.mem_append.1 mem with mem | mem
    · exact digit c (all c mem)
    · rcases List.mem_cons.1 mem with rfl | mem
      · exact point
      · exact digit c (all' c mem)

/-- A letter or an underscore, and letters, digits and underscores behind it. -/
inductive IsWord : List Char → Prop where
  | mk {c : Char} {cs : List Char} (first : Piece.startsWord c = true)
      (others : ∀ d ∈ cs, Piece.continuesWord d = true) : IsWord (c :: cs)

/-- How a token of each kind is written. -/
def Kind.WrittenAs (chars : List Char) : Kind → Prop
  | .symbol s => chars = s.chars
  | .keyword k => chars = k.chars
  | .identifier => IsWord chars
  | .string text => chars = '"' :: text.toList ++ ['"']
  | .number value => IsNumeral chars ∧ value = (Decimal.ofNumeral chars).toNumber
  | .endOfInput => False

namespace Piece

/-- Something can be read that begins with the character. -/
def readable (c : Char) : Bool :=
  isBlank c || isDigit c || startsWord c || c == '"' ||
    Symbol.all.any fun s => s.chars.head? == some c

/-- What the characters are that are cut off in front of `rest`. -/
inductive IsCut (rest : List Char) : Piece → List Char → Prop where
  | blank {c : Char} (blank : isBlank c = true) : IsCut rest .layout [c]
  | comment {body : List Char} (inside : '\n' ∉ body) (ends : ∀ c ∈ rest.head?, c = '\n') :
      IsCut rest .layout ('/' :: '/' :: body)
  | string {text : List Char} (inside : '"' ∉ text) :
      IsCut rest (.token (.string (String.ofList text))) ('"' :: text ++ ['"'])
  | unterminated {text : List Char} (inside : '"' ∉ text) (ends : rest = []) :
      IsCut rest .unterminated ('"' :: text)
  | number {digits : List Char} (numeral : IsNumeral digits) :
      IsCut rest (.token (.number (Decimal.ofNumeral digits).toNumber)) digits
  | word {word : List Char} (isWord : IsWord word) : IsCut rest (.token (wordKind word)) word
  /-- A single slash is not in front of another one, which would begin a comment. -/
  | symbol {s : Symbol} (alone : s = .slash → rest.head? ≠ some '/') :
      IsCut rest (.token (.symbol s)) s.chars
  | unexpected {c : Char} (unreadable : readable c = false) : IsCut rest (.unexpected c) [c]

theorem isNumeral_splitNumber {c : Char} (cs : List Char) (digit : isDigit c = true) :
    IsNumeral (splitNumber (c :: cs)).1 := by
  have all : ∀ ds : List Char, ∀ d ∈ ds.takeWhile isDigit, isDigit d = true := by
    intro ds
    exact List.all_eq_true.1 List.all_takeWhile
  have some : ∀ (d : Char) (ds : List Char), isDigit d = true → (d :: ds).takeWhile isDigit ≠ [] := by
    intro d ds hd
    simp [hd]
  unfold splitNumber
  split
  · rename_i d rest _
    by_cases hd : isDigit d = true
    · rw [if_pos hd]
      exact .fraction (some c cs digit) (all _) (some d rest hd) (all _)
    · rw [if_neg hd]
      exact .whole (some c cs digit) (all _)
  · exact .whole (some c cs digit) (all _)

/-- Every symbol begins with a character that is a symbol by itself. -/
theorem exists_single (s : Symbol) : ∃ s' ∈ Symbol.all, s'.chars = s.chars.take 1 := by
  cases s <;> decide

/-- Where no lexeme begins, the character is one that none begins with. -/
theorem unreadable_of_splitSymbol {c : Char} {cs : List Char} (blank : ¬isBlank c = true)
    (quote : c ≠ '"') (digit : ¬isDigit c = true) (word : ¬startsWord c = true)
    (symbol : splitSymbol? (c :: cs) = none) : readable c = false := by
  have others : Symbol.all.any (fun s => s.chars.head? == some c) = false := by
    rw [List.any_eq_false]
    intro s _ head
    obtain ⟨s', mem, chars⟩ := exists_single s
    have one : s'.chars = [c] := by
      cases form : s.chars with
      | nil => simp [form] at head
      | cons d ds =>
        simp only [form, List.head?_cons, beq_iff_eq, Option.some.injEq] at head
        rw [chars, form, head, List.take_succ_cons, List.take_zero]
    have none := List.findSome?_eq_none_iff.1 symbol s' mem
    simp [one] at none
  simp [readable, blank, quote, digit, word, others]

/-- What is left by a run of characters does not begin with another one of them. -/
theorem head?_dropWhile (p : Char → Bool) (cs : List Char) :
    ∀ c ∈ (cs.dropWhile p).head?, p c = false := by
  intro c front
  have stops := List.head?_dropWhile_not p cs
  rw [Option.mem_def.1 front] at stops
  exact stops

theorem not_mem_takeWhile (c : Char) (cs : List Char) : c ∉ cs.takeWhile (· ≠ c) := by
  intro mem
  have other := List.all_eq_true.1 List.all_takeWhile c mem
  simp at other

/-- What is cut off the front of a text has one of the forms. -/
theorem isCut_cut (c : Char) (cs : List Char) :
    IsCut (cut c cs).2.2 (cut c cs).1 (cut c cs).2.1 := by
  unfold cut
  by_cases blank : isBlank c = true
  · rw [if_pos blank]
    exact .blank blank
  rw [if_neg blank]
  by_cases comment : c = '/' ∧ cs.head? = some '/'
  · rw [if_pos comment]
    obtain ⟨rfl, second⟩ := comment
    obtain ⟨rest, rfl⟩ := List.head?_eq_some_iff.1 second
    have ends := head?_dropWhile (· ≠ '\n') rest
    have inside := not_mem_takeWhile '\n' rest
    exact .comment inside fun c front => by simpa using ends c front
  rw [if_neg comment]
  by_cases quote : c = '"'
  · rw [if_pos quote]
    subst quote
    have inside := not_mem_takeWhile '"' cs
    have ends := head?_dropWhile (· ≠ '"') cs
    dsimp only
    cases left : cs.dropWhile (· ≠ '"') with
    | nil => exact .unterminated inside rfl
    | cons closing rest =>
      rw [left] at ends
      have same : closing = '"' := by simpa using ends closing rfl
      subst same
      exact .string inside
  rw [if_neg quote]
  by_cases digit : isDigit c = true
  · rw [if_pos digit]
    exact .number (isNumeral_splitNumber cs digit)
  rw [if_neg digit]
  by_cases word : startsWord c = true
  · rw [if_pos word]
    exact .word ⟨word, List.all_eq_true.1 List.all_takeWhile⟩
  rw [if_neg word]
  cases symbol : splitSymbol? (c :: cs) with
  | none => exact .unexpected (unreadable_of_splitSymbol blank quote digit word symbol)
  | some found =>
    obtain ⟨s, rest⟩ := found
    refine .symbol fun slash => ?_
    have text := splitSymbol?_append symbol
    subst slash
    obtain ⟨rfl, rfl⟩ := List.cons.inj (show '/' :: rest = c :: cs from text)
    exact fun second => comment ⟨rfl, second⟩

variable {rest chars : List Char} {kind : Kind}

theorem writtenAs_wordKind {word : List Char} (isWord : IsWord word) :
    (wordKind word).WrittenAs word := by
  unfold wordKind
  cases found : Keyword.all.find? (fun k => k.chars == word) with
  | some k =>
    have same := List.find?_some found
    exact (beq_iff_eq.1 same).symm
  | none => exact isWord

/-- A token is written as its kind requires. -/
theorem IsCut.writtenAs (h : IsCut rest (.token kind) chars) : kind.WrittenAs chars := by
  cases h with
  | string inside => simp [Kind.WrittenAs]
  | number numeral => exact ⟨numeral, rfl⟩
  | word isWord => exact writtenAs_wordKind isWord
  | symbol alone => rfl

end Piece

theorem Kind.WrittenAs.ne_nil {chars : List Char} {kind : Kind} (h : kind.WrittenAs chars) :
    chars ≠ [] := by
  rintro rfl
  cases kind with
  | symbol s => cases s <;> cases h
  | keyword k => cases k <;> cases h
  | identifier => cases h
  | string text => cases h
  | number value =>
    obtain ⟨numeral, -⟩ := h
    generalize none : [] = chars at numeral
    cases numeral with
    | whole some _ => exact some none.symm
    | fraction => simp at none
  | endOfInput => exact h

/-! ## Scanning -/

/-- What is found in a text that stands behind `before`. -/
def foundBehind (before cs : List Char) : List (Except ScanError Token) :=
  scanFrom (1 + lineEnds before) (byteSize before) cs

/-- What is found where a piece with these characters stands behind `before`. -/
def Piece.found? (before chars : List Char) : Piece → Option (Except ScanError Token)
  | .token kind =>
    some (.ok ⟨kind, String.ofList chars, 1 + lineEnds (before ++ chars), byteSize before⟩)
  | .layout => none
  | .unexpected c =>
    some (.error ⟨.unexpectedCharacter c, 1 + lineEnds (before ++ chars), byteSize before⟩)
  | .unterminated =>
    some (.error ⟨.unterminatedString, 1 + lineEnds (before ++ chars), byteSize before⟩)

theorem foundBehind_cons (before : List Char) (c : Char) (cs : List Char) :
    foundBehind before (c :: cs) =
      ((Piece.cut c cs).1.found? before (Piece.cut c cs).2.1).toList ++
        foundBehind (before ++ (Piece.cut c cs).2.1) (Piece.cut c cs).2.2 := by
  unfold foundBehind
  rw [scanFrom, lineEnds_append, byteSize_append, Nat.add_assoc]
  generalize Piece.cut c cs = cutOff
  obtain ⟨piece, chars, rest⟩ := cutOff
  cases piece <;> simp [Piece.found?, lineEnds_append]

/-- Scanning goes from piece to piece. What holds behind a piece and is carried to its front holds of
the whole text. -/
theorem found_induction {P : List Char → List Char → List (Except ScanError Token) → Prop}
    (done : ∀ before, P before [] [])
    (more : ∀ before piece chars rest found, Piece.IsCut rest piece chars →
      P (before ++ chars) rest found →
        P before (chars ++ rest) ((piece.found? before chars).toList ++ found))
    (before cs : List Char) : P before cs (foundBehind before cs) := by
  induction h : cs.length using Nat.strongRecOn generalizing before cs with
  | ind n ih =>
    subst h
    cases cs with
    | nil =>
      have none : foundBehind before [] = [] := by rw [foundBehind, scanFrom]
      rw [none]
      exact done before
    | cons c cs =>
      have others := ih _ (Piece.length_cut_lt c cs) (before ++ (Piece.cut c cs).2.1) _ rfl
      have all := more before _ _ _ _ (Piece.isCut_cut c cs) others
      rw [Piece.cut_append] at all
      rw [foundBehind_cons]
      exact all

/-! ## Tokens and layout -/

/-- Blanks and comments in front of `rest`. A comment goes on to the end of its line. -/
inductive IsLayout (rest : List Char) : List Char → Prop where
  | nil : IsLayout rest []
  | blank {c : Char} {cs : List Char} (blank : Piece.isBlank c = true) (others : IsLayout rest cs) :
      IsLayout rest (c :: cs)
  | comment {body cs : List Char} (inside : '\n' ∉ body)
      (ends : ∀ c ∈ (cs ++ rest).head?, c = '\n') (others : IsLayout rest cs) :
      IsLayout rest ('/' :: '/' :: body ++ cs)

/-- The token is what these characters spell behind those `before` them. -/
structure Token.Spells (before chars : List Char) (t : Token) : Prop where
  lexeme : t.lexeme = String.ofList chars
  writtenAs : t.kind.WrittenAs chars
  /-- The lines that end before the end of the token are counted. -/
  line : t.line = 1 + lineEnds (before ++ chars)
  offset : t.offset = byteSize before

/-- `Covers before text tokens`: the text stands behind `before` and is made up of layout, the first
token, layout, the second token, and so on, with layout at its end. -/
inductive Covers : List Char → List Char → List Token → Prop where
  | layout {before gap : List Char} (layout : IsLayout [] gap) : Covers before gap []
  | token {before gap chars rest : List Char} {t : Token} {ts : List Token}
      (layout : IsLayout (chars ++ rest) gap) (spells : t.Spells (before ++ gap) chars)
      (others : Covers (before ++ gap ++ chars) rest ts) :
      Covers before (gap ++ (chars ++ rest)) (t :: ts)

/-- A piece of layout can be put in front. -/
theorem Covers.skip {before chars rest : List Char} {ts : List Token}
    (layout : ∀ gap after, rest = gap ++ after → IsLayout after gap → IsLayout after (chars ++ gap))
    (h : Covers (before ++ chars) rest ts) : Covers before (chars ++ rest) ts := by
  cases h with
  | layout inner =>
    have whole := layout rest [] (List.append_nil rest).symm inner
    exact .layout whole
  | @token _ gap chars' rest' _ _ inner spells others =>
    have whole := layout gap (chars' ++ rest') rfl inner
    rw [← List.append_assoc]
    rw [List.append_assoc before] at spells others
    exact .token whole spells others

/-- What is found in a text without faults covers it. -/
theorem covers_foundBehind (before cs : List Char) : ∀ tokens : List Token,
    foundBehind before cs = tokens.map .ok → Covers before cs tokens := by
  refine found_induction (P := fun before cs found =>
    ∀ tokens : List Token, found = tokens.map .ok → Covers before cs tokens) ?_ ?_ before cs
  · intro before tokens none
    have empty : tokens = [] := by simpa using none.symm
    subst empty
    exact .layout .nil
  · intro before piece chars rest found isCut ih tokens all
    cases piece with
    | unexpected c | unterminated =>
      -- an error is no token
      cases tokens <;> simp [Piece.found?] at all
    | layout =>
      refine .skip ?_ (ih tokens all)
      intro gap after split inner
      cases isCut with
      | blank blank => exact .blank blank inner
      | comment inside ends => exact .comment inside (split ▸ ends) inner
    | token kind =>
      cases tokens with
      | nil => simp [Piece.found?] at all
      | cons t ts =>
        obtain ⟨first, others⟩ := List.cons.inj all
        cases first
        have spells : Token.Spells (before ++ []) chars
            ⟨kind, String.ofList chars, 1 + lineEnds (before ++ chars), byteSize before⟩ := by
          rw [List.append_nil]
          exact ⟨rfl, isCut.writtenAs, rfl, rfl⟩
        have behind := ih ts others
        rw [← List.append_nil before] at behind
        exact .token .nil spells behind

/-! ## Places in the text -/

theorem byteSize_eq (cs : List Char) : (String.ofList cs).utf8ByteSize = byteSize cs := by
  induction cs with
  | nil => rfl
  | cons c cs ih =>
    rw [String.ofList_cons, String.utf8ByteSize_append, String.utf8ByteSize_singleton, ih, byteSize]

theorem byteSize_pos {cs : List Char} (h : cs ≠ []) : 0 < byteSize cs := by
  cases cs with
  | nil => exact absurd rfl h
  | cons c cs =>
    have one := c.utf8Size_pos
    rw [byteSize]
    omega

/-- The token is found in the text at its place. -/
structure Token.StandsIn (source : String) (t : Token) : Prop where
  /-- It begins and ends between characters of the text. Its line is that of its end. -/
  place : ∃ before after, source.toList = before ++ t.lexeme.toList ++ after ∧
    t.offset = byteSize before ∧ t.line = 1 + lineEnds (before ++ t.lexeme.toList)
  bytes : source.toUTF8.extract t.offset (t.offset + t.lexeme.utf8ByteSize) = t.lexeme.toUTF8
  writtenAs : t.kind.WrittenAs t.lexeme.toList

theorem Token.Spells.standsIn {source : String} {before chars after : List Char} {t : Token}
    (h : t.Spells before chars) (text : source.toList = before ++ chars ++ after) :
    t.StandsIn source := by
  have lexeme : t.lexeme.toList = chars := by rw [h.lexeme, String.toList_ofList]
  refine ⟨⟨before, after, ?_, h.offset, ?_⟩, ?_, ?_⟩
  · rw [lexeme, text]
  · rw [lexeme, h.line]
  · have whole : source = String.ofList before ++ t.lexeme ++ String.ofList after := by
      rw [h.lexeme, ← String.ofList_append, ← String.ofList_append, ← text, String.ofList_toList]
    have front : t.offset = (String.ofList before).toByteArray.size := by
      rw [String.size_toByteArray, byteSize_eq, h.offset]
    rw [whole, front, ← String.size_toByteArray]
    simp only [String.toUTF8, String.toByteArray_append]
    rw [← ByteArray.size_append, ByteArray.extract_append_size_left]
    exact ByteArray.extract_append_eq_right rfl ByteArray.size_append
  · rw [lexeme]
    exact h.writtenAs

/-- Whatever token is found in a text stands in it, also if there are errors elsewhere. -/
theorem standsIn_foundBehind (source : String) (before cs : List Char)
    (text : source.toList = before ++ cs) :
    ∀ t, .ok t ∈ foundBehind before cs → t.StandsIn source := by
  revert text
  refine found_induction (P := fun before cs found => source.toList = before ++ cs →
    ∀ t, .ok t ∈ found → t.StandsIn source) ?_ ?_ before cs
  · exact fun before _ t mem => absurd mem List.not_mem_nil
  · intro before piece chars rest found isCut ih text t mem
    rw [← List.append_assoc] at text
    rcases List.mem_append.1 mem with mem | mem
    · cases piece with
      | token kind =>
        have spells : Token.Spells before chars t := by
          cases List.mem_singleton.1 mem
          exact ⟨rfl, isCut.writtenAs, rfl, rfl⟩
        exact spells.standsIn text
      | layout | unexpected | unterminated => simp [Piece.found?] at mem
    · exact ih text t mem

/-- The first token ends before the second one begins. -/
def Token.EndsBefore (t u : Token) : Prop :=
  t.offset < u.offset ∧ t.offset + t.lexeme.utf8ByteSize ≤ u.offset

/-- Tokens that cover a text stand in order. -/
theorem Covers.ordered {before rest : List Char} {ts : List Token} (h : Covers before rest ts) :
    (∀ t ∈ ts, byteSize before ≤ t.offset) ∧ ts.Pairwise Token.EndsBefore := by
  induction h with
  | layout _ => exact ⟨fun t mem => absurd mem List.not_mem_nil, .nil⟩
  | @token before gap chars rest first ts _ spells _ ih =>
    obtain ⟨behind, ordered⟩ := ih
    have start : first.offset = byteSize before + byteSize gap := by
      rw [spells.offset, byteSize_append]
    have size : first.lexeme.utf8ByteSize = byteSize chars := by rw [spells.lexeme, byteSize_eq]
    have some := byteSize_pos spells.writtenAs.ne_nil
    have later : ∀ t ∈ ts, byteSize before + byteSize gap + byteSize chars ≤ t.offset := by
      intro t mem
      have le := behind t mem
      rwa [byteSize_append, byteSize_append] at le
    constructor
    · intro t mem
      rcases List.mem_cons.1 mem with rfl | mem
      · omega
      · have le := later t mem
        omega
    · refine List.pairwise_cons.2 ⟨fun t mem => ?_, ordered⟩
      have le := later t mem
      constructor <;> omega

/-! ## Faults -/

/-- What a character of a text stands in, as far as strings and comments go. -/
inductive Region where
  | code
  | comment
  /-- A string; its opening quote stands behind these characters. -/
  | string (opening : List Char)
  deriving DecidableEq

/-- What the character behind `before` leads into, if `next` follows it. -/
def Region.step (r : Region) (before : List Char) (c : Char) (next : Option Char) : Region :=
  match r with
  | .code =>
    if c = '"' then .string before else if c = '/' ∧ next = some '/' then .comment else .code
  | .comment => if c = '\n' then .code else .comment
  | .string opening => if c = '"' then .code else .string opening

/-- The characters outside of strings and comments with which nothing can begin, each with the text
in front of it. -/
def strays (r : Region) (before : List Char) : List Char → List (List Char × Char)
  | [] => []
  | c :: cs =>
    (if r = .code ∧ Piece.readable c = false then [(before, c)] else []) ++
      strays (r.step before c cs.head?) (before ++ [c]) cs

/-- The text in front of the string that is open at the end, if one is. -/
def openString? (r : Region) (before : List Char) : List Char → Option (List Char)
  | [] =>
    match r with
    | .string opening => some opening
    | .code | .comment => none
  | c :: cs => openString? (r.step before c cs.head?) (before ++ [c]) cs

/-- The report of a character with which nothing can begin. -/
def strayFault (stray : List Char × Char) : ScanError :=
  ⟨.unexpectedCharacter stray.2, 1 + lineEnds stray.1, byteSize stray.1⟩

/-- The report of a string that is open at the end of the text. -/
def openFault (text opening : List Char) : ScanError :=
  ⟨.unterminatedString, 1 + lineEnds text, byteSize opening⟩

/-- The faults of a text: each character with which nothing can begin, and the string that is open at
its end. -/
def faults (source : String) : List ScanError :=
  (strays .code [] source.toList).map strayFault ++
    ((openString? .code [] source.toList).map (openFault source.toList)).toList

/-- Nothing is reported of the characters, which lead from one region into another. -/
structure Crosses (r : Region) (before chars : List Char) (r' : Region) (rest : List Char) : Prop where
  strays : strays r before (chars ++ rest) = strays r' (before ++ chars) rest
  openString? : openString? r before (chars ++ rest) = openString? r' (before ++ chars) rest

namespace Crosses

variable {r r' r'' : Region} {before chars chars' rest : List Char}

theorem nil (r : Region) (before rest : List Char) : Crosses r before [] r rest := by
  constructor <;> rw [List.append_nil] <;> rfl

theorem trans (h : Crosses r before chars r' (chars' ++ rest))
    (h' : Crosses r' (before ++ chars) chars' r'' rest) :
    Crosses r before (chars ++ chars') r'' rest := by
  constructor
  · rw [List.append_assoc, h.strays, h'.strays, List.append_assoc]
  · rw [List.append_assoc, h.openString?, h'.openString?, List.append_assoc]

theorem one {c : Char} (quiet : r = .code → Piece.readable c = true)
    (leads : r.step before c rest.head? = r') : Crosses r before [c] r' rest := by
  have none : ¬(r = .code ∧ Piece.readable c = false) := by
    rintro ⟨code, unreadable⟩
    rw [quiet code] at unreadable
    cases unreadable
  constructor
  · rw [List.singleton_append, Lox.strays, if_neg none, leads]
    rfl
  · rw [List.singleton_append, Lox.openString?, leads]

/-- Where each character leads back into the same region, so do all. -/
theorem all (quiet : ∀ c ∈ chars, r = .code → Piece.readable c = true)
    (stays : ∀ c ∈ chars, ∀ before next, r.step before c next = r) : Crosses r before chars r rest := by
  induction chars generalizing before with
  | nil => exact nil r before rest
  | cons c chars ih =>
    have first : Crosses r before [c] r (chars ++ rest) :=
      one (quiet c List.mem_cons_self) (stays c List.mem_cons_self _ _)
    have others : Crosses r (before ++ [c]) chars r rest :=
      ih (fun d mem => quiet d (List.mem_cons_of_mem c mem))
        fun d mem => stays d (List.mem_cons_of_mem c mem)
    exact first.trans others

/-- Characters that are neither quotes nor slashes change nothing in code. -/
theorem plain (readable : ∀ c ∈ chars, Piece.readable c = true) (quotes : '"' ∉ chars)
    (slashes : '/' ∉ chars) : Crosses .code before chars .code rest := by
  refine all (fun c mem _ => readable c mem) fun c mem before next => ?_
  have quote : c ≠ '"' := fun same => quotes (same ▸ mem)
  have slash : c ≠ '/' := fun same => slashes (same ▸ mem)
  simp [Region.step, quote, slash]

end Crosses

/-! ## Pieces and faults -/

theorem Piece.readable_digit {c : Char} (h : isDigit c = true) :
    readable c = true ∧ c ≠ '"' ∧ c ≠ '/' := by
  refine ⟨by simp [readable, h], ?_, ?_⟩ <;> rintro rfl <;> exact absurd h (by decide)

theorem Piece.continuesWord_of_startsWord {c : Char} (h : startsWord c = true) : continuesWord c = true := by
  have known : c.isAlpha = true ∨ c = '_' := by simpa [startsWord] using h
  rcases known with alpha | rfl
  · simp [continuesWord, Char.isAlphanum, alpha]
  · decide

theorem Piece.readable_continuesWord {c : Char} (h : continuesWord c = true) :
    readable c = true ∧ c ≠ '"' ∧ c ≠ '/' := by
  refine ⟨?_, ?_, ?_⟩
  · have known : (c.isAlpha = true ∨ c.isDigit = true) ∨ c = '_' := by
      simpa [continuesWord, Char.isAlphanum] using h
    rcases known with (alpha | digit) | rfl
    · simp [readable, startsWord, alpha]
    · simp [readable, isDigit, digit]
    · decide
  · rintro rfl
    exact absurd h (by decide)
  · rintro rfl
    exact absurd h (by decide)

namespace Crosses

variable {before chars rest : List Char}

theorem of_each (h : ∀ c ∈ chars, Piece.readable c = true ∧ c ≠ '"' ∧ c ≠ '/') :
    Crosses .code before chars .code rest :=
  plain (fun c mem => (h c mem).1) (fun mem => (h _ mem).2.1 rfl) fun mem => (h _ mem).2.2 rfl

theorem numeral (h : IsNumeral chars) : Crosses .code before chars .code rest :=
  of_each (h.forall_mem (fun _ => Piece.readable_digit) (by decide))

theorem word (h : IsWord chars) : Crosses .code before chars .code rest := by
  apply of_each
  obtain ⟨first, others⟩ := h
  intro c mem
  rcases List.mem_cons.1 mem with rfl | mem
  · exact Piece.readable_continuesWord (Piece.continuesWord_of_startsWord first)
  · exact Piece.readable_continuesWord (others c mem)

theorem symbol {s : Symbol} (alone : s = .slash → rest.head? ≠ some '/') :
    Crosses .code before s.chars .code rest := by
  by_cases slash : s = .slash
  · subst slash
    have stays : Region.code.step before '/' rest.head? = .code := by
      simp [Region.step, alone rfl]
    exact one (fun _ => by decide) stays
  · have plain : s.chars.all (fun c => Piece.readable c && c != '"' && c != '/') = true := by
      cases s <;> first | exact absurd rfl slash | rfl
    apply of_each
    simpa [and_assoc] using plain

/-- A comment ends with its line. -/
theorem commentEnd (ends : ∀ c ∈ rest.head?, c = '\n') : Crosses .comment before [] .code rest := by
  cases rest with
  | nil => constructor <;> rfl
  | cons c rest =>
    have newline : c = '\n' := ends c rfl
    subst newline
    have readable : Piece.readable '\n' = true := by decide
    constructor <;> simp [Lox.strays, Lox.openString?, Region.step, readable]

theorem comment {body : List Char} (inside : '\n' ∉ body) (ends : ∀ c ∈ rest.head?, c = '\n') :
    Crosses .code before ('/' :: '/' :: body) .code rest := by
  have first : Crosses .code before ['/'] .comment ('/' :: body ++ rest) :=
    one (fun _ => by decide) rfl
  have others : Crosses .comment (before ++ ['/']) ('/' :: body) .comment rest := by
    refine all (fun c _ code => by cases code) fun c mem before next => ?_
    have goesOn : c ≠ '\n' := by
      rintro rfl
      exact inside (by simpa using mem)
    simp [Region.step, goesOn]
  have whole := (first.trans others).trans (commentEnd ends)
  rwa [List.append_nil] at whole

/-- A string that is opened goes on up to the next quote. -/
theorem opened {text : List Char} (inside : '"' ∉ text) :
    Crosses .code before ('"' :: text) (.string before) rest := by
  have first : Crosses .code before ['"'] (.string before) (text ++ rest) :=
    one (fun _ => by decide) rfl
  have others : Crosses (.string before) (before ++ ['"']) text (.string before) rest := by
    refine all (fun c _ code => by cases code) fun c mem before' next => ?_
    have goesOn : c ≠ '"' := fun same => inside (same ▸ mem)
    simp [Region.step, goesOn]
  exact first.trans others

theorem string {text : List Char} (inside : '"' ∉ text) :
    Crosses .code before ('"' :: text ++ ['"']) .code rest :=
  (opened inside).trans (one (fun code => by cases code) rfl)

end Crosses

/-- What is reported among the things that are found. -/
def errorsOf (found : List (Except ScanError Token)) : List ScanError :=
  found.filterMap fun f => match f with | .error e => some e | .ok _ => none

/-- The faults of a text that stands behind `before`. -/
def faultsBehind (before cs : List Char) : List ScanError :=
  (strays .code before cs).map strayFault ++
    ((openString? .code before cs).map (openFault (before ++ cs))).toList

theorem Crosses.faultsBehind {before chars rest : List Char}
    (h : Crosses .code before chars .code rest) :
    faultsBehind before (chars ++ rest) = faultsBehind (before ++ chars) rest := by
  unfold Lox.faultsBehind
  rw [h.strays, h.openString?, List.append_assoc]

theorem errorsOf_append (found found' : List (Except ScanError Token)) :
    errorsOf (found ++ found') = errorsOf found ++ errorsOf found' := List.filterMap_append

theorem Piece.readable_blank {c : Char} (h : isBlank c = true) :
    readable c = true ∧ c ≠ '"' ∧ c ≠ '/' := by
  refine ⟨by simp [readable, h], ?_, ?_⟩ <;> rintro rfl <;> exact absurd h (by decide)

/-- Nothing is reported of tokens and layout. -/
theorem Piece.IsCut.crosses {before chars rest : List Char} {piece : Piece}
    (h : IsCut rest piece chars) (quiet : errorsOf (piece.found? before chars).toList = []) :
    Crosses .code before chars .code rest := by
  cases h with
  | blank blank =>
    refine .of_each fun d mem => ?_
    rw [List.mem_singleton.1 mem]
    exact readable_blank blank
  | comment inside ends => exact .comment inside ends
  | string inside => exact .string inside
  | number numeral => exact .numeral numeral
  | word isWord => exact .word isWord
  | symbol alone => exact .symbol alone
  | unterminated | unexpected => cases quiet

/-- Nothing but the faults of a text is reported. -/
theorem errorsOf_foundBehind (before cs : List Char) :
    errorsOf (foundBehind before cs) = faultsBehind before cs := by
  refine found_induction (P := fun before cs found => errorsOf found = faultsBehind before cs)
    ?_ ?_ before cs
  · intro before
    rfl
  · intro before piece chars rest found isCut ih
    rw [errorsOf_append, ih]
    cases piece with
    | layout | token kind => exact (isCut.crosses rfl).faultsBehind.symm
    | unexpected c =>
      obtain _ | _ | _ | _ | _ | _ | _ | unreadable := isCut
      have blank : c ≠ '\n' := by
        rintro rfl
        exact absurd unreadable (by decide)
      have quote : c ≠ '"' := by
        rintro rfl
        exact absurd unreadable (by decide)
      have slash : c ≠ '/' := by
        rintro rfl
        exact absurd unreadable (by decide)
      have line : lineEnds (before ++ [c]) = lineEnds before := by
        simp [lineEnds, blank]
      have stays : Region.code.step before c rest.head? = .code := by
        simp [Region.step, quote, slash]
      simp [Piece.found?, errorsOf, faultsBehind, strays, openString?, stays, unreadable,
        strayFault, line]
    | unterminated =>
      obtain _ | _ | _ | ⟨inside, rfl⟩ := isCut
      have opens : Crosses .code before _ (.string before) [] := .opened inside
      unfold faultsBehind
      rw [opens.strays, opens.openString?]
      simp [Piece.found?, errorsOf, strays, openString?, openFault]

/-- What is found stands in order. -/
def placeOf : Except ScanError Token → Nat
  | .ok t => t.offset
  | .error e => e.offset

/-- What is found stands one behind the other. -/
theorem placeOf_foundBehind (before cs : List Char) :
    (∀ f ∈ foundBehind before cs, byteSize before ≤ placeOf f) ∧
      (foundBehind before cs).Pairwise fun f g => placeOf f < placeOf g := by
  refine found_induction (P := fun before _ found =>
    (∀ f ∈ found, byteSize before ≤ placeOf f) ∧ found.Pairwise fun f g => placeOf f < placeOf g)
    ?_ ?_ before cs
  · exact fun before => ⟨fun f mem => absurd mem List.not_mem_nil, .nil⟩
  · intro before piece chars rest found isCut ⟨behind, ordered⟩
    have some : chars ≠ [] := by
      cases isCut with
      | number numeral => exact @Kind.WrittenAs.ne_nil _ (.number _) ⟨numeral, rfl⟩
      | word isWord => exact @Kind.WrittenAs.ne_nil _ .identifier isWord
      | @symbol s alone => exact @Kind.WrittenAs.ne_nil _ (.symbol s) rfl
      | _ => simp
    have size := byteSize_pos some
    have later : ∀ f ∈ found, byteSize before + byteSize chars ≤ placeOf f := by
      intro f mem
      have le := behind f mem
      rwa [byteSize_append] at le
    have here : ∀ f ∈ piece.found? before chars, placeOf f = byteSize before := by
      intro f mem
      cases piece <;> cases mem <;> rfl
    constructor
    · intro f mem
      rcases List.mem_append.1 mem with mem | mem
      · have place := here f (Option.mem_toList.1 mem)
        omega
      · have le := later f mem
        omega
    · refine List.pairwise_append.2 ⟨?_, ordered, ?_⟩
      · cases piece.found? before chars <;> simp
      · intro f mem g mem'
        have place := here f (Option.mem_toList.1 mem)
        have le := later g mem'
        omega

/-- Either the text is scanned without errors, or its faults are reported. -/
theorem scan_eq (source : String) : scan source = if (faults source).isEmpty then
    .ok ((scanFrom 1 0 source.toList).filterMap Except.toOption) else .error (faults source) := by
  have reported : errorsOf (scanFrom 1 0 source.toList) = faults source :=
    errorsOf_foundBehind [] source.toList
  rw [← reported]
  rfl

theorem faults_ordered (source : String) :
    (faults source).Pairwise fun e f => e.offset < f.offset := by
  have reported : errorsOf (foundBehind [] source.toList) = faults source :=
    errorsOf_foundBehind [] source.toList
  rw [← reported, errorsOf, List.pairwise_filterMap]
  refine (placeOf_foundBehind [] source.toList).2.imp fun {f g} lt e he e' he' => ?_
  cases f <;> cases g <;> cases he <;> cases he'
  exact lt

example : faults "é // ü\n\"\n" =
    [⟨.unexpectedCharacter 'é', 1, 0⟩, ⟨.unterminatedString, 3, 9⟩] := by decide +kernel

end Lox
