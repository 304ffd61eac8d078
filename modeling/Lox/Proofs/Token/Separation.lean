import Lox.Proofs.Token.Longest

/-!
# What separates tokens

A line end separates two texts unless it stands inside a string, and a blank separates two tokens. How
much layout there is besides does not matter, and tokens can be written down and read again.

* `scan_below` — what is found in two texts of which one stands below the other.
* `IsGap`, `IsSeparator` — layout that leaves no comment open, and layout that begins with a blank.
* `Spaced` — the lexemes of tokens with separators between them.
* `IsGap.skipped`, `scanFrom_lexeme` — scanning goes on behind layout, and behind a lexeme that is
  separated.
* `scan_spaced` — the tokens are found again, however they are spaced.
-/

namespace Lox

/-! ## Texts below each other -/

/-- The tokens among the things that are found. -/
def tokensOf (found : List (Except ScanError Token)) : List Token :=
  found.filterMap Except.toOption

/-- What scanning gives, if these things are found. -/
def outcomeOf (found : List (Except ScanError Token)) : Except (List ScanError) (List Token) :=
  if (errorsOf found).isEmpty then .ok (tokensOf found) else .error (errorsOf found)

theorem scan_eq_outcomeOf (source : String) : scan source = outcomeOf (scanFrom 1 0 source.toList) :=
  rfl

theorem errorsOf_moved (d : Shift) (found : List (Except ScanError Token)) :
    errorsOf (found.map (foundMoved d)) = (errorsOf found).map (ScanError.moved d) := by
  unfold errorsOf
  rw [List.filterMap_map, List.map_filterMap]
  congr 1
  funext f
  cases f <;> rfl

theorem tokensOf_moved (d : Shift) (found : List (Except ScanError Token)) :
    tokensOf (found.map (foundMoved d)) = (tokensOf found).map (Token.moved d) := by
  unfold tokensOf
  rw [List.filterMap_map, List.map_filterMap]
  congr 1
  funext f
  cases f <;> rfl

/-- Texts with errors give the errors of both, others the tokens of both. -/
theorem outcomeOf_append (d : Shift) (found found' : List (Except ScanError Token)) :
    outcomeOf (found ++ found'.map (foundMoved d)) =
      match outcomeOf found, outcomeOf found' with
      | .ok tokens, .ok tokens' => .ok (tokens ++ tokens'.map (Token.moved d))
      | .ok _, .error errors => .error (errors.map (ScanError.moved d))
      | .error errors, .ok _ => .error errors
      | .error errors, .error errors' => .error (errors ++ errors'.map (ScanError.moved d)) := by
  have errors : errorsOf (found ++ found'.map (foundMoved d)) =
      errorsOf found ++ (errorsOf found').map (ScanError.moved d) := by
    rw [errorsOf_append, errorsOf_moved]
  have tokens : tokensOf (found ++ found'.map (foundMoved d)) =
      tokensOf found ++ (tokensOf found').map (Token.moved d) := by
    rw [← tokensOf_moved]
    exact List.filterMap_append
  unfold outcomeOf
  rw [errors, tokens]
  cases errorsOf found <;> cases errorsOf found' <;> simp

/-- If no string is open at the end of a text, then none is reported. -/
theorem allClosed_of_openString? {cs : List Char} (closed : openString? .code [] cs = none) :
    AllClosed (scanFrom 1 0 cs) := by
  intro e mem
  have reported : e ∈ errorsOf (foundBehind [] cs) := List.mem_filterMap.2 ⟨.error e, mem, rfl⟩
  rw [errorsOf_foundBehind, faultsBehind, closed] at reported
  simp only [Option.map_none, Option.toList_none, List.append_nil, List.mem_map] at reported
  obtain ⟨stray, -, rfl⟩ := reported
  exact ScanError.Cause.noConfusion

/-- **Scanning goes line by line.** If no string is open at the end of a text, then in this text with a
line end and another text behind it there is found what is found in the first one, and then what is
found in the second one, so many lines and bytes further down. There are tokens if both texts have no
errors, otherwise the errors of both. -/
theorem scan_below (first second : String) (closed : openString? .code [] first.toList = none) :
    let down : Shift := ⟨lineEnds first.toList + 1, first.utf8ByteSize + 1, 0⟩
    scanFrom 1 0 (first ++ "\n" ++ second).toList =
        scanFrom 1 0 first.toList ++ (scanFrom 1 0 second.toList).map (foundMoved down) ∧
      scan (first ++ "\n" ++ second) =
        match scan first, scan second with
        | .ok tokens, .ok tokens' => .ok (tokens ++ tokens'.map (Token.moved down))
        | .ok _, .error errors => .error (errors.map (ScanError.moved down))
        | .error errors, .ok _ => .error errors
        | .error errors, .error errors' => .error (errors ++ errors'.map (ScanError.moved down)) := by
  intro down
  have text : (first ++ "\n" ++ second).toList = first.toList ++ '\n' :: second.toList := by simp
  have bytes : first.utf8ByteSize = byteSize first.toList := by
    rw [← byteSize_eq, String.ofList_toList]
  have found : scanFrom 1 0 (first ++ "\n" ++ second).toList =
      scanFrom 1 0 first.toList ++ (scanFrom 1 0 second.toList).map (foundMoved down) := by
    rw [text, scanFrom_join _ _ _ _ (allClosed_of_openString? closed), ← scanFrom_moved]
    simp only [down, bytes]
  refine ⟨found, ?_⟩
  rw [scan_eq_outcomeOf, found, outcomeOf_append]
  rfl

/-- A quote in a comment opens no string. The errors of both texts are reported. -/
theorem scan_below_comment :
    openString? .code [] "a\n@ // \"".toList = none ∧
      scan ("a\n@ // \"" ++ "\n" ++ "b \"") =
        .error [⟨.unexpectedCharacter '@', 2, 2⟩, ⟨.unterminatedString, 3, 11⟩] := by
  have closed : openString? .code [] "a\n@ // \"".toList = none := by decide +kernel
  have first : scan "a\n@ // \"" = .error [⟨.unexpectedCharacter '@', 2, 2⟩] := by cbv
  have second : scan "b \"" = .error [⟨.unterminatedString, 1, 2⟩] := by cbv
  have below := (scan_below "a\n@ // \"" "b \"" closed).2
  rw [first, second] at below
  exact ⟨closed, below⟩

/-! ## Layout -/

/-- Blanks and comments, each with the line end that closes it. -/
inductive IsGap : List Char → Prop where
  | nil : IsGap []
  | blank {c : Char} {cs : List Char} (blank : Piece.isBlank c = true) (others : IsGap cs) :
      IsGap (c :: cs)
  | comment {body cs : List Char} (inside : '\n' ∉ body) (others : IsGap cs) :
      IsGap ('/' :: '/' :: body ++ '\n' :: cs)

/-- Layout that begins with a blank. -/
inductive IsSeparator : List Char → Prop where
  | mk {c : Char} {cs : List Char} (blank : Piece.isBlank c = true) (others : IsGap cs) :
      IsSeparator (c :: cs)

variable {line offset : Nat} {gap chars rest : List Char} {kind : Kind}

/-- Nothing is found in these characters, and scanning goes on behind them. -/
def Skipped (gap : List Char) : Prop := ∀ line offset rest, scanFrom line offset (gap ++ rest) =
  scanFrom (line + lineEnds gap) (offset + byteSize gap) rest

theorem Skipped.append {cs ds : List Char} (first : Skipped cs) (second : Skipped ds) :
    Skipped (cs ++ ds) := by
  intro line offset rest
  rw [List.append_assoc, first, second, lineEnds_append, byteSize_append, Nat.add_assoc,
    Nat.add_assoc]

theorem skipped_blank {c : Char} (blank : Piece.isBlank c = true) : Skipped [c] := by
  intro line offset rest
  rw [List.singleton_append, scanFrom, Piece.cut_blank rest blank]

theorem skipped_comment {body : List Char} (inside : '\n' ∉ body) :
    Skipped ('/' :: '/' :: body ++ ['\n']) := by
  intro line offset rest
  have ends : ∀ c ∈ ('\n' :: rest).head?, decide (c ≠ '\n') = false := by
    rintro c ⟨⟩
    rfl
  obtain ⟨taken, left⟩ := split_exact (all_ne inside) ends
  have text : '/' :: '/' :: body ++ ['\n'] ++ rest = '/' :: '/' :: (body ++ '\n' :: rest) := by simp
  -- the line end is no part of the comment, but a blank behind it
  have blank := @skipped_blank '\n' (by decide)
  rw [lineEnds_append, byteSize_append, ← Nat.add_assoc, ← Nat.add_assoc, ← blank,
    List.singleton_append, text, scanFrom, Piece.cut_comment, taken, left]

theorem IsGap.skipped (h : IsGap gap) : Skipped gap := by
  induction h with
  | nil =>
    intro line offset rest
    rfl
  | blank blank _ ih => exact (skipped_blank blank).append ih
  | @comment body cs inside _ ih =>
    have both := (skipped_comment inside).append ih
    rwa [List.append_assoc] at both

/-! ## Lexemes -/

namespace Piece

/-- A lexeme by itself is cut off as a whole. -/
theorem cut_alone {form : Option Kind} (h : IsLexeme chars form) :
    ∃ c cs, chars = c :: cs ∧ cut c cs = (ofForm form, chars, []) := by
  obtain ⟨c, cs, rfl, -⟩ := cut_lexeme h
  have whole : IsLongest (c :: cs) (c :: cs ++ []) := by
    rw [List.append_nil]
    exact ⟨List.prefix_rfl, fun other form front _ => front.length_le⟩
  exact ⟨c, cs, rfl, cut_of_longest h whole (List.append_nil _)⟩

/-- A lexeme that is separated from what follows is cut off as a whole. -/
theorem cut_separated (h : IsLexeme chars (some kind)) (ends : ∀ b ∈ rest.head?, isBlank b = true) :
    ∃ c cs, chars = c :: cs ∧ cut c (cs ++ rest) = (.token kind, chars, rest) := by
  obtain ⟨c, cs, rfl, alone⟩ := cut_alone h
  refine ⟨c, cs, rfl, ?_⟩
  cases rest with
  | nil =>
    rw [List.append_nil]
    exact alone
  | cons b t =>
    have closed : (cut c cs).1 ≠ .unterminated := by
      rw [alone]
      exact Piece.noConfusion
    -- a comment is no token
    have noComment : ¬(c = '/' ∧ cs.head? = some '/') := by
      rintro ⟨rfl, second⟩
      obtain ⟨ds, rfl⟩ := List.head?_eq_some_iff.1 second
      rw [cut_comment] at alone
      cases alone
    rw [cut_join (ends b rfl) c cs t closed fun comment => absurd comment noComment, alone]
    rfl

end Piece

/-- A lexeme that is separated from what follows is found as a token. -/
theorem scanFrom_lexeme (h : IsLexeme chars (some kind))
    (ends : ∀ b ∈ rest.head?, Piece.isBlank b = true) :
    scanFrom line offset (chars ++ rest) =
      .ok ⟨kind, String.ofList chars, line + lineEnds chars, offset⟩ ::
        scanFrom (line + lineEnds chars) (offset + byteSize chars) rest := by
  obtain ⟨c, cs, rfl, whole⟩ := Piece.cut_separated h ends
  rw [List.cons_append, scanFrom, whole]

/-- The tokens of a text have lexemes. -/
theorem isLexeme_of_scan {source : String} {tokens : List Token} (scanned : scan source = .ok tokens) :
    ∀ t ∈ tokens, IsLexeme t.lexeme.toList (some t.kind) := by
  have all : ∀ before cs, ∀ t, .ok t ∈ foundBehind before cs →
      IsLexeme t.lexeme.toList (some t.kind) := by
    intro before cs
    refine found_induction (P := fun _ _ found => ∀ t, .ok t ∈ found →
      IsLexeme t.lexeme.toList (some t.kind)) ?_ ?_ before cs
    · intro before t mem
      cases mem
    · intro before piece chars rest found isCut ih t mem
      rcases List.mem_append.1 mem with mem | mem
      · cases piece with
        | token kind =>
          cases List.mem_singleton.1 mem
          rw [String.toList_ofList]
          have whole : Piece.IsCut rest (Piece.ofForm (some kind)) chars := isCut
          exact whole.isLexeme
        | layout | unexpected | unterminated => simp [Piece.found?] at mem
      · exact ih t mem
  intro t mem
  apply all [] source.toList
  show Except.ok t ∈ scanFrom 1 0 source.toList
  rw [scan_eq_ok_iff.1 scanned]
  exact List.mem_map_of_mem mem

/-! ## Spacing -/

/-- The lexemes of the tokens in order, with a separator between each two of them. -/
inductive Spaced : List Token → List Char → Prop where
  | nil : Spaced [] []
  | single (t : Token) : Spaced [t] t.lexeme.toList
  | cons {t u : Token} {ts : List Token} {gap text : List Char} (separator : IsSeparator gap)
      (others : Spaced (u :: ts) text) : Spaced (t :: u :: ts) (t.lexeme.toList ++ (gap ++ text))

/-- The same token, maybe at another place. -/
structure Token.Alike (t u : Token) : Prop where
  kind : u.kind = t.kind
  lexeme : u.lexeme = t.lexeme

theorem scanFrom_spaced {tokens : List Token} {text : List Char} (h : Spaced tokens text)
    (lexemes : ∀ t ∈ tokens, IsLexeme t.lexeme.toList (some t.kind)) :
    ∃ tokens', scanFrom line offset text = tokens'.map .ok ∧ tokens.Forall₂ Token.Alike tokens' := by
  induction h generalizing line offset with
  | nil => exact ⟨[], by rw [scanFrom]; rfl, .nil⟩
  | single t =>
    have found := @scanFrom_lexeme line offset _ [] _ (lexemes t List.mem_cons_self) (by simp)
    rw [List.append_nil, scanFrom] at found
    exact ⟨[_], found, .cons ⟨rfl, String.ofList_toList⟩ .nil⟩
  | @cons t u ts gap text separator others ih =>
    obtain ⟨blank, inner⟩ := separator
    rename_i c cs
    have found := @scanFrom_lexeme line offset _ (c :: cs ++ text) _ (lexemes t List.mem_cons_self)
      (by rintro b ⟨⟩; exact blank)
    rw [(IsGap.blank blank inner).skipped] at found
    obtain ⟨tokens', found', alike⟩ := ih fun t mem => lexemes t (List.mem_cons_of_mem _ mem)
    rw [found'] at found
    exact ⟨_ :: tokens', found, .cons ⟨rfl, String.ofList_toList⟩ alike⟩

/-- Single blanks separate the lexemes. -/
theorem spaced_intercalate (tokens : List Token) :
    Spaced tokens (" ".intercalate (tokens.map Token.lexeme)).toList := by
  induction tokens with
  | nil => exact .nil
  | cons t ts ih =>
    cases ts with
    | nil =>
      rw [List.map_singleton, String.intercalate_singleton]
      exact .single t
    | cons u ts =>
      rw [List.map_cons, List.map_cons, String.intercalate_cons_cons, String.toList_append,
        String.toList_append, List.append_assoc]
      exact .cons (.mk (by decide) .nil) ih

/-- **Layout does not matter.** The tokens of a text are found again in each text that has their lexemes
in order, with separators between them: there are as many, with the same kinds, lexemes and values. So it
is if single blanks are put between the lexemes. -/
theorem scan_spaced {source : String} {tokens : List Token} (scanned : scan source = .ok tokens) :
    (∀ text : String, Spaced tokens text.toList →
      ∃ tokens', scan text = .ok tokens' ∧ List.Forall₂ Token.Alike tokens tokens') ∧
    ∃ tokens', scan (" ".intercalate (tokens.map Token.lexeme)) = .ok tokens' ∧
      List.Forall₂ Token.Alike tokens tokens' := by
  have again : ∀ text : String, Spaced tokens text.toList →
      ∃ tokens', scan text = .ok tokens' ∧ List.Forall₂ Token.Alike tokens tokens' := by
    intro text spaced
    obtain ⟨tokens', found, alike⟩ := scanFrom_spaced spaced (isLexeme_of_scan scanned)
    exact ⟨tokens', scan_eq_ok_iff.2 found, alike⟩
  exact ⟨again, again _ (spaced_intercalate tokens)⟩

/-- A name, an operator and a string that looks like a comment. -/
def quotedComment : List Token :=
  [⟨.identifier, "a", 1, 0⟩, ⟨.symbol .equalEqual, "==", 1, 1⟩, ⟨.string "//", "\"//\"", 1, 3⟩]

theorem spaced_quotedComment : Spaced quotedComment "a\t// =\n==\r\n\"//\"".toList := by
  have comment : IsGap ('/' :: '/' :: [' ', '='] ++ '\n' :: []) := .comment (by decide) .nil
  have first : IsSeparator ['\t', '/', '/', ' ', '=', '\n'] := .mk (by decide) comment
  have second : IsSeparator ['\r', '\n'] := .mk (by decide) (.blank (by decide) .nil)
  exact .cons first (.cons second (.single _))

/-- A comment between two tokens is layout, and one inside a string is not. -/
theorem scan_spaced_quotedComment :
    scan "a==\"//\"" = .ok quotedComment ∧ ∃ tokens',
      scan "a\t// =\n==\r\n\"//\"" = .ok tokens' ∧
        List.Forall₂ Token.Alike quotedComment tokens' := by
  have scanned : scan "a==\"//\"" = .ok quotedComment := by cbv
  exact ⟨scanned, (scan_spaced scanned).1 _ spaced_quotedComment⟩

end Lox
