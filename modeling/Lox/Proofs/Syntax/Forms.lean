import Lox.Proofs.Token.Longest
import Lox.Syntax.PrefixForm

/-!
# Forms

What texts in prefix form are made of, apart from what they mean: words, quotes, and lists in
parentheses. A form is determined by its text.

* `Form` — words, quotes and lists with a word in front.
* `Form.Sound` — words have no characters that delimit them, and quotes no quotation mark.
* `Form.eq_of_append` — the text of a form ends in one place only, and belongs to no other form.
* `toList_listText` — the lists that prefix forms are written as.
-/

namespace Lox

/-- A word, a quoted text, or a list of forms with a word in front. -/
inductive Form where
  | word (chars : List Char)
  | quoted (text : List Char)
  | list (head : List Char) (items : List Form)

namespace Form

mutual

/-- How a form is written. -/
def chars : Form → List Char
  | .word w => w
  | .quoted text => '"' :: text ++ ['"']
  | .list head items => '(' :: head ++ itemChars items ++ [')']

/-- How the items of a list are written behind its head. -/
def itemChars : List Form → List Char
  | [] => []
  | f :: fs => ' ' :: f.chars ++ itemChars fs

end

/-- The character may stand in a word. -/
def plain (c : Char) : Bool := !(c == ' ' || c == ')' || c == '(' || c == '"')

mutual

/-- Words are not empty and only have characters that words may have. Quotes end at the first mark. -/
def Sound : Form → Prop
  | .word w => w ≠ [] ∧ ∀ c ∈ w, plain c = true
  | .quoted text => '"' ∉ text
  | .list head items => (∀ c ∈ head, plain c = true) ∧ SoundAll items

/-- All forms are sound. -/
def SoundAll : List Form → Prop
  | [] => True
  | f :: fs => f.Sound ∧ SoundAll fs

end

/-- No word goes on here. -/
def Ends (rest : List Char) : Prop := ∀ c ∈ rest.head?, plain c = false

theorem ends_space (rest : List Char) : Ends (' ' :: rest) := by
  rintro c ⟨⟩
  rfl

theorem ends_closing (rest : List Char) : Ends (')' :: rest) := by
  rintro c ⟨⟩
  rfl

/-- Behind the head of a list and behind each item there is a delimiter. -/
theorem ends_itemChars (fs : List Form) (rest : List Char) : Ends (itemChars fs ++ ')' :: rest) := by
  cases fs with
  | nil => exact ends_closing rest
  | cons f fs => exact ends_space _

/-- Words end at the first character that is not in a word. -/
theorem word_eq_of_append {w w' rest rest' : List Char} (inside : ∀ c ∈ w, plain c = true)
    (inside' : ∀ c ∈ w', plain c = true) (ends : Ends rest) (ends' : Ends rest')
    (same : w ++ rest = w' ++ rest') : w = w' ∧ rest = rest' := by
  obtain ⟨taken, left⟩ := split_exact inside ends
  obtain ⟨taken', left'⟩ := split_exact inside' ends'
  exact ⟨by rw [← taken, same, taken'], by rw [← left, same, left']⟩

theorem quoted_eq_of_append {text text' rest rest' : List Char} (inside : '"' ∉ text)
    (inside' : '"' ∉ text') (same : text ++ '"' :: rest = text' ++ '"' :: rest') :
    text = text' ∧ rest = rest' := by
  obtain ⟨taken, left⟩ := Piece.quoted inside rest
  obtain ⟨taken', left'⟩ := Piece.quoted inside' rest'
  rw [same, left', List.cons.injEq] at left
  exact ⟨by rw [← taken, same, taken'], left.2.symm⟩

/-- A word begins like no other form. -/
theorem word_append_ne {w rest rest' : List Char} {c : Char} (some : w ≠ [])
    (inside : ∀ c ∈ w, plain c = true) (other : plain c = false) : w ++ rest ≠ c :: rest' := by
  obtain ⟨d, ds, rfl⟩ := List.exists_cons_of_ne_nil some
  intro same
  rw [List.cons_append, List.cons.injEq] at same
  have plainFirst := inside d List.mem_cons_self
  rw [same.1, other] at plainFirst
  cases plainFirst

theorem chars_quoted_append (text rest : List Char) :
    (quoted text).chars ++ rest = '"' :: (text ++ '"' :: rest) := by
  simp [chars]

theorem chars_list_append (head : List Char) (items : List Form) (rest : List Char) :
    (list head items).chars ++ rest = '(' :: (head ++ (itemChars items ++ ')' :: rest)) := by
  simp [chars]

theorem itemChars_cons_append (f : Form) (fs : List Form) (rest : List Char) :
    itemChars (f :: fs) ++ rest = ' ' :: (f.chars ++ (itemChars fs ++ rest)) := by
  simp [itemChars]

mutual

/-- **Forms are told apart by their texts.** In front of whatever may follow, no two forms are written
alike, and none is written like the beginning of another one. -/
theorem eq_of_append : ∀ (f f' : Form) {rest rest' : List Char}, f.Sound → f'.Sound → Ends rest →
    Ends rest' → f.chars ++ rest = f'.chars ++ rest' → f = f' ∧ rest = rest'
  | .word w, .word w', _, _, sound, sound', ends, ends', same => by
    obtain ⟨rfl, rest⟩ := word_eq_of_append sound.2 sound'.2 ends ends' same
    exact ⟨rfl, rest⟩
  | .word _, .quoted _, _, _, sound, _, _, _, same =>
    absurd (same.trans (chars_quoted_append _ _)) (word_append_ne sound.1 sound.2 rfl)
  | .word _, .list _ _, _, _, sound, _, _, _, same =>
    absurd (same.trans (chars_list_append _ _ _)) (word_append_ne sound.1 sound.2 rfl)
  | .quoted _, .word _, _, _, _, sound', _, _, same =>
    absurd (same.symm.trans (chars_quoted_append _ _)) (word_append_ne sound'.1 sound'.2 rfl)
  | .quoted text, .quoted text', _, _, sound, sound', _, _, same => by
    rw [chars_quoted_append, chars_quoted_append, List.cons.injEq] at same
    obtain ⟨rfl, rest⟩ := quoted_eq_of_append sound sound' same.2
    exact ⟨rfl, rest⟩
  | .quoted _, .list _ _, _, _, _, _, _, _, same => by
    rw [chars_quoted_append, chars_list_append, List.cons.injEq] at same
    exact absurd same.1 (by decide)
  | .list _ _, .word _, _, _, _, sound', _, _, same =>
    absurd (same.symm.trans (chars_list_append _ _ _)) (word_append_ne sound'.1 sound'.2 rfl)
  | .list _ _, .quoted _, _, _, _, _, _, _, same => by
    rw [chars_quoted_append, chars_list_append, List.cons.injEq] at same
    exact absurd same.1 (by decide)
  | .list head items, .list head' items', _, _, sound, sound', _, _, same => by
    rw [chars_list_append, chars_list_append, List.cons.injEq] at same
    obtain ⟨rfl, behind⟩ := word_eq_of_append sound.1 sound'.1 (ends_itemChars _ _)
      (ends_itemChars _ _) same.2
    obtain ⟨rfl, rest⟩ := items_eq_of_append items items' sound.2 sound'.2 behind
    exact ⟨rfl, rest⟩

/-- So are the items of a list. -/
theorem items_eq_of_append : ∀ (fs fs' : List Form) {rest rest' : List Char}, SoundAll fs →
    SoundAll fs' → itemChars fs ++ ')' :: rest = itemChars fs' ++ ')' :: rest' →
    fs = fs' ∧ rest = rest'
  | [], [], _, _, _, _, same => ⟨rfl, (List.cons.inj same).2⟩
  | [], f :: fs, _, _, _, _, same => by
    rw [itemChars_cons_append] at same
    exact absurd (List.cons.inj same).1 (by decide)
  | f :: fs, [], _, _, _, _, same => by
    rw [itemChars_cons_append] at same
    exact absurd (List.cons.inj same).1 (by decide)
  | f :: fs, f' :: fs', _, _, sound, sound', same => by
    rw [itemChars_cons_append, itemChars_cons_append, List.cons.injEq] at same
    obtain ⟨rfl, behind⟩ := eq_of_append f f' sound.1 sound'.1 (ends_itemChars _ _)
      (ends_itemChars _ _) same.2
    obtain ⟨rfl, rest⟩ := items_eq_of_append fs fs' sound.2 sound'.2 behind
    exact ⟨rfl, rest⟩

end

/-- Sound forms with the same text are the same. -/
theorem eq_of_chars {f f' : Form} (sound : f.Sound) (sound' : f'.Sound) (same : f.chars = f'.chars) :
    f = f' := by
  have ends : Ends [] := fun _ front => by cases front
  exact (eq_of_append f f' sound sound' ends ends (by rw [same])).1

end Form

/-- A list is written with a blank in front of every item. -/
theorem toList_listText (head : String) (items : List String) :
    (listText (head :: items)).toList =
      '(' :: head.toList ++ (items.flatMap fun item => ' ' :: item.toList) ++ [')'] := by
  have inner : (String.intercalate " " (head :: items)).toList =
      head.toList ++ items.flatMap fun item => ' ' :: item.toList := by
    induction items generalizing head with
    | nil => simp
    | cons item items ih =>
      rw [String.intercalate_cons_cons, String.toList_append, String.toList_append, ih]
      simp
  rw [listText, String.toList_append, String.toList_append, inner]
  simp

end Lox
