import Mathlib.Data.Char
import Mathlib.Data.List.Lex
import Mathlib.Data.String.Basic
import Mathlib.Tactic.SplitIfs

/-!
# The order of encoded texts

Texts are ordered by their characters, the first difference decides. UTF-8 keeps this order: the bytes
of texts are ordered in the same way.

* `Text.bytes` — the bytes of a text.
* `Text.encode_append_lt` — the bytes of a lower character come first, whatever follows.
* `Text.lt_iff_bytes_lt`, `Text.lt_iff_codePoints_lt` — texts are ordered by their bytes, and by the
  numbers of their characters.
-/

namespace Lox.Text

/-- The bytes of a text. -/
def bytes (text : String) : List UInt8 := text.toUTF8.data.toList

/-- The numbers of the characters of a text. -/
def codePoints (text : String) : List Nat := text.toList.map Char.toNat

theorem bytes_eq (text : String) : bytes text = text.toList.flatMap String.utf8EncodeChar := by
  rw [bytes, String.toUTF8_eq_toByteArray, ← String.utf8Encode_toList, List.utf8Encode,
    List.data_toByteArray]

/-! ## Characters -/

theorem ofNat_lt_ofNat {m n : Nat} (hm : m < 256) (hn : n < 256) :
    UInt8.ofNat m < UInt8.ofNat n ↔ m < n := by
  rw [UInt8.lt_iff_toNat_lt, UInt8.toNat_ofNat_of_lt' hm, UInt8.toNat_ofNat_of_lt' hn]

theorem ofNat_eq_ofNat {m n : Nat} (hm : m < 256) (hn : n < 256) :
    UInt8.ofNat m = UInt8.ofNat n ↔ m = n := by
  rw [← UInt8.toNat_inj, UInt8.toNat_ofNat_of_lt' hm, UInt8.toNat_ofNat_of_lt' hn]

theorem digit_lt {m n : Nat} (less : m < n) :
    m / 64 < n / 64 ∨ m / 64 = n / 64 ∧ m % 64 < n % 64 := by
  omega

/-- The first of the digits to base 64 in which two numbers differ is less in the lower one. -/
theorem digits_lt {m n : Nat} (less : m < n) :
    m / 262144 < n / 262144 ∨ m / 262144 = n / 262144 ∧ (m / 4096 % 64 < n / 4096 % 64 ∨
      m / 4096 % 64 = n / 4096 % 64 ∧ (m / 64 % 64 < n / 64 % 64 ∨
        m / 64 % 64 = n / 64 % 64 ∧ m % 64 < n % 64)) := by
  have parts : ∀ k : Nat, k / 4096 = k / 64 / 64 ∧ k / 262144 = k / 64 / 64 / 64 := by
    intro k
    omega
  rw [(parts m).1, (parts m).2, (parts n).1, (parts n).2]
  rcases digit_lt less with less | ⟨same, fourth⟩
  · rcases digit_lt less with less | ⟨same, third⟩
    · rcases digit_lt less with first | ⟨same, second⟩
      · exact .inl first
      · exact .inr ⟨same, .inl second⟩
    · rw [same]
      exact .inr ⟨rfl, .inr ⟨rfl, .inl third⟩⟩
  · rw [same]
    exact .inr ⟨rfl, .inr ⟨rfl, .inr ⟨rfl, fourth⟩⟩⟩

/-- The bytes of a lower character come first, whatever follows. -/
theorem encode_append_lt {c d : Char} (lower : c < d) (us vs : List UInt8) :
    String.utf8EncodeChar c ++ us < String.utf8EncodeChar d ++ vs := by
  have less : c.val.toNat < d.val.toNat := lower
  have bound : d.val.toNat < 2 ^ 21 := by
    have valid : d.val.toNat.isValidChar := d.valid
    rcases valid with low | ⟨-, high⟩ <;> omega
  unfold String.utf8EncodeChar
  generalize c.val.toNat = m at less
  generalize d.val.toNat = n at less bound
  have digits := digits_lt less
  -- in four bytes there is room for every character
  have top : ∀ k < 2 ^ 21, k / 262144 % 8 = k / 262144 := by
    intro k hk
    apply Nat.mod_eq_of_lt
    omega
  dsimp only
  rw [top m (by omega), top n bound]
  -- the first byte tells how many there are; if there are as many, the digits decide
  split_ifs <;>
    simp only [List.cons_append, List.nil_append, List.cons_lt_cons_iff] <;>
    simp (disch := omega) only [ofNat_lt_ofNat, ofNat_eq_ofNat] <;>
    omega

theorem encode_ne_nil (c : Char) : String.utf8EncodeChar c ≠ [] := by
  intro none
  have size := String.length_utf8EncodeChar c
  have some := c.utf8Size_pos
  rw [none, List.length_nil] at size
  omega

/-! ## Texts -/

/-- Encoding keeps the order of texts: the first difference decides. -/
theorem encode_lt {cs ds : List Char} (lower : cs < ds) :
    cs.flatMap String.utf8EncodeChar < ds.flatMap String.utf8EncodeChar := by
  induction cs generalizing ds with
  | nil =>
    cases ds with
    | nil => exact absurd lower (lt_irrefl _)
    | cons d ds =>
      obtain ⟨b, bs, some⟩ := List.exists_cons_of_ne_nil (encode_ne_nil d)
      simp [some]
  | cons c cs ih =>
    cases ds with
    | nil => exact absurd lower (List.not_lt_nil _)
    | cons d ds =>
      rcases List.cons_lt_cons_iff.1 lower with lower | ⟨rfl, others⟩
      · exact encode_append_lt lower _ _
      · exact List.append_left_lt (ih others)

/-- Texts are ordered by their bytes. -/
theorem lt_iff_bytes_lt (s t : String) : s < t ↔ bytes s < bytes t := by
  rw [bytes_eq, bytes_eq, String.lt_iff_toList_lt]
  constructor
  · exact encode_lt
  · intro behind
    rcases lt_trichotomy s.toList t.toList with lower | same | higher
    · exact lower
    · rw [same] at behind
      exact absurd behind (List.lt_irrefl _)
    · exact absurd (encode_lt higher) (List.lt_asymm behind)

-- the character that takes more bytes is the higher one
example : bytes "\uFFFF" < bytes "😀" := by decide +kernel

/-- Texts are ordered by the numbers of their characters. -/
theorem lt_iff_codePoints_lt (s t : String) : s < t ↔ codePoints s < codePoints t := by
  rw [String.lt_iff_toList_lt, codePoints, codePoints]
  generalize s.toList = cs
  generalize t.toList = ds
  induction cs generalizing ds with
  | nil => cases ds <;> simp
  | cons c cs ih =>
    cases ds with
    | nil => simp
    | cons d ds =>
      rw [List.map_cons, List.map_cons, List.cons_lt_cons_iff, List.cons_lt_cons_iff, ih,
        Char.toNat_inj]
      rfl

end Lox.Text
