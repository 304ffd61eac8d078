import Lox.Proofs.Token.Separation
import Lox.Session

/-!
# Printed numbers

What is printed for a finite number reads back: without a sign as the number itself, with a sign as
minus its negation.

* `Number.toNumber_shortest` — the shortest decimal is rounded to the number it is made of.
* `Decimal.isNumeral_numeral`, `Decimal.toNumber_ofNumeral_numeral` — the numeral of a decimal is one of
  the lexical grammar, and it is read as what the decimal is rounded to.
* `Number.text_of_isNegative` — the text of a number with a sign.
* `scanFrom_numeral` — a numeral is found as one token, if nothing goes on behind it.
* `printed_reads_back` — all of it for the text of a value.
-/

namespace Lox

/-! ## Decimals that read back -/

namespace Number

theorem ofMagnitude_magnitude {x : Number} (finite : x.isFinite = true)
    (sign : x.isNegative = false) : ofMagnitude x.magnitude = x := by
  obtain ⟨magnitude, plain⟩ := ofMagnitude_parts x.magnitude
  have less := of_decide_eq_true finite
  exact eq_of_magnitude_eq plain sign (magnitude.trans (Nat.min_eq_left less.le))

/-- A finite number is what its own value is rounded to. -/
theorem isNearest_value {x : Number} (finite : x.isFinite = true) (sign : x.isNegative = false) :
    IsNearest x.value x := by
  have near : Near (worth x.magnitude) x.magnitude := by
    constructor
    · intro n
      rw [sub_self, abs_zero]
      exact abs_nonneg _
    · intro n other tie
      rw [sub_self, abs_zero, abs_eq_zero, sub_eq_zero] at tie
      exact absurd (worth_strictMono.injective (Nat.cast_injective tie)) other
  have nearest := isNearest_ofMagnitude (Nat.cast_nonneg _) near
  rwa [← value_eq sign, ofMagnitude_magnitude finite sign] at nearest

/-- The exact decimal has the value of the number: a power of five in the digits makes the power of
two in the denominator one of ten. -/
theorem value_exact {x : Number} (sign : x.isNegative = false) : x.exact.value = x.value := by
  rw [value_eq sign, worth_magnitude]
  unfold exact Decimal.value
  dsimp only
  obtain ⟨places, hplaces⟩ : ∃ places, places = 1074 - x.exponent := ⟨_, rfl⟩
  obtain ⟨shift, hshift⟩ : ∃ shift, shift = x.exponent - 1074 := ⟨_, rfl⟩
  have exponents : x.exponent + places = 1074 + shift := by omega
  have powers : (2 : ℚ) ^ x.exponent * 2 ^ places = 2 ^ 1074 * 2 ^ shift := by
    rw [← pow_add, ← pow_add, exponents]
  have ten : (10 : ℚ) ^ places = 2 ^ places * 5 ^ places := by
    rw [← mul_pow]
    norm_num
  rw [← hplaces, ← hshift, Nat.shiftLeft_eq, zpow_neg, zpow_natCast, least, ten]
  push_cast
  rw [mul_one_div, ← div_eq_mul_inv, div_eq_div_iff (by positivity) (by positivity)]
  simp only [Nat.pow_eq, Nat.cast_pow, Nat.cast_ofNat]
  generalize (2 : ℚ) ^ 1074 = scale at *
  linear_combination (-(x.significand : ℚ) * 5 ^ places) * powers

theorem toNumber_exact {x : Number} (finite : x.isFinite = true) (sign : x.isNegative = false) :
    x.exact.toNumber = x := by
  have nearest := x.exact.isNearest_toNumber
  rw [value_exact sign] at nearest
  exact nearest.unique (isNearest_value finite sign)

theorem toNumber_of_onGrid? {x : Number} {d found : Decimal} {c : Nat}
    (h : x.onGrid? d c = some found) : found.toNumber = x := by
  unfold onGrid? at h
  dsimp only at h
  split_ifs at h with below both above <;> cases h
  · exact both.2
  · exact below
  · exact above

/-- Only decimals that read back are found. -/
theorem toNumber_searchGrid {x : Number} {d : Decimal} (reads : d.toNumber = x) (c : Nat) :
    (x.searchGrid d c).toNumber = x := by
  induction c with
  | zero => exact reads
  | succ c ih =>
    rw [searchGrid]
    cases found : x.onGrid? d (c + 1) with
    | none => exact ih
    | some decimal => exact toNumber_of_onGrid? found

/-- The shortest decimal reads back. -/
theorem toNumber_shortest {x : Number} (finite : x.isFinite = true) (sign : x.isNegative = false) :
    x.shortest.toNumber = x := by
  unfold shortest
  split_ifs with zero
  · have same : (⟨0, 0⟩ : Decimal).toNumber.magnitude = x.magnitude := by
      rw [beq_iff_eq.1 zero]
      decide
    exact eq_of_magnitude_eq (by decide) sign same
  · exact toNumber_searchGrid (toNumber_exact finite sign) _

end Number

/-! ## Numerals of decimals -/

namespace Decimal

/-- The digits of the numeral, with the zeros that are put in front and behind. -/
def paddedDigits (d : Decimal) : List Char :=
  let digits := Nat.toDigits 10 d.digits ++ List.replicate d.exponent.toNat '0'
  List.replicate ((-d.exponent).toNat + 1 - digits.length) '0' ++ digits

theorem numeral_eq (d : Decimal) : d.numeral =
    if (-d.exponent).toNat = 0 then d.paddedDigits
    else d.paddedDigits.take (d.paddedDigits.length - (-d.exponent).toNat) ++
      '.' :: d.paddedDigits.drop (d.paddedDigits.length - (-d.exponent).toNat) := rfl

theorem isDigit_of_mem_paddedDigits {d : Decimal} :
    ∀ c ∈ d.paddedDigits, Piece.isDigit c = true := by
  intro c mem
  have zero : ∀ {n : Nat}, c ∈ List.replicate n '0' → Piece.isDigit c = true := by
    intro n mem
    rw [List.eq_of_mem_replicate mem]
    rfl
  simp only [paddedDigits, List.mem_append] at mem
  rcases mem with front | digits | behind
  · exact zero front
  · exact Nat.isDigit_of_mem_toDigits (by decide) (by decide) digits
  · exact zero behind

/-- There is a digit in front of the point. -/
theorem lt_length_paddedDigits (d : Decimal) : (-d.exponent).toNat < d.paddedDigits.length := by
  simp only [paddedDigits, List.length_append, List.length_replicate]
  omega

theorem ofDigitChars_paddedDigits (d : Decimal) :
    Nat.ofDigitChars 10 d.paddedDigits 0 = d.digits * 10 ^ d.exponent.toNat := by
  simp only [paddedDigits]
  rw [Nat.ofDigitChars_append, Nat.ofDigitChars_replicate_zero, Nat.mul_zero, Nat.ofDigitChars_append,
    Nat.ofDigitChars_ten_toDigits, Nat.ofDigitChars_replicate_zero, Nat.mul_comm]

theorem ofNumeral_whole {digits : List Char} (all : ∀ c ∈ digits, Piece.isDigit c = true) :
    ofNumeral digits = ⟨Nat.ofDigitChars 10 digits 0, 0⟩ := by
  have noPoint : ∀ c ∈ digits, decide (c ≠ '.') = true := fun c mem => ne_point_of_isDigit (all c mem)
  rw [ofNumeral, List.takeWhile_eq_self_iff.2 noPoint, List.dropWhile_eq_nil_iff.2 noPoint]
  simp

theorem ofNumeral_point {digits others : List Char} (all : ∀ c ∈ digits, Piece.isDigit c = true) :
    ofNumeral (digits ++ '.' :: others) =
      ⟨Nat.ofDigitChars 10 (digits ++ others) 0, -(others.length : Int)⟩ := by
  obtain ⟨taken, left⟩ := @split_exact (· ≠ '.') digits ('.' :: others)
    (fun c mem => ne_point_of_isDigit (all c mem)) (by simp)
  rw [ofNumeral, taken, left]
  rfl

/-- The positional numeral stays in the lexical grammar. -/
theorem isNumeral_numeral (d : Decimal) : IsNumeral d.numeral := by
  have all := @isDigit_of_mem_paddedDigits d
  have long := d.lt_length_paddedDigits
  rw [numeral_eq]
  split_ifs with whole
  · exact .whole (List.ne_nil_of_length_pos (by omega)) all
  · refine .fraction ?front (fun c mem => all c (List.mem_of_mem_take mem)) ?behind
      fun c mem => all c (List.mem_of_mem_drop mem)
    case front => exact List.ne_nil_of_length_pos (by rw [List.length_take]; omega)
    case behind => exact List.ne_nil_of_length_pos (by rw [List.length_drop]; omega)

theorem ofNumeral_numeral (d : Decimal) : ofNumeral d.numeral =
    ⟨d.digits * 10 ^ d.exponent.toNat, -((-d.exponent).toNat : Int)⟩ := by
  have all := @isDigit_of_mem_paddedDigits d
  have long := d.lt_length_paddedDigits
  rw [numeral_eq, ← ofDigitChars_paddedDigits]
  split_ifs with whole
  · rw [ofNumeral_whole all, whole]
    rfl
  · rw [ofNumeral_point fun c mem => all c (List.mem_of_mem_take mem), List.take_append_drop,
      List.length_drop, Nat.sub_sub_self long.le]

/-- The numeral of a decimal is read as what the decimal is rounded to. -/
theorem toNumber_ofNumeral_numeral (d : Decimal) : (ofNumeral d.numeral).toNumber = d.toNumber := by
  have down : (-(-((-d.exponent).toNat : Int))).toNat = (-d.exponent).toNat := by omega
  have up : (-((-d.exponent).toNat : Int)).toNat = 0 := by omega
  rw [ofNumeral_numeral]
  unfold toNumber
  rw [down, up]
  simp only [Nat.pow_eq, Nat.pow_zero, Nat.mul_one]

end Decimal

/-! ## Texts of numbers -/

namespace Number

theorem magnitude_neg (x : Number) : x.neg.magnitude = x.magnitude := by
  have weight : signWeight = 2 ^ 63 := rfl
  rw [magnitude, magnitude, neg, UInt64.toNat_xor, weight, Nat.xor_mod_two_pow]
  exact Nat.xor_zero _

theorem isNegative_eq (x : Number) : x.isNegative = x.bits.toNat.testBit 63 := by
  have bound := x.bits.toNat_lt
  have weight : signWeight = 9223372036854775808 := rfl
  rw [isNegative, Nat.testBit_eq_decide_div_mod_eq, decide_eq_decide, weight]
  omega

theorem isNegative_neg (x : Number) : x.neg.isNegative = !x.isNegative := by
  have set : (0x8000000000000000 : UInt64).toNat.testBit 63 = true := by decide
  rw [isNegative_eq, isNegative_eq, neg, UInt64.toNat_xor, Nat.testBit_xor, set, Bool.xor_true]

theorem neg_neg (x : Number) : x.neg.neg = x := by
  unfold neg
  simp

theorem isFinite_neg (x : Number) : x.neg.isFinite = x.isFinite := by
  unfold isFinite
  rw [magnitude_neg]

theorem absText_neg (x : Number) : x.neg.absText = x.absText := by
  unfold absText isInfinite abs
  rw [magnitude_neg]

theorem isNaN_of_isFinite {x : Number} (finite : x.isFinite = true) : x.isNaN = false := by
  have less := of_decide_eq_true finite
  exact decide_eq_false (by omega)

theorem text_of_not_isNegative {x : Number} (finite : x.isFinite = true)
    (sign : x.isNegative = false) : x.text = String.ofList x.absText := by
  rw [text, isNaN_of_isFinite finite, sign]
  rfl

/-- The text of a number with a sign is a minus with the text of its negation. -/
theorem text_of_isNegative {x : Number} (finite : x.isFinite = true) (sign : x.isNegative = true) :
    x.text = "-" ++ x.neg.text := by
  have finite' : x.neg.isFinite = true := x.isFinite_neg.trans finite
  have sign' : x.neg.isNegative = false := by rw [isNegative_neg, sign, Bool.not_true]
  rw [text_of_not_isNegative finite' sign', absText_neg, text, isNaN_of_isFinite finite, sign]
  exact String.ofList_cons

/-- The digits of a number without sign are read as the number. -/
theorem absText_reads {x : Number} (finite : x.isFinite = true) (sign : x.isNegative = false) :
    IsNumeral x.absText ∧ (Decimal.ofNumeral x.absText).toNumber = x := by
  have plain : x.isInfinite = false := by
    rw [isInfinite, beq_eq_false_iff_ne]
    exact (of_decide_eq_true finite).ne
  rw [absText, plain, if_neg Bool.false_ne_true, abs, ofMagnitude_magnitude finite sign]
  exact ⟨x.shortest.isNumeral_numeral,
    x.shortest.toNumber_ofNumeral_numeral.trans (toNumber_shortest finite sign)⟩

end Number

/-! ## Numerals in a text -/

/-- A numeral goes as far as its digits, unless digits or a point follow. -/
theorem splitNumber_numeral {numeral rest : List Char} (h : IsNumeral numeral)
    (ends : ∀ c ∈ rest.head?, Piece.isDigit c = false ∧ c ≠ '.') :
    Piece.splitNumber (numeral ++ rest) = (numeral, rest) := by
  have stops : ∀ c ∈ rest.head?, Piece.isDigit c = false := fun c front => (ends c front).1
  unfold Piece.splitNumber
  cases h with
  | whole some all =>
    obtain ⟨taken, left⟩ := split_exact all stops
    rw [taken, left]
    split
    · exact absurd rfl (ends '.' rfl).2
    · rfl
  | @fraction digits others some all some' all' =>
    have point : ∀ c ∈ ('.' :: (others ++ rest)).head?, Piece.isDigit c = false := by
      rintro c ⟨⟩
      decide
    obtain ⟨taken, left⟩ := split_exact all point
    obtain ⟨taken', left'⟩ := split_exact all' stops
    obtain ⟨d, ds, rfl⟩ := List.exists_cons_of_ne_nil some'
    rw [List.append_assoc, List.cons_append, taken, left]
    rw [List.cons_append] at taken' left' ⊢
    simp only [all' d List.mem_cons_self, if_true, taken', left']

/-- A numeral is found as one token. -/
theorem scanFrom_numeral {line offset : Nat} {numeral rest : List Char} (h : IsNumeral numeral)
    (ends : ∀ c ∈ rest.head?, Piece.isDigit c = false ∧ c ≠ '.') :
    scanFrom line offset (numeral ++ rest) =
      .ok ⟨.number (Decimal.ofNumeral numeral).toNumber, String.ofList numeral, line, offset⟩ ::
        scanFrom line (offset + byteSize numeral) rest := by
  have whole := splitNumber_numeral h ends
  have lines := Stepwise.isNumeral_line h
  have some : numeral ≠ [] := @Kind.WrittenAs.ne_nil _ (.number _) ⟨h, rfl⟩
  obtain ⟨c, cs, rfl⟩ := List.exists_cons_of_ne_nil some
  have digit : Piece.isDigit c = true := Piece.head_isDigit h (List.append_nil _)
  rw [List.cons_append] at whole ⊢
  rw [scanFrom, Piece.cut_digit _ digit, whole, lines]
  rfl

/-! ## Reading back -/

/-- A minus, a constant and a semicolon. -/
def negated (x : Number) (digits : String) (behind : Nat) : List Token :=
  [⟨.symbol .minus, "-", 1, 0⟩, ⟨.number x, digits, 1, 1⟩, ⟨.symbol .semicolon, ";", 1, behind⟩]

theorem ofTokens_negated (x : Number) (digits : String) (behind firstId : Nat) :
    Program.ofTokens firstId (negated x digits behind) =
      (.ok [.expression (.unary ⟨.symbol .minus, "-", 1, 0⟩ (.literal (.number x)))], firstId) := by
  cbv

/-- The text of a number with a sign is a minus and the digits of its negation. -/
theorem scan_negated {x : Number} (finite : x.isFinite = true) (sign : x.isNegative = true) :
    ∃ behind, scan (x.text ++ ";") = .ok (negated x.neg (String.ofList x.absText) behind) := by
  have finite' : x.neg.isFinite = true := x.isFinite_neg.trans finite
  have sign' : x.neg.isNegative = false := by rw [Number.isNegative_neg, sign, Bool.not_true]
  obtain ⟨numeral, reads⟩ := Number.absText_reads finite' sign'
  have text : (x.text ++ ";").toList = '-' :: (x.absText ++ [';']) := by
    rw [Number.text_of_isNegative finite sign, Number.text_of_not_isNegative finite' sign',
      Number.absText_neg]
    simp
  have minus : scanFrom 1 0 ('-' :: (x.absText ++ [';'])) =
      .ok ⟨.symbol .minus, "-", 1, 0⟩ :: scanFrom 1 1 (x.absText ++ [';']) := by
    rw [scanFrom]
    rfl
  have found := @scanFrom_numeral 1 1 _ [';'] numeral (by simp [Piece.isDigit, Char.isDigit])
  have semicolon : scanFrom 1 (1 + byteSize x.absText) [';'] =
      [.ok ⟨.symbol .semicolon, ";", 1, 1 + byteSize x.absText⟩] := by
    rw [scanFrom]
    show _ :: scanFrom _ _ [] = _
    rw [scanFrom]
    rfl
  rw [reads, Number.absText_neg, semicolon] at found
  exact ⟨_, scan_eq_ok_iff.2 (by rw [text, minus, found]; rfl)⟩

/-- **Printed numbers read back.** The text of a finite number without sign is found as one token, with
the same bits. With a sign the text is a minus and the text of the negation, and as a program it
evaluates to the same bits. -/
theorem printed_reads_back (x : Number) (finite : x.isFinite = true) :
    (Literal.number x).text = (Value.number x : Value).text ∧
    (x.isNegative = false → scan (Value.number x : Value).text =
      .ok [⟨.number x, (Value.number x : Value).text, 1, 0⟩]) ∧
    (x.isNegative = true →
      (Value.number x : Value).text = "-" ++ (Value.number x.neg : Value).text ∧
      ∃ e : Expr, (∀ firstId, Checked.ofSource firstId ((Value.number x : Value).text ++ ";") =
          (.ok ⟨[.expression e], []⟩, firstId)) ∧
        ∀ invoke m, e.evaluate invoke m = .ok (.number x) m) := by
  refine ⟨rfl, fun sign => ?plain, fun sign => ⟨Number.text_of_isNegative finite sign, ?signed⟩⟩
  case plain =>
    obtain ⟨numeral, reads⟩ := Number.absText_reads finite sign
    have found := @scanFrom_numeral 1 0 _ [] numeral (by simp)
    rw [List.append_nil, reads, scanFrom] at found
    show scan x.text = .ok [⟨.number x, x.text, 1, 0⟩]
    rw [Number.text_of_not_isNegative finite sign]
    exact scan_eq_ok_iff.2 (by rw [String.toList_ofList]; exact found)
  case signed =>
    obtain ⟨behind, scanned⟩ := scan_negated finite sign
    refine ⟨.unary ⟨.symbol .minus, "-", 1, 0⟩ (.literal (.number x.neg)), fun firstId => ?_, ?_⟩
    · show Checked.ofSource firstId (x.text ++ ";") = _
      rw [Checked.ofSource, scanned]
      dsimp only
      rw [ofTokens_negated]
      rfl
    · intro invoke m
      show EStateM.Result.ok (Value.number x.neg.neg) m = _
      rw [Number.neg_neg]

/-- The number nearest to a tenth below zero has digits without end, but its text is short. -/
theorem printed_reads_back_tenth :
    let x : Number := ⟨0xBFB999999999999A⟩
    x.isFinite = true ∧ x.isNegative = true ∧ x.text = "-0.1" ∧
      ∃ e : Expr, (∀ firstId, Checked.ofSource firstId "-0.1;" = (.ok ⟨[.expression e], []⟩, firstId)) ∧
        ∀ invoke m, e.evaluate invoke m = .ok (.number x) m := by
  intro x
  have finite : x.isFinite = true := by decide
  have sign : x.isNegative = true := by decide
  have text : x.text = "-0.1" := by decide +kernel
  obtain ⟨-, e, reads, evaluates⟩ := (printed_reads_back x finite).2.2 sign
  have whole : (Value.number x : Value).text ++ ";" = "-0.1;" := by
    show x.text ++ ";" = "-0.1;"
    rw [text]
    rfl
  rw [whole] at reads
  exact ⟨finite, sign, text, e, reads, evaluates⟩

end Lox
