import Lox.Number.Decimal
import Mathlib.Algebra.Order.Field.Rat
import Mathlib.Data.Nat.Cast.Order.Field
import Mathlib.Order.Monotone.Basic
import Mathlib.Tactic.FieldSimp
import Mathlib.Tactic.Linarith
import Mathlib.Tactic.Positivity
import Mathlib.Tactic.Ring

/-!
# Nearest numbers

Decimals are rounded correctly: to the nearest number, a tie to the one with an even significand, and
to infinity from half a step above the largest finite number on.

* `Number.value` — the rational number that a finite number is.
* `Number.IsNearest` — what rounding to nearest makes of a rational number without sign.
* `Number.Near` — the same among magnitudes, where infinity is one more step.
* `Number.IsNearest.unique` — there is no choice.
* `Number.isNearest_ofRatio`, `Decimal.isNearest_toNumber` — ratios and decimals are rounded so.
-/

namespace Lox

/-! ## Quotients -/

/-- The rounded quotient is off by a half at most, and if by a half, then it is even. -/
theorem roundQuotient_near (num : Nat) {den : Nat} (pos : 0 < den) :
    |(roundQuotient num den : ℚ) - num / den| ≤ 1 / 2 ∧
      (|(roundQuotient num den : ℚ) - num / den| = 1 / 2 → roundQuotient num den % 2 = 0) := by
  have pos' : (0 : ℚ) < den := by exact_mod_cast pos
  obtain ⟨part, hpart⟩ : ∃ part : ℚ, part = (num % den : ℕ) / den := ⟨_, rfl⟩
  have split : (num : ℚ) / den = (num / den : ℕ) + part := by
    have whole : (num : ℚ) = den * (num / den : ℕ) + (num % den : ℕ) := by
      exact_mod_cast (Nat.div_add_mod num den).symm
    rw [hpart, div_eq_iff pos'.ne', add_mul, div_mul_cancel₀ _ pos'.ne', mul_comm, ← whole]
  have bounds : 0 ≤ part ∧ part < 1 := by
    have less : ((num % den : ℕ) : ℚ) < den := by exact_mod_cast Nat.mod_lt num pos
    rw [hpart, div_lt_one pos']
    exact ⟨by positivity, less⟩
  have below : 2 * (num % den) < den ↔ part < 1 / 2 := by
    rw [hpart, div_lt_iff₀ pos', ← Nat.cast_lt (α := ℚ)]
    push_cast
    constructor <;> intro h <;> linarith
  have above : den < 2 * (num % den) ↔ 1 / 2 < part := by
    rw [hpart, lt_div_iff₀ pos', ← Nat.cast_lt (α := ℚ)]
    push_cast
    constructor <;> intro h <;> linarith
  have down : |((num / den : ℕ) : ℚ) - ((num / den : ℕ) + part)| = part := by
    rw [sub_add_cancel_left, abs_neg, abs_of_nonneg bounds.1]
  have up : |((num / den + 1 : ℕ) : ℚ) - ((num / den : ℕ) + part)| = 1 - part := by
    rw [Nat.cast_succ, add_sub_add_left_eq_sub, abs_of_nonneg (by linarith)]
  rw [split, roundQuotient]
  split_ifs with less more even
  · rw [below] at less
    rw [down]
    exact ⟨less.le, fun tie => absurd tie less.ne⟩
  · rw [above] at more
    rw [up]
    exact ⟨by linarith, fun tie => absurd tie (by linarith)⟩
  · rw [above] at more
    rw [down]
    exact ⟨not_lt.1 more, fun _ => even⟩
  · rw [below] at less
    rw [up]
    exact ⟨by linarith, fun _ => by omega⟩

/-- No natural number is nearer to the quotient, and none is as near if the rounded one is odd. -/
theorem roundQuotient_le (num : Nat) {den : Nat} (pos : 0 < den) (n : Nat) :
    |(roundQuotient num den : ℚ) - num / den| ≤ |(n : ℚ) - num / den| ∧
      (n ≠ roundQuotient num den →
        |(n : ℚ) - num / den| = |(roundQuotient num den : ℚ) - num / den| →
          roundQuotient num den % 2 = 0) := by
  obtain ⟨near, even⟩ := roundQuotient_near num pos
  generalize roundQuotient num den = k at near even
  generalize (num : ℚ) / den = x at near even
  by_cases same : n = k
  · exact ⟨by rw [same], fun other => absurd same other⟩
  have apart : (1 : ℚ) ≤ |(n : ℚ) - k| := by
    have other : (n : ℤ) - k ≠ 0 := by omega
    exact_mod_cast Int.one_le_abs other
  have far : (1 : ℚ) ≤ |(n : ℚ) - x| + |(k : ℚ) - x| := by
    have triangle := abs_sub_le (n : ℚ) x k
    rw [abs_sub_comm x] at triangle
    linarith
  exact ⟨by linarith, fun _ tie => even (by linarith)⟩

theorem le_roundQuotient {num den n : Nat} (pos : 0 < den) (le : n * den ≤ num) :
    n ≤ roundQuotient num den := by
  have floor := (Nat.le_div_iff_mul_le pos).2 le
  rw [roundQuotient]
  split_ifs <;> omega

theorem roundQuotient_le_of_lt {num den n : Nat} (pos : 0 < den) (lt : num < n * den) :
    roundQuotient num den ≤ n := by
  have floor := (Nat.div_lt_iff_lt_mul pos).2 lt
  rw [roundQuotient]
  split_ifs <;> omega

namespace Number

/-! ## Magnitudes -/

/-- How many times the least subnormal number a magnitude is worth. The magnitude of infinity and
those beyond go on like those of finite numbers. -/
def worth (m : Nat) : Nat :=
  (if m < exponentWeight then m else exponentWeight + m % exponentWeight) *
    2 ^ (m / exponentWeight - 1)

/-- So much is the significand worth with the exponent, also if rounding has carried it beyond the
largest one. -/
theorem worth_add {e k : Nat} (least : e = 0 ∨ exponentWeight ≤ k) (most : k ≤ 2 * exponentWeight) :
    worth (e * exponentWeight + k) = k * 2 ^ e := by
  unfold worth exponentWeight
  unfold exponentWeight at least most
  by_cases carried : k = 9007199254740992
  · have quotient : (e * 4503599627370496 + k) / 4503599627370496 - 1 = e + 1 := by omega
    have remainder : (e * 4503599627370496 + k) % 4503599627370496 = 0 := by omega
    rw [if_neg (by omega), quotient, remainder, carried, pow_succ]
    ring
  · have quotient : (e * 4503599627370496 + k) / 4503599627370496 - 1 = e := by omega
    rw [quotient]
    split_ifs with subnormal
    · have lowest : e = 0 := by omega
      rw [lowest, zero_mul, zero_add]
    · have remainder : 4503599627370496 + (e * 4503599627370496 + k) % 4503599627370496 = k := by
        omega
      rw [remainder]

/-- Every magnitude has a significand and an exponent. -/
theorem exists_parts (m : Nat) : ∃ e k, m = e * exponentWeight + k ∧
    (e = 0 ∨ exponentWeight ≤ k) ∧ k < 2 * exponentWeight := by
  refine ⟨m / exponentWeight - 1, m - (m / exponentWeight - 1) * exponentWeight, ?_, ?_, ?_⟩ <;>
    unfold exponentWeight <;> omega

theorem worth_lt_succ (m : Nat) : worth m < worth (m + 1) := by
  obtain ⟨e, k, rfl, least, most⟩ := exists_parts m
  rw [Nat.add_assoc, worth_add least most.le, worth_add (least.imp_right Nat.le_succ_of_le) most]
  exact Nat.mul_lt_mul_of_pos_right (Nat.lt_succ_self k) (Nat.two_pow_pos e)

theorem worth_strictMono : StrictMono worth := strictMono_nat_of_lt_succ worth_lt_succ

/-! ## The nearest magnitude -/

/-- No magnitude is worth what is nearer to `x`, and none is as near if this one is odd. -/
structure Near (x : ℚ) (m : Nat) : Prop where
  le : ∀ n, |(worth m : ℚ) - x| ≤ |(worth n : ℚ) - x|
  even : ∀ n, n ≠ m → |(worth n : ℚ) - x| = |(worth m : ℚ) - x| → m % 2 = 0

theorem lt_of_log2_le {num den e : Nat} (pos : 0 < den) (le : num.log2 + 1022 ≤ e + den.log2) :
    num * 2 ^ 1074 < 2 ^ 53 * (den * 2 ^ e) := by
  have high := Nat.lt_log2_self (n := num)
  have low := Nat.log2_self_le pos.ne'
  generalize num.log2 = a at *
  generalize den.log2 = b at *
  have wide : 2 ^ (a + 1) * 2 ^ 1074 ≤ 2 ^ 53 * (2 ^ b * 2 ^ e) := by
    rw [← Nat.pow_add, ← Nat.pow_add, ← Nat.pow_add]
    exact Nat.pow_le_pow_right Nat.two_pos (by omega)
  have less : num * 2 ^ 1074 < 2 ^ (a + 1) * 2 ^ 1074 := by gcongr
  exact (less.trans_le wide).trans_le (Nat.mul_le_mul_left _ (Nat.mul_le_mul_right _ low))

theorem le_of_log2_lt {num den e : Nat} (some : num ≠ 0) (lt : e + den.log2 < num.log2 + 1022) :
    2 ^ 52 * (den * 2 ^ e) ≤ num * 2 ^ 1074 := by
  have low := Nat.log2_self_le some
  have high := Nat.lt_log2_self (n := den)
  generalize num.log2 = a at *
  generalize den.log2 = b at *
  have wide : 2 ^ 52 * (2 ^ (b + 1) * 2 ^ e) ≤ 2 ^ a * 2 ^ 1074 := by
    rw [← Nat.pow_add, ← Nat.pow_add, ← Nat.pow_add]
    exact Nat.pow_le_pow_right Nat.two_pos (by omega)
  have less : 2 ^ 52 * (den * 2 ^ e) ≤ 2 ^ 52 * (2 ^ (b + 1) * 2 ^ e) :=
    Nat.mul_le_mul_left _ (Nat.mul_le_mul_right _ high.le)
  exact (less.trans wide).trans (Nat.mul_le_mul_right _ low)

/-- The ratio, counted in least subnormals, is below all that a significand can be worth with the
exponent that is chosen, and not below the least one of a normal number unless the exponent is the
least. -/
theorem binade_spec (num : Nat) {den : Nat} (pos : 0 < den) :
    (binade num den = 0 ∨ 2 ^ 52 * (den * 2 ^ binade num den) ≤ num * 2 ^ 1074) ∧
      num * 2 ^ 1074 < 2 ^ 53 * (den * 2 ^ binade num den) := by
  by_cases zero : num = 0
  · have least : binade num den = 0 := if_pos zero
    rw [least, zero, Nat.zero_mul]
    exact ⟨.inl rfl, by positivity⟩
  obtain ⟨e, he⟩ : ∃ e, e = num.log2 + 1022 - den.log2 := ⟨_, rfl⟩
  have shifted : den * 2 ^ (e + 52) = 2 ^ 52 * (den * 2 ^ e) := by
    rw [Nat.pow_add, Nat.mul_comm (2 ^ e), Nat.mul_left_comm]
  have chosen : binade num den = if num * 2 ^ 1074 < 2 ^ 52 * (den * 2 ^ e) then e - 1 else e := by
    rw [← shifted, binade, ← Nat.shiftLeft_eq, ← Nat.shiftLeft_eq, he]
    exact if_neg zero
  rw [chosen]
  split_ifs with small
  · cases e with
    | zero => exact ⟨.inl rfl, by omega⟩
    | succ e =>
      have next : 2 ^ 52 * (den * 2 ^ (e + 1)) = 2 ^ 53 * (den * 2 ^ e) := by
        rw [Nat.pow_succ 2 e, ← Nat.mul_assoc den, Nat.mul_comm _ 2, ← Nat.mul_assoc, ← Nat.pow_succ]
      rw [next] at small
      exact ⟨.inr (le_of_log2_lt zero (by omega)), small⟩
  · exact ⟨.inr (Nat.not_lt.1 small), lt_of_log2_le pos (by omega)⟩

/-- Every magnitude is worth a multiple of a power of two, or less than what the least normal
significand is with it. -/
theorem worth_grid (n e : Nat) :
    (∃ k, worth n = k * 2 ^ e) ∨ 0 < e ∧ worth n < 2 ^ 52 * 2 ^ e := by
  obtain ⟨e', k, rfl, least, most⟩ := exists_parts n
  rw [worth_add least most.le]
  by_cases above : e ≤ e'
  · refine .inl ⟨k * 2 ^ (e' - e), ?_⟩
    rw [Nat.mul_assoc, ← Nat.pow_add, Nat.sub_add_cancel above]
  · right
    refine ⟨by omega, ?_⟩
    calc k * 2 ^ e' < 2 * 2 ^ 52 * 2 ^ e' := Nat.mul_lt_mul_of_pos_right most (Nat.two_pow_pos e')
      _ = 2 ^ (53 + e') := (Nat.pow_add 2 53 e').symm
      _ ≤ 2 ^ (52 + e) := Nat.pow_le_pow_right Nat.two_pos (by omega)
      _ = 2 ^ 52 * 2 ^ e := Nat.pow_add ..

/-- The magnitude that a ratio is rounded to, where infinity is no bound. -/
def roundedMagnitude (num den : Nat) : Nat :=
  binade num den * exponentWeight + roundQuotient (num * 2 ^ 1074) (den * 2 ^ binade num den)

theorem ofRatio_eq (num den : Nat) : ofRatio num den = ofMagnitude (roundedMagnitude num den) := by
  rw [roundedMagnitude, ← Nat.shiftLeft_eq, ← Nat.shiftLeft_eq]
  rfl

/-- Distances of multiples of a step are those of their numbers, times the step. -/
theorem abs_multiple_sub (scaled : Nat) {den : Nat} (pos : 0 < den) (e j : Nat) :
    |((j * 2 ^ e : ℕ) : ℚ) - scaled / den| = |(j : ℚ) - scaled / (den * 2 ^ e : ℕ)| * 2 ^ e := by
  have den' : (den : ℚ) ≠ 0 := by exact_mod_cast pos.ne'
  have both : ((j * 2 ^ e : ℕ) : ℚ) - scaled / den = (j - scaled / (den * 2 ^ e : ℕ)) * 2 ^ e := by
    push_cast
    field_simp
  rw [both, abs_mul, abs_of_pos (by positivity : (0 : ℚ) < 2 ^ e)]

/-- What is below something that is not above `x` is farther from `x`. -/
theorem abs_lt_of_below {x near edge far : ℚ} (le : |near - x| ≤ |edge - x|) (inside : edge ≤ x)
    (below : far < edge) : |near - x| < |far - x| := by
  rw [abs_of_nonpos (by linarith : edge - x ≤ 0)] at le
  rw [abs_of_nonpos (by linarith : far - x ≤ 0)]
  linarith

theorem near_roundedMagnitude (num : Nat) {den : Nat} (pos : 0 < den) :
    Near ((num * 2 ^ 1074 : ℕ) / den) (roundedMagnitude num den) := by
  obtain ⟨low, high⟩ := binade_spec num pos
  unfold roundedMagnitude
  generalize binade num den = e at low high
  generalize num * 2 ^ 1074 = scaled at low high
  have pos' : 0 < den * 2 ^ e := Nat.mul_pos pos (Nat.two_pow_pos e)
  have nearest := roundQuotient_le scaled pos'
  have least : e = 0 ∨ exponentWeight ≤ roundQuotient scaled (den * 2 ^ e) :=
    low.imp_right (le_roundQuotient pos')
  have most : roundQuotient scaled (den * 2 ^ e) ≤ 2 * exponentWeight :=
    roundQuotient_le_of_lt pos' high
  have value := worth_add least most
  generalize roundQuotient scaled (den * 2 ^ e) = k at nearest value
  have dist := abs_multiple_sub scaled pos e
  have step : (0 : ℚ) < 2 ^ e := by positivity
  have multiples : ∀ j : ℕ,
      |((k * 2 ^ e : ℕ) : ℚ) - scaled / den| ≤ |((j * 2 ^ e : ℕ) : ℚ) - scaled / den| := by
    intro j
    rw [dist, dist]
    exact mul_le_mul_of_nonneg_right (nearest j).1 step.le
  -- numbers with smaller exponents are below the least normal one, which is not above the ratio
  have others : ∀ n, 0 < e → worth n < 2 ^ 52 * 2 ^ e →
      |((k * 2 ^ e : ℕ) : ℚ) - scaled / den| < |(worth n : ℚ) - scaled / den| := by
    intro n some below
    have inside : ((2 ^ 52 * 2 ^ e : ℕ) : ℚ) ≤ scaled / den := by
      have den' : (0 : ℚ) < den := by exact_mod_cast pos
      have scaledLow := low.resolve_left some.ne'
      rw [Nat.mul_left_comm, Nat.mul_comm] at scaledLow
      rw [le_div_iff₀ den']
      exact_mod_cast scaledLow
    exact abs_lt_of_below (multiples (2 ^ 52)) inside (Nat.cast_lt.2 below)
  constructor
  · intro n
    rw [value]
    rcases worth_grid n e with ⟨j, hj⟩ | ⟨some, below⟩
    · rw [hj]
      exact multiples j
    · exact (others n some below).le
  · intro n other tie
    rw [value] at tie
    rcases worth_grid n e with ⟨j, hj⟩ | ⟨some, below⟩
    · have apart : j ≠ k := by
        rintro rfl
        exact other (worth_strictMono.injective (hj.trans value.symm))
      rw [hj, dist, dist] at tie
      have even := (nearest j).2 apart (mul_right_cancel₀ step.ne' tie)
      unfold exponentWeight
      omega
    · exact absurd tie (others n some below).ne'

theorem worth_infinite : (worth infiniteMagnitude : ℚ) = 2 ^ 53 * 2 ^ 2045 := by
  have parts : infiniteMagnitude = 2045 * exponentWeight + 2 ^ 53 := by decide
  rw [parts, worth_add (.inr (by decide)) (by decide), Nat.cast_mul, Nat.cast_pow, Nat.cast_pow,
    Nat.cast_two]

theorem worth_largest : (worth (infiniteMagnitude - 1) : ℚ) = (2 ^ 53 - 1) * 2 ^ 2045 := by
  have parts : infiniteMagnitude - 1 = 2045 * exponentWeight + (2 ^ 53 - 1) := by decide
  rw [parts, worth_add (.inr (by decide)) (by decide), Nat.cast_mul, Nat.cast_pow,
    Nat.cast_sub (by decide), Nat.cast_pow, Nat.cast_two, Nat.cast_one]

/-- From half a step below what the magnitude of infinity is worth, it or a larger one is nearest. -/
theorem Near.infinite_iff {x : ℚ} {m : Nat} (near : Near x m) :
    infiniteMagnitude ≤ m ↔ (2 ^ 53 - 1 / 2) * 2 ^ 2045 ≤ x := by
  have nearInfinite := near.le infiniteMagnitude
  have nearLargest := near.le (infiniteMagnitude - 1)
  have tie := near.even infiniteMagnitude
  have upper : infiniteMagnitude ≤ m → (worth infiniteMagnitude : ℚ) ≤ worth m := fun le =>
    Nat.cast_le.2 (worth_strictMono.monotone le)
  have lower : m ≤ infiniteMagnitude - 1 → (worth m : ℚ) ≤ worth (infiniteMagnitude - 1) := fun le =>
    Nat.cast_le.2 (worth_strictMono.monotone le)
  have equal : (worth m : ℚ) = worth (infiniteMagnitude - 1) → m = infiniteMagnitude - 1 := fun same =>
    worth_strictMono.injective (Nat.cast_injective same)
  have positive : (0 : ℚ) < 2 ^ 2045 := by positivity
  rw [worth_infinite] at nearInfinite tie upper
  rw [worth_largest] at nearLargest lower equal
  generalize (2 : ℚ) ^ 2045 = step at *
  constructor
  · intro le
    by_contra less
    have above := upper le
    rw [abs_of_nonneg (by linarith : (0 : ℚ) ≤ worth m - x)] at nearLargest
    rcases abs_cases ((2 ^ 53 - 1) * step - x) with ⟨dist, -⟩ | ⟨dist, -⟩ <;> linarith
  · intro le
    by_contra less
    have finite : m ≤ infiniteMagnitude - 1 := by omega
    have below := lower finite
    rw [abs_of_nonpos (by linarith : (worth m : ℚ) - x ≤ 0)] at nearInfinite tie
    rcases abs_cases (2 ^ 53 * step - x) with ⟨dist, -⟩ | ⟨dist, -⟩
    · -- only in the middle the largest one is as near, but it is odd
      have middle : (worth m : ℚ) = (2 ^ 53 - 1) * step := by linarith
      have even := tie (by omega) (by linarith)
      rw [equal middle] at even
      exact absurd even (by decide)
    · linarith

/-! ## The nearest number -/

/-- The least value above zero. -/
def least : ℚ := 1 / 2 ^ 1074

theorem least_pos : 0 < least := by
  unfold least
  positivity

/-- The value of a finite number. -/
def value (x : Number) : ℚ :=
  let size : ℚ := x.significand * 2 ^ x.exponent * least
  if x.isNegative then -size else size

/-- What `q`, which is not negative, is rounded to: the nearest finite number, of two that are as near
the one with the even significand, or infinity from half a step above the largest finite number on. -/
structure IsNearest (q : ℚ) (x : Number) : Prop where
  sign : x.isNegative = false
  isNumber : x.isNaN = false
  infinite : x.isInfinite = true ↔ 2 ^ 1024 - 2 ^ 970 ≤ q
  nearest : x.isFinite = true → ∀ y : Number, y.isFinite = true → |x.value - q| ≤ |y.value - q|
  even : x.isFinite = true → ∀ y : Number, y.isFinite = true → y.value ≠ x.value →
    |y.value - q| = |x.value - q| → x.significand % 2 = 0

theorem ofMagnitude_parts (m : Nat) : (ofMagnitude m).magnitude = min m infiniteMagnitude ∧
    (ofMagnitude m).isNegative = false := by
  have fits : min m infiniteMagnitude < signWeight := (Nat.min_le_right ..).trans_lt (by decide)
  have bits : (min m infiniteMagnitude).toUInt64.toNat = min m infiniteMagnitude :=
    UInt64.toNat_ofNat_of_lt' (fits.trans (by decide))
  constructor
  · rw [magnitude, ofMagnitude, bits, Nat.mod_eq_of_lt fits]
  · rw [isNegative, ofMagnitude, bits, decide_eq_false (Nat.not_le.2 fits)]

/-- Numbers without sign are equal if their magnitudes are. -/
theorem eq_of_magnitude_eq {x y : Number} (hx : x.isNegative = false) (hy : y.isNegative = false)
    (same : x.magnitude = y.magnitude) : x = y := by
  simp only [isNegative, decide_eq_false_iff_not, not_le] at hx hy
  rw [magnitude, magnitude, Nat.mod_eq_of_lt hx, Nat.mod_eq_of_lt hy] at same
  cases x
  cases y
  exact congrArg _ (UInt64.toNat_inj.1 same)

theorem worth_magnitude (x : Number) : worth x.magnitude = x.significand * 2 ^ x.exponent := by
  unfold worth significand exponent
  dsimp only
  split_ifs with small
  · rw [Nat.mod_eq_of_lt small]
  · rfl

theorem value_eq {x : Number} (sign : x.isNegative = false) :
    x.value = worth x.magnitude * least := by
  rw [worth_magnitude, value, sign]
  push_cast
  rfl

theorem abs_value_sub {y : Number} (sign : y.isNegative = false) (x : ℚ) :
    |y.value - x * least| = |(worth y.magnitude : ℚ) - x| * least := by
  rw [value_eq sign, ← sub_mul, abs_mul, abs_of_pos least_pos]

theorem abs_value_sub_of_isNegative {y : Number} (sign : y.isNegative = true) {x : ℚ}
    (nonneg : 0 ≤ x) : |y.value - x * least| = (worth y.magnitude + x) * least := by
  have negative : y.value = -(worth y.magnitude * least) := by
    rw [worth_magnitude, value, sign]
    push_cast
    rfl
  have sum : (0 : ℚ) ≤ worth y.magnitude + x := by positivity
  rw [negative, ← neg_add', ← add_mul, abs_neg, abs_mul, abs_of_nonneg sum, abs_of_pos least_pos]

theorem significand_even_iff (x : Number) : x.significand % 2 = 0 ↔ x.magnitude % 2 = 0 := by
  unfold significand
  dsimp only
  unfold exponentWeight
  split_ifs <;> omega

/-- The magnitude is also the nearest among all numbers, with a sign and without. -/
theorem Near.le_abs_value_sub {x : ℚ} {m : Nat} (near : Near x m) (nonneg : 0 ≤ x) (y : Number) :
    |(worth m : ℚ) - x| * least ≤ |y.value - x * least| := by
  have le := near.le y.magnitude
  cases sign : y.isNegative with
  | false =>
    rw [abs_value_sub sign]
    exact mul_le_mul_of_nonneg_right le least_pos.le
  | true =>
    rw [abs_value_sub_of_isNegative sign nonneg]
    have far : |(worth y.magnitude : ℚ) - x| ≤ worth y.magnitude + x := by
      have size : (0 : ℚ) ≤ worth y.magnitude := by positivity
      rw [abs_le]
      constructor <;> linarith
    exact mul_le_mul_of_nonneg_right (le.trans far) least_pos.le

theorem Near.even_of_tie {x : ℚ} {m : Nat} (near : Near x m) (nonneg : 0 ≤ x) {y : Number}
    (other : y.value ≠ worth m * least)
    (tie : |y.value - x * least| = |(worth m : ℚ) - x| * least) : m % 2 = 0 := by
  cases sign : y.isNegative with
  | false =>
    rw [abs_value_sub sign] at tie
    refine near.even y.magnitude (fun same => other ?_) (mul_right_cancel₀ least_pos.ne' tie)
    rw [value_eq sign, same]
  | true =>
    -- nothing below zero is as near as zero
    rw [abs_value_sub_of_isNegative sign nonneg] at tie
    have tie := mul_right_cancel₀ least_pos.ne' tie
    have size : (0 : ℚ) ≤ worth y.magnitude := by positivity
    have zero := near.le 0
    have distance : |(worth 0 : ℚ) - x| = x := by
      have worthZero : worth 0 = 0 := by decide
      rw [worthZero, Nat.cast_zero, zero_sub, abs_neg, abs_of_nonneg nonneg]
    by_cases same : 0 = m
    · rw [← same]
    · exact near.even 0 same (by linarith)

theorem isNearest_ofMagnitude {x : ℚ} {m : Nat} (nonneg : 0 ≤ x) (near : Near x m) :
    IsNearest (x * least) (ofMagnitude m) := by
  obtain ⟨magnitude, sign⟩ := ofMagnitude_parts m
  have threshold : (2 : ℚ) ^ 1024 - 2 ^ 970 = (2 ^ 53 - 1 / 2) * 2 ^ 2045 * least := by
    have positive : (2 : ℚ) ^ 1074 ≠ 0 := by positivity
    rw [least, mul_one_div, eq_div_iff positive, sub_mul, sub_mul, ← pow_add, ← pow_add, ← pow_add,
      one_div, pow_succ' 2 2044, inv_mul_cancel_left₀ two_ne_zero]
  have finite : (ofMagnitude m).isFinite = true → (ofMagnitude m).magnitude = m := by
    intro isFinite
    have less := of_decide_eq_true isFinite
    omega
  refine ⟨sign, ?_, ?_, ?_, ?_⟩
  · rw [isNaN, magnitude]
    exact decide_eq_false (by omega)
  · rw [isInfinite, magnitude, beq_iff_eq, threshold, mul_le_mul_iff_left₀ least_pos,
      ← near.infinite_iff]
    omega
  · intro isFinite y _
    rw [abs_value_sub sign, finite isFinite]
    exact near.le_abs_value_sub nonneg y
  · intro isFinite y _ other tie
    rw [significand_even_iff, finite isFinite]
    rw [abs_value_sub sign, finite isFinite] at tie
    rw [value_eq sign, finite isFinite] at other
    exact near.even_of_tie nonneg other tie

/-- Ratios are rounded to the nearest number. -/
theorem isNearest_ofRatio (num : Nat) {den : Nat} (pos : 0 < den) :
    IsNearest (num / den) (ofRatio num den) := by
  have nonneg := div_nonneg (Nat.cast_nonneg (α := ℚ) (num * 2 ^ 1074)) (Nat.cast_nonneg den)
  have near := isNearest_ofMagnitude nonneg (near_roundedMagnitude num pos)
  have positive : (2 : ℚ) ^ 1074 ≠ 0 := by positivity
  rw [← ofRatio_eq, Nat.cast_mul, Nat.cast_pow, Nat.cast_two, mul_div_right_comm, least, mul_assoc,
    mul_one_div_cancel positive, mul_one] at near
  exact near

namespace IsNearest

variable {q : ℚ} {x y : Number}

theorem finite_of_lt (hy : IsNearest q y) (less : x.magnitude < y.magnitude) : x.isFinite = true := by
  have number := of_decide_eq_false hy.isNumber
  exact decide_eq_true (by omega)

/-- Of two numbers that are nearest none is less: a number in between would be nearer. -/
theorem not_lt (hx : IsNearest q x) (hy : IsNearest q y) : ¬x.magnitude < y.magnitude := by
  intro less
  have finiteX := hy.finite_of_lt less
  have finiteY : y.isFinite = true := by
    have number := of_decide_eq_false hy.isNumber
    have notInfinite : ¬y.isInfinite = true := by
      rw [hy.infinite, ← hx.infinite, isInfinite, beq_iff_eq]
      exact (of_decide_eq_true finiteX).ne
    rw [isInfinite, beq_iff_eq] at notInfinite
    exact decide_eq_true (by omega)
  have below : ∀ {u v : Number}, u.isNegative = false → v.isNegative = false →
      u.magnitude < v.magnitude → u.value < v.value := by
    intro u v signU signV less
    rw [value_eq signU, value_eq signV, mul_lt_mul_iff_left₀ least_pos]
    exact_mod_cast worth_strictMono less
  have values := below hx.sign hy.sign less
  have tie : |y.value - q| = |x.value - q| :=
    le_antisymm (hy.nearest finiteY x finiteX) (hx.nearest finiteX y finiteY)
  have evenX := (significand_even_iff x).1 (hx.even finiteX y finiteY values.ne' tie)
  have evenY := (significand_even_iff y).1 (hy.even finiteY x finiteX values.ne tie.symm)
  obtain ⟨magnitude, sign⟩ := ofMagnitude_parts (x.magnitude + 1)
  have boundY := of_decide_eq_true finiteY
  have between : (ofMagnitude (x.magnitude + 1)).magnitude = x.magnitude + 1 := by omega
  have low := below hx.sign sign (by omega)
  have high := below sign hy.sign (by omega)
  have finite : (ofMagnitude (x.magnitude + 1)).isFinite = true := decide_eq_true (by omega)
  have nearestX := hx.nearest finiteX _ finite
  have nearestY := hy.nearest finiteY _ finite
  generalize (ofMagnitude (x.magnitude + 1)).value = z at low high nearestX nearestY
  rcases abs_cases (x.value - q) with ⟨hx, _⟩ | ⟨hx, _⟩ <;>
    rcases abs_cases (y.value - q) with ⟨hy, _⟩ | ⟨hy, _⟩ <;>
      rcases abs_cases (z - q) with ⟨hz, _⟩ | ⟨hz, _⟩ <;> linarith

/-- There is only one nearest number. -/
theorem unique (hx : IsNearest q x) (hy : IsNearest q y) : x = y :=
  eq_of_magnitude_eq hx.sign hy.sign
    (le_antisymm (Nat.not_lt.1 (hy.not_lt hx)) (Nat.not_lt.1 (hx.not_lt hy)))

end IsNearest

end Number

/-! ## Decimals -/

namespace Decimal

/-- The value of a decimal. -/
def value (d : Decimal) : ℚ := d.digits * 10 ^ d.exponent

/-- Decimals are rounded to the nearest number. -/
theorem isNearest_toNumber (d : Decimal) : d.toNumber.IsNearest d.value := by
  have pos : 0 < Nat.pow 10 (-d.exponent).toNat := Nat.pow_pos (by decide)
  have nearest := Number.isNearest_ofRatio (d.digits * Nat.pow 10 d.exponent.toNat) pos
  have ratio : ((d.digits * Nat.pow 10 d.exponent.toNat : ℕ) : ℚ) /
      (Nat.pow 10 (-d.exponent).toNat : ℕ) = d.value := by
    obtain ⟨digits, exponent⟩ := d
    cases exponent with
    | ofNat n => simp [value]
    | negSucc n =>
      have none : (Int.negSucc n).toNat = 0 := by omega
      have all : (-Int.negSucc n).toNat = n + 1 := by omega
      rw [none, all, value, zpow_negSucc]
      simp [div_eq_mul_inv]
  rw [ratio] at nearest
  exact nearest

end Decimal

end Lox
