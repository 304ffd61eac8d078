import Lox.Proofs.Text.Encoding
import Lox.Value

/-!
# Equality and order of values

Equality signs and comparisons are decided in different ways, and still fit together: numbers and
texts are ordered, and equal where neither comes first.

* `Value.Answers` — what an operator answers, wherever it stands.
* `Value.same_symm`, `Value.same_trans`, `Value.same_self` — equality.
* `Value.order?_eq_some_iff`, `Value.order?_swap`, `Value.order?_trans` — the order of two numbers or
  two texts.
* `Value.EqualityLaws`, `Value.OrderLaws` — what the signs have to do with each other.
* `Value.signs_coherent` — the laws hold.
-/

namespace Lox

/-! ## Numbers -/

namespace Number

variable {x y z : Number}

theorem compare?_eq_some_iff {o : Ordering} : x.compare? y = some o ↔
    x.isNaN = false ∧ y.isNaN = false ∧ compare x.key y.key = o := by
  unfold compare?
  cases x.isNaN <;> cases y.isNaN <;> simp

theorem compare?_eq_none_iff : x.compare? y = none ↔ x.isNaN = true ∨ y.isNaN = true := by
  unfold compare?
  cases x.isNaN <;> cases y.isNaN <;> simp

theorem same_iff : x.same y = true ↔ x.isNaN = false ∧ y.isNaN = false ∧ x.key = y.key := by
  unfold same
  rw [beq_iff_eq, compare?_eq_some_iff, Std.LawfulEqCmp.compare_eq_iff_eq]

end Number

namespace Value

variable {Env : Type} {u v w : Value Env} {s : Symbol} {holds : Ordering → Bool} {o : Ordering}

/-! ## Kinds of values -/

/-- Two values of one kind. -/
inductive SameKind : Value Env → Value Env → Prop where
  | nil : SameKind .nil .nil
  | bool (a b : Bool) : SameKind (.bool a) (.bool b)
  | number (x y : Number) : SameKind (.number x) (.number y)
  | string (a b : String) : SameKind (.string a) (.string b)
  | function (f g : Closure Env) : SameKind (.function f) (.function g)

/-- Two numbers or two texts. -/
inductive Comparable : Value Env → Value Env → Prop where
  | numbers (x y : Number) : Comparable (.number x) (.number y)
  | strings (a b : String) : Comparable (.string a) (.string b)

/-- A number that is none. -/
def IsNaN (v : Value Env) : Prop := ∃ x : Number, v = .number x ∧ x.isNaN = true

/-- Two texts, or two numbers both of which are. -/
structure Ordered (v w : Value Env) : Prop where
  comparable : Comparable v w
  left : ¬v.IsNaN
  right : ¬w.IsNaN

/-! ## Equality -/

theorem sameKind_of_same (h : v.same w = true) : SameKind v w := by
  cases v <;> cases w <;> first | constructor | cases h

theorem same_symm (h : v.same w = true) : w.same v = true := by
  cases sameKind_of_same h with
  | nil => rfl
  | number x y =>
    obtain ⟨hx, hy, key⟩ := Number.same_iff.1 h
    exact Number.same_iff.2 ⟨hy, hx, key.symm⟩
  | bool a b | string a b | function f g =>
    simp only [same, beq_iff_eq] at h ⊢
    exact h.symm

theorem same_trans (h : u.same v = true) (h' : v.same w = true) : u.same w = true := by
  cases sameKind_of_same h with
  | nil => exact h'
  | number x y =>
    cases sameKind_of_same h' with
    | number y z =>
      obtain ⟨hx, _, key⟩ := Number.same_iff.1 h
      obtain ⟨_, hz, key'⟩ := Number.same_iff.1 h'
      exact Number.same_iff.2 ⟨hx, hz, key.trans key'⟩
  | bool a b | string a b | function f g =>
    cases sameKind_of_same h'
    simp only [same, beq_iff_eq] at h h' ⊢
    exact h.trans h'

/-- Everything is equal to itself but a number that is none. -/
theorem same_self : v.same v = true ↔ ¬v.IsNaN := by
  cases v with
  | number x =>
    show x.same x = true ↔ _
    rw [Number.same_iff]
    simp [IsNaN]
  | _ => simp [same, IsNaN]

/-! ## Order -/

/-- Just two texts and two numbers that are some are in an order. -/
theorem ordered_iff : Ordered v w ↔ ∃ o, v.order? w = some (some o) := by
  constructor
  · rintro ⟨comparable, left, right⟩
    cases comparable with
    | numbers x y =>
      have hx : x.isNaN = false := by simpa [IsNaN] using left
      have hy : y.isNaN = false := by simpa [IsNaN] using right
      exact ⟨_, congrArg some (Number.compare?_eq_some_iff.2 ⟨hx, hy, rfl⟩)⟩
    | strings a b => exact ⟨_, rfl⟩
  · rintro ⟨o, order⟩
    cases v <;> cases w <;> simp only [order?, Option.some.injEq, reduceCtorEq] at order
    · obtain ⟨hx, hy, -⟩ := Number.compare?_eq_some_iff.1 order
      exact ⟨.numbers _ _, by simpa [IsNaN] using hx, by simpa [IsNaN] using hy⟩
    · exact ⟨.strings _ _, by simp [IsNaN], by simp [IsNaN]⟩

theorem order?_swap (h : v.order? w = some (some o)) : w.order? v = some (some o.swap) := by
  cases v <;> cases w <;> simp only [order?, Option.some.injEq, reduceCtorEq] at h ⊢
  · obtain ⟨hx, hy, key⟩ := Number.compare?_eq_some_iff.1 h
    refine Number.compare?_eq_some_iff.2 ⟨hy, hx, ?_⟩
    rw [← key]
    exact Std.OrientedCmp.eq_swap
  · rw [← h]
    exact Std.OrientedCmp.eq_swap

theorem order?_trans (h : u.order? v = some (some .lt)) (h' : v.order? w = some (some .lt)) :
    u.order? w = some (some .lt) := by
  cases u <;> cases v <;> simp only [order?, Option.some.injEq, reduceCtorEq] at h
  · cases w <;> simp only [order?, Option.some.injEq, reduceCtorEq] at h' ⊢
    obtain ⟨hx, _, key⟩ := Number.compare?_eq_some_iff.1 h
    obtain ⟨_, hz, key'⟩ := Number.compare?_eq_some_iff.1 h'
    exact Number.compare?_eq_some_iff.2 ⟨hx, hz, Std.TransCmp.lt_trans key key'⟩
  · cases w <;> simp only [order?, Option.some.injEq, reduceCtorEq] at h' ⊢
    exact Std.TransCmp.lt_trans h h'

/-- Values that are in an order are equal if neither comes first. -/
theorem same_eq (h : v.order? w = some (some o)) : v.same w = o.isEq := by
  cases v <;> cases w <;> simp only [order?, Option.some.injEq, reduceCtorEq] at h
  · rename_i x y
    show (x.compare? y == some .eq) = _
    rw [h]
    cases o <;> rfl
  · rename_i a b
    rw [← h]
    show (a == b) = _
    rw [Bool.eq_iff_iff, beq_iff_eq, Ordering.isEq_iff_eq_eq, Std.LawfulEqOrd.compare_eq_iff_eq]

/-! ## Signs -/

/-- The operator answers this, wherever it stands. -/
def Answers (s : Symbol) (v w : Value Env) (answer : Bool) : Prop :=
  ∀ op : Token, op.kind = .symbol s → binary op v w = .ok (.bool answer)

/-- The sign holds between the values. -/
abbrev Holds (s : Symbol) (v w : Value Env) : Prop := Answers s v w true

/-- The signs of comparison. -/
def comparisons : List Symbol := [.less, .lessEqual, .greater, .greaterEqual]

/-- The orders in which a sign of comparison holds. -/
inductive Compares : Symbol → (Ordering → Bool) → Prop where
  | less : Compares .less Ordering.isLT
  | lessEqual : Compares .lessEqual Ordering.isLE
  | greater : Compares .greater Ordering.isGT
  | greaterEqual : Compares .greaterEqual Ordering.isGE

theorem exists_compares (mem : s ∈ comparisons) : ∃ holds, Compares s holds := by
  simp only [comparisons, List.mem_cons, List.not_mem_nil, or_false] at mem
  rcases mem with rfl | rfl | rfl | rfl
  · exact ⟨_, .less⟩
  · exact ⟨_, .lessEqual⟩
  · exact ⟨_, .greater⟩
  · exact ⟨_, .greaterEqual⟩

theorem Compares.binary_eq {op : Token} (h : Compares s holds) (kind : op.kind = .symbol s) :
    binary op v w = comparison op.lexeme holds v w := by
  unfold binary
  rw [kind]
  cases h <;> rfl

/-- There is one answer. -/
theorem answers_iff {answer : Bool} (known : Answers s v w answer) (other : Bool) :
    Answers s v w other ↔ answer = other := by
  constructor
  · intro h
    have same := (known ⟨.symbol s, "", 1, 0⟩ rfl).symm.trans (h ⟨.symbol s, "", 1, 0⟩ rfl)
    simpa using same
  · rintro rfl
    exact known

theorem answers_equal (v w : Value Env) : Answers .equalEqual v w (v.same w) := by
  intro op kind
  simp [binary, kind]

theorem answers_unequal (v w : Value Env) : Answers .bangEqual v w (!v.same w) := by
  intro op kind
  simp [binary, kind]

theorem holds_equal_iff : Holds .equalEqual v w ↔ v.same w = true := answers_iff (answers_equal v w) true

/-- The sign answers by the order. -/
theorem Compares.answers (h : Compares s holds) (order : v.order? w = some (some o)) :
    Answers s v w (holds o) := by
  intro op kind
  rw [h.binary_eq kind, comparison, order]
  rfl

theorem Compares.holds_iff (h : Compares s holds) (order : v.order? w = some (some o)) :
    Holds s v w ↔ holds o = true := answers_iff (h.answers order) true

/-- The first value comes first. -/
theorem holds_less_iff : Holds .less v w ↔ v.order? w = some (some .lt) := by
  constructor
  · intro h
    have answer := h ⟨.symbol .less, "", 1, 0⟩ rfl
    rw [Compares.less.binary_eq rfl, comparison] at answer
    cases order : v.order? w with
    | none => simp [order] at answer
    | some found =>
      cases found with
      | none => simp [order] at answer
      | some o => cases o <;> simp [order] at answer ⊢
  · intro order
    exact (Compares.less.holds_iff order).2 rfl

/-! ## Laws -/

/-- How the signs of equality answer. -/
structure EqualityLaws (Env : Type) : Prop where
  /-- There is an answer, and the other sign gives the opposite one. -/
  negated : ∀ v w : Value Env, ∃ answer, Answers .equalEqual v w answer ∧ Answers .bangEqual v w !answer
  symm : ∀ {v w : Value Env}, Holds .equalEqual v w → Holds .equalEqual w v
  trans : ∀ {u v w : Value Env},
    Holds .equalEqual u v → Holds .equalEqual v w → Holds .equalEqual u w
  /-- Values of different kinds are never equal. -/
  sameKind : ∀ {v w : Value Env}, Holds .equalEqual v w → SameKind v w
  self : ∀ v : Value Env, Holds .equalEqual v v ↔ ¬v.IsNaN

/-- How the signs of comparison answer, and what they have to do with equality. -/
structure OrderLaws (Env : Type) : Prop where
  /-- Values that can be compared are so by each of the signs. -/
  answers : ∀ {v w : Value Env}, Comparable v w → ∀ s ∈ comparisons, ∃ answer, Answers s v w answer
  /-- One of two ordered values comes first, or they are equal. -/
  exactlyOne : ∀ {v w : Value Env}, Ordered v w →
    ∃! s, s ∈ [Symbol.less, .equalEqual, .greater] ∧ Holds s v w
  trans : ∀ {u v w : Value Env}, Holds .less u v → Holds .less v w → Holds .less u w
  lessEqual_iff : ∀ {v w : Value Env}, Ordered v w →
    (Holds .lessEqual v w ↔ Holds .less v w ∨ Holds .equalEqual v w)
  greaterEqual_iff : ∀ {v w : Value Env}, Ordered v w →
    (Holds .greaterEqual v w ↔ Holds .lessEqual w v)
  /-- What is no number is neither before nor behind anything. -/
  isNaN : ∀ {v w : Value Env}, Comparable v w → v.IsNaN ∨ w.IsNaN →
    ∀ s ∈ comparisons, Answers s v w false
  bytes : ∀ a b : String, Holds .less (.string a : Value Env) (.string b) ↔ Text.bytes a < Text.bytes b
  codePoints : ∀ a b : String,
    Holds .less (.string a : Value Env) (.string b) ↔ Text.codePoints a < Text.codePoints b
  /-- Other values cannot be compared. -/
  others : ∀ {v w : Value Env}, ¬Comparable v w → ∀ s ∈ comparisons, ∀ op : Token,
    op.kind = .symbol s → binary op v w = .error (.operandsNotComparable op.lexeme)

theorem equalityLaws (Env : Type) : EqualityLaws Env where
  negated v w := ⟨_, answers_equal v w, answers_unequal v w⟩
  symm h := holds_equal_iff.2 (same_symm (holds_equal_iff.1 h))
  trans h h' := holds_equal_iff.2 (same_trans (holds_equal_iff.1 h) (holds_equal_iff.1 h'))
  sameKind h := sameKind_of_same (holds_equal_iff.1 h)
  self _ := holds_equal_iff.trans same_self

/-- The sign of an order. -/
def sign : Ordering → Symbol
  | .lt => .less
  | .eq => .equalEqual
  | .gt => .greater

/-- Between values that are in an order, just its sign holds. -/
theorem holds_iff_eq_sign (order : v.order? w = some (some o))
    (mem : s ∈ [Symbol.less, .equalEqual, .greater]) : Holds s v w ↔ s = sign o := by
  simp only [List.mem_cons, List.not_mem_nil, or_false] at mem
  rcases mem with rfl | rfl | rfl
  · rw [Compares.less.holds_iff order]
    cases o <;> decide
  · rw [holds_equal_iff, same_eq order]
    cases o <;> decide
  · rw [Compares.greater.holds_iff order]
    cases o <;> decide

theorem exactlyOne_of_ordered (h : Ordered v w) :
    ∃! s, s ∈ [Symbol.less, .equalEqual, .greater] ∧ Holds s v w := by
  obtain ⟨o, order⟩ := ordered_iff.1 h
  have mem : sign o ∈ [Symbol.less, .equalEqual, .greater] := by cases o <;> decide
  refine ⟨sign o, ⟨mem, (holds_iff_eq_sign order mem).2 rfl⟩, ?_⟩
  rintro s ⟨mem, holds⟩
  exact (holds_iff_eq_sign order mem).1 holds

/-- Values that can be compared but are in no order answer no to everything. -/
theorem Compares.answers_of_isNaN (h : Compares s holds) (comparable : Comparable v w)
    (isNaN : v.IsNaN ∨ w.IsNaN) : Answers s v w false := by
  have none : v.order? w = some none := by
    cases comparable with
    | numbers x y =>
      have one : x.isNaN = true ∨ y.isNaN = true := by simpa [IsNaN] using isNaN
      exact congrArg some (Number.compare?_eq_none_iff.2 one)
    | strings a b => simp [IsNaN] at isNaN
  intro op kind
  rw [h.binary_eq kind, comparison, none]
  rfl

theorem holds_less_string (a b : String) :
    Holds .less (.string a : Value Env) (.string b) ↔ a < b := by
  rw [holds_less_iff]
  simp only [order?, Option.some.injEq]
  exact compareOfLessAndEq_eq_lt

theorem orderLaws (Env : Type) : OrderLaws Env where
  answers {v w} comparable s mem := by
    obtain ⟨holds, compares⟩ := exists_compares mem
    by_cases isNaN : v.IsNaN ∨ w.IsNaN
    · exact ⟨_, compares.answers_of_isNaN comparable isNaN⟩
    · rw [not_or] at isNaN
      obtain ⟨o, order⟩ := ordered_iff.1 ⟨comparable, isNaN.1, isNaN.2⟩
      exact ⟨_, compares.answers order⟩
  exactlyOne := exactlyOne_of_ordered
  trans h h' := holds_less_iff.2 (order?_trans (holds_less_iff.1 h) (holds_less_iff.1 h'))
  lessEqual_iff h := by
    obtain ⟨o, order⟩ := ordered_iff.1 h
    rw [Compares.lessEqual.holds_iff order, Compares.less.holds_iff order, holds_equal_iff,
      same_eq order]
    cases o <;> decide
  greaterEqual_iff h := by
    obtain ⟨o, order⟩ := ordered_iff.1 h
    rw [Compares.greaterEqual.holds_iff order, Compares.lessEqual.holds_iff (order?_swap order)]
    cases o <;> decide
  isNaN comparable isNaN s mem := by
    obtain ⟨holds, compares⟩ := exists_compares mem
    exact compares.answers_of_isNaN comparable isNaN
  bytes a b := (holds_less_string a b).trans (Text.lt_iff_bytes_lt a b)
  codePoints a b := (holds_less_string a b).trans (Text.lt_iff_codePoints_lt a b)
  others {v w} none s mem op kind := by
    obtain ⟨holds, compares⟩ := exists_compares mem
    rw [compares.binary_eq kind]
    unfold comparison
    cases v <;> cases w <;> first | rfl | exact absurd (by constructor) none

/-- **The signs of equality and comparison are coherent.** Equality is symmetric, transitive, never
across kinds, and fails to be reflexive only where a number is none; inequality is its opposite. Of
two texts, or two numbers that are some, one comes first or they are equal, and all four comparisons
agree with that. Texts are ordered by their bytes, which is the order of their characters. A number
that is none is neither before nor behind another one, and nothing else can be compared. -/
theorem signs_coherent (Env : Type) : EqualityLaws Env ∧ OrderLaws Env :=
  ⟨equalityLaws Env, orderLaws Env⟩

end Value

end Lox
