import Lox.Value

/-!
# Values without surroundings

Operators do not look at where a function was declared.

* `Value.forget` — a value without the surroundings of functions.
* `Value.Plain` — a value that is no function, as all are that operators make.
* `Value.forgets_binary`, `Value.forgets_unary` — both for all operators.
* `Value.Alike` — values that no operator tells apart; `Alike.binary_eq`, `Alike.unary_eq`.
-/

namespace Lox.Value

variable {Env : Type}

/-- The value without the surroundings of a function. -/
def forget : Value Env → Value Unit
  | .nil => .nil
  | .bool b => .bool b
  | .number x => .number x
  | .string s => .string s
  | .function f => .function ⟨f.identity, f.name, f.parameters, f.body, ()⟩

theorem text_forget (v : Value Env) : v.forget.text = v.text := by cases v <;> rfl

theorem truthy_forget (v : Value Env) : v.forget.truthy = v.truthy := by cases v <;> rfl

theorem same_forget (v w : Value Env) : v.forget.same w.forget = v.same w := by
  cases v <;> cases w <;> rfl

/-- What an operator makes is no function. -/
def Plain (v : Value Env) : Prop := ∀ f, v ≠ .function f

/-- The operation gives the same without the surroundings of functions, and no function. -/
structure Forgets (r : Except RuntimeError.Cause (Value Env))
    (r' : Except RuntimeError.Cause (Value Unit)) : Prop where
  map_eq : r.map forget = r'
  plain : ∀ v, r = .ok v → v.Plain

theorem Forgets.ok {v : Value Env} (h : v.Plain) : Forgets (.ok v) (.ok v.forget) :=
  ⟨rfl, fun _ hv => by cases hv; exact h⟩

theorem Forgets.error (cause : RuntimeError.Cause) :
    Forgets (.error cause : Except _ (Value Env)) (.error cause) :=
  ⟨rfl, fun _ hv => by cases hv⟩

theorem forgets_comparison (op : String) (holds : Ordering → Bool) (v w : Value Env) :
    Forgets (comparison op holds v w) (comparison op holds v.forget w.forget) := by
  have same : v.forget.order? w.forget = v.order? w := by cases v <;> cases w <;> rfl
  unfold comparison
  rw [same]
  split
  · exact .ok (by rintro f ⟨⟩)
  · exact .error _

theorem forgets_arithmetic (op : String) (f : Number → Number → Number) (v w : Value Env) :
    Forgets (arithmetic op f v w) (arithmetic op f v.forget w.forget) := by
  cases v <;> cases w <;> first | exact .error _ | exact .ok (by rintro f ⟨⟩)

theorem forgets_plus (op : String) (v w : Value Env) :
    Forgets (plus op v w) (plus op v.forget w.forget) := by
  cases v <;> cases w <;> first | exact .error _ | exact .ok (by rintro f ⟨⟩)

theorem forgets_divide (op : String) (v w : Value Env) :
    Forgets (divide op v w) (divide op v.forget w.forget) := by
  cases v <;> cases w <;> try exact .error _
  rename_i x y
  show Forgets (if y.isZero then _ else _) (if y.isZero then _ else _)
  split
  · exact .error _
  · exact .ok (by rintro f ⟨⟩)

theorem forgets_binary (op : Token) (v w : Value Env) :
    Forgets (binary op v w) (binary op v.forget w.forget) := by
  unfold binary
  split
  · exact forgets_plus _ _ _
  · exact forgets_arithmetic _ _ _ _
  · exact forgets_arithmetic _ _ _ _
  · exact forgets_divide _ _ _
  · exact forgets_comparison _ _ _ _
  · exact forgets_comparison _ _ _ _
  · exact forgets_comparison _ _ _ _
  · exact forgets_comparison _ _ _ _
  · rw [same_forget]
    exact .ok (by rintro f ⟨⟩)
  · rw [same_forget]
    exact .ok (by rintro f ⟨⟩)
  · exact .error _

theorem forgets_unary (op : Token) (v : Value Env) : Forgets (unary op v) (unary op v.forget) := by
  unfold unary
  cases hk : op.kind with
  | symbol s => cases s <;> cases v <;> first | exact .error _ | exact .ok (by rintro f ⟨⟩)
  | _ => exact .error _

/-! ## Errors of operators -/

/-- Operators know nothing of variables. -/
theorem binary_ne_undefined (op : Token) (v w : Value Env) (name : String) :
    binary op v w ≠ .error (.undefinedVariable name) := by
  unfold binary plus arithmetic divide comparison
  repeat' split
  all_goals rintro ⟨⟩

theorem unary_ne_undefined (op : Token) (v : Value Env) (name : String) :
    unary op v ≠ .error (.undefinedVariable name) := by
  unfold unary
  split <;> rintro ⟨⟩

/-! ## Values that no operator tells apart -/

/-- The values are the same, or functions with the same identity that are shown in the same way. -/
inductive Alike : Value Env → Value Env → Prop where
  | same (v : Value Env) : Alike v v
  | function {f f' : Closure Env} (identity : f'.identity = f.identity)
      (name : f'.name.lexeme = f.name.lexeme) : Alike (.function f) (.function f')

namespace Alike

variable {v v' w w' : Value Env}

theorem text_eq (h : Alike v v') : v'.text = v.text := by
  cases h with
  | same => rfl
  | function _ name => rw [text, text, name]

theorem truthy_eq (h : Alike v v') : v'.truthy = v.truthy := by cases h <;> rfl

theorem same_eq (h : Alike v v') (h' : Alike w w') : v'.same w' = v.same w := by
  cases h with
  | same =>
    cases h' with
    | same => rfl
    | function identity => cases v <;> simp [Value.same, identity]
  | function identity =>
    cases h' with
    | same => cases w <;> simp [Value.same, identity]
    | function identity' => rw [Value.same, Value.same, identity, identity']

theorem order?_eq (h : Alike v v') (h' : Alike w w') : v'.order? w' = v.order? w := by
  cases h <;> cases h' <;> first | rfl | (cases v <;> rfl)

theorem arithmetic_eq (op : String) (f : Number → Number → Number) (h : Alike v v')
    (h' : Alike w w') : arithmetic op f v' w' = arithmetic op f v w := by
  cases h <;> cases h' <;> first | rfl | (cases v <;> rfl)

theorem plus_eq (op : String) (h : Alike v v') (h' : Alike w w') :
    plus op v' w' = plus op v w := by
  have text := h'.text_eq
  cases h with
  | function => rfl
  | same =>
    cases v with
    | string s => rw [plus, plus, text]
    | number x => cases h' <;> rfl
    | _ => rfl

theorem divide_eq (op : String) (h : Alike v v') (h' : Alike w w') :
    divide op v' w' = divide op v w := by
  cases h <;> cases h' <;> first | rfl | (cases v <;> rfl)

/-- An operator makes the same of them, wherever it stands. -/
theorem binary_eq {op op' : Token} (kind : op'.kind = op.kind) (lexeme : op'.lexeme = op.lexeme)
    (h : Alike v v') (h' : Alike w w') : Value.binary op' v' w' = Value.binary op v w := by
  unfold Value.binary comparison
  rw [kind, lexeme, h.same_eq h', h.order?_eq h', h.plus_eq _ h', h.divide_eq _ h',
    h.arithmetic_eq _ _ h', h.arithmetic_eq _ _ h']

theorem unary_eq {op op' : Token} (kind : op'.kind = op.kind) (lexeme : op'.lexeme = op.lexeme)
    (h : Alike v v') : Value.unary op' v' = Value.unary op v := by
  unfold Value.unary
  rw [kind, lexeme]
  cases h with
  | same => rfl
  | function =>
    cases op.kind with
    | symbol s => cases s <;> rfl
    | _ => rfl

end Alike

end Lox.Value
