import Lox.Machine.Execution
import Mathlib.Data.List.Forall2

/-!
# Frames and what is done to them

* `Bindings.Rel` — bindings whose values belong together name by name; `Bindings.Keyed` — the same
  under other names.
* `Bindings.rel_parameterBindings` — the variables of two calls.
* `Bindings.lookup_insert` — a name that gets a value has it, and no other name is touched.
* `Frames.bindings_define`, `Frames.parent?_define` — giving a name a value changes one frame.
* `Frames.bindings_push`, `Frames.parent?_push` — a new frame changes none that was there.
* `Frames.defineAll_push` — the newest frame gets its variables at once or one after the other.
* `Frames.Extends` — frames are added, and those that were there keep their parents.
* `Frames.holderAt?_eq` — the frame some steps outwards, if it holds a name.
* `Frames.holds_of_holder?` — a frame that is found to hold a name holds it.
-/

namespace Lox

namespace Bindings

variable {Env : Type} {bindings : Bindings Env} {name other : String} {value : Value Env}

theorem lookup_insert :
    (bindings.insert name value).lookup other =
      if other = name then some value else bindings.lookup other := by
  induction bindings with
  | nil =>
    by_cases h : other = name
    · simp [insert, h]
    · simp [insert, List.lookup_cons, beq_eq_false_iff_ne.2 h, h]
  | cons b bindings ih =>
    obtain ⟨n, v⟩ := b
    rw [insert]
    split
    · rename_i same
      subst same
      by_cases h : other = n
      · simp [h]
      · simp [List.lookup_cons, beq_eq_false_iff_ne.2 h, h]
    · rename_i differ
      rw [List.lookup_cons, List.lookup_cons, ih]
      by_cases h : other = n
      · subst h
        simp [differ]
      · simp [beq_eq_false_iff_ne.2 h]

theorem holds_insert :
    (bindings.insert name value).holds other = (decide (other = name) || bindings.holds other) := by
  unfold holds
  rw [lookup_insert]
  by_cases h : other = name <;> simp [h]

/-- The same names, with values that belong together. -/
abbrev Rel {Env' : Type} (R : Value Env → Value Env' → Prop) :
    Bindings Env → Bindings Env' → Prop :=
  List.Forall₂ fun p q => p.1 = q.1 ∧ R p.2 q.2

namespace Rel

variable {Env' : Type} {R R' : Value Env → Value Env' → Prop} {bindings' : Bindings Env'}
variable {value' : Value Env'}

theorem imp (h : Rel R bindings bindings') (hR : ∀ v v', R v v' → R' v v') :
    Rel R' bindings bindings' :=
  List.Forall₂.imp (fun _ _ ⟨name, rel⟩ => ⟨name, hR _ _ rel⟩) h

theorem lookup (h : Rel R bindings bindings') (name : String) :
    Option.Rel R (bindings.lookup name) (bindings'.lookup name) := by
  induction h with
  | nil => exact .none
  | @cons p q bindings bindings' hpq rest ih =>
    obtain ⟨n, v⟩ := p
    obtain ⟨n', w⟩ := q
    obtain ⟨rfl, rel⟩ := hpq
    simp only [List.lookup_cons]
    split
    · exact .some rel
    · exact ih

theorem holds (h : Rel R bindings bindings') (name : String) :
    bindings'.holds name = bindings.holds name := by
  have rel := h.lookup name
  unfold Bindings.holds
  generalize bindings.lookup name = v, bindings'.lookup name = v' at rel
  cases rel <;> rfl

theorem insert (h : Rel R bindings bindings') (name : String) (rel : R value value') :
    Rel R (bindings.insert name value) (bindings'.insert name value') := by
  induction h with
  | nil => exact .cons ⟨rfl, rel⟩ .nil
  | @cons p q bindings bindings' hpq rest ih =>
    obtain ⟨n, v⟩ := p
    obtain ⟨n', w⟩ := q
    obtain ⟨rfl, other⟩ := hpq
    rw [Bindings.insert, Bindings.insert]
    split
    · exact .cons ⟨rfl, rel⟩ rest
    · exact .cons ⟨rfl, other⟩ ih

end Rel

/-- Under the name that `key` gives for a name there is a value that belongs together with that of the
name. -/
def Keyed {Env' : Type} (key : String → String) (R : Value Env → Value Env' → Prop)
    (bindings : Bindings Env) (bindings' : Bindings Env') : Prop :=
  ∀ name, Option.Rel R (bindings.lookup name) (bindings'.lookup (key name))

namespace Keyed

variable {Env' : Type} {R R' : Value Env → Value Env' → Prop} {bindings' : Bindings Env'}
variable {value' : Value Env'} {key : String → String}

theorem nil : Keyed key R [] [] := fun _ => .none

theorem imp (h : Keyed key R bindings bindings') (hR : ∀ v v', R v v' → R' v v') :
    Keyed key R' bindings bindings' := by
  intro name
  have rel := h name
  generalize bindings.lookup name = v, bindings'.lookup (key name) = v' at rel
  cases rel with
  | none => exact .none
  | some rel => exact .some (hR _ _ rel)

theorem holds (h : Keyed key R bindings bindings') (name : String) :
    bindings'.holds (key name) = bindings.holds name := by
  have rel := h name
  unfold Bindings.holds
  generalize bindings.lookup name = v, bindings'.lookup (key name) = v' at rel
  cases rel <;> rfl

/-- Different names must not get the same one. -/
theorem insert (injective : Function.Injective key) (h : Keyed key R bindings bindings')
    (name : String) (rel : R value value') :
    Keyed key R (bindings.insert name value) (bindings'.insert (key name) value') := by
  intro other
  rw [lookup_insert, lookup_insert]
  by_cases same : other = name
  · rw [if_pos same, if_pos (congrArg key same)]
    exact .some rel
  · rw [if_neg same, if_neg fun equal => same (injective equal)]
    exact h other

end Keyed

/-- What holds of the variables of two calls, parameter by parameter. -/
theorem rel_parameterBindings {P : Bindings → Bindings → Prop} {R : Value → Value → Prop}
    {other : Token → Token} {parameters : List Token} {vs vs' : List Value} (start : P [] [])
    (step : ∀ t ∈ parameters, ∀ {bindings bindings' v v'}, P bindings bindings' → R v v' →
      P (bindings.insert t.lexeme v) (bindings'.insert (other t).lexeme v'))
    (values : List.Forall₂ R vs vs') :
    P (parameterBindings parameters vs) (parameterBindings (parameters.map other) vs') := by
  have all : ∀ {bindings bindings' : Bindings}, P bindings bindings' →
      P ((parameters.zip vs).foldl (fun bindings p => bindings.insert p.1.lexeme p.2) bindings)
        (((parameters.map other).zip vs').foldl
          (fun bindings p => bindings.insert p.1.lexeme p.2) bindings') := by
    clear start
    induction parameters generalizing vs vs' with
    | nil => exact fun start => start
    | cons t parameters ih =>
      intro bindings bindings' start
      rw [List.forall_mem_cons] at step
      cases values with
      | nil => exact start
      | cons first others => exact ih step.2 others (step.1 start first)
  exact all start

end Bindings

namespace Frames

variable {frames frames' frames'' : Frames} {i j parent : FrameId} {name : String} {value : Value}
variable {bindings : Bindings}

theorem parent?_eq_none (h : frames.size ≤ i) : frames.parent? i = none := by
  unfold parent?
  rw [Array.getElem?_eq_none h]
  rfl

theorem bindings_eq_nil (h : frames.size ≤ i) : frames.bindings i = [] := by
  have none : frames.all[i]? = none := Array.getElem?_eq_none h
  rw [Frames.bindings, none]

theorem lt_size_of_parent? (h : frames.parent? i = some j) : i < frames.size := by
  rcases Nat.lt_or_ge i frames.size with lt | ge
  · exact lt
  · rw [parent?_eq_none ge] at h
    cases h

/-! ## Giving a name a value -/

@[simp] theorem size_define : (frames.define i name value).size = frames.size := by
  simp [define, size]

@[simp] theorem parent?_define : (frames.define i name value).parent? j = frames.parent? j := by
  simp only [parent?, define, Array.getElem?_modify]
  split
  · cases frames.all[j]? <;> rfl
  · rfl

theorem bindings_define (hi : i < frames.size) :
    (frames.define i name value).bindings j =
      if j = i then (frames.bindings i).insert name value else frames.bindings j := by
  have some : frames.all[i]? = some frames.all[i] := Array.getElem?_eq_getElem hi
  by_cases h : j = i
  · subst h
    simp [Frames.bindings, define, Array.getElem?_modify, some]
  · simp [Frames.bindings, define, Array.getElem?_modify, h, Ne.symm h]

theorem bindings_define_self (hi : i < frames.size) :
    (frames.define i name value).bindings i = (frames.bindings i).insert name value := by
  rw [bindings_define hi, if_pos rfl]

theorem bindings_define_of_ne (h : j ≠ i) :
    (frames.define i name value).bindings j = frames.bindings j := by
  simp [Frames.bindings, define, Array.getElem?_modify, Ne.symm h]

/-- The frame gets the name, and no other one gets any. -/
theorem holds_define {other : String} (hi : i < frames.size) :
    ((frames.define i name value).bindings j).holds other =
      (decide (j = i ∧ other = name) || (frames.bindings j).holds other) := by
  rw [bindings_define hi]
  by_cases h : j = i
  · subst h
    rw [if_pos rfl, Bindings.holds_insert]
    simp
  · rw [if_neg h]
    simp [h]

/-- Nothing is changed where there is no frame. -/
theorem define_of_size_le (h : frames.size ≤ i) : frames.define i name value = frames := by
  have none : ∀ f, frames.all.modify i f = frames.all := by
    intro f
    apply Array.ext_getElem?
    intro j
    rw [Array.getElem?_modify]
    split
    · rename_i same
      rw [← same, Array.getElem?_eq_none h]
      rfl
    · rfl
  unfold define
  simp only [none]

theorem lt_size_of_holds (h : (frames.bindings i).holds name = true) : i < frames.size := by
  rcases Nat.lt_or_ge i frames.size with lt | ge
  · exact lt
  · rw [bindings_eq_nil ge] at h
    cases h

/-! ## New frames -/

@[simp] theorem size_push : (frames.push parent bindings).size = frames.size + 1 := by
  unfold push
  split <;> simp [size]

theorem all_push (frames : Frames) (parent : FrameId) (bindings : Bindings) :
    (frames.push parent bindings).all =
      frames.all.push ⟨if parent < frames.size then some parent else none, bindings⟩ := by
  unfold push
  split <;> rfl

theorem parent?_push : (frames.push parent bindings).parent? i =
    if i = frames.size then (if parent < frames.size then some parent else none)
    else frames.parent? i := by
  have all := all_push frames parent bindings
  unfold parent?
  rw [all, Array.getElem?_push]
  show (if i = frames.size then _ else _ : Option Frame).bind _ = _
  split <;> rfl

theorem parent?_push_self (h : parent < frames.size) :
    (frames.push parent bindings).parent? frames.size = some parent := by
  rw [parent?_push, if_pos rfl, if_pos h]

theorem parent?_push_of_lt (h : i < frames.size) :
    (frames.push parent bindings).parent? i = frames.parent? i := by
  rw [parent?_push, if_neg (Nat.ne_of_lt h)]

theorem bindings_push_self : (frames.push parent bindings).bindings frames.size = bindings := by
  have all := all_push frames parent bindings
  simp [Frames.bindings, all, size]

theorem bindings_push_of_ne (h : i ≠ frames.size) :
    (frames.push parent bindings).bindings i = frames.bindings i := by
  have all := all_push frames parent bindings
  unfold Frames.bindings
  have other : ¬i = frames.all.size := h
  rw [all, Array.getElem?_push, if_neg other]

theorem bindings_push : (frames.push parent bindings).bindings i =
    if i = frames.size then bindings else frames.bindings i := by
  split
  · rename_i newest
    rw [newest, bindings_push_self]
  · rename_i older
    exact bindings_push_of_ne older

/-- Giving a name a value in the newest frame is the same as making the frame with it. -/
theorem define_push : (frames.push parent bindings).define frames.size name value =
    frames.push parent (bindings.insert name value) := by
  have all : ∀ outer : Option FrameId, (frames.all.push ⟨outer, bindings⟩).modify frames.all.size
      (fun frame => { frame with bindings := frame.bindings.insert name value }) =
        frames.all.push ⟨outer, bindings.insert name value⟩ := by
    intro outer
    apply Array.ext
    · simp
    · intro k hk hk'
      rw [Array.getElem_modify, Array.getElem_push, Array.getElem_push]
      simp only [Array.size_modify, Array.size_push] at hk
      by_cases last : k < frames.all.size
      · simp [last, Nat.ne_of_gt last]
      · have : frames.all.size = k := by omega
        simp [this]
  unfold push
  split <;> simp [define, size, all]

/-- Gives names their values in a frame, one after the other. -/
def defineAll (frames : Frames) (i : FrameId) (values : List (Token × Value)) : Frames :=
  values.foldl (fun frames p => frames.define i p.1.lexeme p.2) frames

theorem defineAll_push (values : List (Token × Value)) :
    (frames.push parent bindings).defineAll frames.size values =
      frames.push parent
        (values.foldl (fun bindings p => bindings.insert p.1.lexeme p.2) bindings) := by
  induction values generalizing bindings with
  | nil => rfl
  | cons p values ih =>
    rw [defineAll, List.foldl_cons, define_push]
    exact ih

/-! ## Frames that belong together -/

/-- What lies around a frame depends on the parents only. -/
theorem ancestor?_congr (parents : ∀ i, frames'.parent? i = frames.parent? i) (distance : Nat) :
    frames'.ancestor? i distance = frames.ancestor? i distance := by
  induction distance generalizing i with
  | zero => rfl
  | succ distance ih =>
    unfold ancestor?
    rw [parents i]
    split
    · exact ih
    · rfl

/-- Where a frame does not hold a name, the frame around it decides. -/
theorem holder?_eq (frames : Frames) (name : String) (i : FrameId) :
    frames.holder? name i = if (frames.bindings i).holds name then some i
      else (frames.parent? i).bind (frames.holder? name) := by
  rw [holder?]
  split
  · rfl
  · split <;> rename_i outer <;> rw [outer] <;> rfl

/-- The frame that is found to hold a name holds it. -/
theorem holds_of_holder? (h : frames.holder? name i = some j) :
    (frames.bindings j).holds name = true := by
  induction i using Nat.strongRecOn with
  | ind i ih =>
    rw [holder?_eq] at h
    split at h
    · rename_i here
      cases h
      exact here
    · obtain ⟨p, outer, found⟩ := Option.bind_eq_some_iff.1 h
      exact ih p (lt_of_parent? outer) found

theorem holds_of_holderAt? {distance : Nat} (h : frames.holderAt? name i distance = some j) :
    (frames.bindings j).holds name = true :=
  (Option.filter_eq_some_iff.1 h).2

/-- Which frame holds a name depends on the parents and on the frames that hold it. -/
theorem holder?_congr (parents : ∀ i, frames'.parent? i = frames.parent? i)
    (holds : ∀ i, (frames'.bindings i).holds name = (frames.bindings i).holds name) (i : FrameId) :
    frames'.holder? name i = frames.holder? name i := by
  induction i using Nat.strongRecOn with
  | ind i ih =>
    rw [holder?_eq, holder?_eq frames, holds i, parents i]
    cases outer : frames.parent? i with
    | none => rfl
    | some p => rw [Option.bind_some, Option.bind_some, ih p (lt_of_parent? outer)]

/-! ## More frames -/

/-- Frames are added, and the parents of those that were there stay. -/
structure Extends (frames frames' : Frames) : Prop where
  size_le : frames.size ≤ frames'.size
  parent?_eq : ∀ i < frames.size, frames'.parent? i = frames.parent? i

namespace Extends

theorem refl (frames : Frames) : frames.Extends frames := ⟨Nat.le_refl _, fun _ _ => rfl⟩

theorem trans (h : frames.Extends frames') (h' : frames'.Extends frames'') :
    frames.Extends frames'' :=
  ⟨Nat.le_trans h.size_le h'.size_le, fun i hi =>
    (h'.parent?_eq i (Nat.lt_of_lt_of_le hi h.size_le)).trans (h.parent?_eq i hi)⟩

theorem push (frames : Frames) (parent : FrameId) (bindings : Bindings) :
    frames.Extends (frames.push parent bindings) :=
  ⟨by simp, fun _ hi => parent?_push_of_lt hi⟩

theorem define (frames : Frames) (i : FrameId) (name : String) (value : Value) :
    frames.Extends (frames.define i name value) :=
  ⟨by simp, fun _ _ => parent?_define⟩

/-- What lies around a frame stays. -/
theorem ancestor?_eq (h : frames.Extends frames') (hi : i < frames.size) (distance : Nat) :
    frames'.ancestor? i distance = frames.ancestor? i distance := by
  induction distance generalizing i with
  | zero => rfl
  | succ distance ih =>
    unfold ancestor?
    rw [h.parent?_eq i hi]
    cases outer : frames.parent? i with
    | none => rfl
    | some p => exact ih (Nat.lt_trans (lt_of_parent? outer) hi)

end Extends

theorem ancestor?_succ {distance : Nat} (h : frames.parent? i = some parent) :
    frames.ancestor? i (distance + 1) = frames.ancestor? parent distance := by
  rw [ancestor?, h]

theorem holderAt?_eq {distance : Nat} (h : frames.ancestor? i distance = some j) :
    frames.holderAt? name i distance = if (frames.bindings j).holds name then some j else none := by
  rw [holderAt?, h]
  rfl

/-- A frame without a parent is the only one in which names are looked for from there. -/
theorem holder?_root (h : frames.parent? i = none) :
    frames.holder? name i = if (frames.bindings i).holds name then some i else none := by
  rw [holder?_eq, h]
  rfl

end Frames

end Lox
