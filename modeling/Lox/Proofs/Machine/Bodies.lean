import Lox.Proofs.Ending
import Lox.Proofs.Machine.Frames
import Lox.Machine.Execution

/-!
# The bodies of functions

A call runs the body of a function that is found in a variable, so what is to hold of a run must hold of
the bodies of all functions that the machine can come across. They come from declarations that were
executed, and no step makes others.

* `Value.Carries`, `Bindings.Carry`, `Frames.Carry` — all functions have bodies with a property.
* `Works` — a computation keeps it so, and halts only in certain ways.
-/

namespace Lox

variable {P : List Stmt → Prop}

/-- If the value is a function, its body has the property. -/
def Value.Carries (P : List Stmt → Prop) : Value → Prop
  | .function f => P f.body
  | _ => True

/-- If the function around returns a function, its body has the property. -/
def Flow.Carries (P : List Stmt → Prop) : Flow → Prop
  | .normal => True
  | .returned value => value.Carries P

theorem Flow.Carries.result {flow : Flow} (h : flow.Carries P) : flow.result.Carries P := by
  cases flow with
  | normal => trivial
  | returned value => exact h

namespace Value

theorem carries_ofLiteral (value : Literal) : (ofLiteral value : Value).Carries P := by
  cases value <;> trivial

/-- No operator makes a function. -/
theorem carries_binary {op : Token} {v w u : Value} (h : binary op v w = .ok u) : u.Carries P := by
  unfold binary plus arithmetic divide comparison at h
  repeat' split at h
  all_goals cases h <;> trivial

theorem carries_unary {op : Token} {v u : Value} (h : unary op v = .ok u) : u.Carries P := by
  unfold unary at h
  split at h <;> cases h <;> trivial

end Value

/-- All functions that are bound to names have bodies with the property. -/
def Bindings.Carry (P : List Stmt → Prop) (bindings : Bindings) : Prop :=
  ∀ name v, bindings.lookup name = some v → v.Carries P

namespace Bindings.Carry

variable {bindings : Bindings} {value : Value}

theorem nil : Bindings.Carry P [] := fun _ _ found => by cases found

theorem insert (h : bindings.Carry P) (name : String) (new : value.Carries P) :
    (bindings.insert name value).Carry P := by
  intro other v found
  rw [Bindings.lookup_insert] at found
  split at found
  · cases found
    exact new
  · exact h other v found

theorem parameters (parameters : List Token) {arguments : List Value}
    (h : ∀ v ∈ arguments, v.Carries P) : (parameterBindings parameters arguments).Carry P := by
  have each : ∀ p ∈ parameters.zip arguments, p.2.Carries P := fun p mem =>
    h p.2 (List.of_mem_zip mem).2
  unfold parameterBindings
  generalize parameters.zip arguments = pairs at each
  suffices ∀ bindings : Bindings, bindings.Carry P →
      (pairs.foldl (fun bindings p => bindings.insert p.1.lexeme p.2) bindings).Carry P from
    this [] nil
  induction pairs with
  | nil => exact fun _ good => good
  | cons p pairs ih =>
    intro bindings good
    have first := good.insert p.1.lexeme (each p List.mem_cons_self)
    exact ih (fun q mem => each q (List.mem_cons_of_mem p mem)) _ first

end Bindings.Carry

/-- All functions that variables hold have bodies with the property. -/
def Frames.Carry (P : List Stmt → Prop) (frames : Frames) : Prop := ∀ i, (frames.bindings i).Carry P

namespace Frames.Carry

variable {frames : Frames}

theorem start (limit : Option Nat) : (Machine.start limit).frames.Carry P := by
  intro i
  have empty : (Machine.start limit).frames.bindings i = [] := by cases i <;> rfl
  rw [empty]
  exact .nil

theorem define {value : Value} (h : frames.Carry P) (i : FrameId) (name : String)
    (new : value.Carries P) : (frames.define i name value).Carry P := by
  intro j
  rcases Nat.lt_or_ge i frames.size with lt | ge
  · rw [Frames.bindings_define lt]
    split
    · exact (h i).insert name new
    · exact h j
  · rw [Frames.define_of_size_le ge]
    exact h j

theorem push {bindings : Bindings} (h : frames.Carry P) (parent : FrameId)
    (new : bindings.Carry P) : (frames.push parent bindings).Carry P := by
  intro i
  by_cases last : i = frames.size
  · subst last
    rw [Frames.bindings_push_self]
    exact new
  · rw [Frames.bindings_push_of_ne last]
    exact h i

end Frames.Carry

/-! ## Computations -/

/-- If all functions have bodies with the property then they do so afterwards as well. The computation
has a good result, or it halts in one of certain ways. -/
def Works {α : Type} (P : List Stmt → Prop) (stops : Halt → Prop) (x : Eval α) (good : α → Prop) :
    Prop :=
  ∀ m, m.frames.Carry P → Ends x m (fun a m' => good a ∧ m'.frames.Carry P)
    fun halt m' => stops halt ∧ m'.frames.Carry P

namespace Works

variable {α β : Type} {stops : Halt → Prop} {x : Eval α} {good : α → Prop} {good' : β → Prop}

theorem pure {a : α} (h : good a) : Works P stops (Pure.pure a) good := fun _ hm => ⟨h, hm⟩

theorem bind {f : α → Eval β} (h : Works P stops x good)
    (next : ∀ a, good a → Works P stops (f a) good') : Works P stops (x >>= f) good' := by
  intro m hm
  rw [Ends.bind_iff]
  exact (h m hm).mono (fun a m' ⟨ha, hm'⟩ => next a ha m' hm') fun _ _ stopped => stopped

theorem ite {c : Prop} [Decidable c] {y : Eval α} (hx : Works P stops x good)
    (hy : Works P stops y good) : Works P stops (if c then x else y) good := by
  split
  · exact hx
  · exact hy

theorem fail {line : Nat} {cause : RuntimeError.Cause} (h : stops (.failure ⟨cause, line⟩)) :
    Works P stops (Eval.fail line cause : Eval α) good := fun _ hm => ⟨h, hm⟩

theorem outOfFuel (h : stops .outOfFuel) : Works P stops (Eval.outOfFuel : Eval α) good :=
  fun _ hm => ⟨h, hm⟩

theorem orFail {line : Nat} {r : Except RuntimeError.Cause α} (h : ∀ a, r = .ok a → good a)
    (h' : ∀ cause, r = .error cause → stops (.failure ⟨cause, line⟩)) :
    Works P stops (Eval.orFail line r) good := by
  cases r with
  | ok a => exact fun m hm => ⟨h a rfl, hm⟩
  | error cause => exact .fail (h' cause rfl)

theorem newFrame (parent : FrameId) {bindings : Bindings} (h : bindings.Carry P) :
    Works P stops (Eval.newFrame parent bindings) fun _ => True :=
  fun _ hm => ⟨trivial, hm.push parent h⟩

theorem define (name : Token) {value : Value} (h : value.Carries P) :
    Works P stops (Eval.define name value) fun _ => True :=
  fun _ hm => ⟨trivial, hm.define _ _ h⟩

theorem closure (name : Token) (parameters : List Token) {body : List Stmt} (h : P body) :
    Works P stops (Eval.closure name parameters body) (Value.Carries P) := fun _ hm => ⟨h, hm⟩

/-- Reading fails if there is no such variable. -/
theorem read (id : RefId) (name : Token)
    (h : stops (.failure ⟨.undefinedVariable name.lexeme, name.line⟩)) :
    Works P stops (Eval.read id name) (Value.Carries P) := by
  intro m hm
  unfold Ends Eval.read
  cases found : (m.holder? id name.lexeme).bind fun i => (m.frames.bindings i).lookup name.lexeme with
  | some value =>
    obtain ⟨i, -, lookup⟩ := Option.bind_eq_some_iff.1 found
    exact ⟨hm i name.lexeme value lookup, hm⟩
  | none => exact ⟨h, hm⟩

theorem write (id : RefId) (name : Token) {value : Value} (hv : value.Carries P)
    (h : stops (.failure ⟨.undefinedVariable name.lexeme, name.line⟩)) :
    Works P stops (Eval.write id name value) fun _ => True := by
  intro m hm
  unfold Ends Eval.write
  cases m.holder? id name.lexeme with
  | some i => exact ⟨trivial, hm.define i _ hv⟩
  | none => exact ⟨h, hm⟩

theorem print {line : Nat} (text : String) (h : stops (.failure ⟨.sinkFull, line⟩)) :
    Works P stops (Eval.print line text) fun _ => True := by
  intro m hm
  unfold Ends Eval.print
  cases m.sink.write (text ++ "\n") with
  | mk fits sink =>
    cases fits with
    | true => exact ⟨trivial, hm⟩
    | false => exact ⟨h, hm⟩

theorem inFrame (frame : FrameId) (h : Works P stops x good) :
    Works P stops (Eval.inFrame frame x) good := by
  intro m hm
  have inside := h { m with current := frame } hm
  unfold Ends at *
  unfold Eval.inFrame
  dsimp only
  split at inside <;> rename_i ran <;> rw [ran] <;> exact inside

theorem inNewFrame (h : Works P stops x good) : Works P stops (Eval.inNewFrame x) good := by
  have get : Works P stops (MonadState.get : Eval Machine) fun _ => True := fun m hm => ⟨trivial, hm⟩
  unfold Eval.inNewFrame
  exact get.bind fun m _ => (newFrame m.current .nil).bind fun frame _ => h.inFrame frame

theorem duringCall (h : Works P stops x good) : Works P stops (Eval.duringCall x) good := by
  intro m hm
  have inside := h { m with depth := m.depth + 1 } hm
  unfold Ends at *
  unfold Eval.duringCall
  dsimp only
  split at inside <;> rename_i ran <;> rw [ran] <;> exact inside

end Works

end Lox
