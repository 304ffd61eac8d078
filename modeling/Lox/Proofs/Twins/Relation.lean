import Lox.Proofs.Machine.Frames
import Lox.Proofs.Machine.Trace
import Lox.Proofs.Syntax.Moving
import Lox.Proofs.Values
import Lox.Syntax.References

/-!
# Twin machines

Two machines that run the same programs, of which the second one's stand at other places of a text
and have other identities for their mentions. The first machine is traced, which tells whether a
function stands in the text of the running program.

* `Setting` — how the programs differ, and the distances that both machines know.
* `Setting.Agrees` — some mentions have the same distances on both machines.
* `SameFunction`, `SameValue` — functions are the same if one is the other moved.
* `Related` — the two machines have the same values in the same frames.
* `Agree` — two parts of a run end the same way; `Agree.bind` — so does one after the other.
-/

namespace Lox

/-- The function that the moved text declares. -/
def Closure.moved (d : Shift) (f : Closure) : Closure :=
  ⟨f.identity, f.name.moved d, f.parameters.map (Token.moved d), Stmt.movedAll d f.body, f.env⟩

@[simp] theorem Closure.length_parameters_moved (d : Shift) (f : Closure) :
    (f.moved d).parameters.length = f.parameters.length := List.length_map _

namespace Twins

open Trace (Call State Stop atHome)

/-- How the programs of two machines differ, and what the machines know. -/
structure Setting where
  /-- How far the running program is moved, and how much greater identities are at most. -/
  shift : Shift
  /-- The programs that were read so far have smaller identities. -/
  known : RefId
  locals : Std.HashMap RefId Nat
  locals' : Std.HashMap RefId Nat

namespace Setting

variable (S : Setting)

/-- How many lines further down a text stands, which may be that of the running program. -/
def linesAt (home : Bool) : Nat := if home then S.shift.lines else 0

/-- How far a text is moved, which may be that of the running program, and the identities of whose
mentions are greater by `k`. -/
def shiftAt (home : Bool) (k : Nat) : Shift :=
  ⟨S.linesAt home, if home then S.shift.bytes else 0, k⟩

/-- The same error, on the line where it is reported of the moved program. -/
def halt (stop : Stop) : Halt :=
  match stop.halt with
  | .failure e => .failure ⟨e.cause, e.line + S.linesAt (atHome stop.calls)⟩
  | .outOfFuel => .outOfFuel

/-- On the second machine these mentions have identities greater by `k`, and the same distances. -/
structure Agrees (k : Nat) (refs : List Reference) : Prop where
  le : k ≤ S.shift.ids
  known : ∀ r ∈ refs, r.id < S.known
  distance : ∀ r ∈ refs, S.locals'[r.id + k]? = S.locals[r.id]?

variable {S} {k : Nat} {refs refs' : List Reference}

theorem Agrees.left (h : S.Agrees k (refs ++ refs')) : S.Agrees k refs :=
  ⟨h.le, fun r hr => h.known r (List.mem_append_left _ hr),
    fun r hr => h.distance r (List.mem_append_left _ hr)⟩

theorem Agrees.right (h : S.Agrees k (refs ++ refs')) : S.Agrees k refs' :=
  ⟨h.le, fun r hr => h.known r (List.mem_append_right _ hr),
    fun r hr => h.distance r (List.mem_append_right _ hr)⟩

theorem Agrees.of_cons {r : Reference} (h : S.Agrees k (r :: refs)) : S.Agrees k refs :=
  Agrees.right (show S.Agrees k ([r] ++ refs) from h)

end Setting

/-! ## The same values -/

/-- The functions that were made so far. -/
structure Functions where
  /-- They have smaller identities. -/
  next : Nat
  /-- The identities of those that stand in the text of the running program. -/
  own : List Nat

/-- The functions that there are at a moment of a run. -/
def Functions.of (w : State) : Functions := ⟨w.machine.nextIdentity, w.own⟩

/-- Functions are added. Of those that there were the same stand in the running program. -/
structure Functions.Grows (F F' : Functions) : Prop where
  next_le : F.next ≤ F'.next
  own : ∀ i < F.next, F'.own.contains i = F.own.contains i

namespace Functions.Grows

variable {F F' F'' : Functions}

theorem refl (F : Functions) : F.Grows F := ⟨Nat.le_refl _, fun _ _ => rfl⟩

theorem trans (h : F.Grows F') (h' : F'.Grows F'') : F.Grows F'' :=
  ⟨Nat.le_trans h.next_le h'.next_le, fun i hi =>
    (h'.own i (Nat.lt_of_lt_of_le hi h.next_le)).trans (h.own i hi)⟩

end Functions.Grows

variable (S : Setting) (F : Functions)

/-- The functions come from the same declaration, which was moved as its program was. -/
structure SameFunction (f f' : Closure) : Prop where
  lt : f.identity < F.next
  moved : ∃ k, S.Agrees k (Stmt.referencesAll f.body) ∧
    f' = f.moved (S.shiftAt (F.own.contains f.identity) k)

/-- The values are the same but for the places at which functions were declared. -/
inductive SameValue : Value → Value → Prop where
  | nil : SameValue .nil .nil
  | bool (b : Bool) : SameValue (.bool b) (.bool b)
  | number (x : Number) : SameValue (.number x) (.number x)
  | string (s : String) : SameValue (.string s) (.string s)
  | function {f f' : Closure} (same : SameFunction S F f f') :
    SameValue (.function f) (.function f')

/-- Two ways to end a statement that are the same. -/
inductive SameFlow : Flow → Flow → Prop where
  | normal : SameFlow .normal .normal
  | returned {v v' : Value} (same : SameValue S F v v') : SameFlow (.returned v) (.returned v')

/-- The results of an operation are the same, or the same error. -/
inductive SameResult :
    Except RuntimeError.Cause Value → Except RuntimeError.Cause Value → Prop where
  | ok {v v' : Value} (same : SameValue S F v v') : SameResult (.ok v) (.ok v')
  | error (cause : RuntimeError.Cause) : SameResult (.error cause) (.error cause)

variable {S F} {F' : Functions} {f f' : Closure} {v v' w w' : Value}

theorem SameFunction.mono (h : SameFunction S F f f') (grows : F.Grows F') :
    SameFunction S F' f f' := by
  refine ⟨Nat.lt_of_lt_of_le h.lt grows.next_le, ?_⟩
  rw [grows.own _ h.lt]
  exact h.moved

theorem SameFunction.length_parameters (h : SameFunction S F f f') :
    f'.parameters.length = f.parameters.length := by
  obtain ⟨k, -, rfl⟩ := h.moved
  exact f.length_parameters_moved _

namespace SameValue

theorem mono (h : SameValue S F v v') (grows : F.Grows F') : SameValue S F' v v' := by
  cases h with
  | nil => exact .nil
  | bool b => exact .bool b
  | number x => exact .number x
  | string s => exact .string s
  | function same => exact .function (same.mono grows)

theorem ofLiteral (value : Literal) : SameValue S F (.ofLiteral value) (.ofLiteral value) := by
  cases value <;> constructor

theorem of_plain (h : v.Plain) : SameValue S F v v := by
  cases v with
  | function f => exact absurd rfl (h f)
  | _ => constructor

/-- No operator tells them apart. -/
theorem alike (h : SameValue S F v v') : v.Alike v' := by
  cases h with
  | function same =>
    obtain ⟨k, -, rfl⟩ := same.moved
    exact .function rfl rfl
  | _ => exact .same _

theorem settledBy_eq (h : SameValue S F v v') (op : Connective) :
    op.settledBy v' = op.settledBy v := by
  cases op <;> simp [Connective.settledBy, h.alike.truthy_eq]

end SameValue

/-! Operators make values of which none is a function, and do not look into functions. -/

theorem SameResult.of_plain {r : Except RuntimeError.Cause Value}
    (plain : ∀ v, r = .ok v → v.Plain) : SameResult S F r r := by
  cases r with
  | error cause => exact .error cause
  | ok v => exact .ok (.of_plain (plain v rfl))

theorem SameValue.binary (op : Token) (d : Shift) (h : SameValue S F v v')
    (h' : SameValue S F w w') :
    SameResult S F (Value.binary op v w) (Value.binary (op.moved d) v' w') := by
  rw [Value.Alike.binary_eq rfl rfl h.alike h'.alike]
  exact .of_plain (Value.forgets_binary op v w).plain

theorem SameValue.unary (op : Token) (d : Shift) (h : SameValue S F v v') :
    SameResult S F (Value.unary op v) (Value.unary (op.moved d) v') := by
  rw [Value.Alike.unary_eq rfl rfl h.alike]
  exact .of_plain (Value.forgets_unary op v).plain

theorem SameFlow.result {flow flow' : Flow} (h : SameFlow S F flow flow') :
    SameValue S F flow.result flow'.result := by
  cases h with
  | normal => exact .nil
  | returned same => exact same

/-! ## Related machines -/

/-- The frames have the same parent and the same variables. -/
structure SameFrame (S : Setting) (F : Functions) (frame frame' : Frame) : Prop where
  parent : frame'.parent = frame.parent
  bindings : frame.bindings.Rel (SameValue S F) frame'.bindings

/-- There are the same frames, which have the same parents and the same variables. -/
structure SameFrames (S : Setting) (F : Functions) (frames frames' : Frames) : Prop where
  size : frames'.size = frames.size
  all : ∀ i : Nat, Option.Rel (SameFrame S F) frames.all[i]? frames'.all[i]?

/-- The machines are the same but for the places at which functions were declared. -/
structure Related (S : Setting) (w : State) (m : Machine) : Prop where
  frames : SameFrames S (.of w) w.machine.frames m.frames
  current : m.current = w.machine.current
  sink : m.sink = w.machine.sink
  depth : m.depth = w.machine.depth
  nextIdentity : m.nextIdentity = w.machine.nextIdentity
  locals : w.machine.locals = S.locals
  locals' : m.locals = S.locals'
  own_lt : ∀ i ∈ w.own, i < w.machine.nextIdentity

namespace SameFrames

variable {frames frames' : Frames} {i j : FrameId} {name : String}

theorem mono (h : SameFrames S F frames frames') (grows : F.Grows F') :
    SameFrames S F' frames frames' := by
  refine ⟨h.size, fun i => ?_⟩
  have same := h.all i
  generalize frames.all[i]? = frame, frames'.all[i]? = frame' at same
  cases same with
  | none => exact .none
  | some same => exact .some ⟨same.parent, same.bindings.imp fun _ _ same => same.mono grows⟩

theorem bindings (h : SameFrames S F frames frames') (i : FrameId) :
    (frames.bindings i).Rel (SameValue S F) (frames'.bindings i) := by
  have same := h.all i
  unfold Frames.bindings
  generalize frames.all[i]? = frame, frames'.all[i]? = frame' at same
  cases same with
  | none => exact .nil
  | some same => exact same.bindings

theorem parent?_eq (h : SameFrames S F frames frames') (i : FrameId) :
    frames'.parent? i = frames.parent? i := by
  have same := h.all i
  unfold Frames.parent?
  generalize frames.all[i]? = frame, frames'.all[i]? = frame' at same
  cases same with
  | none => rfl
  | some same => exact same.parent

theorem holder?_eq (h : SameFrames S F frames frames') (name : String) (i : FrameId) :
    frames'.holder? name i = frames.holder? name i :=
  Frames.holder?_congr h.parent?_eq (fun j => (h.bindings j).holds name) i

theorem holderAt?_eq (h : SameFrames S F frames frames') (name : String) (i : FrameId)
    (distance : Nat) : frames'.holderAt? name i distance = frames.holderAt? name i distance := by
  unfold Frames.holderAt?
  rw [Frames.ancestor?_congr h.parent?_eq]
  congr 1
  funext j
  exact (h.bindings j).holds name

theorem define (h : SameFrames S F frames frames') (i : FrameId) (name : String)
    (same : SameValue S F v v') :
    SameFrames S F (frames.define i name v) (frames'.define i name v') := by
  refine ⟨by simp [h.size], fun j => ?_⟩
  have both := h.all j
  simp only [Frames.define, Array.getElem?_modify]
  generalize frames.all[j]? = frame, frames'.all[j]? = frame' at both
  split
  · cases both with
    | none => exact .none
    | some both => exact .some ⟨both.parent, both.bindings.insert name same⟩
  · exact both

theorem push {bindings bindings' : Bindings} (h : SameFrames S F frames frames')
    (parent : FrameId) (same : bindings.Rel (SameValue S F) bindings') :
    SameFrames S F (frames.push parent bindings) (frames'.push parent bindings') := by
  refine ⟨by simp [h.size], fun j => ?_⟩
  have size : frames'.all.size = frames.all.size := h.size
  rw [Frames.all_push, Frames.all_push, Array.getElem?_push, Array.getElem?_push, size, h.size]
  split
  · exact .some ⟨rfl, same⟩
  · exact h.all j

end SameFrames

namespace Related

variable {w : State} {m : Machine} {k : Nat} {id : RefId}

/-- A mention refers to the same frame on both machines. -/
theorem holder?_eq (h : Related S w m) (distance : S.locals'[id + k]? = S.locals[id]?)
    (name : String) : m.holder? (id + k) name = w.machine.holder? id name := by
  unfold Machine.holder?
  rw [h.locals, h.locals', distance, h.current]
  split
  · exact h.frames.holderAt?_eq name _ _
  · exact h.frames.holder?_eq name _

/-- Noting something down makes no difference. -/
theorem noting (h : Related S w m) (events : List Trace.Event) :
    Related S { w with events := events } m := { h with }

theorem pass (h : Related S w m) (calls : List Call) : Related S (w.pass calls) m := h.noting _

/-- One more call is active on both machines. -/
theorem deeper (h : Related S w m) :
    Related S { w with machine := { w.machine with depth := w.machine.depth + 1 } }
      { m with depth := m.depth + 1 } :=
  { h with depth := congrArg (· + 1) h.depth }

/-- The current frame is another one, for a while. -/
theorem inFrame (h : Related S w m) (frame : FrameId) :
    Related S { w with machine := { w.machine with current := frame } }
      { m with current := frame } :=
  { h with current := rfl }

end Related

end Twins

end Lox
