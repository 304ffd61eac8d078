import Lox.Value

/-!
# Frames

Where the variables of a running program live. Every frame but a root has a parent, made before
it. Frames stay for good, so that functions can go on using the ones they were declared in.

* `Frame` — the variables of one scope, and the frame around it.
* `Frames` — all frames, numbered as they are made; a parent has a lower number.
* `Frames.holder?` — the nearest frame, from one outwards, that holds a name; `Frames.holderAt?` —
  the frame some steps outwards, if that one holds it.
* `Frames.get?`, `Frames.assign?`, `Frames.getAt?`, `Frames.assignAt?` — reading and assigning
  there.
-/

namespace Lox

/-- Names and their values. A name occurs at most once. -/
abbrev Bindings (Env : Type := FrameId) := List (String × Value Env)

namespace Bindings

variable {Env : Type}

/-- Gives a name a value, be it new or not. -/
def insert (name : String) (value : Value Env) : Bindings Env → Bindings Env
  | [] => [(name, value)]
  | (n, v) :: rest =>
    if n = name then (n, value) :: rest else (n, v) :: insert name value rest

/-- The name has a value. -/
def holds (bindings : Bindings Env) (name : String) : Bool := (bindings.lookup name).isSome

end Bindings

/-- The variables of one scope, and the frame around it. -/
structure Frame where
  parent : Option FrameId
  bindings : Bindings

/-- All frames, numbered as they are made. -/
structure Frames where
  all : Array Frame
  /-- The frame around a frame is older. -/
  parent_lt : ∀ (i : Nat) (h : i < all.size) (p : Nat), all[i].parent = some p → p < i

namespace Frames

/-- No frames at all. -/
def empty : Frames := ⟨#[], by simp⟩

/-- How many frames there are. -/
def size (frames : Frames) : Nat := frames.all.size

/-- The parent of a frame. -/
def parent? (frames : Frames) (i : FrameId) : Option FrameId := frames.all[i]?.bind (·.parent)

/-- The bindings of a frame. -/
def bindings (frames : Frames) (i : FrameId) : Bindings :=
  match frames.all[i]? with
  | some frame => frame.bindings
  | none => []

theorem lt_of_parent? {frames : Frames} {i p : Nat} (h : frames.parent? i = some p) :
    p < i := by
  obtain ⟨frame, hf, hp⟩ := Option.bind_eq_some_iff.1 h
  obtain ⟨hi, rfl⟩ := Array.getElem?_eq_some_iff.1 hf
  exact frames.parent_lt i hi p hp

theorem parent_lt_push {frames : Frames} {parent : Option FrameId} {bindings : Bindings}
    (older : ∀ p : Nat, parent = some p → p < frames.size) (i : Nat)
    (h : i < (frames.all.push ⟨parent, bindings⟩).size) (p : Nat)
    (hp : (frames.all.push ⟨parent, bindings⟩)[i].parent = some p) : p < i := by
  rw [Array.getElem_push] at hp
  split at hp
  · exact frames.parent_lt i _ p hp
  · have := older p hp
    simp only [Array.size_push, size] at h this
    omega

/-- Makes a frame without a parent. Its number is the number of frames before. -/
def pushRoot (frames : Frames) : Frames :=
  ⟨frames.all.push ⟨none, []⟩, parent_lt_push (by simp)⟩

/-- Makes a frame with some variables inside an older frame, or without a parent if there is no
such frame. Its number is the number of frames before. -/
def push (frames : Frames) (parent : FrameId) (bindings : Bindings) : Frames :=
  if h : parent < frames.size then
    ⟨frames.all.push ⟨some parent, bindings⟩, parent_lt_push (by simpa using h)⟩
  else ⟨frames.all.push ⟨none, bindings⟩, parent_lt_push (by simp)⟩

/-- Gives a name a value in a frame, be it new there or not. -/
def define (frames : Frames) (i : FrameId) (name : String) (value : Value) : Frames :=
  ⟨frames.all.modify i fun frame => { frame with bindings := frame.bindings.insert name value }, by
    intro j h p
    rw [Array.getElem_modify]
    split <;> exact frames.parent_lt j _ p⟩

/-- The frame so many steps outwards. -/
def ancestor? (frames : Frames) (i : FrameId) : Nat → Option FrameId
  | 0 => some i
  | distance + 1 =>
    match frames.parent? i with
    | some p => frames.ancestor? p distance
    | none => none

/-- The nearest frame, from `i` outwards, that holds a name. -/
def holder? (frames : Frames) (name : String) (i : FrameId) : Option FrameId :=
  if (frames.bindings i).holds name then some i
  else match _h : frames.parent? i with
    | some p => frames.holder? name p
    | none => none
termination_by i
decreasing_by exact lt_of_parent? _h

/-- The frame so many steps outwards, if it holds a name. -/
def holderAt? (frames : Frames) (name : String) (i : FrameId) (distance : Nat) : Option FrameId :=
  (frames.ancestor? i distance).filter fun j => (frames.bindings j).holds name

/-- The value of a name in the nearest frame that holds it. -/
def get? (frames : Frames) (i : FrameId) (name : String) : Option Value :=
  (frames.holder? name i).bind fun j => (frames.bindings j).lookup name

/-- Gives a name another value in the nearest frame that holds it. -/
def assign? (frames : Frames) (i : FrameId) (name : String) (value : Value) : Option Frames :=
  (frames.holder? name i).map fun j => frames.define j name value

/-- The value of a name in the frame so many steps outwards. -/
def getAt? (frames : Frames) (i : FrameId) (distance : Nat) (name : String) : Option Value :=
  (frames.holderAt? name i distance).bind fun j => (frames.bindings j).lookup name

/-- Gives a name another value in the frame so many steps outwards, if that holds it. -/
def assignAt? (frames : Frames) (i : FrameId) (distance : Nat) (name : String) (value : Value) :
    Option Frames :=
  (frames.holderAt? name i distance).map fun j => frames.define j name value

end Frames

end Lox
