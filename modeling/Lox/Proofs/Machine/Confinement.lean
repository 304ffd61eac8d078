import Mathlib
import Lox.Proofs.Ending
import Lox.Proofs.Grammar.Trees
import Lox.Proofs.Machine.Frames
import Lox.Proofs.Machine.Watch

/-!
# What a run changes in the frames

A run makes new frames, and of those that were there before it changes very little. Their parents
stay, no name gets lost, and only a declaration adds a name, to the frame in which it stands. Values
are changed by assignments. Calls are no exception, although their bodies run in frames inside of
others than the current one: what a body declares gets into the frame of the call.

* `Stmt.declares` — the names that a statement may declare in the frame in which it runs.
* `Event.gives?` — the value that an assignment gives a name in a frame.
* `Watch.Confined` — what may have changed between two states; `Watch.Confines` — a computation changes
  no more than that, however it ends.
* `Watch.confines_evaluate`, `Watch.confines_execute`, `Watch.confines_invoke` — expressions,
  statements and calls.
* `Watch.run_confined` — so do the statements of every program, with only their own declarations.
-/

namespace Lox

/-! ## Statements -/

/-- The names that a statement may declare in the frame in which it runs. -/
def Stmt.declares : Stmt → List Token
  | .var name _ | .function name _ _ => [name]
  | .ifThen _ yes none => yes.declares
  | .ifThen _ yes (some no) => yes.declares ++ no.declares
  | .whileDo _ body => body.declares
  | .expression _ | .print _ _ | .block _ | .ret _ _ => []

mutual

/-- The statements inside of a statement, also in the bodies of functions. -/
def Stmt.inner : Stmt → List Stmt
  | .block body | .function _ _ body => Stmt.allParts body
  | .ifThen _ yes none => yes :: yes.inner
  | .ifThen _ yes (some no) => yes :: yes.inner ++ no :: no.inner
  | .whileDo _ body => body :: body.inner
  | .expression _ | .print _ _ | .var _ _ | .ret _ _ => []

/-- Some statements and all those inside of them. -/
def Stmt.allParts : List Stmt → List Stmt
  | [] => []
  | s :: ss => s :: s.inner ++ Stmt.allParts ss

end

/-- A branch or the body of a loop that is no declaration declares nothing. So a plain statement
declares nothing but its own name. -/
theorem Stmt.declares_of_plain : ∀ {s : Stmt}, s.Plain → s.declares = s.declared?.toList
  | .var _ _, _ | .function _ _ _, _ | .expression _, _ | .print _ _, _ | .block _, _ | .ret _ _, _ => rfl
  | .ifThen _ yes none, ⟨noDeclaration, plain⟩ => by
    rw [Stmt.declares, Stmt.declares_of_plain plain, noDeclaration]
    rfl
  | .ifThen _ yes (some no), ⟨⟨noDeclaration, plain⟩, noDeclaration', plain'⟩ => by
    rw [Stmt.declares, Stmt.declares_of_plain plain, Stmt.declares_of_plain plain', noDeclaration,
      noDeclaration']
    rfl
  | .whileDo _ body, ⟨noDeclaration, plain⟩ => by
    rw [Stmt.declares, Stmt.declares_of_plain plain, noDeclaration]
    rfl

mutual

theorem Stmt.plain_inner : ∀ {s : Stmt}, s.Plain → ∀ t ∈ s.inner, t.Plain
  | .block body, plain, t, mem | .function _ _ body, plain, t, mem =>
    @Stmt.plain_allParts body plain t mem
  | .ifThen _ yes none, ⟨_, plain⟩, t, mem => by
    rcases List.mem_cons.1 mem with rfl | mem
    · exact plain
    · exact Stmt.plain_inner plain t mem
  | .ifThen _ yes (some no), ⟨⟨_, plain⟩, _, plain'⟩, t, mem => by
    rcases List.mem_append.1 mem with mem | mem
    · rcases List.mem_cons.1 mem with rfl | mem
      · exact plain
      · exact Stmt.plain_inner plain t mem
    · rcases List.mem_cons.1 mem with rfl | mem
      · exact plain'
      · exact Stmt.plain_inner plain' t mem
  | .whileDo _ body, ⟨_, plain⟩, t, mem => by
    rcases List.mem_cons.1 mem with rfl | mem
    · exact plain
    · exact Stmt.plain_inner plain t mem
  | .expression _, _, _, mem | .print _ _, _, _, mem | .var _ _, _, _, mem | .ret _ _, _, _, mem => by
    cases mem

/-- All statements inside of plain statements are plain. -/
theorem Stmt.plain_allParts : ∀ {ss : List Stmt}, Stmt.PlainAll ss → ∀ t ∈ Stmt.allParts ss, t.Plain
  | [], _, _, mem => by cases mem
  | s :: ss, ⟨plain, others⟩, t, mem => by
    rcases List.mem_append.1 mem with mem | mem
    · rcases List.mem_cons.1 mem with rfl | mem
      · exact plain
      · exact Stmt.plain_inner plain t mem
    · exact Stmt.plain_allParts others t mem

end

/-- The frame that a mention refers to holds its name. -/
theorem Machine.holds_of_holder? {m : Machine} {id : RefId} {name : String} {i : FrameId}
    (h : m.holder? id name = some i) : (m.frames.bindings i).holds name = true := by
  unfold Machine.holder? at h
  split at h
  · exact Frames.holds_of_holderAt? h
  · exact Frames.holds_of_holder? h

/-- The value that is about to be assigned to a name in a frame. -/
def Event.gives? (i : FrameId) (name : String) : Event → Option Value
  | .assigning id target value m =>
    if target.lexeme = name ∧ m.holder? id name = some i then some value else none
  | .began _ | .entered _ _ | .reached _ _ _ _ => none

namespace Watch

/-! ## States -/

/-- The name is one of those declared, and the frame is the current one. -/
def DeclaredHere (declared : List Token) (w : State) (i : FrameId) (name : String) : Prop :=
  i = w.machine.current ∧ ∃ t ∈ declared, t.lexeme = name

/-- What may have changed from one state to another: there are more frames, the current frame may
hold the declared names, and names may have other values, which were assigned to them. -/
structure Confined (declared : List Token) (w w' : State) : Prop where
  current : w'.machine.current = w.machine.current
  /-- The frames from before have their parents. -/
  parents : w.machine.frames.Extends w'.machine.frames
  kept : ∀ i name, (w.machine.frames.bindings i).holds name = true →
    (w'.machine.frames.bindings i).holds name = true
  names : ∀ i < w.machine.frames.size, ∀ name, (w'.machine.frames.bindings i).holds name = true →
    (w.machine.frames.bindings i).holds name = true ∨ DeclaredHere declared w i name
  /-- A name has the value that was assigned to it last, or else the one from before. -/
  values : ∃ new, w'.events = new ++ w.events ∧
    ∀ i < w.machine.frames.size, ∀ name, ¬DeclaredHere declared w i name →
      (w'.machine.frames.bindings i).lookup name =
        (new.findSome? (Event.gives? i name)).or ((w.machine.frames.bindings i).lookup name)

namespace Confined

variable {declared declared' : List Token} {w w' w'' : State}

/-- Nothing has changed in the frames, and nothing was assigned. -/
theorem still (current : w'.machine.current = w.machine.current)
    (frames : w'.machine.frames = w.machine.frames) {new : List Event}
    (events : w'.events = new ++ w.events)
    (nothing : ∀ i name, new.findSome? (Event.gives? i name) = none) :
    Confined declared w w' where
  current := current
  parents := frames ▸ .refl _
  kept i name held := frames ▸ held
  names i _ name held := .inl (frames ▸ held)
  values := ⟨new, events, fun i _ name _ => by rw [nothing, frames, Option.none_or]⟩

theorem refl (w : State) : Confined declared w w :=
  still rfl rfl (List.nil_append _).symm fun _ _ => rfl

theorem trans (h : Confined declared w w') (h' : Confined declared w' w'') :
    Confined declared w w'' where
  current := h'.current.trans h.current
  parents := h.parents.trans h'.parents
  kept i name held := h'.kept i name (h.kept i name held)
  names i lt name held := by
    rcases h'.names i (Nat.lt_of_lt_of_le lt h.parents.size_le) name held with held | ⟨here, mem⟩
    · exact h.names i lt name held
    · exact .inr ⟨here.trans h.current, mem⟩
  values := by
    obtain ⟨new, events, given⟩ := h.values
    obtain ⟨new', events', given'⟩ := h'.values
    refine ⟨new' ++ new, by rw [events', events, List.append_assoc], fun i lt name other => ?_⟩
    have other' : ¬DeclaredHere declared w' i name := fun ⟨here, mem⟩ =>
      other ⟨here.trans h.current, mem⟩
    rw [given' i (Nat.lt_of_lt_of_le lt h.parents.size_le) name other', given i lt name other,
      List.findSome?_append, Option.or_assoc]

theorem mono (h : Confined declared w w') (more : declared ⊆ declared') : Confined declared' w w' where
  current := h.current
  parents := h.parents
  kept := h.kept
  names i lt name held := (h.names i lt name held).imp_right fun ⟨here, t, mem, same⟩ =>
    ⟨here, t, more mem, same⟩
  values := by
    obtain ⟨new, events, given⟩ := h.values
    exact ⟨new, events, fun i lt name other => given i lt name fun ⟨here, t, mem, same⟩ =>
      other ⟨here, t, more mem, same⟩⟩

/-- The name is declared in the current frame. -/
theorem declare (w : State) (name : Token) (value : Value) :
    Confined [name] w ⟨{ w.machine with
      frames := w.machine.frames.define w.machine.current name.lexeme value }, w.events⟩ := by
  rcases Nat.lt_or_ge w.machine.current w.machine.frames.size with lt | ge
  · refine ⟨rfl, .define _ _ _ _, fun i other held => ?_, fun i _ other held => ?_, [], rfl,
      fun i _ other notHere => ?_⟩
    · show ((w.machine.frames.define _ _ _).bindings i).holds other = true
      rw [Frames.holds_define lt, held, Bool.or_true]
    · have new : ((w.machine.frames.define _ _ _).bindings i).holds other = true := held
      rw [Frames.holds_define lt] at new
      rcases Bool.or_eq_true_iff.1 new with here | old
      · obtain ⟨here, same⟩ := of_decide_eq_true here
        exact .inr ⟨here, name, List.mem_singleton_self name, same.symm⟩
      · exact .inl old
    · show ((w.machine.frames.define _ _ _).bindings i).lookup other = _
      rw [Frames.bindings_define lt]
      split
      · rename_i here
        have differs : other ≠ name.lexeme := fun same =>
          notHere ⟨here, name, List.mem_singleton_self name, same.symm⟩
        rw [Bindings.lookup_insert, if_neg differs, here]
        rfl
      · rfl
  · rw [Frames.define_of_size_le ge]
    exact .refl w

/-- A name that a frame holds is given the value that is assigned to it. -/
theorem assign (w : State) (id : RefId) (name : Token) (value : Value) {j : FrameId}
    (found : w.machine.holder? id name.lexeme = some j) :
    Confined declared w ⟨{ w.machine with frames := w.machine.frames.define j name.lexeme value },
      .assigning id name value w.machine :: w.events⟩ := by
  have held := Machine.holds_of_holder? found
  have lt := Frames.lt_size_of_holds held
  refine ⟨rfl, .define _ _ _ _, fun i other held => ?_, fun i _ other new => ?_, [_], rfl,
    fun i _ other _ => ?_⟩
  · show ((w.machine.frames.define _ _ _).bindings i).holds other = true
    rw [Frames.holds_define lt, held, Bool.or_true]
  · have new : ((w.machine.frames.define _ _ _).bindings i).holds other = true := new
    rw [Frames.holds_define lt] at new
    rcases Bool.or_eq_true_iff.1 new with here | old
    · obtain ⟨rfl, rfl⟩ := of_decide_eq_true here
      exact .inl held
    · exact .inl old
  · show ((w.machine.frames.define _ _ _).bindings i).lookup other = _
    rw [Frames.bindings_define lt, List.findSome?_singleton, Event.gives?]
    by_cases here : i = j
    · by_cases same : name.lexeme = other
      · rw [if_pos here, Bindings.lookup_insert, if_pos same.symm, if_pos ⟨same, here ▸ same ▸ found⟩]
        rfl
      · rw [if_pos here, Bindings.lookup_insert, if_neg (Ne.symm same), if_neg fun h => same h.1, here]
        rfl
    · have elsewhere : ¬(name.lexeme = other ∧ w.machine.holder? id other = some i) := by
        rintro ⟨rfl, found'⟩
        rw [found] at found'
        exact here (Option.some.inj found').symm
      rw [if_neg here, if_neg elsewhere]
      rfl

/-- What happens in a new frame does not touch the others, apart from assignments. -/
theorem leave {site : Site} {parent : FrameId} {bindings : Bindings}
    (h : Confined declared ⟨{ w.machine with
      frames := w.machine.frames.push parent bindings, current := w.machine.frames.size },
      .entered site w.machine.frames.size :: w.events⟩ w') :
    Confined [] w ⟨{ w'.machine with current := w.machine.current }, w'.events⟩ := by
  have more : w.machine.frames.Extends (w.machine.frames.push parent bindings) := .push _ _ _
  have old : ∀ i < w.machine.frames.size,
      (w.machine.frames.push parent bindings).bindings i = w.machine.frames.bindings i :=
    fun i lt => Frames.bindings_push_of_ne (Nat.ne_of_lt lt)
  have inside : ∀ i < w.machine.frames.size, i < (w.machine.frames.push parent bindings).size :=
    fun i lt => Nat.lt_of_lt_of_le lt more.size_le
  refine ⟨rfl, more.trans h.parents, fun i name held => ?_, fun i lt name held => ?_, ?_⟩
  · refine h.kept i name ?_
    show ((w.machine.frames.push parent bindings).bindings i).holds name = true
    rw [old i (Frames.lt_size_of_holds held)]
    exact held
  · rcases h.names i (inside i lt) name held with held | ⟨here, -⟩
    · exact .inl (old i lt ▸ held)
    · exact absurd here (Nat.ne_of_lt lt)
  · obtain ⟨new, events, given⟩ := h.values
    refine ⟨new ++ [.entered site w.machine.frames.size], by rw [List.append_assoc]; exact events,
      fun i lt name _ => ?_⟩
    have last := given i (inside i lt) name fun ⟨here, _⟩ => Nat.ne_of_lt lt here
    rw [List.findSome?_append, Option.or_assoc]
    exact last.trans (congrArg (fun b => (new.findSome? _).or (List.lookup name b)) (old i lt))

end Confined

/-! ## Computations -/

/-- However the computation ends, it has changed no more than it may. -/
def Confines {α : Type} (declared : List Token) (x : Watch α) : Prop :=
  ∀ w, Ends x w (fun _ => Confined declared w) fun _ => Confined declared w

/-- The part of a run changes nothing in the frames. -/
def Untouching {α : Type} (part : Eval α) : Prop :=
  ∀ m, Ends part m (fun _ m' => m'.frames = m.frames ∧ m'.current = m.current)
    fun _ m' => m'.frames = m.frames ∧ m'.current = m.current

namespace Untouching

variable {α : Type}

theorem fail (line : Nat) (cause : RuntimeError.Cause) :
    Untouching (Eval.fail line cause : Eval α) := fun _ => ⟨rfl, rfl⟩

theorem outOfFuel : Untouching (Eval.outOfFuel : Eval α) := fun _ => ⟨rfl, rfl⟩

theorem orFail (line : Nat) (r : Except RuntimeError.Cause α) : Untouching (Eval.orFail line r) := by
  cases r with
  | ok a => exact fun _ => ⟨rfl, rfl⟩
  | error cause => exact .fail line cause

theorem read (id : RefId) (name : Token) : Untouching (Eval.read id name) := by
  intro m
  unfold Ends Eval.read Eval.fail
  cases (m.holder? id name.lexeme).bind fun i => (m.frames.bindings i).lookup name.lexeme with
  | some value => exact ⟨rfl, rfl⟩
  | none => exact ⟨rfl, rfl⟩

theorem print (line : Nat) (text : String) : Untouching (Eval.print line text) := by
  intro m
  unfold Ends Eval.print Eval.fail
  cases m.sink.write (text ++ "\n") with
  | mk fits sink => cases fits <;> exact ⟨rfl, rfl⟩

/-- A function that is made is not in any frame yet. -/
theorem closure (name : Token) (parameters : List Token) (body : List Stmt) :
    Untouching (Eval.closure name parameters body) := fun _ => ⟨rfl, rfl⟩

end Untouching

namespace Confines

variable {α β : Type} {declared declared' : List Token} {x : Watch α}

theorem pure (a : α) : Confines declared (Pure.pure a : Watch α) := fun w => .refl w

theorem bind {f : α → Watch β} (h : Confines declared x) (next : ∀ a, Confines declared (f a)) :
    Confines declared (x >>= f) := by
  intro w
  rw [Ends.bind_iff]
  exact (h w).mono
    (fun a w' first => (next a w').mono (fun _ _ => first.trans) fun _ _ => first.trans)
    fun _ _ => id

theorem mono (h : Confines declared x) (more : declared ⊆ declared') : Confines declared' x :=
  fun w => (h w).mono (fun _ _ confined => confined.mono more) fun _ _ confined => confined.mono more

/-- What declares nothing may stand anywhere. -/
theorem anywhere (h : Confines [] x) : Confines declared x := h.mono (List.nil_subset _)

theorem ite {c : Prop} [Decidable c] {y : Watch α} (hx : Confines declared x)
    (hy : Confines declared y) : Confines declared (if c then x else y) := by
  split
  · exact hx
  · exact hy

theorem silently {part : Eval α} (h : Untouching part) : Confines declared (silently part) := by
  intro w
  have behind := h w.machine
  unfold Ends at *
  unfold Watch.silently
  cases ran : part w.machine <;> rw [ran] at behind <;>
    exact .still behind.2 behind.1 (List.nil_append _).symm fun _ _ => rfl

theorem note {event : Machine → Event} (nothing : ∀ m i name, (event m).gives? i name = none) :
    Confines declared (note event) := by
  intro w
  have none : ∀ i name, [event w.machine].findSome? (Event.gives? i name) = none := by
    intro i name
    rw [List.findSome?_singleton]
    exact nothing w.machine i name
  exact .still rfl rfl (List.singleton_append).symm none

theorem define (name : Token) (value : Value) :
    Confines [name] (Watch.silently (Eval.define name value)) := fun w => .declare w name value

/-- An assignment changes the value of a name that is there, or fails. -/
theorem assign (id : RefId) (name : Token) (value : Value) :
    Confines declared (Watch.note (.assigning id name value) >>= fun _ =>
      Watch.silently (Eval.write id name value)) := by
  intro w
  show Ends (Watch.silently (Eval.write id name value))
    ⟨w.machine, .assigning id name value w.machine :: w.events⟩ _ _
  unfold Ends Watch.silently Eval.write
  dsimp only
  cases found : w.machine.holder? id name.lexeme with
  | some j => exact .assign w id name value found
  | none =>
    refine .still rfl rfl (List.singleton_append).symm fun i other => ?_
    have nowhere : ¬(name.lexeme = other ∧ w.machine.holder? id other = some i) := by
      rintro ⟨rfl, found'⟩
      rw [found] at found'
      cases found'
    rw [List.findSome?_singleton, Event.gives?, if_neg nowhere]

/-- What a block or the body of a function declares gets into its own frame. -/
theorem inside (h : Confines declared x) (site : Site) (parent : FrameId) (bindings : Bindings) :
    Confines declared' (inside site parent bindings x) := by
  refine anywhere fun w => ?_
  have within := h ⟨{ w.machine with
    frames := w.machine.frames.push parent bindings, current := w.machine.frames.size },
    .entered site w.machine.frames.size :: w.events⟩
  show Ends (inFrame w.machine.frames.size x) ⟨{ w.machine with
    frames := w.machine.frames.push parent bindings },
    .entered site w.machine.frames.size :: w.events⟩ _ _
  unfold Ends at *
  unfold inFrame
  dsimp only
  split at within <;> rename_i ran <;> rw [ran] <;> exact within.leave

theorem duringCall (h : Confines declared x) : Confines declared (duringCall x) := by
  intro w
  have within := h ⟨{ w.machine with depth := w.machine.depth + 1 }, w.events⟩
  unfold Ends at *
  unfold Watch.duringCall
  dsimp only
  split at within <;> rename_i ran <;> rw [ran] <;>
    exact ⟨within.current, within.parents, within.kept, within.names, within.values⟩

end Confines

/-! ## Syntax -/

/-- Calls declare nothing in the frames that there are. -/
def ConfinesInvoke (J : Invoke) : Prop := ∀ f arguments, Confines [] (J f arguments)

variable {J : Invoke}

theorem confines_call (h : ConfinesInvoke J) (closing : Token) (f : Closure)
    (arguments : List Value) : Confines [] (call J closing f arguments) := by
  unfold call
  refine .ite (.silently (.fail _ _)) fun w => ?_
  show Ends (if maxCalls ≤ w.machine.depth then _ else _ : Watch Value) w _ _
  exact Confines.ite (.silently (.fail _ _)) (h f arguments).duringCall w

mutual

/-- Evaluating an expression declares nothing, whatever functions it calls. -/
theorem confines_evaluate (h : ConfinesInvoke J) : ∀ e : Expr, Confines [] (evaluate J e)
  | .literal value => .pure _
  | .grouping inner => by
    rw [evaluate]
    exact confines_evaluate h inner
  | .unary op right => by
    rw [evaluate]
    exact (confines_evaluate h right).bind fun _ => .silently (.orFail _ _)
  | .binary left op right => by
    rw [evaluate]
    exact (confines_evaluate h left).bind fun _ => (confines_evaluate h right).bind fun _ =>
      .silently (.orFail _ _)
  | .logical left op right => by
    rw [evaluate]
    exact (confines_evaluate h left).bind fun _ => .ite (.pure _) (confines_evaluate h right)
  | .var id name => by
    rw [evaluate]
    exact (Confines.note fun _ _ _ => rfl).bind fun _ => .silently (.read id name)
  | .assign id target value => by
    rw [evaluate]
    refine (Confines.note fun _ _ _ => rfl).bind fun _ => (confines_evaluate h value).bind fun v => ?_
    have assigned : Confines [] _ := (Confines.assign id target v).bind fun _ => Confines.pure v
    rw [bind_assoc] at assigned
    exact assigned
  | .call callee closing arguments => by
    rw [evaluate]
    refine (confines_evaluate h callee).bind fun v => ?_
    cases v with
    | function f =>
      exact (confines_evaluateAll h arguments).bind fun vs => confines_call h closing f vs
    | _ => exact .silently (.fail _ _)

theorem confines_evaluateAll (h : ConfinesInvoke J) : ∀ es : List Expr,
    Confines [] (evaluateAll J es)
  | [] => .pure _
  | e :: es => by
    rw [evaluateAll]
    exact (confines_evaluate h e).bind fun _ => (confines_evaluateAll h es).bind fun _ => .pure _

end

theorem confines_evaluate? (h : ConfinesInvoke J) (e : Option Expr) :
    Confines [] (evaluate? J e) := by
  cases e with
  | none => exact .pure _
  | some e => exact confines_evaluate h e

theorem confines_repeatWhile {declared : List Token} {condition : Watch Value} {body : Watch Flow}
    (holds : Confines declared condition) (round : Confines declared body) (fuel : Nat) :
    Confines declared (repeatWhile condition body fuel) := by
  induction fuel with
  | zero => exact .silently .outOfFuel
  | succ fuel ih =>
    rw [repeatWhile]
    refine holds.bind fun _ => .ite (round.bind fun flow => ?_) (.pure _)
    cases flow with
    | normal => exact ih
    | returned value => exact .pure _

mutual

/-- Executing a statement declares in the current frame only what it may declare there. -/
theorem confines_execute (h : ConfinesInvoke J) (fuel : Nat) : ∀ s : Stmt,
    Confines s.declares (execute J fuel s)
  | .expression value => by
    rw [execute]
    exact (confines_evaluate h value).bind fun _ => .pure _
  | .print keyword value => by
    rw [execute]
    exact (confines_evaluate h value).bind fun v => (Confines.silently (.print _ _)).bind fun _ => .pure _
  | .var name initializer => by
    rw [execute]
    exact (confines_evaluate? h initializer).anywhere.bind fun v =>
      (Confines.define name v).bind fun _ => .pure _
  | .block body => by
    rw [execute]
    exact fun w => (confines_executeAll h fuel body).inside (.block body) w.machine.current [] w
  | .ifThen condition yes none => by
    rw [execute]
    exact (confines_evaluate h condition).anywhere.bind fun _ =>
      .ite (confines_execute h fuel yes) (.pure _)
  | .ifThen condition yes (some no) => by
    rw [execute, Stmt.declares]
    exact (confines_evaluate h condition).anywhere.bind fun _ =>
      .ite ((confines_execute h fuel yes).mono (List.subset_append_left _ _))
        ((confines_execute h fuel no).mono (List.subset_append_right _ _))
  | .whileDo condition body => by
    rw [execute]
    exact confines_repeatWhile (confines_evaluate h condition).anywhere
      (confines_execute h fuel body) fuel
  | .function name parameters body => by
    rw [execute]
    exact (Confines.silently (.closure name parameters body)).bind fun f =>
      (Confines.define name f).bind fun _ => .pure _
  | .ret _ value => by
    rw [execute]
    exact (confines_evaluate? h value).bind fun _ => .pure _

theorem confines_executeAll (h : ConfinesInvoke J) (fuel : Nat) : ∀ ss : List Stmt,
    Confines (ss.flatMap Stmt.declares) (executeAll J fuel ss)
  | [] => .pure _
  | s :: ss => by
    rw [executeAll, List.flatMap_cons]
    refine ((confines_execute h fuel s).mono (List.subset_append_left _ _)).bind fun flow => ?_
    cases flow with
    | normal => exact (confines_executeAll h fuel ss).mono (List.subset_append_right _ _)
    | returned value => exact .pure _

end

/-- Whatever a function declares when it is called, the frames from before do not get it. -/
theorem confines_invoke (fuel : Nat) : ConfinesInvoke (invoke fuel) := by
  induction fuel with
  | zero => exact fun _ _ => .silently .outOfFuel
  | succ fuel ih =>
    intro f arguments
    rw [invoke]
    exact ((confines_executeAll ih fuel f.body).inside _ _ _).bind fun _ => .pure _

/-- **A run changes only the frames it may.** Whatever state the machine is in, and however an expression
or a statement of a program ends: all frames from before keep their parents and their names. They get
no more names, but for the one that the statement itself declares in the current frame. Apart from that
their names have the values that were last assigned to them, or else the values from before. What is
watched is what happens. -/
theorem run_confined {firstId nextId : RefId} {tokens : List Token} {program : Program}
    (h : Program.ofTokens firstId tokens = (.ok program, nextId)) :
    (∀ s ∈ Stmt.allParts program, ∀ fuel rounds w,
      forget (execute (invoke fuel) rounds s w) = s.execute (Lox.invoke fuel) rounds w.machine ∧
      Ends (execute (invoke fuel) rounds s) w (fun _ => Confined s.declared?.toList w)
        fun _ => Confined s.declared?.toList w) ∧
    ∀ (e : Expr) fuel w,
      forget (evaluate (invoke fuel) e w) = e.evaluate (Lox.invoke fuel) w.machine ∧
      Ends (evaluate (invoke fuel) e) w (fun _ => Confined [] w) fun _ => Confined [] w := by
  have plain := Program.plain_of_ofTokens h
  refine ⟨fun s mem fuel rounds w => ⟨shows_execute (shows_invoke fuel) rounds s w, ?_⟩,
    fun e fuel w => ⟨shows_evaluate (shows_invoke fuel) e w, ?_⟩⟩
  · have confines := confines_execute (confines_invoke fuel) rounds s
    rw [Stmt.declares_of_plain (Stmt.plain_allParts plain s mem)] at confines
    exact confines w
  · exact confines_evaluate (confines_invoke fuel) e w

/-- The block `{ var a = b; }` adds no name to the frame in which it stands. -/
theorem run_confined_block :
    Program.ofTokens 0
        [⟨.symbol .leftBrace, "\x7b", 1, 0⟩, ⟨.keyword .var, "var", 1, 2⟩, ⟨.identifier, "a", 1, 6⟩,
          ⟨.symbol .equal, "=", 1, 8⟩, ⟨.identifier, "b", 1, 10⟩, ⟨.symbol .semicolon, ";", 1, 11⟩,
          ⟨.symbol .rightBrace, "\x7d", 1, 13⟩] =
      (.ok [.block [.var ⟨.identifier, "a", 1, 6⟩ (some (.var 0 ⟨.identifier, "b", 1, 10⟩))]], 1) ∧
    ∀ fuel rounds w,
      Ends (execute (invoke fuel) rounds
          (.block [.var ⟨.identifier, "a", 1, 6⟩ (some (.var 0 ⟨.identifier, "b", 1, 10⟩))])) w
        (fun _ => Confined [] w) fun _ => Confined [] w :=
  ⟨by cbv, fun fuel rounds w => ((@run_confined 0 1
    [⟨.symbol .leftBrace, "\x7b", 1, 0⟩, ⟨.keyword .var, "var", 1, 2⟩, ⟨.identifier, "a", 1, 6⟩,
      ⟨.symbol .equal, "=", 1, 8⟩, ⟨.identifier, "b", 1, 10⟩, ⟨.symbol .semicolon, ";", 1, 11⟩,
      ⟨.symbol .rightBrace, "\x7d", 1, 13⟩] _ (by cbv)).1 _ (.head _) fuel rounds w).2⟩

end Watch

end Lox
