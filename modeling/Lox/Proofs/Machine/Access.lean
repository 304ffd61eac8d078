import Lox.Machine
import Lox.Proofs.Machine.Frames

/-!
# Variables by name and by distance

Frames form trees in which one variable is seen from many frames and hidden from others. Looking a
name up outwards comes to the same variable as going so many steps, if these are the fewest that lead to
a frame with the name.

* `Frames.HasAt`, `Frames.Nearest` — the distances at which a name is held, and the least one.
* `Frames.holder?_eq_some_iff`, `Frames.holder?_eq_none_iff` — looking a name up ends at the least
  distance.
* `Frames.Sets`, `Frames.Assigns` — one variable gets a value and nothing else changes.
* `Frames.Operation` — what is done to frames, with its answer and its failure.
* `Frames.Operation.onMachine_read`, `Frames.Operation.onMachine_write` — a running program uses its
  variables by these operations.
* `Frames.AccessLaws` — how operations by name and by distance belong together.
* `Frames.accessLaws_performAll` — so they do after any operations.
-/

namespace Lox.Frames

variable {frames frames' : Frames} {i j k : FrameId} {name : String} {value : Value}
variable {distance : Nat}

/-! ## Distances -/

/-- The value that a frame itself has for a name. -/
def own? (frames : Frames) (i : FrameId) (name : String) : Option Value :=
  (frames.bindings i).lookup name

/-- The frame itself holds the name. -/
def Has (frames : Frames) (i : FrameId) (name : String) : Prop := (frames.own? i name).isSome = true

/-- The frame so many steps outwards is there and holds the name. -/
def HasAt (frames : Frames) (i : FrameId) (distance : Nat) (name : String) : Prop :=
  ∃ j, frames.ancestor? i distance = some j ∧ frames.Has j name

/-- The least distance at which the name is held, and the frame there. -/
structure Nearest (frames : Frames) (i : FrameId) (distance : Nat) (name : String) (j : FrameId) :
    Prop where
  reaches : frames.ancestor? i distance = some j
  has : frames.Has j name
  least : ∀ nearer < distance, ¬frames.HasAt i nearer name

theorem hasAt_zero : frames.HasAt i 0 name ↔ frames.Has i name := by
  simp [HasAt, ancestor?]

theorem ancestor?_succ_eq_some_iff : frames.ancestor? i (distance + 1) = some j ↔
    ∃ p, frames.parent? i = some p ∧ frames.ancestor? p distance = some j := by
  rw [ancestor?]
  cases frames.parent? i <;> simp

theorem hasAt_succ : frames.HasAt i (distance + 1) name ↔
    ∃ p, frames.parent? i = some p ∧ frames.HasAt p distance name := by
  constructor
  · rintro ⟨j, reaches, has⟩
    obtain ⟨p, outer, reaches⟩ := ancestor?_succ_eq_some_iff.1 reaches
    exact ⟨p, outer, j, reaches, has⟩
  · rintro ⟨p, outer, j, reaches, has⟩
    exact ⟨j, ancestor?_succ_eq_some_iff.2 ⟨p, outer, reaches⟩, has⟩

/-- Every step outwards leads to an older frame. -/
theorem add_le_of_ancestor? {i j : Nat} (h : frames.ancestor? i distance = some j) :
    j + distance ≤ i := by
  induction distance generalizing i with
  | zero =>
    cases h
    exact Nat.le_refl _
  | succ distance ih =>
    obtain ⟨p, outer, reaches⟩ := ancestor?_succ_eq_some_iff.1 h
    have older := lt_of_parent? outer
    have further := ih reaches
    omega

/-! ## Looking names up -/

/-- Looking a name up ends at the least distance. -/
theorem holder?_eq_some_iff : frames.holder? name i = some j ↔
    ∃ distance, frames.Nearest i distance name j := by
  induction i using Nat.strongRecOn with
  | ind i ih =>
    rw [holder?_eq]
    by_cases here : (frames.bindings i).holds name = true
    · rw [if_pos here, Option.some.injEq]
      constructor
      · rintro rfl
        exact ⟨0, rfl, here, fun nearer less => absurd less (Nat.not_lt_zero nearer)⟩
      · rintro ⟨distance, reaches, -, least⟩
        cases distance with
        | zero => exact Option.some.inj reaches
        | succ distance => exact absurd (hasAt_zero.2 here) (least 0 (Nat.succ_pos distance))
    · rw [if_neg here, Option.bind_eq_some_iff]
      constructor
      · rintro ⟨p, outer, found⟩
        obtain ⟨distance, reaches, has, least⟩ := (ih p (lt_of_parent? outer)).1 found
        refine ⟨distance + 1, ancestor?_succ_eq_some_iff.2 ⟨p, outer, reaches⟩, has, ?_⟩
        intro nearer less held
        cases nearer with
        | zero => exact here (hasAt_zero.1 held)
        | succ nearer =>
          obtain ⟨p', outer', held⟩ := hasAt_succ.1 held
          cases outer.symm.trans outer'
          exact least nearer (Nat.lt_of_succ_lt_succ less) held
      · rintro ⟨distance, reaches, has, least⟩
        cases distance with
        | zero =>
          cases reaches
          exact absurd has here
        | succ distance =>
          obtain ⟨p, outer, reaches⟩ := ancestor?_succ_eq_some_iff.1 reaches
          refine ⟨p, outer, (ih p (lt_of_parent? outer)).2 ⟨distance, reaches, has, ?_⟩⟩
          intro nearer less held
          exact least (nearer + 1) (Nat.succ_lt_succ less) (hasAt_succ.2 ⟨p, outer, held⟩)

-- the nearer variable hides the outer one, which is still reached at its distance
example :
    let outer := (empty.pushRoot.define 0 "a" .nil).push 0 []
    let frames := (outer.define 1 "a" (.bool true)).push 1 []
    frames.get? 2 "a" = some (.bool true) ∧ frames.getAt? 2 2 "a" = some .nil := by
  cbv

/-- If a name is held at some distance, then at a least one. -/
theorem exists_nearest (h : frames.HasAt i distance name) :
    ∃ nearest j, frames.Nearest i nearest name j := by
  induction distance using Nat.strongRecOn with
  | ind distance ih =>
    by_cases nearer : ∃ nearer < distance, frames.HasAt i nearer name
    · obtain ⟨nearer, less, held⟩ := nearer
      exact ih nearer less held
    · obtain ⟨j, reaches, has⟩ := h
      exact ⟨distance, j, reaches, has, fun d less held => nearer ⟨d, less, held⟩⟩

/-- Looking a name up fails if no frame outwards holds it. -/
theorem holder?_eq_none_iff : frames.holder? name i = none ↔
    ∀ distance, ¬frames.HasAt i distance name := by
  constructor
  · intro none distance held
    obtain ⟨nearest, j, found⟩ := exists_nearest held
    rw [holder?_eq_some_iff.2 ⟨nearest, found⟩] at none
    cases none
  · intro never
    cases found : frames.holder? name i with
    | none => rfl
    | some j =>
      obtain ⟨distance, reaches, has, -⟩ := holder?_eq_some_iff.1 found
      exact absurd ⟨j, reaches, has⟩ (never distance)

theorem holderAt?_eq_some_iff : frames.holderAt? name i distance = some j ↔
    frames.ancestor? i distance = some j ∧ frames.Has j name := by
  rw [holderAt?, Option.filter_eq_some_iff]
  rfl

theorem holderAt?_eq_none_iff : frames.holderAt? name i distance = none ↔
    ¬frames.HasAt i distance name := by
  constructor
  · rintro none ⟨j, reaches, has⟩
    rw [holderAt?_eq_some_iff.2 ⟨reaches, has⟩] at none
    cases none
  · intro never
    cases found : frames.holderAt? name i distance with
    | none => rfl
    | some j => exact absurd ⟨j, holderAt?_eq_some_iff.1 found⟩ never

/-! ## Giving values -/

/-- The variable of the frame has the value; all else is as it was. -/
structure Sets (frames : Frames) (j : FrameId) (name : String) (value : Value) (frames' : Frames) :
    Prop where
  size_eq : frames'.size = frames.size
  parent?_eq : ∀ k, frames'.parent? k = frames.parent? k
  own?_eq : ∀ k other, frames'.own? k other =
    if k = j ∧ other = name then some value else frames.own? k other

theorem sets_define (hi : i < frames.size) (name : String) (value : Value) :
    frames.Sets i name value (frames.define i name value) where
  size_eq := size_define
  parent?_eq _ := parent?_define
  own?_eq k other := by
    rw [own?, own?, bindings_define hi]
    by_cases same : k = i
    · subst same
      rw [if_pos rfl, Bindings.lookup_insert]
      simp
    · rw [if_neg same]
      simp [same]

/-- A variable that the frame holds has another value. No frame gets a name by this. Wherever the
variable is seen its new value is read, and nothing else is read in another way. -/
structure Assigns (frames : Frames) (j : FrameId) (name : String) (value : Value) (frames' : Frames) :
    Prop extends frames.Sets j name value frames' where
  has : frames.Has j name
  has_iff : ∀ k other, frames'.Has k other ↔ frames.Has k other
  get?_seen : ∀ k distance, frames.Nearest k distance name j → frames'.get? k name = some value
  get?_unseen : ∀ k other, (other = name → ∀ distance, ¬frames.Nearest k distance name j) →
    frames'.get? k other = frames.get? k other
  getAt?_seen : ∀ k distance, frames.ancestor? k distance = some j →
    frames'.getAt? k distance name = some value
  getAt?_unseen : ∀ k distance other, (other = name → frames.ancestor? k distance ≠ some j) →
    frames'.getAt? k distance other = frames.getAt? k distance other

theorem Sets.assigns (h : frames.Sets j name value frames') (has : frames.Has j name) :
    frames.Assigns j name value frames' := by
  have has_iff : ∀ k other, frames'.Has k other ↔ frames.Has k other := by
    intro k other
    rw [Has, h.own?_eq]
    split
    · rename_i same
      obtain ⟨rfl, rfl⟩ := same
      exact iff_of_true rfl has
    · exact Iff.rfl
  have holds : ∀ k other, (frames'.bindings k).holds other = (frames.bindings k).holds other :=
    fun k other => Bool.eq_iff_iff.2 (has_iff k other)
  have holder : ∀ k other, frames'.holder? other k = frames.holder? other k :=
    fun k other => holder?_congr h.parent?_eq (fun i => holds i other) k
  have ancestor : ∀ k distance, frames'.ancestor? k distance = frames.ancestor? k distance :=
    fun k distance => ancestor?_congr h.parent?_eq distance
  have holderAt : ∀ k distance other,
      frames'.holderAt? other k distance = frames.holderAt? other k distance := by
    intro k distance other
    simp only [holderAt?, ancestor, holds]
  refine ⟨h, has, has_iff, ?_, ?_, ?_, ?_⟩
  · intro k distance nearest
    rw [get?, holder, holder?_eq_some_iff.2 ⟨distance, nearest⟩]
    exact (h.own?_eq j name).trans (if_pos ⟨rfl, rfl⟩)
  · intro k other unseen
    rw [get?, get?, holder]
    cases found : frames.holder? other k with
    | none => rfl
    | some l =>
      have elsewhere : ¬(l = j ∧ other = name) := by
        rintro ⟨rfl, rfl⟩
        obtain ⟨distance, nearest⟩ := holder?_eq_some_iff.1 found
        exact unseen rfl distance nearest
      exact (h.own?_eq l other).trans (if_neg elsewhere)
  · intro k distance reaches
    rw [getAt?, holderAt, holderAt?_eq_some_iff.2 ⟨reaches, has⟩]
    exact (h.own?_eq j name).trans (if_pos ⟨rfl, rfl⟩)
  · intro k distance other unseen
    rw [getAt?, getAt?, holderAt]
    cases found : frames.holderAt? other k distance with
    | none => rfl
    | some l =>
      have elsewhere : ¬(l = j ∧ other = name) := by
        rintro ⟨rfl, rfl⟩
        exact unseen rfl (holderAt?_eq_some_iff.1 found).1
      exact (h.own?_eq l other).trans (if_neg elsewhere)

theorem assigns_define (has : frames.Has j name) (value : Value) :
    frames.Assigns j name value (frames.define j name value) :=
  (sets_define (lt_size_of_holds has) name value).assigns has

/-! ## Operations -/

/-- What is done to frames. A variable has a token for its name where this may fail. -/
inductive Operation where
  | root
  | child (parent : FrameId)
  | define (i : FrameId) (name : String) (value : Value)
  | get (i : FrameId) (name : Token)
  | assign (i : FrameId) (name : Token) (value : Value)
  | getAt (i : FrameId) (distance : Nat) (name : Token)
  | assignAt (i : FrameId) (distance : Nat) (name : Token) (value : Value)

/-- What an operation answers. -/
inductive Answer where
  | made (i : FrameId)
  | read (value : Value)
  | done

/-- The failure of an operation on a variable. -/
def undefined (name : Token) : RuntimeError := ⟨.undefinedVariable name.lexeme, name.line⟩

/-- The answer to reading a variable. -/
def reading (frames : Frames) (name : Token) : Option Value → EStateM.Result RuntimeError Frames Answer
  | some value => .ok (.read value) frames
  | none => .error (undefined name) frames

/-- The answer to assigning a variable. -/
def writing (frames : Frames) (name : Token) : Option Frames → EStateM.Result RuntimeError Frames Answer
  | some frames' => .ok .done frames'
  | none => .error (undefined name) frames

/-- Does the operation. -/
def perform : Operation → EStateM RuntimeError Frames Answer
  | .root => fun frames => .ok (.made frames.size) frames.pushRoot
  | .child parent => fun frames => .ok (.made frames.size) (frames.push parent [])
  | .define i name value => fun frames => .ok .done (frames.define i name value)
  | .get i name => fun frames => frames.reading name (frames.get? i name.lexeme)
  | .assign i name value => fun frames =>
    frames.writing name (frames.assign? i name.lexeme value)
  | .getAt i distance name => fun frames =>
    frames.reading name (frames.getAt? i distance name.lexeme)
  | .assignAt i distance name value => fun frames =>
    frames.writing name (frames.assignAt? i distance name.lexeme value)

/-- The frames behind an operation, also if it failed. -/
def behind : EStateM.Result RuntimeError Frames Answer → Frames
  | .ok _ frames => frames
  | .error _ frames => frames

/-- The frames behind operations that are done one after the other. -/
def performAll (operations : List Operation) (frames : Frames) : Frames :=
  operations.foldl (fun frames operation => behind (perform operation frames)) frames

/-! ## Operations of a running program -/

namespace Operation

/-- Does the operation on the frames of a machine. -/
def onMachine (operation : Operation) : Eval Answer := fun m =>
  match perform operation m.frames with
  | .ok answer frames => .ok answer { m with frames := frames }
  | .error e frames => .error (.failure e) { m with frames := frames }

/-- A local name is read at its distance, any other one from the global frame outwards. -/
def ofRead (m : Machine) (id : RefId) (name : Token) : Operation :=
  match m.locals[id]? with
  | some distance => .getAt m.current distance name
  | none => .get globalFrame name

/-- A local name is assigned at its distance, any other one from the global frame outwards. -/
def ofWrite (m : Machine) (id : RefId) (name : Token) (value : Value) : Operation :=
  match m.locals[id]? with
  | some distance => .assignAt m.current distance name value
  | none => .assign globalFrame name value

theorem onMachine_read (m : Machine) (id : RefId) (name : Token) :
    (ofRead m id name).onMachine m = (Answer.read <$> Eval.read id name) m := by
  have read : perform (ofRead m id name) m.frames = m.frames.reading name
      ((m.holder? id name.lexeme).bind fun i => (m.frames.bindings i).lookup name.lexeme) := by
    unfold ofRead Machine.holder?
    cases m.locals[id]? <;> rfl
  show _ = EStateM.map Answer.read (Eval.read id name) m
  unfold onMachine EStateM.map Eval.read
  rw [read]
  cases (m.holder? id name.lexeme).bind _ <;> rfl

theorem onMachine_write (m : Machine) (id : RefId) (name : Token) (value : Value) :
    (ofWrite m id name value).onMachine m = ((fun _ => Answer.done) <$> Eval.write id name value) m := by
  have write : perform (ofWrite m id name value) m.frames = m.frames.writing name
      ((m.holder? id name.lexeme).map fun i => m.frames.define i name.lexeme value) := by
    unfold ofWrite Machine.holder?
    cases m.locals[id]? <;> rfl
  show _ = EStateM.map (fun _ => Answer.done) (Eval.write id name value) m
  unfold onMachine EStateM.map Eval.write
  rw [write]
  cases m.holder? id name.lexeme <;> rfl

theorem onMachine_define (m : Machine) (name : Token) (value : Value) :
    (Operation.define m.current name.lexeme value).onMachine m =
      ((fun _ => Answer.done) <$> Eval.define name value) m := rfl

theorem onMachine_child (m : Machine) (parent : FrameId) :
    (child parent).onMachine m = (Answer.made <$> Eval.newFrame parent []) m := rfl

end Operation

/-! ## New frames -/

/-- There is one more frame, without variables. -/
structure Makes (frames : Frames) (parent : Option FrameId) (frames' : Frames) : Prop where
  size_eq : frames'.size = frames.size + 1
  parent?_eq : ∀ k, frames'.parent? k = if k = frames.size then parent else frames.parent? k
  own?_eq : ∀ k name, frames'.own? k name = frames.own? k name

theorem makes_push (frames : Frames) (parent : FrameId) :
    frames.Makes (if parent < frames.size then some parent else none) (frames.push parent []) where
  size_eq := size_push
  parent?_eq _ := parent?_push
  own?_eq k name := by
    unfold own?
    by_cases new : k = frames.size
    · rw [new, bindings_push_self, bindings_eq_nil (Nat.le_refl _)]
    · rw [bindings_push_of_ne new]

theorem pushRoot_eq (frames : Frames) : frames.pushRoot = frames.push frames.size [] := by
  unfold push
  rw [dif_neg (Nat.lt_irrefl _)]
  rfl

theorem makes_pushRoot (frames : Frames) : frames.Makes none frames.pushRoot := by
  have makes := makes_push frames frames.size
  rw [if_neg (Nat.lt_irrefl _), ← pushRoot_eq] at makes
  exact makes

/-! ## Laws -/

/-- How operations by name and by distance belong together. -/
structure AccessLaws (frames : Frames) : Prop where
  /-- Every way outwards ends. -/
  ends : ∀ i, ∃ distance, frames.ancestor? i distance = none
  root : ∃ frames', perform .root frames = .ok (.made frames.size) frames' ∧ frames.Makes none frames'
  child : ∀ parent < frames.size, ∃ frames',
    perform (.child parent) frames = .ok (.made frames.size) frames' ∧
      frames.Makes (some parent) frames'
  define : ∀ i < frames.size, ∀ name value, ∃ frames',
    perform (.define i name value) frames = .ok .done frames' ∧ frames.Sets i name value frames'
  /-- By name the variable at the least distance is meant. -/
  get_eq : ∀ {i distance j} {name : Token}, frames.Nearest i distance name.lexeme j →
    perform (.get i name) frames = perform (.getAt i distance name) frames
  assign_eq : ∀ {i distance j} {name : Token} (value), frames.Nearest i distance name.lexeme j →
    perform (.assign i name value) frames = perform (.assignAt i distance name value) frames
  get_fails_iff : ∀ i (name : Token), perform (.get i name) frames = .error (undefined name) frames ↔
    ∀ distance, ¬frames.HasAt i distance name.lexeme
  assign_fails_iff : ∀ i (name : Token) value,
    perform (.assign i name value) frames = .error (undefined name) frames ↔
      ∀ distance, ¬frames.HasAt i distance name.lexeme
  /-- At a distance the frame there is meant and no other one. -/
  getAt_fails_iff : ∀ i distance (name : Token),
    perform (.getAt i distance name) frames = .error (undefined name) frames ↔
      ¬frames.HasAt i distance name.lexeme
  assignAt_fails_iff : ∀ i distance (name : Token) value,
    perform (.assignAt i distance name value) frames = .error (undefined name) frames ↔
      ¬frames.HasAt i distance name.lexeme
  getAt_reads : ∀ {i distance j} {name : Token} {value},
    frames.ancestor? i distance = some j → frames.own? j name.lexeme = some value →
      perform (.getAt i distance name) frames = .ok (.read value) frames
  assignAt_assigns : ∀ {i distance j} {name : Token} (value),
    frames.ancestor? i distance = some j → frames.Has j name.lexeme →
      ∃ frames', perform (.assignAt i distance name value) frames = .ok .done frames' ∧
        frames.Assigns j name.lexeme value frames'
  /-- An operation that fails changes nothing. -/
  unchanged : ∀ operation e frames', perform operation frames = .error e frames' → frames' = frames

theorem reading_fails_iff {name : Token} {found : Option Value} :
    frames.reading name found = .error (undefined name) frames ↔ found = none := by
  cases found <;> simp [reading]

theorem writing_fails_iff {name : Token} {found : Option Frames} :
    frames.writing name found = .error (undefined name) frames ↔ found = none := by
  cases found <;> simp [writing]

/-- Where the variable is there, it has a value. -/
theorem bind_own?_eq_none_iff {found : Option FrameId} (has : ∀ j ∈ found, frames.Has j name) :
    (found.bind fun j => frames.own? j name) = none ↔ found = none := by
  cases found with
  | none => simp
  | some j =>
    have some := has j rfl
    unfold Has at some
    rw [Option.bind_some]
    cases value : frames.own? j name <;> simp [value] at some ⊢

theorem behind_reading {name : Token} {found : Option Value} :
    behind (frames.reading name found) = frames := by
  cases found <;> rfl

theorem behind_writing {name : Token} {found : Option Frames} :
    behind (frames.writing name found) = found.getD frames := by
  cases found <;> rfl

theorem eq_of_reading {name : Token} {found : Option Value} {e : RuntimeError}
    (failed : frames.reading name found = .error e frames') : frames' = frames := by
  cases found <;> cases failed
  rfl

theorem eq_of_writing {name : Token} {found : Option Frames} {e : RuntimeError}
    (failed : frames.writing name found = .error e frames') : frames' = frames := by
  cases found <;> cases failed
  rfl

theorem accessLaws (frames : Frames) : frames.AccessLaws where
  ends i := by
    refine ⟨i + 1, ?_⟩
    cases reaches : frames.ancestor? i (i + 1) with
    | none => rfl
    | some j =>
      have older := add_le_of_ancestor? reaches
      omega
  root := ⟨_, rfl, makes_pushRoot frames⟩
  child parent old := by
    have makes := makes_push frames parent
    rw [if_pos old] at makes
    exact ⟨_, rfl, makes⟩
  define i old name value := ⟨_, rfl, sets_define old name value⟩
  get_eq {i distance j name} nearest := by
    have byName := holder?_eq_some_iff.2 ⟨distance, nearest⟩
    have byDistance := holderAt?_eq_some_iff.2 ⟨nearest.reaches, nearest.has⟩
    simp only [perform, get?, getAt?, byName, byDistance]
  assign_eq {i distance j name} value nearest := by
    have byName := holder?_eq_some_iff.2 ⟨distance, nearest⟩
    have byDistance := holderAt?_eq_some_iff.2 ⟨nearest.reaches, nearest.has⟩
    simp only [perform, assign?, assignAt?, byName, byDistance]
  get_fails_iff i name := by
    rw [← holder?_eq_none_iff]
    refine reading_fails_iff.trans (bind_own?_eq_none_iff fun j found => ?_)
    exact holds_of_holder? found
  assign_fails_iff i name value := by
    rw [← holder?_eq_none_iff]
    exact writing_fails_iff.trans Option.map_eq_none_iff
  getAt_fails_iff i distance name := by
    rw [← holderAt?_eq_none_iff]
    refine reading_fails_iff.trans (bind_own?_eq_none_iff fun j found => ?_)
    exact holds_of_holderAt? found
  assignAt_fails_iff i distance name value := by
    rw [← holderAt?_eq_none_iff]
    exact writing_fails_iff.trans Option.map_eq_none_iff
  getAt_reads {i distance j name value} reaches own := by
    have has : frames.Has j name.lexeme := by
      rw [Has, own]
      rfl
    have found : frames.getAt? i distance name.lexeme = some value := by
      rw [getAt?, holderAt?_eq_some_iff.2 ⟨reaches, has⟩]
      exact own
    simp only [perform, found, reading]
  assignAt_assigns {i distance j name} value reaches has := by
    refine ⟨_, ?_, assigns_define has value⟩
    simp only [perform, assignAt?, holderAt?_eq_some_iff.2 ⟨reaches, has⟩, Option.map_some, writing]
  unchanged operation e frames' failed := by
    cases operation with
    | root | child parent | define i name value => cases failed
    | get i name | getAt i distance name => exact eq_of_reading failed
    | assign i name value | assignAt i distance name value => exact eq_of_writing failed

/-- Assigning what was found gives no frame a name. -/
theorem has_of_assigned {found : Option FrameId} (has : ∀ j ∈ found, frames.Has j name) {other : String}
    (h : ((found.map fun j => frames.define j name value).getD frames).Has i other) :
    frames.Has i other := by
  cases found with
  | none => exact h
  | some j => exact ((assigns_define (has j rfl) value).has_iff i other).1 h

/-- Only a declaration in a frame gives a name to it. -/
theorem has_of_perform {operation : Operation}
    (h : (behind (perform operation frames)).Has i name) :
    frames.Has i name ∨ ∃ value, operation = .define i name value := by
  cases operation with
  | root =>
    left
    rwa [Has, ← (makes_pushRoot frames).own?_eq i name]
  | child parent =>
    left
    rwa [Has, ← (makes_push frames parent).own?_eq i name]
  | define j other value =>
    by_cases same : i = j ∧ name = other
    · obtain ⟨rfl, rfl⟩ := same
      exact .inr ⟨value, rfl⟩
    · left
      change (frames.define j other value).Has i name at h
      rcases Nat.lt_or_ge j frames.size with old | new
      · rwa [Has, (sets_define old other value).own?_eq, if_neg same] at h
      · rwa [define_of_size_le new] at h
  | get j other | getAt j distance other =>
    left
    rw [perform, behind_reading] at h
    exact h
  | assign j other value =>
    left
    rw [perform, behind_writing] at h
    exact has_of_assigned (fun l found => holds_of_holder? found) h
  | assignAt j distance other value =>
    left
    rw [perform, behind_writing] at h
    exact has_of_assigned (fun l found => holds_of_holderAt? found) h

theorem has_of_performAll {operations : List Operation}
    (h : (performAll operations frames).Has i name) :
    frames.Has i name ∨ ∃ value, .define i name value ∈ operations := by
  induction operations generalizing frames with
  | nil => exact .inl h
  | cons operation operations ih =>
    rcases ih h with before | ⟨value, mem⟩
    · rcases has_of_perform before with before | ⟨value, rfl⟩
      · exact .inl before
      · exact .inr ⟨value, List.mem_cons_self⟩
    · exact .inr ⟨value, List.mem_cons_of_mem operation mem⟩

/-- **Access by name and by distance agree on every tree of frames.** Whatever was done to frames
before: reading and assigning by name is the same as at the least distance at which the name is held,
and fails if there is none; at a distance it fails if there is no frame that holds the name. Assigning
changes one variable of one frame, and what is read wherever this variable is seen; a declaration
changes its own frame only. An operation that fails changes nothing, and a frame holds no names but
those that are declared in it. -/
theorem accessLaws_performAll (operations : List Operation) :
    (performAll operations .empty).AccessLaws ∧
      ∀ i name, (performAll operations .empty).Has i name →
        ∃ value, .define i name value ∈ operations := by
  refine ⟨accessLaws _, fun i name has => ?_⟩
  rcases has_of_performAll has with before | declared
  · cases before
  · exact declared

end Lox.Frames
