import Lox.Proofs.Scope.Landing

/-!
# Steps that keep mentions in place

What reading, assigning, declaring and entering do to a machine on which all mentions lead to where
they should.

* `Watch.Safe` — a part of a run after which they still do; `Safe.bind` — so do two parts.
* `Here.readStep`, `Here.reachStep`, `Here.writeStep` — evaluation has come to a mention.
* `Here.declareStep`, `Here.functionStep` — declarations.
* `Safe.inside`, `Safe.duringCall` — blocks and calls.
-/

namespace Lox.Watch

variable {w w' w'' : State} {p : Place} {α β : Type} {v : Value}

/-- The part of a run keeps what it should, and what it leads to is sane. -/
inductive Safe (w : State) (post : α → State → Prop) : EStateM.Result Halt State α → Prop where
  | ok {a : α} {w' : State} (keeps : Keeps w w') (holds : post a w') : Safe w post (.ok a w')
  | halt {halt : Halt} {w' : State} (keeps : Keeps w w') (sane : Sane w') :
      Safe w post (.error halt w')

variable {post : α → State → Prop} {post' : β → State → Prop}

namespace Safe

theorem pure {a : α} (h : post a w) : Safe w post (.ok a w) := .ok (.refl w) h

theorem after {r : EStateM.Result Halt State α} (keeps : Keeps w w') (h : Safe w' post r) :
    Safe w post r := by
  cases h with
  | ok keeps' holds => exact .ok (keeps.trans keeps') holds
  | halt keeps' sane => exact .halt (keeps.trans keeps') sane

/-- A safe part may be followed by one that is safe wherever the first one leads to. -/
theorem bind {x : Watch α} {f : α → Watch β} {start : State} (h : Safe w post (x start))
    (next : ∀ a w', Keeps w w' → post a w' → Safe w' post' (f a w')) :
    Safe w post' ((x >>= f) start) := by
  show Safe w post' (EStateM.bind x f start)
  unfold EStateM.bind
  generalize x start = r at h ⊢
  cases h with
  | ok keeps holds => exact (next _ _ keeps holds).after keeps
  | halt keeps sane => exact .halt keeps sane

theorem fail {line : Nat} {cause : RuntimeError.Cause} (sane : Sane w) :
    Safe w post (silently (Eval.fail line cause) w) :=
  .halt (.refl w) sane

end Safe

/-- What holds behind the evaluation of an expression. -/
def Evaluated (p : Place) (v : Value) (w : State) : Prop :=
  Here w p ∧ v.Placed w.machine.frames w.events

/-- What holds behind the evaluation of expressions. -/
def EvaluatedAll (p : Place) (vs : List Value) (w : State) : Prop :=
  Here w p ∧ ∀ v ∈ vs, v.Placed w.machine.frames w.events

/-- If the flow returns a value, it is placed. -/
def FlowPlaced (flow : Flow) (w : State) : Prop :=
  ∀ v, flow = .returned v → v.Placed w.machine.frames w.events

/-- What holds behind a part that may return. -/
def Executed (p : Place) (flow : Flow) (w : State) : Prop := Here w p ∧ FlowPlaced flow w

/-- What holds behind statements, wherever they have led to. -/
def ExecutedAll (flow : Flow) (w : State) : Prop := Sane w ∧ FlowPlaced flow w

theorem flowPlaced_normal : FlowPlaced .normal w := fun _ h => by cases h

theorem flowPlaced_returned (h : v.Placed w.machine.frames w.events) :
    FlowPlaced (.returned v) w := fun _ hv => by
  cases hv
  exact h

theorem FlowPlaced.result {flow : Flow} (h : FlowPlaced flow w) :
    flow.result.Placed w.machine.frames w.events := by
  cases flow with
  | normal => exact fun _ hf => by cases hf
  | returned v => exact h v rfl

/-! ## What does not matter -/

/-- Noting something down that is fine changes nothing. -/
theorem Sane.noting {e : Event} (h : Sane w) (fine : e.Fine w.events)
    (noFrame : ∀ site i, e ≠ .entered site i) (noProgram : ∀ program, e ≠ .began program) :
    Sane ⟨w.machine, e :: w.events⟩ := by
  have old : ∀ {site i}, Event.entered site i ∈ e :: w.events → Event.entered site i ∈ w.events :=
    fun mem => (List.mem_cons.1 mem).resolve_left fun same => noFrame _ _ same.symm
  exact {
    rooted := h.rooted
    root := h.root
    made := fun site i mem => h.made site i (old mem)
    once := fun site site' i mem mem' => h.once site site' i (old mem) (old mem')
    values := fun i name v hv => (Keeps.noting w noProgram).placed (h.values i name v hv)
    locals := fun μ begun => h.locals μ ((Mention.begun_cons noProgram).1 begun)
    inTime := fun μ begun => h.inTime μ ((Mention.begun_cons noProgram).1 begun)
    fine := ⟨fine, h.fine⟩ }

/-- Of the machine only the frames and the distances matter. -/
theorem Sane.same {m : Machine} (h : Sane w) (frames : m.frames = w.machine.frames)
    (locals : m.locals = w.machine.locals) : Sane ⟨m, w.events⟩ where
  rooted := frames ▸ h.rooted
  root := frames ▸ h.root
  made := frames ▸ h.made
  once := h.once
  values := frames ▸ h.values
  locals := locals ▸ h.locals
  inTime := h.inTime
  fine := h.fine

theorem Here.same {m : Machine} (h : Here w p) (frames : m.frames = w.machine.frames)
    (locals : m.locals = w.machine.locals) (current : m.current = w.machine.current) :
    Here ⟨m, w.events⟩ p where
  sane := h.sane.same frames locals
  chain := frames ▸ current ▸ h.chain
  exact := frames ▸ current ▸ h.exact

theorem Keeps.same {m : Machine} (frames : m.frames = w.machine.frames)
    (locals : m.locals = w.machine.locals) (current : m.current = w.machine.current) :
    Keeps w ⟨m, w.events⟩ := by
  refine ⟨current, locals, ?_, List.Subset.refl _, fun i name held => ?_,
    fun i _ _ name held => ?_, fun _ h => h⟩
  · show w.machine.frames.Extends m.frames
    rw [frames]
    exact .refl _
  · show (m.frames.bindings i).holds name = true
    rw [frames]
    exact held
  · rw [← frames]
    exact held

theorem Here.lt (h : Here w p) : w.machine.current < w.machine.frames.size :=
  h.chain.lt h.sane.rooted

theorem Here.noting {e : Event} (h : Here w p) (fine : e.Fine w.events)
    (noFrame : ∀ site i, e ≠ .entered site i) (noProgram : ∀ program, e ≠ .began program) :
    Here ⟨w.machine, e :: w.events⟩ p where
  sane := h.sane.noting fine noFrame noProgram
  chain := h.chain.mono (.refl _) (List.subset_cons_self _ _) fun _ _ held => held
  exact := h.exact

theorem Here.orFail {r : Except RuntimeError.Cause Value} (h : Here w p) (line : Nat)
    (plain : ∀ v, r = .ok v → v.Plain) :
    Safe w (Evaluated p) (silently (Eval.orFail line r) w) := by
  cases r with
  | error cause => exact .fail h.sane
  | ok v => exact .pure ⟨h, (plain v rfl).placed⟩

theorem Here.print (h : Here w p) (line : Nat) (text : String) :
    Safe w (fun _ w' => Here w' p) (silently (Eval.print line text) w) := by
  unfold silently Eval.print
  dsimp only
  cases (w.machine.sink.write (text ++ "\n")).1 with
  | true => exact .ok (.same rfl rfl rfl) (h.same rfl rfl rfl)
  | false => exact .halt (.same rfl rfl rfl) (h.sane.same rfl rfl)

/-! ## Variables -/

/-- A name gets a value that is placed. -/
theorem Sane.giving {i : FrameId} {name : String} (h : Sane w) (lt : i < w.machine.frames.size)
    (placed : v.Placed (w.machine.frames.define i name v) w.events) :
    Sane ⟨{ w.machine with frames := w.machine.frames.define i name v }, w.events⟩ where
  rooted := by simpa using h.rooted
  root := by simpa using h.root
  made site j mem := by simpa using h.made site j mem
  once := h.once
  values j other v' hv' := by
    have kept : ∀ j other, (w.machine.frames.bindings j).holds other = true →
        ((w.machine.frames.define i name v).bindings j).holds other = true := by
      intro j other held
      rw [Frames.holds_define lt, held, Bool.or_true]
    have new : ((w.machine.frames.define i name v).bindings j).lookup other = some v' := hv'
    rw [Frames.bindings_define lt] at new
    by_cases here : j = i
    · rw [if_pos here, Bindings.lookup_insert] at new
      by_cases same : other = name
      · rw [if_pos same] at new
        cases new
        exact placed
      · rw [if_neg same] at new
        exact (h.values i other v' new).mono (.define _ _ _ _) (List.Subset.refl _) kept
    · rw [if_neg here] at new
      exact (h.values j other v' new).mono (.define _ _ _ _) (List.Subset.refl _) kept
  locals := h.locals
  inTime := h.inTime
  fine := h.fine

/-- The frame that a mention leads to holds its name. -/
theorem Here.holds_of_holder? {μ : Mention} {j : FrameId} (h : Here w μ.place)
    (regular : μ.place.Regular) (begun : μ.Begun w.events)
    (found : w.machine.holder? μ.id μ.name.lexeme = some j) :
    (w.machine.frames.bindings j).holds μ.name.lexeme = true := by
  cases hd : μ.distance? with
  | none =>
    rw [h.holder?_global begun hd] at found
    split at found
    · cases found
      assumption
    · cases found
  | some distance =>
    obtain ⟨j', -, hj, -⟩ := h.frame regular hd
    rw [h.holder?_eq begun hd hj] at found
    split at found
    · cases found
      assumption
    · cases found

theorem Here.read (h : Here w p) (id : RefId) (name : Token) :
    Safe w (Evaluated p) (silently (Eval.read id name) w) := by
  unfold silently Eval.read
  cases hv : (w.machine.holder? id name.lexeme).bind
      fun i => (w.machine.frames.bindings i).lookup name.lexeme with
  | none => exact .halt (.refl _) h.sane
  | some v =>
    obtain ⟨i, -, found⟩ := Option.bind_eq_some_iff.1 hv
    exact .pure ⟨h, h.sane.values i name.lexeme v found⟩

theorem Here.write {id : RefId} {name : Token} (h : Here w p) (regular : p.Regular)
    (begun : Mention.Begun w.events ⟨id, name, true, p⟩)
    (placed : v.Placed w.machine.frames w.events) :
    Safe w (fun _ w' => Evaluated p v w') (silently (Eval.write id name v) w) := by
  unfold silently Eval.write
  cases found : w.machine.holder? id name.lexeme with
  | none => exact .halt (.refl _) h.sane
  | some j =>
    have held := @Here.holds_of_holder? w ⟨id, name, true, p⟩ j h regular begun found
    have lt := Frames.lt_size_of_holds held
    have keeps := @Keeps.giving w j name.lexeme v lt (Or.inr held)
    have placed' := keeps.placed placed
    refine .ok keeps ⟨⟨h.sane.giving lt placed', ?_, ?_⟩, placed'⟩
    · exact h.chain.mono keeps.frames keeps.events keeps.kept
    · intro scope mem other
      rw [← h.exact scope mem other]
      show ((w.machine.frames.define j name.lexeme v).bindings w.machine.current).holds other = true ↔
        (w.machine.frames.bindings w.machine.current).holds other = true
      rw [Frames.holds_define lt, Bool.or_eq_true, decide_eq_true_iff]
      refine or_iff_right_of_imp ?_
      rintro ⟨same, rfl⟩
      rw [same]
      exact held

/-- Evaluation has come to a variable. -/
theorem Here.readStep {id : RefId} {name : Token} (h : Here w p) (regular : p.Regular)
    (begun : Mention.Begun w.events ⟨id, name, false, p⟩) :
    Safe w (Evaluated p)
      ((note (.reached id name false) >>= fun _ => silently (Eval.read id name)) w) := by
  have fine : (Event.reached id name false w.machine).Fine w.events :=
    ⟨⟨id, name, false, p⟩, begun, rfl, rfl, rfl, h.lands regular begun,
      fun _ => h.reads regular begun rfl⟩
  have noted := h.noting fine (by simp) (by simp)
  exact Safe.after (.noting w (by simp)) (noted.read id name)

/-- Evaluation has come to an assignment. -/
theorem Here.reachStep {id : RefId} {name : Token} (h : Here w p) (regular : p.Regular)
    (begun : Mention.Begun w.events ⟨id, name, true, p⟩) :
    Here ⟨w.machine, .reached id name true w.machine :: w.events⟩ p := by
  refine h.noting ?_ (by simp) (by simp)
  exact ⟨⟨id, name, true, p⟩, begun, rfl, rfl, rfl, h.lands regular begun, fun no => by cases no⟩

/-- The value of an assignment is known. -/
theorem Here.writeStep {id : RefId} {name : Token} (h : Here w p) (regular : p.Regular)
    (begun : Mention.Begun w.events ⟨id, name, true, p⟩)
    (placed : v.Placed w.machine.frames w.events) :
    Safe w (fun _ w' => Evaluated p v w')
      ((note (.assigning id name v) >>= fun _ => silently (Eval.write id name v)) w) := by
  have fine : (Event.assigning id name v w.machine).Fine w.events :=
    ⟨⟨id, name, true, p⟩, begun, rfl, rfl, rfl, h.lands regular begun, h.writes regular begun v⟩
  have noted := h.noting fine (by simp) (by simp)
  have keeps : Keeps w ⟨w.machine, .assigning id name v w.machine :: w.events⟩ :=
    .noting w (by simp)
  exact Safe.after keeps (noted.write regular (begun.mono keeps.events) (keeps.placed placed))

/-! ## Declarations -/

/-- The value of a declared variable is being worked out. -/
theorem Here.inInitializer {name : Token} (h : Here w p)
    (untaken : p.scopes.taken name.lexeme = false) : Here w (p.inInitializer name) where
  sane := h.sane
  chain := h.chain.gets (Scopes.gets_declare untaken) fun no => by cases no
  exact := by
    have exact := h.exact
    have gets := Scopes.gets_declare untaken
    show ∀ scope ∈ (p.scopes.declare name.lexeme).head?, _
    generalize p.scopes.declare name.lexeme = scopes' at gets ⊢
    generalize p.scopes = scopes at untaken exact gets
    cases scopes with
    | nil =>
      cases gets
      exact fun _ mem => by cases mem
    | cons scope outer =>
      obtain ⟨scope', rfl, marks⟩ := gets
      intro _ mem other
      cases mem
      rw [exact scope rfl other]
      by_cases same : other = name.lexeme
      · have none : scope.lookup name.lexeme = none := Option.isSome_eq_false_iff.1 untaken
          |> Option.isNone_iff_eq_none.1
        rw [same, marks.self, none]
        simp
      · rw [marks.others other same]

/-- A declared name gets its value in the current frame. -/
theorem Here.giving {p' : Place} {name : String} (h : Here w p) (sites : p'.sites = p.sites)
    (gets : Scopes.Gets p.scopes p'.scopes name true)
    (placed : v.Placed (w.machine.frames.define w.machine.current name v) w.events) :
    Here ⟨{ w.machine with frames := w.machine.frames.define w.machine.current name v }, w.events⟩
      p' where
  sane := h.sane.giving h.lt placed
  chain := by
    have keeps := @Keeps.giving w w.machine.current name v h.lt (Or.inl rfl)
    have chain := h.chain.mono keeps.frames keeps.events keeps.kept
    rw [sites]
    refine chain.gets gets fun _ => ?_
    show ((w.machine.frames.define w.machine.current name v).bindings w.machine.current).holds name =
      true
    rw [Frames.holds_define h.lt]
    simp
  exact := by
    have exact := h.exact
    generalize p.scopes = scopes, p'.scopes = scopes' at exact gets
    cases scopes with
    | nil =>
      cases gets
      exact fun _ mem => by cases mem
    | cons scope outer =>
      obtain ⟨scope', rfl, marks⟩ := gets
      intro _ mem other
      cases mem
      show ((w.machine.frames.define w.machine.current name v).bindings
        w.machine.current).holds other = true ↔ _
      rw [Frames.holds_define h.lt, Bool.or_eq_true, decide_eq_true_iff, exact scope rfl other]
      by_cases same : other = name
      · simp [same, marks.self]
      · simp [same, marks.others other same]

theorem Here.declareStep {p' : Place} {name : Token} (h : Here w p) (sites : p'.sites = p.sites)
    (gets : Scopes.Gets p.scopes p'.scopes name.lexeme true)
    (placed : v.Placed w.machine.frames w.events) :
    Safe w (fun _ w' => Here w' p') (silently (Eval.define name v) w) := by
  have keeps := @Keeps.giving w w.machine.current name.lexeme v h.lt (Or.inl rfl)
  exact .ok keeps (h.giving sites gets (keeps.placed placed))

/-- A function is made and gets its name. -/
theorem Here.functionStep {name : Token} {parameters : List Token} {body : List Stmt}
    (h : Here w p) (settled : p.Settled)
    (mentions : ∀ μ ∈ Stmt.mentionsAll (p.inFunction name parameters body) body, μ.Begun w.events)
    (nodup : (parameters.map Token.lexeme).Nodup)
    (tidy : Stmt.TidyAll (p.inFunction name parameters body).scopes body) :
    Safe w (fun _ w' => Here w' (p.behind (.function name parameters body)))
      ((silently (Eval.closure name parameters body) >>= fun f => silently (Eval.define name f))
        w) := by
  let f : Closure := ⟨w.machine.nextIdentity, name, parameters, body, w.machine.current⟩
  let w₁ : State := ⟨{ w.machine with nextIdentity := w.machine.nextIdentity + 1 }, w.events⟩
  have h₁ : Here w₁ p := h.same rfl rfl rfl
  have gets := Scopes.gets_introduce p.scopes name
  have keeps₁ : Keeps w w₁ := .same rfl rfl rfl
  have keeps₂ := @Keeps.giving w₁ w₁.machine.current name.lexeme (.function f) h₁.lt (Or.inl rfl)
  have chain := (h₁.chain.mono keeps₂.frames keeps₂.events keeps₂.kept).gets gets fun _ => by
    show ((w₁.machine.frames.define w₁.machine.current name.lexeme (.function f)).bindings
      w₁.machine.current).holds name.lexeme = true
    rw [Frames.holds_define h₁.lt]
    simp
  have placed : (Value.function f).Placed
      (w₁.machine.frames.define w₁.machine.current name.lexeme (.function f)) w₁.events := by
    intro g hg
    cases hg
    exact ⟨p, settled, chain, mentions, nodup, tidy⟩
  have h₂ : Here _ (p.behind (.function name parameters body)) := h₁.giving rfl gets placed
  exact .ok (keeps₁.trans keeps₂) h₂

/-! ## Blocks and calls -/

/-- The machine when a frame has just been made. -/
def entering (w : State) (site : Site) (parent : FrameId) (bindings : Bindings) : State :=
  ⟨{ w.machine with
    frames := w.machine.frames.push parent bindings
    current := w.machine.frames.size }, .entered site w.machine.frames.size :: w.events⟩

variable {site : Site} {parent : FrameId} {bindings : Bindings}

theorem holds_push {name : String} {i : FrameId} (lt : i < w.machine.frames.size) :
    ((w.machine.frames.push parent bindings).bindings i).holds name =
      (w.machine.frames.bindings i).holds name := by
  rw [Frames.bindings_push_of_ne (Nat.ne_of_lt lt)]

theorem placed_entering (w : State) (site : Site) (parent : FrameId) (bindings : Bindings)
    (placed : v.Placed w.machine.frames w.events) :
    v.Placed (entering w site parent bindings).machine.frames
      (entering w site parent bindings).events := by
  refine placed.mono (.push _ _ _) (List.subset_cons_self _ _) fun i name held => ?_
  show ((w.machine.frames.push parent bindings).bindings i).holds name = true
  rw [holds_push (Frames.lt_size_of_holds held)]
  exact held

theorem Sane.entering (h : Sane w) (site : Site) (parent : FrameId)
    (placed : ∀ name v, bindings.lookup name = some v → v.Placed w.machine.frames w.events) :
    Sane (entering w site parent bindings) where
  rooted := by
    show globalFrame < (w.machine.frames.push parent bindings).size
    rw [Frames.size_push]
    exact Nat.lt_succ_of_lt h.rooted
  root := (Frames.parent?_push_of_lt h.rooted).trans h.root
  made site' i mem := by
    show i ≠ globalFrame ∧ i < (w.machine.frames.push parent bindings).size
    rw [Frames.size_push]
    rcases List.mem_cons.1 mem with same | old
    · cases same
      exact ⟨Nat.ne_of_gt h.rooted, Nat.lt_succ_self _⟩
    · obtain ⟨notGlobal, lt⟩ := h.made site' i old
      exact ⟨notGlobal, Nat.lt_succ_of_lt lt⟩
  once site₁ site₂ i mem₁ mem₂ := by
    rcases List.mem_cons.1 mem₁ with same₁ | old₁
    · rcases List.mem_cons.1 mem₂ with same₂ | old₂
      · cases same₁
        cases same₂
        rfl
      · cases same₁
        exact absurd (h.made site₂ _ old₂).2 (Nat.lt_irrefl _)
    · rcases List.mem_cons.1 mem₂ with same₂ | old₂
      · cases same₂
        exact absurd (h.made site₁ _ old₁).2 (Nat.lt_irrefl _)
      · exact h.once site₁ site₂ i old₁ old₂
  values i name v hv := by
    apply placed_entering
    have found : ((w.machine.frames.push parent bindings).bindings i).lookup name = some v := hv
    by_cases new : i = w.machine.frames.size
    · subst new
      rw [Frames.bindings_push_self] at found
      exact placed name v found
    · rw [Frames.bindings_push_of_ne new] at found
      exact h.values i name v found
  locals μ begun := h.locals μ ((Mention.begun_cons (by simp)).1 begun)
  inTime μ begun := h.inTime μ ((Mention.begun_cons (by simp)).1 begun)
  fine := ⟨trivial, h.fine⟩

/-- A new frame with the names of a new scope fits the place inside it. -/
theorem Here.entering {p' : Place} {scope : Scope} {scopes : Scopes} {sites : List Site}
    (sane : Sane w) (chain : Chain w.machine.frames w.events scopes sites parent)
    (inner : p'.scopes = scope :: scopes) (opened : p'.sites = site :: sites)
    (names : ∀ name, bindings.holds name = true ↔ scope.lookup name = some true)
    (placed : ∀ name v, bindings.lookup name = some v → v.Placed w.machine.frames w.events) :
    Here (entering w site parent bindings) p' where
  sane := sane.entering site parent placed
  chain := by
    have self : ∀ name, ((w.machine.frames.push parent bindings).bindings
        w.machine.frames.size).holds name = bindings.holds name := by
      intro name
      rw [Frames.bindings_push_self]
    rw [inner, opened]
    refine .inner List.mem_cons_self (Frames.parent?_push_self (chain.lt sane.rooted))
      (fun name ready => (self name).trans ((names name).2 ready)) ?_
    refine chain.mono (.push _ _ _) (List.subset_cons_self _ _) fun i name held => ?_
    show ((w.machine.frames.push parent bindings).bindings i).holds name = true
    rw [holds_push (Frames.lt_size_of_holds held)]
    exact held
  exact := by
    rw [inner]
    intro _ mem name
    cases mem
    rw [← names name]
    show ((w.machine.frames.push parent bindings).bindings w.machine.frames.size).holds name = true ↔ _
    rw [Frames.bindings_push_self]

/-- Behind a part that ran in a new frame, all other frames have the names that they had. -/
theorem Keeps.back (keeps : Keeps (Watch.entering w site parent bindings) w') :
    Keeps w ⟨{ w'.machine with current := w.machine.current }, w'.events⟩ where
  current := rfl
  locals := keeps.locals
  frames := (Frames.Extends.push w.machine.frames parent bindings).trans keeps.frames
  events := List.Subset.trans (List.subset_cons_self _ _) keeps.events
  kept i name held := by
    apply keeps.kept
    show ((w.machine.frames.push parent bindings).bindings i).holds name = true
    rw [holds_push (Frames.lt_size_of_holds held)]
    exact held
  others i lt _ name held := by
    rw [← @holds_push w parent bindings name i lt]
    refine keeps.others i ?_ (Nat.ne_of_lt lt) name held
    show i < (w.machine.frames.push parent bindings).size
    rw [Frames.size_push]
    exact Nat.lt_succ_of_lt lt
  begun μ begun := (Mention.begun_cons (by simp)).1 (keeps.begun μ begun)

/-- The current frame fits the place again. -/
theorem Here.back (h : Here w p) (sane : Sane w')
    (keeps : Keeps (Watch.entering w site parent bindings) w') :
    Here ⟨{ w'.machine with current := w.machine.current }, w'.events⟩ p where
  sane := sane.same rfl rfl
  chain := h.chain.mono keeps.back.frames keeps.back.events keeps.back.kept
  exact scope mem name := by
    rw [← h.exact scope mem name]
    refine ⟨fun held => ?_, keeps.back.kept w.machine.current name⟩
    rw [← @holds_push w parent bindings name _ h.lt]
    refine keeps.others w.machine.current ?_ (Nat.ne_of_lt h.lt) name held
    show w.machine.current < (w.machine.frames.push parent bindings).size
    rw [Frames.size_push]
    exact Nat.lt_succ_of_lt h.lt

/-- A part of a run in a new frame, which has just been made. -/
theorem Safe.inFrame {x : Watch Flow} {w₀ : State} (h : Here w p)
    (outside : w₀.machine.current = w.machine.current)
    (made : ⟨{ w₀.machine with current := w.machine.frames.size }, w₀.events⟩ =
      entering w site parent bindings)
    (body : Safe (entering w site parent bindings) ExecutedAll
      (x (entering w site parent bindings))) :
    Safe w (Executed p) (Watch.inFrame w.machine.frames.size x w₀) := by
  unfold Watch.inFrame
  dsimp only
  rw [made, outside]
  generalize x (entering w site parent bindings) = r at body ⊢
  cases body with
  | ok keeps holds => exact .ok keeps.back ⟨h.back holds.1 keeps, holds.2⟩
  | halt keeps sane => exact .halt keeps.back (sane.same rfl rfl)

/-- A part of a run in a new frame. -/
theorem Safe.inside {x : Watch Flow} (h : Here w p)
    (body : Safe (entering w site parent bindings) ExecutedAll
      (x (entering w site parent bindings))) :
    Safe w (Executed p) (Watch.inside site parent bindings x w) := by
  show Safe w (Executed p) (Watch.inFrame w.machine.frames.size x
    ⟨{ w.machine with frames := w.machine.frames.push parent bindings },
      .entered site w.machine.frames.size :: w.events⟩)
  exact .inFrame h rfl rfl body

/-- A part of a run with one more call active. -/
theorem Safe.duringCall {x : Watch Value}
    (body : Safe ⟨{ w.machine with depth := w.machine.depth + 1 }, w.events⟩ (Evaluated p)
      (x ⟨{ w.machine with depth := w.machine.depth + 1 }, w.events⟩)) :
    Safe w (Evaluated p) (Watch.duringCall x w) := by
  unfold Watch.duringCall
  dsimp only
  generalize x ⟨{ w.machine with depth := w.machine.depth + 1 }, w.events⟩ = r at body ⊢
  have deeper : Keeps w ⟨{ w.machine with depth := w.machine.depth + 1 }, w.events⟩ :=
    .same rfl rfl rfl
  cases body with
  | ok keeps holds =>
    exact .ok ((deeper.trans keeps).trans (.same rfl rfl rfl)) ⟨holds.1.same rfl rfl rfl, holds.2⟩
  | halt keeps sane =>
    exact .halt ((deeper.trans keeps).trans (.same rfl rfl rfl)) (sane.same rfl rfl)

end Lox.Watch
