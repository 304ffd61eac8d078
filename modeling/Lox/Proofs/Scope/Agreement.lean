import Lox.Proofs.Scope.Checked
import Lox.Proofs.Scope.Watching

/-!
# Mentions lead to their declarations

Whatever a session runs, evaluation comes to mentions of variables only in frames from which they
lead to the frames of their declarations.

* `SafeInvoke` — a way to run the body of a function that keeps this so.
* `Expr.safe`, `Stmt.safe` — then expressions and statements keep it so.
* `safeInvoke` — all calls do.
* `Session.runAll_fine` — in all sessions all events are fine.
-/

namespace Lox.Watch

variable {w w' : State} {p : Place} {J : Invoke}

/-- Running the body of a function keeps mentions in place. -/
def SafeInvoke (J : Invoke) : Prop :=
  ∀ {f : Closure} {vs : List Value} {w : State} {p : Place}, Here w p →
    f.Placed w.machine.frames w.events → (∀ v ∈ vs, v.Placed w.machine.frames w.events) →
    vs.length = f.parameters.length → Safe w (Evaluated p) (J f vs w)

theorem Here.call {f : Closure} {vs : List Value} (inv : SafeInvoke J) (h : Here w p)
    (closing : Token) (placed : f.Placed w.machine.frames w.events)
    (placedAll : ∀ v ∈ vs, v.Placed w.machine.frames w.events) :
    Safe w (Evaluated p) (call J closing f vs w) := by
  unfold Watch.call
  by_cases count : vs.length = f.parameters.length
  · rw [if_neg (not_not_intro count)]
    show Safe w _ ((if maxCalls ≤ w.machine.depth then _ else _ : Watch Value) w)
    split
    · exact .fail h.sane
    · exact .duringCall (inv (h.same rfl rfl rfl) placed placedAll count)
  · rw [if_pos count]
    exact .fail h.sane

theorem begun_all {μs : List Mention} (keeps : Keeps w w') (begun : ∀ μ ∈ μs, μ.Begun w.events) :
    ∀ μ ∈ μs, μ.Begun w'.events := fun μ hμ => (begun μ hμ).mono keeps.events

mutual

/-- Evaluating an expression keeps mentions in place. -/
theorem Expr.safe (inv : SafeInvoke J) {p : Place} (regular : p.Regular) : ∀ (e : Expr) {w : State},
    (∀ μ ∈ e.mentions p, μ.Begun w.events) → Here w p → Safe w (Evaluated p) (evaluate J e w)
  | .literal value, w, _, h => by
    refine .pure ⟨h, fun f hf => ?_⟩
    cases value <;> cases hf
  | .grouping inner, w, begun, h => by
    rw [evaluate]
    exact Expr.safe inv regular inner begun h
  | .unary op right, w, begun, h => by
    rw [evaluate]
    refine (Expr.safe inv regular right begun h).bind ?_
    rintro v w₁ - ⟨h₁, -⟩
    exact h₁.orFail op.line (Value.forgets_unary op v).plain
  | .binary left op right, w, begun, h => by
    obtain ⟨inLeft, inRight⟩ := List.forall_mem_append.1 begun
    rw [evaluate]
    refine (Expr.safe inv regular left inLeft h).bind ?_
    rintro v w₁ keeps₁ ⟨h₁, -⟩
    refine (Expr.safe inv regular right (begun_all keeps₁ inRight) h₁).bind ?_
    rintro v' w₂ - ⟨h₂, -⟩
    exact h₂.orFail op.line (Value.forgets_binary op v v').plain
  | .logical left op right, w, begun, h => by
    obtain ⟨inLeft, inRight⟩ := List.forall_mem_append.1 begun
    rw [evaluate]
    refine (Expr.safe inv regular left inLeft h).bind ?_
    rintro v w₁ keeps₁ ⟨h₁, placed⟩
    split
    · exact .pure ⟨h₁, placed⟩
    · exact Expr.safe inv regular right (begun_all keeps₁ inRight) h₁
  | .var id name, w, begun, h => by
    rw [evaluate]
    exact h.readStep regular (begun _ (List.mem_singleton_self _))
  | .assign id target value, w, begun, h => by
    obtain ⟨inValue, own⟩ := List.forall_mem_append.1 begun
    have own := own _ (List.mem_singleton_self _)
    have reached : Keeps w ⟨w.machine, .reached id target true w.machine :: w.events⟩ :=
      .noting w (by simp)
    rw [evaluate]
    refine Safe.after reached ?_
    refine (Expr.safe inv regular value (begun_all reached inValue) (h.reachStep regular own)).bind ?_
    rintro v w₁ keeps₁ ⟨h₁, placed⟩
    have written := h₁.writeStep regular (own.mono (reached.trans keeps₁).events) placed
    have rest := written.bind (f := fun _ => pure v) fun _ _ _ holds => Safe.pure holds
    rw [bind_assoc] at rest
    exact rest
  | .call callee closing arguments, w, begun, h => by
    obtain ⟨inCallee, inArguments⟩ := List.forall_mem_append.1 begun
    rw [evaluate]
    refine (Expr.safe inv regular callee inCallee h).bind ?_
    rintro v w₁ keeps₁ ⟨h₁, placed⟩
    cases v with
    | function f =>
      refine (Expr.safeAll inv regular arguments (begun_all keeps₁ inArguments) h₁).bind ?_
      rintro vs w₂ keeps₂ ⟨h₂, placedAll⟩
      exact h₂.call inv closing (keeps₂.placed placed f rfl) placedAll
    | _ => exact .fail h₁.sane

theorem Expr.safeAll (inv : SafeInvoke J) {p : Place} (regular : p.Regular) :
    ∀ (es : List Expr) {w : State}, (∀ μ ∈ Expr.mentionsAll p es, μ.Begun w.events) → Here w p →
    Safe w (EvaluatedAll p) (evaluateAll J es w)
  | [], w, _, h => .pure ⟨h, fun _ mem => by cases mem⟩
  | e :: es, w, begun, h => by
    obtain ⟨inFirst, inOthers⟩ := List.forall_mem_append.1 begun
    rw [evaluateAll]
    refine (Expr.safe inv regular e inFirst h).bind ?_
    rintro v w₁ keeps₁ ⟨h₁, placed⟩
    refine (Expr.safeAll inv regular es (begun_all keeps₁ inOthers) h₁).bind ?_
    rintro vs w₂ keeps₂ ⟨h₂, placedAll⟩
    exact .pure ⟨h₂, List.forall_mem_cons.2 ⟨keeps₂.placed placed, placedAll⟩⟩

end

theorem Expr.safe? (inv : SafeInvoke J) (regular : p.Regular) {e : Option Expr}
    (begun : ∀ μ ∈ Expr.mentions? p e, μ.Begun w.events) (h : Here w p) :
    Safe w (Evaluated p) (evaluate? J e w) := by
  cases e with
  | none => exact .pure ⟨h, fun _ hf => by cases hf⟩
  | some e => exact Expr.safe inv regular e begun h

/-- Loops keep mentions in place if their conditions and bodies do. -/
theorem safe_repeatWhile {condition : Watch Value} {body : Watch Flow} {events : List Event}
    (holds : ∀ {w}, events ⊆ w.events → Here w p → Safe w (Evaluated p) (condition w))
    (round : ∀ {w}, events ⊆ w.events → Here w p → Safe w (Executed p) (body w)) (fuel : Nat)
    (more : events ⊆ w.events) (h : Here w p) :
    Safe w (Executed p) (repeatWhile condition body fuel w) := by
  induction fuel generalizing w with
  | zero => exact .halt (.refl w) h.sane
  | succ fuel ih =>
    rw [repeatWhile]
    refine (holds more h).bind ?_
    rintro v w₁ keeps₁ ⟨h₁, -⟩
    have more₁ := List.Subset.trans more keeps₁.events
    split
    · refine (round more₁ h₁).bind ?_
      rintro flow w₂ keeps₂ ⟨h₂, placed⟩
      cases flow with
      | normal => exact ih (List.Subset.trans more₁ keeps₂.events) h₂
      | returned v => exact .pure ⟨h₂, placed⟩
    · exact .pure ⟨h₁, flowPlaced_normal⟩

theorem behind_of_none {s : Stmt} (h : s.declared? = none) (p : Place) : p.behind s = p := by
  rw [Place.behind, Scopes.behind_of_none h]

mutual

/-- Executing a statement keeps mentions in place. -/
theorem Stmt.safe (inv : SafeInvoke J) (fuel : Nat) : ∀ (s : Stmt) {p : Place} {w : State},
    (∀ μ ∈ s.mentions p, μ.Begun w.events) → s.Tidy p.scopes → p.Settled → Here w p →
    Safe w (Executed (p.behind s)) (execute J fuel s w)
  | .expression value, p, w, begun, _, settled, h => by
    rw [execute]
    refine (Expr.safe inv settled.regular value begun h).bind ?_
    rintro v w₁ - ⟨h₁, -⟩
    exact .pure ⟨h₁, flowPlaced_normal⟩
  | .print keyword value, p, w, begun, _, settled, h => by
    rw [execute]
    refine (Expr.safe inv settled.regular value begun h).bind ?_
    rintro v w₁ - ⟨h₁, -⟩
    refine (h₁.print keyword.line v.text).bind ?_
    rintro - w₂ - h₂
    exact .pure ⟨h₂, flowPlaced_normal⟩
  | .var name initializer, p, w, begun, untaken, settled, h => by
    rw [execute]
    refine (Expr.safe? inv (settled.inInitializer untaken) begun (h.inInitializer untaken)).bind ?_
    rintro v w₁ - ⟨h₁, placed⟩
    have declared : Safe w₁ (fun _ w' => Here w' (p.behind (.var name initializer)))
        (silently (Eval.define name v) w₁) :=
      h₁.declareStep rfl (Scopes.gets_define _ _) placed
    refine declared.bind ?_
    rintro - w₂ - h₂
    exact .pure ⟨h₂, flowPlaced_normal⟩
  | .block body, p, w, begun, tidy, settled, h => by
    rw [execute]
    have inside : Here (entering w (.block body) w.machine.current []) (p.inBlock body) :=
      .entering h.sane h.chain rfl rfl (by simp [Bindings.holds]) (by simp)
    have keeps : w.events ⊆ (entering w (.block body) w.machine.current []).events :=
      List.subset_cons_self _ _
    exact .inside h (Stmt.safeAll inv fuel body (fun μ hμ => (begun μ hμ).mono keeps) tidy
      (settled.inBlock body) inside)
  | .ifThen condition yes none, p, w, begun, ⟨noDeclaration, tidy⟩, settled, h => by
    obtain ⟨inCondition, inYes⟩ := List.forall_mem_append.1 begun
    rw [execute]
    refine (Expr.safe inv settled.regular condition inCondition h).bind ?_
    rintro v w₁ keeps₁ ⟨h₁, -⟩
    split
    · exact Stmt.safeBranch inv fuel yes (begun_all keeps₁ inYes) noDeclaration tidy settled h₁
    · exact .pure ⟨h₁, flowPlaced_normal⟩
  | .ifThen condition yes (some no), p, w, begun, ⟨tidyYes, tidyNo⟩, settled, h => by
    obtain ⟨begun, inNo⟩ := List.forall_mem_append.1 begun
    obtain ⟨inCondition, inYes⟩ := List.forall_mem_append.1 begun
    rw [execute]
    refine (Expr.safe inv settled.regular condition inCondition h).bind ?_
    rintro v w₁ keeps₁ ⟨h₁, -⟩
    split
    · exact Stmt.safeBranch inv fuel yes (begun_all keeps₁ inYes) tidyYes.1 tidyYes.2 settled h₁
    · exact Stmt.safeBranch inv fuel no (begun_all keeps₁ inNo) tidyNo.1 tidyNo.2 settled h₁
  | .whileDo condition body, p, w, begun, ⟨noDeclaration, tidy⟩, settled, h => by
    obtain ⟨inCondition, inBody⟩ := List.forall_mem_append.1 begun
    rw [execute]
    exact safe_repeatWhile
      (fun more h => Expr.safe inv settled.regular condition
        (fun μ hμ => (inCondition μ hμ).mono more) h)
      (fun more h => Stmt.safeBranch inv fuel body (fun μ hμ => (inBody μ hμ).mono more)
        noDeclaration tidy settled h) fuel (List.Subset.refl _) h
  | .function name parameters body, p, w, begun, ⟨_, nodup, tidy⟩, settled, h => by
    rw [execute]
    have declared := h.functionStep settled begun nodup tidy
    have whole : Safe w (Executed (p.behind (.function name parameters body))) _ :=
      declared.bind (f := fun _ => pure Flow.normal) fun _ w₁ _ h₁ =>
        .pure ⟨h₁, flowPlaced_normal⟩
    rw [bind_assoc] at whole
    exact whole
  | .ret _ value, p, w, begun, _, settled, h => by
    rw [execute]
    refine (Expr.safe? inv settled.regular begun h).bind ?_
    rintro v w₁ - ⟨h₁, placed⟩
    exact .pure ⟨h₁, flowPlaced_returned placed⟩

/-- So does executing a branch or the body of a loop, and the place stays the same. -/
theorem Stmt.safeBranch (inv : SafeInvoke J) (fuel : Nat) (s : Stmt) {p : Place} {w : State}
    (begun : ∀ μ ∈ s.mentions p, μ.Begun w.events) (noDeclaration : s.declared? = none)
    (tidy : s.Tidy p.scopes) (settled : p.Settled) (h : Here w p) :
    Safe w (Executed p) (execute J fuel s w) := by
  have safe := Stmt.safe inv fuel s begun tidy settled h
  rw [behind_of_none noDeclaration] at safe
  exact safe

theorem Stmt.safeAll (inv : SafeInvoke J) (fuel : Nat) : ∀ (ss : List Stmt) {p : Place} {w : State},
    (∀ μ ∈ Stmt.mentionsAll p ss, μ.Begun w.events) → Stmt.TidyAll p.scopes ss → p.Settled →
    Here w p → Safe w ExecutedAll (executeAll J fuel ss w)
  | [], p, w, _, _, _, h => .pure ⟨h.sane, flowPlaced_normal⟩
  | s :: ss, p, w, begun, ⟨tidy, tidyAll⟩, settled, h => by
    obtain ⟨inFirst, inOthers⟩ := List.forall_mem_append.1 begun
    rw [executeAll]
    refine (Stmt.safe inv fuel s inFirst tidy settled h).bind ?_
    rintro flow w₁ keeps₁ ⟨h₁, placed⟩
    cases flow with
    | normal =>
      exact Stmt.safeAll inv fuel ss (begun_all keeps₁ inOthers) tidyAll (settled.behind s) h₁
    | returned v => exact .pure ⟨h₁.sane, placed⟩

end

/-! ## Calls -/

/-- The variables of a call are its parameters. -/
theorem holds_parameterBindings {names : List Token} {vs : List Value} (name : String)
    (count : vs.length = names.length) :
    (parameterBindings names vs).holds name = true ↔ name ∈ names.map Token.lexeme := by
  have all : ∀ bindings : Bindings,
      ((names.zip vs).foldl (fun bindings p => bindings.insert p.1.lexeme p.2) bindings).holds name =
        true ↔ name ∈ names.map Token.lexeme ∨ bindings.holds name = true := by
    induction names generalizing vs with
    | nil => simp
    | cons first names ih =>
      cases vs with
      | nil => cases count
      | cons v vs =>
        intro bindings
        rw [List.zip_cons_cons, List.foldl_cons, ih (Nat.succ.inj count), Bindings.holds_insert,
          Bool.or_eq_true, decide_eq_true_iff, List.map_cons, List.mem_cons]
        exact or_left_comm.trans or_assoc.symm
  rw [parameterBindings, all]
  simp [Bindings.holds]

/-- Their values are the arguments. -/
theorem mem_of_parameterBindings {names : List Token} {vs : List Value} {name : String} {v : Value}
    (h : (parameterBindings names vs).lookup name = some v) : v ∈ vs := by
  have all : ∀ bindings : Bindings,
      ((names.zip vs).foldl (fun bindings p => bindings.insert p.1.lexeme p.2) bindings).lookup name =
        some v → v ∈ vs ∨ bindings.lookup name = some v := by
    clear h
    induction names generalizing vs with
    | nil => exact fun _ h => Or.inr h
    | cons first names ih =>
      cases vs with
      | nil => exact fun _ h => Or.inr h
      | cons w vs =>
        intro bindings h
        rcases ih _ h with mem | found
        · exact Or.inl (List.mem_cons_of_mem _ mem)
        · rw [Bindings.lookup_insert] at found
          by_cases same : name = first.lexeme
          · rw [if_pos same] at found
            cases found
            exact Or.inl List.mem_cons_self
          · rw [if_neg same] at found
            exact Or.inr found
  exact (all [] h).resolve_right (by simp)

/-- A call begins in a frame that fits the beginning of the body. -/
theorem Here.enteringCall {q : Place} {name : Token} {parameters : List Token} {env : FrameId}
    {vs : List Value} (body : List Stmt) (sane : Sane w)
    (chain : Chain w.machine.frames w.events (q.scopes.introduce name) q.sites env)
    (placed : ∀ v ∈ vs, v.Placed w.machine.frames w.events)
    (count : vs.length = parameters.length) :
    Here (Watch.entering w (.function name parameters body) env (parameterBindings parameters vs))
      (q.inFunction name parameters body) := by
  obtain ⟨scope, introduced, lookup⟩ :=
    @Scopes.introduceAll_cons [] (q.scopes.introduce name) parameters
  have names : ∀ other, (parameterBindings parameters vs).holds other = true ↔
      scope.lookup other = some true := by
    intro other
    rw [holds_parameterBindings other count, lookup]
    split <;> simp [*]
  exact .entering sane chain introduced rfl names fun _ v hv => placed v (mem_of_parameterBindings hv)

/-- All calls keep mentions in place. -/
theorem safeInvoke (fuel : Nat) : SafeInvoke (invoke fuel) := by
  induction fuel with
  | zero => exact fun h _ _ _ => .halt (.refl _) h.sane
  | succ fuel ih =>
    intro f vs w p h placed placedAll count
    obtain ⟨q, settled, chain, begun, nodup, tidy⟩ := placed
    have inside := Here.enteringCall f.body h.sane chain placedAll count
    have body := Stmt.safeAll ih fuel f.body
      (fun μ hμ => (begun μ hμ).mono (List.subset_cons_self _ _)) tidy
      (settled.inFunction f.name f.parameters f.body) inside
    rw [invoke]
    refine (Safe.inside h body).bind ?_
    rintro flow w₁ - ⟨h₁, flowPlaced⟩
    exact .pure ⟨h₁, flowPlaced.result⟩

/-- So does running a program. -/
theorem safe_runProgram (fuel : Nat) (ss : List Stmt)
    (begun : ∀ μ ∈ Stmt.mentionsAll p ss, μ.Begun w.events) (tidy : Stmt.TidyAll p.scopes ss)
    (settled : p.Settled) (h : Here w p) :
    Safe w (fun _ w' => Sane w') (runProgram fuel ss w) := by
  induction ss generalizing p w with
  | nil => exact .pure h.sane
  | cons s ss ih =>
    obtain ⟨inFirst, inOthers⟩ := List.forall_mem_append.1 begun
    rw [runProgram]
    refine (Stmt.safe (safeInvoke fuel) fuel s inFirst tidy.1 settled h).bind ?_
    rintro flow w₁ keeps₁ ⟨h₁, -⟩
    exact ih (begun_all keeps₁ inOthers) tidy.2 (settled.behind s) h₁

/-! ## Sessions -/

namespace Session

variable {s : Session} {fuel : Nat} {source : String}

/-- Between two runs: the machine is sane, and no two mentions have the same identity. -/
structure Sound (s : Session) : Prop where
  outside : s.state.machine.current = globalFrame
  sane : Sane s.state
  older : ∀ μ : Mention, μ.Begun s.state.events → μ.id < s.nextId
  below : ∀ id distance, s.state.machine.locals[id]? = some distance → id < s.nextId
  distinct : ∀ μ μ' : Mention, μ.Begun s.state.events → μ'.Begun s.state.events → μ.id = μ'.id →
    μ = μ'

/-- What an earlier session leaves to a later one: its events, and the distances that it knew. -/
structure Leaves (s s' : Session) : Prop where
  nextId : s.nextId ≤ s'.nextId
  events : s.state.events ⊆ s'.state.events
  locals : ∀ id < s.nextId, s'.state.machine.locals[id]? = s.state.machine.locals[id]?

theorem Leaves.refl (s : Session) : Leaves s s := ⟨Nat.le_refl _, List.Subset.refl _, fun _ _ => rfl⟩

theorem Leaves.trans {s' s'' : Session} (h : Leaves s s') (h' : Leaves s' s'') : Leaves s s'' where
  nextId := Nat.le_trans h.nextId h'.nextId
  events := List.Subset.trans h.events h'.events
  locals id lt := (h'.locals id (Nat.lt_of_lt_of_le lt h.nextId)).trans (h.locals id lt)

theorem sound_start (limit : Option Nat) : Sound (start limit) where
  outside := rfl
  sane := {
    rooted := Nat.one_pos
    root := rfl
    made := fun _ _ mem => by cases mem
    once := fun _ _ _ mem => by cases mem
    values := fun i name v hv => by
      have none : ((Machine.start limit).frames.bindings i).lookup name = none := by
        cases i <;> rfl
      cases none.symm.trans hv
    locals := fun _ ⟨_, mem, _⟩ => by cases mem
    inTime := fun _ ⟨_, mem, _⟩ => by cases mem
    fine := trivial }
  older := fun _ ⟨_, mem, _⟩ => by cases mem
  below _ _ entry := by simp [start, Machine.start] at entry
  distinct := fun _ _ ⟨_, mem, _⟩ => by cases mem

/-- A text that is no program leaves everything as it was. -/
theorem Sound.skip {nextId : RefId} (h : s.Sound) (le : s.nextId ≤ nextId) :
    Sound ⟨s.state, nextId⟩ where
  outside := h.outside
  sane := h.sane
  older μ begun := Nat.lt_of_lt_of_le (h.older μ begun) le
  below id distance entry := Nat.lt_of_lt_of_le (h.below id distance entry) le
  distinct := h.distinct

/-- The session at the beginning of a program. -/
def begin (s : Session) (c : Checked) (nextId : RefId) : Session :=
  ⟨⟨s.state.machine.learn c.distances, .began c.program :: s.state.events⟩, nextId⟩

/-- A mention that is known then is one of the program or was known before. -/
theorem begun_begin {c : Checked} {nextId : RefId} {μ : Mention}
    (h : μ.Begun (s.begin c nextId).state.events) :
    μ ∈ programMentions c.program ∨ μ.Begun s.state.events := by
  obtain ⟨program, began, mem⟩ := h
  rcases List.mem_cons.1 began with same | old
  · cases same
    exact Or.inl mem
  · exact Or.inr ⟨program, old, mem⟩

theorem Sound.begin {c : Checked} {nextId : RefId} (h : s.Sound) (sound : c.Sound s.nextId nextId)
    (le : s.nextId ≤ nextId) : Sound (s.begin c nextId) where
  outside := h.outside
  sane := {
    rooted := h.sane.rooted
    root := h.sane.root
    made := fun site i mem => h.sane.made site i ((List.mem_cons.1 mem).resolve_left (by simp))
    once := fun site site' i mem mem' => h.sane.once site site' i
      ((List.mem_cons.1 mem).resolve_left (by simp)) ((List.mem_cons.1 mem').resolve_left (by simp))
    values := fun i name v hv => (h.sane.values i name v hv).mono (.refl _)
      (List.subset_cons_self _ _) fun _ _ held => held
    locals := fun μ begun => by
      rcases begun_begin begun with own | old
      · exact sound.learned h.below own
      · exact (sound.unchanged (h.older μ old)).trans (h.sane.locals μ old)
    inTime := fun μ begun => (begun_begin begun).elim (sound.inTime μ) (h.sane.inTime μ)
    fine := ⟨trivial, h.sane.fine⟩ }
  older μ begun := by
    rcases begun_begin begun with own | old
    · exact (sound.lt_of_mem own).2
    · exact Nat.lt_of_lt_of_le (h.older μ old) le
  below _ _ entry := sound.lt_of_learned le h.below entry
  distinct μ μ' begun begun' same := by
    rcases begun_begin begun with own | old
    · rcases begun_begin begun' with own' | old'
      · exact sound.eq_of_id own own' same
      · have new := (sound.lt_of_mem own).1
        rw [same] at new
        exact absurd (h.older μ' old') (Nat.not_lt.2 new)
    · rcases begun_begin begun' with own' | old'
      · have new := (sound.lt_of_mem own').1
        rw [← same] at new
        exact absurd (h.older μ old) (Nat.not_lt.2 new)
      · exact h.distinct μ μ' old old' same

theorem leaves_begin {c : Checked} {nextId : RefId} (sound : c.Sound s.nextId nextId)
    (le : s.nextId ≤ nextId) : Leaves s (s.begin c nextId) :=
  ⟨le, List.subset_cons_self _ _, fun _ lt => sound.unchanged lt⟩

/-- However a program ends. -/
theorem Sound.behind {w' : State} (h : s.Sound) (keeps : Keeps s.state w') (sane : Sane w') :
    Sound ⟨w', s.nextId⟩ ∧ Leaves s ⟨w', s.nextId⟩ := by
  refine ⟨⟨keeps.current.trans h.outside, sane, ?_, ?_, ?_⟩, Nat.le_refl _, keeps.events, ?_⟩
  · exact fun μ begun => h.older μ (keeps.begun μ begun)
  · show ∀ id distance, w'.machine.locals[id]? = some distance → id < s.nextId
    rw [keeps.locals]
    exact h.below
  · exact fun μ μ' begun begun' => h.distinct μ μ' (keeps.begun μ begun) (keeps.begun μ' begun')
  · show ∀ id < s.nextId, w'.machine.locals[id]? = s.state.machine.locals[id]?
    rw [keeps.locals]
    exact fun _ _ => rfl

theorem Sound.run (h : s.Sound) (fuel : Nat) (source : String) :
    Sound (s.run fuel source).2 ∧ Leaves s (s.run fuel source).2 := by
  obtain ⟨⟨m, events⟩, nextId⟩ := s
  have le := Checked.nextId_le_of_ofSource nextId source
  unfold Session.run
  dsimp only
  cases checked : Checked.ofSource nextId source with
  | mk result nextId' =>
    rw [checked] at le
    cases result with
    | error failure => exact ⟨h.skip le, le, List.Subset.refl _, fun _ _ => rfl⟩
    | ok c =>
      have sound := Checked.sound_of_ofSource checked
      have begun := h.begin sound le
      have leaves : Leaves ⟨⟨m, events⟩, nextId⟩ _ := leaves_begin sound le
      have here : Here _ .top := ⟨begun.sane, begun.outside ▸ .top, fun _ mem => by cases mem⟩
      have safe := safe_runProgram fuel c.program
        (fun μ hμ => ⟨c.program, List.mem_cons_self, hμ⟩) sound.tidy .top here
      dsimp only [Session.begin] at begun leaves safe ⊢
      generalize runProgram fuel c.program
        ⟨m.learn c.distances, .began c.program :: events⟩ = r at safe ⊢
      cases safe with
      | ok keeps sane =>
        obtain ⟨sound', leaves'⟩ := begun.behind keeps sane
        exact ⟨sound', leaves.trans leaves'⟩
      | halt keeps sane =>
        obtain ⟨sound', leaves'⟩ := begun.behind keeps sane
        exact ⟨sound', leaves.trans leaves'⟩

theorem Sound.runAll (h : s.Sound) (programs : List (Nat × String)) :
    Sound (s.runAll programs).2 ∧ Leaves s (s.runAll programs).2 := by
  induction programs generalizing s with
  | nil => exact ⟨h, .refl s⟩
  | cons program programs ih =>
    obtain ⟨fuel, source⟩ := program
    obtain ⟨sound, leaves⟩ := h.run fuel source
    obtain ⟨sound', leaves'⟩ := ih sound
    exact ⟨sound', leaves.trans leaves'⟩

theorem runAll_append (programs later : List (Nat × String)) (s : Session) :
    (s.runAll (programs ++ later)).2 = ((s.runAll programs).2.runAll later).2 := by
  induction programs generalizing s with
  | nil => rfl
  | cons program programs ih => exact ih (s.run program.1 program.2).2

/-- **Mentions lead to their declarations.** Watching a session shows what it does. Whenever
evaluation comes to a mention, the frame at its distance is the one that was made for what opened
the scope of its name, which happens once for a frame; there it is read or assigned. Mentions are
told apart by their identities, by which their distances are known. No later run changes any. -/
theorem runAll_fine (limit : Option Nat) (programs : List (Nat × String)) :
    ((start limit).runAll programs).1 = ((Lox.Session.start limit).runAll programs).1 ∧
      ((start limit).runAll programs).2.unwatched = ((Lox.Session.start limit).runAll programs).2 ∧
      (let session := ((start limit).runAll programs).2
      Event.FineAll session.state.events ∧
      (∀ site site' i, .entered site i ∈ session.state.events →
        .entered site' i ∈ session.state.events → site = site') ∧
      (∀ μ μ' : Mention, μ.Begun session.state.events → μ'.Begun session.state.events →
        μ.id = μ'.id → μ = μ') ∧
      (∀ μ : Mention, μ.Begun session.state.events →
        μ.id < session.nextId ∧ session.state.machine.locals[μ.id]? = μ.distance?) ∧
      ∀ later, ∀ id < session.nextId,
        ((start limit).runAll (programs ++ later)).2.state.machine.locals[id]? =
          session.state.machine.locals[id]?) := by
  obtain ⟨results, machine⟩ := runAll_shows programs (start limit)
  obtain ⟨sound, -⟩ := (sound_start limit).runAll programs
  refine ⟨results, machine, sound.sane.fine, sound.sane.once, sound.distinct, ?_, ?_⟩
  · exact fun μ begun => ⟨sound.older μ begun, sound.sane.locals μ begun⟩
  · intro later id lt
    rw [runAll_append]
    exact (sound.runAll later).2.locals id lt

end Session

end Lox.Watch
