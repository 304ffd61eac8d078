import Lox.Proofs.Lexical.Steps

/-!
# Whatever runs on frames and cells

Expressions, statements and calls end the same way on a machine with frames and on one with cells
that belong together, and the machines belong together afterwards.

* `Invokes` — two ways to run the body of a function do so.
* `Expr.agree`, `Stmt.agree` — then so do expressions and statements.
* `invokes` — with the same fuel, so do the two ways that there are.
* `agree_runProgram` — and so do programs.
-/

namespace Lox.Lexical

variable {known : Mention → Prop} {cells cells' : Layout} {scopes : Scopes} {env : Env}
variable {m m' : Lox.Machine} {l l' : Machine}

/-- The two ways to run the body of a function agree. -/
def Invokes (known : Mention → Prop) (I : Lox.Invoke) (J : Invoke) : Prop :=
  ∀ {f : Closure} {g : Closure Env} {vs : List Value} {ws : List (Value Env)} {cells : Layout}
    {m : Lox.Machine} {l : Machine} {scopes : Scopes} {env : Env},
    At known cells m l scopes env → SameClosure known m.frames cells f g →
    List.Forall₂ (SameValue known m.frames cells) vs ws → vs.length = f.parameters.length →
    Agree known cells m (Evaluated known scopes env) (I f vs m) (J g ws l)

variable {I : Lox.Invoke} {J : Invoke}

theorem Agree.duringCall {x : Eval Value} {y : Act (Value Env)} (h : At known cells m l scopes env)
    (body : Agree known cells { m with depth := m.depth + 1 } (Evaluated known scopes env)
      (x { m with depth := m.depth + 1 }) (y { l with depth := l.depth + 1 })) :
    Agree known cells m (Evaluated known scopes env) (Eval.duringCall x m)
      (Lexical.duringCall y l) := by
  unfold Eval.duringCall Lexical.duringCall
  dsimp only
  rw [h.related.depth] at body ⊢
  generalize x { m with depth := l.depth + 1 } = r, y { l with depth := l.depth + 1 } = r' at body ⊢
  have deeper : Grows cells m cells { m with depth := l.depth + 1 } := .same rfl rfl rfl
  cases body with
  | ok grows holds =>
    obtain ⟨⟨related, stands, declared⟩, same⟩ := holds
    exact .ok ((deeper.trans grows).trans (.same rfl rfl rfl))
      ⟨⟨related.atDepth l.depth, stands, declared⟩, same⟩
  | halt grows related =>
    exact .halt ((deeper.trans grows).trans (.same rfl rfl rfl)) (related.atDepth l.depth)

theorem At.call {f : Closure} {g : Closure Env} {vs : List Value} {ws : List (Value Env)}
    (inv : Invokes known I J) (h : At known cells m l scopes env) (closing : Token)
    (same : SameClosure known m.frames cells f g)
    (sameAll : List.Forall₂ (SameValue known m.frames cells) vs ws) :
    Agree known cells m (Evaluated known scopes env) (Eval.call I closing f vs m)
      (call J closing g ws l) := by
  unfold Eval.call Lexical.call
  rw [← same.parameters, ← sameAll.length_eq]
  by_cases count : vs.length = f.parameters.length
  · rw [if_neg (not_not_intro count), if_neg (not_not_intro count)]
    show Agree known cells m _ ((if maxCalls ≤ m.depth then _ else _ : Eval Value) m)
      ((if maxCalls ≤ l.depth then _ else _ : Act (Value Env)) l)
    rw [h.related.depth]
    by_cases deep : maxCalls ≤ l.depth
    · rw [if_pos deep, if_pos deep]
      exact .fail h.related
    · rw [if_neg deep, if_neg deep]
      refine .duringCall h (inv ?_ same sameAll count)
      rw [h.related.depth]
      exact ⟨h.related.atDepth _, h.stands, h.declared⟩
  · rw [if_pos count, if_pos count]
    exact .fail h.related

mutual

/-- An expression has the same value on both machines, or halts for the same reason. -/
theorem Expr.agree (inv : Invokes known I J) {p : Place} : ∀ (e : Expr) {cells : Layout}
    {m : Lox.Machine} {l : Machine} {env : Env}, (∀ μ ∈ e.mentions p, known μ) →
    At known cells m l p.scopes env →
    Agree known cells m (Evaluated known p.scopes env) (e.evaluate I m) (evaluate J env e l)
  | .literal value, cells, m, l, env, _, h => .pure ⟨h, .ofLiteral value⟩
  | .grouping inner, cells, m, l, env, mentions, h => by
    rw [Expr.evaluate, evaluate]
    exact Expr.agree inv inner mentions h
  | .unary op right, cells, m, l, env, mentions, h => by
    rw [Expr.evaluate, evaluate]
    refine (Expr.agree inv right mentions h).bind ?_
    rintro v w cells₁ m₁ l₁ - ⟨h₁, same⟩
    exact h₁.orFail op.line (same.unary op)
  | .binary left op right, cells, m, l, env, mentions, h => by
    obtain ⟨inLeft, inRight⟩ := List.forall_mem_append.1 mentions
    rw [Expr.evaluate, evaluate]
    refine (Expr.agree inv left inLeft h).bind ?_
    rintro v w cells₁ m₁ l₁ - ⟨h₁, same⟩
    refine (Expr.agree inv right inRight h₁).bind ?_
    rintro v' w' cells₂ m₂ l₂ grows ⟨h₂, same'⟩
    exact h₂.orFail op.line ((same.mono grows.frames grows.layout).binary op same')
  | .logical left op right, cells, m, l, env, mentions, h => by
    obtain ⟨inLeft, inRight⟩ := List.forall_mem_append.1 mentions
    rw [Expr.evaluate, evaluate]
    refine (Expr.agree inv left inLeft h).bind ?_
    rintro v w cells₁ m₁ l₁ - ⟨h₁, same⟩
    rw [same.settledBy_eq op]
    split
    · exact .pure ⟨h₁, same⟩
    · exact Expr.agree inv right inRight h₁
  | .var id name, cells, m, l, env, mentions, h => by
    rw [Expr.evaluate, evaluate]
    exact h.read (mentions _ (List.mem_singleton_self _))
  | .assign id target value, cells, m, l, env, mentions, h => by
    obtain ⟨inValue, own⟩ := List.forall_mem_append.1 mentions
    rw [Expr.evaluate, evaluate]
    refine (Expr.agree inv value inValue h).bind ?_
    rintro v w cells₁ m₁ l₁ - ⟨h₁, same⟩
    refine (h₁.write (own _ (List.mem_singleton_self _)) same).bind ?_
    rintro - - cells₂ m₂ l₂ - holds
    exact .pure holds
  | .call callee closing arguments, cells, m, l, env, mentions, h => by
    obtain ⟨inCallee, inArguments⟩ := List.forall_mem_append.1 mentions
    rw [Expr.evaluate, evaluate]
    refine (Expr.agree inv callee inCallee h).bind ?_
    rintro v w cells₁ m₁ l₁ - ⟨h₁, same⟩
    have text := same.text_eq
    cases same with
    | function same =>
      refine (Expr.agreeAll inv arguments inArguments h₁).bind ?_
      rintro vs ws cells₂ m₂ l₂ grows ⟨h₂, sameAll⟩
      exact h₂.call inv closing (same.mono (fun _ hμ => hμ) grows.frames grows.layout) sameAll
    | _ =>
      show Agree known cells₁ m₁ _ (Eval.fail closing.line (.notCallable _) m₁)
        (Lexical.fail closing.line (.notCallable _) l₁)
      rw [text]
      exact .fail h₁.related

/-- Expressions have the same values on both machines, or one of them halts for the same reason. -/
theorem Expr.agreeAll (inv : Invokes known I J) {p : Place} : ∀ (es : List Expr) {cells : Layout}
    {m : Lox.Machine} {l : Machine} {env : Env}, (∀ μ ∈ Expr.mentionsAll p es, known μ) →
    At known cells m l p.scopes env →
    Agree known cells m (EvaluatedAll known p.scopes env) (Expr.evaluateAll I es m)
      (evaluateAll J env es l)
  | [], cells, m, l, env, _, h => .pure ⟨h, .nil⟩
  | e :: es, cells, m, l, env, mentions, h => by
    obtain ⟨inFirst, inOthers⟩ := List.forall_mem_append.1 mentions
    rw [Expr.evaluateAll, evaluateAll]
    refine (Expr.agree inv e inFirst h).bind ?_
    rintro v w cells₁ m₁ l₁ - ⟨h₁, same⟩
    refine (Expr.agreeAll inv es inOthers h₁).bind ?_
    rintro vs ws cells₂ m₂ l₂ grows ⟨h₂, sameAll⟩
    exact .pure ⟨h₂, .cons (same.mono grows.frames grows.layout) sameAll⟩

end

theorem Expr.agree? (inv : Invokes known I J) {p : Place} {e : Option Expr}
    (mentions : ∀ μ ∈ Expr.mentions? p e, known μ) (h : At known cells m l p.scopes env) :
    Agree known cells m (Evaluated known p.scopes env) (Expr.evaluate? I e m)
      (evaluate? J env e l) := by
  cases e with
  | none => exact .pure ⟨h, .nil⟩
  | some e => exact Expr.agree inv e mentions h

/-- Loops agree if their conditions and bodies do. -/
theorem agree_repeatWhile {condition : Eval Value} {body : Eval Flow}
    {condition' : Act (Value Env)} {body' : Act (Flow Env)}
    (holds : ∀ {cells m l}, At known cells m l scopes env →
      Agree known cells m (Evaluated known scopes env) (condition m) (condition' l))
    (round : ∀ {cells m l}, At known cells m l scopes env →
      Agree known cells m (Executed known scopes env) (body m) (body' l)) (fuel : Nat)
    (h : At known cells m l scopes env) :
    Agree known cells m (Executed known scopes env) (Lox.repeatWhile condition body fuel m)
      (repeatWhile condition' body' fuel l) := by
  induction fuel generalizing cells m l with
  | zero => exact .halt (.refl cells m) h.related
  | succ fuel ih =>
    rw [Lox.repeatWhile, repeatWhile]
    refine (holds h).bind ?_
    rintro v w cells₁ m₁ l₁ - ⟨h₁, same⟩
    rw [same.truthy_eq]
    split
    · refine (round h₁).bind ?_
      rintro flow flow' cells₂ m₂ l₂ - ⟨h₂, same⟩
      cases same with
      | normal => exact ih h₂
      | returned same => exact .pure ⟨h₂, .returned same⟩
    · exact .pure ⟨h₁, .normal⟩

mutual

/-- A statement does the same on both machines. -/
theorem Stmt.agree (inv : Invokes known I J) (fuel : Nat) : ∀ (s : Stmt) {p : Place}
    {cells : Layout} {m : Lox.Machine} {l : Machine} {env : Env},
    (∀ μ ∈ s.mentions p, known μ) → s.Tidy p.scopes → At known cells m l p.scopes env →
    Agree known cells m (fun flow r => Executed known (p.scopes.behind s) r.2 flow r.1)
      (s.execute I fuel m) (run J fuel env s l)
  | .expression value, p, cells, m, l, env, mentions, _, h => by
    rw [Stmt.execute, run]
    refine (Expr.agree inv value mentions h).bind ?_
    rintro v w cells₁ m₁ l₁ - ⟨h₁, -⟩
    exact .pure ⟨h₁, .normal⟩
  | .print keyword value, p, cells, m, l, env, mentions, _, h => by
    rw [Stmt.execute, run]
    refine (Expr.agree inv value mentions h).bind ?_
    rintro v w cells₁ m₁ l₁ - ⟨h₁, same⟩
    refine (h₁.print keyword.line same).bind ?_
    rintro - - cells₂ m₂ l₂ - h₂
    exact .pure ⟨h₂, .normal⟩
  | .var name initializer, p, cells, m, l, env, mentions, untaken, h => by
    rw [Stmt.execute, run]
    obtain ⟨cells₁, env₁, l₁, extended, grows₁, h₁, means⟩ :=
      h.extend untaken (Scopes.gets_declare untaken)
    refine Agree.after grows₁ ?_
    show Agree known cells₁ m _ _ (EStateM.bind (extend env name) _ l)
    rw [EStateM.bind, extended]
    refine (Expr.agree? inv (p := p.inInitializer name) mentions h₁).bind ?_
    rintro v w cells₂ m₂ l₂ grows₂ ⟨h₂, same⟩
    refine (h₂.ready.fill (means.mono grows₂) same).bind ?_
    rintro - - cells₃ m₃ l₃ - h₃
    exact .pure ⟨h₃, .normal⟩
  | .block body, p, cells, m, l, env, mentions, tidy, h => by
    rw [Stmt.execute, run]
    have inside := Stmt.agreeAll inv fuel body (p := p.inBlock body) mentions tidy
      (At.push h.related h.stands)
    have whole : Agree known cells m (Executed known p.scopes env)
        (Eval.inNewFrame (Stmt.executeAll I fuel body) m) (runAll J fuel (.inner env.names) body l) :=
      .inFrame h rfl (.push cells m m.current) inside
    refine whole.bindRight ?_
    rintro flow flow' cells₁ m₁ l₁ - holds
    exact ⟨_, rfl, holds⟩
  | .ifThen condition yes none, p, cells, m, l, env, mentions, ⟨noDeclaration, tidy⟩, h => by
    obtain ⟨inCondition, inYes⟩ := List.forall_mem_append.1 mentions
    rw [Stmt.execute, run]
    refine (Expr.agree inv condition inCondition h).bind ?_
    rintro v w cells₁ m₁ l₁ - ⟨h₁, same⟩
    rw [same.truthy_eq]
    split
    · exact (Stmt.agreeBranch inv fuel yes inYes noDeclaration tidy h₁).bindRight
        fun _ _ _ _ _ _ holds => ⟨_, rfl, holds⟩
    · exact .pure ⟨h₁, .normal⟩
  | .ifThen condition yes (some no), p, cells, m, l, env, mentions, ⟨tidyYes, tidyNo⟩, h => by
    obtain ⟨mentions, inNo⟩ := List.forall_mem_append.1 mentions
    obtain ⟨inCondition, inYes⟩ := List.forall_mem_append.1 mentions
    rw [Stmt.execute, run]
    refine (Expr.agree inv condition inCondition h).bind ?_
    rintro v w cells₁ m₁ l₁ - ⟨h₁, same⟩
    rw [same.truthy_eq]
    split
    · exact (Stmt.agreeBranch inv fuel yes inYes tidyYes.1 tidyYes.2 h₁).bindRight
        fun _ _ _ _ _ _ holds => ⟨_, rfl, holds⟩
    · exact (Stmt.agreeBranch inv fuel no inNo tidyNo.1 tidyNo.2 h₁).bindRight
        fun _ _ _ _ _ _ holds => ⟨_, rfl, holds⟩
  | .whileDo condition body, p, cells, m, l, env, mentions, ⟨noDeclaration, tidy⟩, h => by
    obtain ⟨inCondition, inBody⟩ := List.forall_mem_append.1 mentions
    rw [Stmt.execute, run]
    have round : ∀ {cells m l}, At known cells m l p.scopes env →
        Agree known cells m (Executed known p.scopes env) (body.execute I fuel m)
          ((Prod.fst <$> run J fuel env body) l) := by
      intro cells m l h
      rw [map_eq_pure_bind]
      exact (Stmt.agreeBranch inv fuel body inBody noDeclaration tidy h).bindRight
        fun _ _ _ _ _ _ holds => ⟨_, rfl, holds⟩
    exact (agree_repeatWhile (Expr.agree inv condition inCondition) round fuel h).bindRight
      fun _ _ _ _ _ _ holds => ⟨_, rfl, holds⟩
  | .function name parameters body, p, cells, m, l, env, mentions, ⟨untaken, nodup, tidy⟩, h => by
    rw [Stmt.execute, run]
    obtain ⟨cells₁, env₁, l₁, extended, grows₁, h₁, means⟩ :=
      h.extend untaken (Scopes.gets_introduce p.scopes name)
    refine Agree.after grows₁ ?_
    show Agree known cells₁ m _ _ (EStateM.bind (extend env name) _ l)
    rw [EStateM.bind, extended]
    refine (h₁.closure mentions nodup tidy).bind ?_
    rintro v w cells₂ m₂ l₂ grows₂ ⟨h₂, same⟩
    refine (h₂.fill (means.mono grows₂) same).bind ?_
    rintro - - cells₃ m₃ l₃ - h₃
    exact .pure ⟨h₃, .normal⟩
  | .ret _ value, p, cells, m, l, env, mentions, _, h => by
    rw [Stmt.execute, run]
    refine (Expr.agree? inv mentions h).bind ?_
    rintro v w cells₁ m₁ l₁ - ⟨h₁, same⟩
    exact .pure ⟨h₁, .returned same⟩

/-- A branch or the body of a loop does the same, and leaves the surroundings as they were. -/
theorem Stmt.agreeBranch (inv : Invokes known I J) (fuel : Nat) (s : Stmt) {p : Place}
    {cells : Layout} {m : Lox.Machine} {l : Machine} {env : Env}
    (mentions : ∀ μ ∈ s.mentions p, known μ) (noDeclaration : s.declared? = none)
    (tidy : s.Tidy p.scopes) (h : At known cells m l p.scopes env) :
    Agree known cells m (fun flow r => Executed known p.scopes env flow r.1) (s.execute I fuel m)
      (run J fuel env s l) := by
  refine (Stmt.agree inv fuel s mentions tidy h).weaken ?_
  rintro flow r cells₁ m₁ l₁ grows ⟨h₁, same⟩
  rw [Scopes.behind_of_none noDeclaration] at h₁
  exact ⟨h.again grows h₁, same⟩

/-- Statements do the same one after the other. -/
theorem Stmt.agreeAll (inv : Invokes known I J) (fuel : Nat) : ∀ (ss : List Stmt) {p : Place}
    {cells : Layout} {m : Lox.Machine} {l : Machine} {env : Env},
    (∀ μ ∈ Stmt.mentionsAll p ss, known μ) → Stmt.TidyAll p.scopes ss →
    At known cells m l p.scopes env →
    Agree known cells m (ExecutedAll known) (Stmt.executeAll I fuel ss m) (runAll J fuel env ss l)
  | [], p, cells, m, l, env, _, _, h => .pure ⟨h.related, .normal⟩
  | s :: ss, p, cells, m, l, env, mentions, ⟨tidy, tidyAll⟩, h => by
    obtain ⟨inFirst, inOthers⟩ := List.forall_mem_append.1 mentions
    rw [Stmt.executeAll, runAll]
    refine (Stmt.agree inv fuel s inFirst tidy h).bind ?_
    rintro flow ⟨flow', env'⟩ cells₁ m₁ l₁ - ⟨h₁, same⟩
    cases same with
    | normal => exact Stmt.agreeAll inv fuel ss inOthers tidyAll h₁
    | returned same => exact .pure ⟨h₁.related, .returned same⟩

end

/-- With the same fuel, the body of a function does the same on both machines. -/
theorem invokes (known : Mention → Prop) (fuel : Nat) :
    Invokes known (Lox.invoke fuel) (invoke fuel) := by
  induction fuel with
  | zero => exact fun h _ _ _ => .halt (.refl _ _) h.related
  | succ fuel ih =>
    intro f g vs ws cells m l scopes env h same sameAll length
    obtain ⟨p, stands, mentions, nodup, tidy⟩ := same.place
    have pushed := At.push h.related stands
    have sameAll' : List.Forall₂ (SameValue known (m.frames.push f.env []) cells) vs ws :=
      sameAll.imp fun _ _ same => same.mono (.push _ _ _) List.prefix_rfl
    obtain ⟨cells₁, env₁, l₁, entered, grows, h₁⟩ := pushed.enter sameAll' length nodup (by simp)
    have enters := (Enters.push cells m f.env).trans grows
    rw [Frames.defineAll_push] at enters h₁
    have body := Stmt.agreeAll ih fuel f.body (p := p.inFunction f.name f.parameters f.body)
      mentions tidy h₁
    have inside : Agree known cells m (Executed known scopes env)
        (Eval.inFrame m.frames.size (Stmt.executeAll (Lox.invoke fuel) fuel f.body)
          { m with frames := m.frames.push f.env (parameterBindings f.parameters vs) })
        (runAll (invoke fuel) fuel env₁ f.body l₁) := .inFrame h rfl enters body
    rw [Lox.invoke, invoke]
    beta_reduce
    rw [← same.parameters, ← same.body]
    show Agree known cells m _ _ (EStateM.bind (Lexical.enter (.inner g.env.names) _) _ l)
    rw [EStateM.bind, entered]
    refine inside.bind (f := fun flow => pure flow.result) ?_
    rintro flow flow' cells₂ m₂ l₂ - ⟨h₂, same⟩
    exact .pure ⟨h₂, same.result⟩

/-- Outside of all blocks and functions there is nothing to be said about names. -/
theorem At.top (h : Related known cells m l) (outside : m.current = globalFrame) :
    At known cells m l [] .top where
  related := h
  stands := {
    lt := outside ▸ h.rooted
    top := fun _ => ⟨rfl, outside⟩
    inner := fun some => absurd rfl some
    global := fun _ _ => rfl
    bound := fun _ _ hd => by cases hd }
  declared _ mem := absurd outside (h.inner _ mem).1

/-- A program does the same on both machines. -/
theorem agree_runProgram (fuel : Nat) (ss : List Stmt) {p : Place} (atTop : p.scopes = [])
    (mentions : ∀ μ ∈ Stmt.mentionsAll p ss, known μ) (tidy : Stmt.TidyAll p.scopes ss)
    (h : At known cells m l [] .top) :
    Agree known cells m (fun _ _ cells' m' l' => At known cells' m' l' [] .top)
      (Lox.runProgram fuel ss m) (runProgram fuel ss l) := by
  induction ss generalizing p cells m l with
  | nil => exact .pure h
  | cons s ss ih =>
    obtain ⟨inFirst, inOthers⟩ := List.forall_mem_append.1 mentions
    have behind : p.scopes.behind s = [] := by
      rw [atTop, Scopes.behind]
      split <;> rfl
    rw [Lox.runProgram, runProgram]
    refine (Stmt.agree (invokes known fuel) fuel s inFirst tidy.1 (atTop ▸ h)).bind ?_
    rintro flow ⟨flow', env'⟩ cells₁ m₁ l₁ - ⟨h₁, -⟩
    rw [behind] at h₁
    obtain ⟨rfl, -⟩ := h₁.stands.top rfl
    exact ih (p := p.behind s) behind inOthers tidy.2 h₁

end Lox.Lexical
