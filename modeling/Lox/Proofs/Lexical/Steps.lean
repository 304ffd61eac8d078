import Lox.Proofs.Lexical.Relation

/-!
# The same steps on frames and cells

What reading, assigning and declaring do to a machine with frames and to one with cells that belong
together.

* `Grows` — what running a part of a program does to the frames and the cells that there were.
* `At` — the machines belong together, and so do the scopes of a place and its surroundings.
* `Agree` — two parts of a run end the same way; `Agree.bind` — so does one after the other.
* `At.read`, `At.write`, `At.print` — the same happens on both machines.
* `At.extend`, `At.fill` — a declaration; `At.push` — a new frame; `At.enter` — parameters.
* `At.back` — behind a part that ran in a newer frame.
-/

namespace Lox.Lexical

variable {known : Mention → Prop} {cells cells' cells'' : Layout} {scopes : Scopes} {env env' : Env}
variable {m m' m'' : Lox.Machine} {l l' : Machine} {α β γ δ : Type}

/-- Frames and cells are added. Cells are not added for older frames but the current one. -/
structure Grows (cells : Layout) (m : Lox.Machine) (cells' : Layout) (m' : Lox.Machine) : Prop where
  current : m'.current = m.current
  locals : m'.locals = m.locals
  frames : m.frames.Extends m'.frames
  layout : cells <+: cells'
  fresh : ∀ b ∈ cells', b ∈ cells ∨ b.1 = m.current ∨ m.frames.size ≤ b.1

theorem Grows.refl (cells : Layout) (m : Lox.Machine) : Grows cells m cells m :=
  ⟨rfl, rfl, .refl _, List.prefix_rfl, fun _ hb => Or.inl hb⟩

theorem Grows.trans (h : Grows cells m cells' m') (h' : Grows cells' m' cells'' m'') :
    Grows cells m cells'' m'' where
  current := h'.current.trans h.current
  locals := h'.locals.trans h.locals
  frames := h.frames.trans h'.frames
  layout := h.layout.trans h'.layout
  fresh b hb := by
    rcases h'.fresh b hb with old | own | new
    · exact h.fresh b old
    · exact Or.inr (Or.inl (own.trans h.current))
    · exact Or.inr (Or.inr (Nat.le_trans h.frames.size_le new))

/-- The machines belong together, and the scopes of a place mean the same as its surroundings. Only
the names of the innermost scope have cells for the current frame. -/
structure At (known : Mention → Prop) (cells : Layout) (m : Lox.Machine) (l : Machine)
    (scopes : Scopes) (env : Env) : Prop where
  related : Related known cells m l
  stands : Stands m.frames cells scopes env m.current
  declared : ∀ name, (m.current, name) ∈ cells → scopes.taken name = true

/-- Nothing happens to frames and cells. -/
theorem Grows.same (frames : m'.frames = m.frames) (locals : m'.locals = m.locals)
    (current : m'.current = m.current) : Grows cells m cells m' :=
  ⟨current, locals, frames ▸ .refl _, List.prefix_rfl, fun _ hb => Or.inl hb⟩

theorem Grows.define (cells : Layout) (m : Lox.Machine) (j : FrameId) (name : String) (v : Value) :
    Grows cells m cells { m with frames := m.frames.define j name v } :=
  ⟨rfl, rfl, .define _ _ _ _, List.prefix_rfl, fun _ hb => Or.inl hb⟩

theorem Means.mono {name : String} (h : Means cells env name m.current)
    (grows : Grows cells m cells' m') : Means cells' env name m'.current := by
  rw [grows.current]
  unfold Means at h ⊢
  split at h
  · exact h
  · exact getElem?_of_prefix grows.layout h

/-! ## Parts of a run -/

/-- Both parts of a run give results that belong together, or both halt for the same reason. -/
inductive Agree (known : Mention → Prop) (cells : Layout) (m : Lox.Machine)
    (post : α → β → Layout → Lox.Machine → Machine → Prop) :
    EStateM.Result Halt Lox.Machine α → EStateM.Result Halt Machine β → Prop where
  | ok {a : α} {b : β} {cells' : Layout} {m' : Lox.Machine} {l' : Machine}
      (grows : Grows cells m cells' m') (holds : post a b cells' m' l') :
      Agree known cells m post (.ok a m') (.ok b l')
  | halt {halt : Halt} {cells' : Layout} {m' : Lox.Machine} {l' : Machine}
      (grows : Grows cells m cells' m') (related : Related known cells' m' l') :
      Agree known cells m post (.error halt m') (.error halt l')

variable {post : α → β → Layout → Lox.Machine → Machine → Prop}
variable {post' : γ → δ → Layout → Lox.Machine → Machine → Prop}

namespace Agree

theorem pure {a : α} {b : β} (h : post a b cells m l) :
    Agree known cells m post (.ok a m) (.ok b l) :=
  .ok (.refl cells m) h

theorem fail {line : Nat} {cause : RuntimeError.Cause} (h : Related known cells m l) :
    Agree known cells m post (Eval.fail line cause m) (Lexical.fail line cause l) :=
  .halt (.refl cells m) h

/-- Later parts of a run start where earlier ones end. -/
theorem after {r : EStateM.Result Halt Lox.Machine α} {r' : EStateM.Result Halt Machine β}
    (grows : Grows cells m cells' m') (h : Agree known cells' m' post r r') :
    Agree known cells m post r r' := by
  cases h with
  | ok grows' holds => exact .ok (grows.trans grows') holds
  | halt grows' related => exact .halt (grows.trans grows') related

/-- Parts that agree may be followed by parts that do. -/
theorem bind {x : Eval α} {y : Act β} {f : α → Eval γ} {g : β → Act δ} {start : Lox.Machine}
    (h : Agree known cells m post (x start) (y l))
    (next : ∀ a b cells' m' l', Grows cells m cells' m' → post a b cells' m' l' →
      Agree known cells' m' post' (f a m') (g b l')) :
    Agree known cells m post' ((x >>= f) start) ((y >>= g) l) := by
  show Agree known cells m post' (EStateM.bind x f start) (EStateM.bind y g l)
  unfold EStateM.bind
  generalize x start = r, y l = r' at h ⊢
  cases h with
  | ok grows holds => exact (next _ _ _ _ _ grows holds).after grows
  | halt grows related => exact .halt grows related

/-- A step that only rearranges what the second part gave. -/
theorem bindRight {r : EStateM.Result Halt Lox.Machine α} {y : Act β} {g : β → Act δ}
    {post₂ : α → δ → Layout → Lox.Machine → Machine → Prop}
    (h : Agree known cells m post r (y l))
    (next : ∀ a b cells' m' l', Grows cells m cells' m' → post a b cells' m' l' →
      ∃ d, g b l' = .ok d l' ∧ post₂ a d cells' m' l') :
    Agree known cells m post₂ r ((y >>= g) l) := by
  show Agree known cells m post₂ r (EStateM.bind y g l)
  unfold EStateM.bind
  generalize y l = r' at h ⊢
  cases h with
  | ok grows holds =>
    obtain ⟨d, hd, holds⟩ := next _ _ _ _ _ grows holds
    show Agree known cells m post₂ _ (g _ _)
    rw [hd]
    exact .ok grows holds
  | halt grows related => exact .halt grows related

theorem weaken {post₂ : α → β → Layout → Lox.Machine → Machine → Prop}
    {r : EStateM.Result Halt Lox.Machine α} {r' : EStateM.Result Halt Machine β}
    (h : Agree known cells m post r r')
    (imp : ∀ a b cells' m' l', Grows cells m cells' m' → post a b cells' m' l' →
      post₂ a b cells' m' l') : Agree known cells m post₂ r r' := by
  cases h with
  | ok grows holds => exact .ok grows (imp _ _ _ _ _ grows holds)
  | halt grows related => exact .halt grows related

end Agree

/-- What belongs together behind the evaluation of an expression. -/
def Evaluated (known : Mention → Prop) (scopes : Scopes) (env : Env) (v : Value) (w : Value Env)
    (cells : Layout) (m : Lox.Machine) (l : Machine) : Prop :=
  At known cells m l scopes env ∧ SameValue known m.frames cells v w

/-- What belongs together behind the evaluation of expressions. -/
def EvaluatedAll (known : Mention → Prop) (scopes : Scopes) (env : Env) (vs : List Value)
    (ws : List (Value Env)) (cells : Layout) (m : Lox.Machine) (l : Machine) : Prop :=
  At known cells m l scopes env ∧ List.Forall₂ (SameValue known m.frames cells) vs ws

/-- What belongs together behind a part that may return. -/
def Executed (known : Mention → Prop) (scopes : Scopes) (env : Env) (flow : Flow)
    (flow' : Flow Env) (cells : Layout) (m : Lox.Machine) (l : Machine) : Prop :=
  At known cells m l scopes env ∧ SameFlow known m.frames cells flow flow'

/-- What belongs together behind statements, wherever they have led to. -/
def ExecutedAll (known : Mention → Prop) (flow : Flow) (flow' : Flow Env)
    (cells : Layout) (m : Lox.Machine) (l : Machine) : Prop :=
  Related known cells m l ∧ SameFlow known m.frames cells flow flow'

/-- The current frame is another one, for a while. -/
theorem Related.inFrame (h : Related known cells m l) (frame : FrameId) :
    Related known cells { m with current := frame } l :=
  h.same rfl rfl rfl rfl h.sink h.depth h.nextIdentity

/-- The same number of calls is active in both machines. -/
theorem Related.atDepth (h : Related known cells m l) (depth : Nat) :
    Related known cells { m with depth := depth } { l with depth := depth } :=
  h.same rfl rfl rfl rfl h.sink rfl h.nextIdentity

/-! ## The steps -/

namespace At

/-- What was the same goes on being the same while the place is left for a while. -/
theorem again (h : At known cells m l scopes env) (grows : Grows cells m cells' m')
    (h' : At known cells' m' l' scopes env') : At known cells' m' l' scopes env where
  related := h'.related
  stands := by
    rw [grows.current]
    exact h.stands.mono grows.frames grows.layout
  declared := h'.declared

theorem orFail {r : Except RuntimeError.Cause Value} {r' : Except RuntimeError.Cause (Value Env)}
    (h : At known cells m l scopes env) (line : Nat) (same : SameResult known m.frames cells r r') :
    Agree known cells m (Evaluated known scopes env) (Eval.orFail line r m)
      (Lexical.orFail line r' l) := by
  cases same with
  | ok same => exact .pure ⟨h, same⟩
  | error cause => exact .fail h.related

theorem read {id : RefId} {name : Token} {p : Place} (h : At known cells m l p.scopes env)
    (mention : known ⟨id, name, false, p⟩) :
    Agree known cells m (Evaluated known p.scopes env) (Eval.read id name m)
      (Lexical.read env name l) := by
  unfold Eval.read Lexical.read
  rcases h.related.lookup h.stands mention with ⟨none, none'⟩ | ⟨j, v, w, hj, hv, hw, same, -⟩
  · rw [none, none']
    exact .fail h.related
  · rw [hj, hw, Option.bind_some, hv]
    exact .pure ⟨h, same⟩

/-- Giving a name a value moves nothing. -/
theorem define {v : Value} {j : FrameId} {name : String} (h : At known cells m l scopes env)
    (related : Related known cells { m with frames := m.frames.define j name v } l') :
    At known cells { m with frames := m.frames.define j name v } l' scopes env where
  related := related
  stands := h.stands.mono (.define _ _ _ _) List.prefix_rfl
  declared := h.declared


theorem write {id : RefId} {name : Token} {p : Place} {v : Value} {w : Value Env}
    (h : At known cells m l p.scopes env) (mention : known ⟨id, name, true, p⟩)
    (same : SameValue known m.frames cells v w) :
    Agree known cells m
      (fun _ _ cells' m' l' =>
        At known cells' m' l' p.scopes env ∧ SameValue known m'.frames cells' v w)
      (Eval.write id name v m) (Lexical.write env name w l) := by
  unfold Eval.write Lexical.write
  rcases h.related.lookup h.stands mention with ⟨none, none'⟩ | ⟨j, _, _, hj, -, hw, -, means⟩
  · rw [none, none']
    exact .fail h.related
  · obtain ⟨l', filled, related⟩ := h.related.fill means same
    rw [hj, hw]
    show Agree known cells m _ (.ok () _) (Lexical.fill env name w l)
    rw [filled]
    exact .ok (.define cells m j name.lexeme v)
      ⟨h.define related, same.mono (.define _ _ _ _) List.prefix_rfl⟩

/-- A declared name gets its value. -/
theorem fill {name : Token} {v : Value} {w : Value Env} (h : At known cells m l scopes env)
    (means : Means cells env name.lexeme m.current) (same : SameValue known m.frames cells v w) :
    Agree known cells m (fun _ _ cells' m' l' => At known cells' m' l' scopes env)
      (Eval.define name v m) (Lexical.fill env name w l) := by
  obtain ⟨l', filled, related⟩ := h.related.fill means same
  rw [filled]
  exact .ok (.define cells m m.current name.lexeme v) (h.define related)

theorem print {v : Value} {w : Value Env} (h : At known cells m l scopes env) (line : Nat)
    (same : SameValue known m.frames cells v w) :
    Agree known cells m (fun _ _ cells' m' l' => At known cells' m' l' scopes env)
      (Eval.print line v.text m) (Lexical.print line w.text l) := by
  unfold Eval.print Lexical.print
  rw [same.text_eq, h.related.sink]
  obtain ⟨fits, sink⟩ := l.sink.write (w.text ++ "\n")
  have related : Related known cells { m with sink := sink } { l with sink := sink } :=
    h.related.same rfl rfl rfl rfl rfl h.related.depth h.related.nextIdentity
  cases fits with
  | true => exact .ok (.same rfl rfl rfl) ⟨related, h.stands, h.declared⟩
  | false => exact .halt (.same rfl rfl rfl) related

theorem closure {name : Token} {parameters : List Token} {body : List Stmt} {p : Place}
    (h : At known cells m l (p.scopes.introduce name) env)
    (mentions : ∀ μ ∈ Stmt.mentionsAll (p.inFunction name parameters body) body, known μ)
    (nodup : (parameters.map Token.lexeme).Nodup)
    (tidy : Stmt.TidyAll (p.inFunction name parameters body).scopes body) :
    Agree known cells m (Evaluated known (p.scopes.introduce name) env)
      (Eval.closure name parameters body m) (Lexical.closure env name parameters body l) := by
  unfold Eval.closure Lexical.closure
  rw [← h.related.nextIdentity]
  have related := @Related.same _ _ _ _ { m with nextIdentity := m.nextIdentity + 1 }
    { l with nextIdentity := m.nextIdentity + 1 } h.related rfl rfl rfl rfl h.related.sink
    h.related.depth rfl
  refine .ok (.same rfl rfl rfl) ⟨⟨related, h.stands, h.declared⟩, .function ?_⟩
  exact ⟨rfl, rfl, rfl, rfl, p, h.stands, mentions, nodup, tidy⟩

/-- The declared name belongs to the innermost scope from now on, if there is any scope. -/
theorem extend {name : Token} {scopes' : Scopes} {ready : Bool} (h : At known cells m l scopes env)
    (untaken : scopes.taken name.lexeme = false)
    (gets : Scopes.Gets scopes scopes' name.lexeme ready) :
    ∃ cells' env' l', Lexical.extend env name l = .ok env' l' ∧ Grows cells m cells' m ∧
      At known cells' m l' scopes' env' ∧ Means cells' env' name.lexeme m.current := by
  unfold Scopes.Gets at gets
  split at gets
  · subst gets
    obtain ⟨rfl, atTop⟩ := h.stands.top rfl
    exact ⟨cells, .top, l, rfl, .refl cells m, h, atTop⟩
  · rename_i scope outer
    obtain ⟨scope', rfl, marks⟩ := gets
    cases env with
    | top => exact absurd rfl (h.stands.inner (by simp)).1
    | inner names =>
      have fresh : (m.current, name.lexeme) ∉ cells := by
        intro mem
        rw [h.declared _ mem] at untaken
        cases untaken
      refine ⟨cells ++ [(m.current, name.lexeme)], .inner ((name.lexeme, l.cells.size) :: names),
        { l with cells := l.cells.push none }, rfl, ?_, ?_, ?_⟩
      · refine ⟨rfl, rfl, .refl _, List.prefix_append _ _, fun b hb => ?_⟩
        rcases List.mem_append.1 hb with old | new
        · exact Or.inl old
        · rw [List.mem_singleton.1 new]
          exact Or.inr (Or.inl rfl)
      · rw [h.related.size]
        refine ⟨h.related.allocate fresh (h.stands.inner (by simp)).2 h.stands.lt,
          h.stands.extend marks, fun other mem => ?_⟩
        show (scope'.lookup other).isSome = true
        rw [marks.isSome]
        rcases List.mem_append.1 mem with old | new
        · rw [show (scope.lookup other).isSome = true from h.declared other old, Bool.or_true]
        · cases List.mem_singleton.1 new
          simp
      · simp [Means, Env.names, h.related.size]

/-- It makes no difference for a name that its value is ready. -/
theorem ready {name : Token} (h : At known cells m l (scopes.declare name.lexeme) env) :
    At known cells m l (scopes.introduce name) env := by
  cases scopes with
  | nil => exact h
  | cons scope outer =>
    obtain ⟨scope', declared, taken⟩ := Scopes.declare_taken scope outer name.lexeme
    obtain ⟨scope'', defined, marks⟩ := @Scopes.define_cons scope' outer name.lexeme
    unfold Scopes.introduce
    rw [declared] at h ⊢
    rw [defined]
    have isSome : ∀ other, (scope''.lookup other).isSome = (scope'.lookup other).isSome := by
      intro other
      rw [marks.isSome]
      by_cases same : other = name.lexeme
      · rw [same, taken, Bool.or_true]
      · simp [same]
    have distance : ∀ other,
        Scopes.distance? (scope'' :: outer) other = Scopes.distance? (scope' :: outer) other := by
      intro other
      rw [Scopes.distance?_cons, Scopes.distance?_cons, isSome]
    exact {
      related := h.related
      stands := {
        lt := h.stands.lt
        top := fun none => by cases none
        inner := fun _ => h.stands.inner (by simp)
        global := fun other hd => h.stands.global other ((distance other).symm.trans hd)
        bound := fun other d hd => h.stands.bound other d ((distance other).symm.trans hd) }
      declared := fun other mem => (isSome other).trans (h.declared other mem) }

/-- Inside a new frame. -/
theorem push {parent : FrameId} (h : Related known cells m l)
    (stands : Stands m.frames cells scopes env parent) :
    At known cells { m with frames := m.frames.push parent [], current := m.frames.size } l
      ([] :: scopes) (.inner env.names) where
  related := (h.push parent).inFrame m.frames.size
  stands := stands.push
  declared _ mem := absurd (h.inner _ mem).2 (Nat.lt_irrefl _)

/-- The parameters of a call get their values. -/
theorem enter {scope : Scope} {outer : Scopes} {names : List Token} {vs : List Value}
    {ws : List (Value Env)} (h : At known cells m l (scope :: outer) env)
    (same : List.Forall₂ (SameValue known m.frames cells) vs ws) (length : vs.length = names.length)
    (nodup : (names.map Token.lexeme).Nodup)
    (absent : ∀ name ∈ names, (scope.lookup name.lexeme).isSome = false) :
    ∃ cells' env' l', Lexical.enter env (names.zip ws) l = .ok env' l' ∧
      Grows cells m cells' { m with frames := m.frames.defineAll m.current (names.zip vs) } ∧
      At known cells' { m with frames := m.frames.defineAll m.current (names.zip vs) } l'
        (Scopes.introduceAll (scope :: outer) names).2 env' := by
  induction names generalizing cells m l env scope vs ws with
  | nil => exact ⟨cells, env, l, rfl, .refl cells m, h⟩
  | cons name names ih =>
    cases same with
    | nil => cases length
    | @cons v w vs ws first others =>
      obtain ⟨unused, nodup⟩ := List.nodup_cons.1 nodup
      obtain ⟨scope', introduced, marks⟩ := Scopes.introduce_cons scope outer name
      obtain ⟨cells₁, env₁, l₁, extended, grows₁, h₁, means⟩ :=
        h.extend (absent name List.mem_cons_self) (Scopes.gets_introduce (scope :: outer) name)
      rw [introduced] at h₁
      obtain ⟨l₂, filled, related⟩ := h₁.related.fill means (first.mono grows₁.frames grows₁.layout)
      have grows₂ := Grows.define cells₁ m m.current name.lexeme v
      have absent' : ∀ other ∈ names, (scope'.lookup other.lexeme).isSome = false := by
        intro other mem
        rw [marks.isSome, absent other (List.mem_cons_of_mem _ mem), Bool.or_false,
          decide_eq_false_iff_not]
        intro same
        exact unused (same ▸ List.mem_map_of_mem mem)
      obtain ⟨cells₃, env₃, l₃, entered, grows₃, h₃⟩ := ih (h₁.define related)
        (others.imp fun _ _ same => same.mono (grows₁.trans grows₂).frames
          (grows₁.trans grows₂).layout) (Nat.succ.inj length) nodup absent'
      refine ⟨cells₃, env₃, l₃, ?_, (grows₁.trans grows₂).trans grows₃, ?_⟩
      · rw [List.zip_cons_cons, Lexical.enter]
        show EStateM.bind (Lexical.extend env name) _ l = _
        rw [EStateM.bind, extended]
        show EStateM.bind (Lexical.fill env₁ name w) _ l₁ = _
        rw [EStateM.bind, filled]
        exact entered
      · rw [Scopes.introduceAll_snd, List.foldl_cons, introduced, ← Scopes.introduceAll_snd]
        exact h₃

end At

/-- A frame newer than all that there were becomes the current one. -/
structure Enters (cells : Layout) (m : Lox.Machine) (cells' : Layout) (m' : Lox.Machine) : Prop where
  current : m.frames.size ≤ m'.current
  locals : m'.locals = m.locals
  frames : m.frames.Extends m'.frames
  layout : cells <+: cells'
  fresh : ∀ b ∈ cells', b ∈ cells ∨ m.frames.size ≤ b.1

theorem Enters.trans (h : Enters cells m cells' m') (h' : Grows cells' m' cells'' m'') :
    Enters cells m cells'' m'' where
  current := h'.current ▸ h.current
  locals := h'.locals.trans h.locals
  frames := h.frames.trans h'.frames
  layout := h.layout.trans h'.layout
  fresh b hb := by
    rcases h'.fresh b hb with old | own | new
    · exact h.fresh b old
    · exact Or.inr (own ▸ h.current)
    · exact Or.inr (Nat.le_trans h.frames.size_le new)

theorem Enters.push (cells : Layout) (m : Lox.Machine) (parent : FrameId) :
    Enters cells m cells { m with frames := m.frames.push parent [], current := m.frames.size } :=
  ⟨Nat.le_refl _, rfl, .push _ _ _, List.prefix_rfl, fun _ hb => Or.inl hb⟩

theorem Enters.back (h : Enters cells m cells' m') :
    Grows cells m cells' { m' with current := m.current } :=
  ⟨rfl, h.locals, h.frames, h.layout, fun b hb => (h.fresh b hb).imp_right Or.inr⟩

/-- What was the same is so again behind a part that ran in a newer frame. -/
theorem At.back (h : At known cells m l scopes env) (enters : Enters cells m cells' m')
    (related : Related known cells' m' l') :
    At known cells' { m' with current := m.current } l' scopes env where
  related := related.inFrame m.current
  stands := h.stands.mono enters.frames enters.layout
  declared name mem := by
    rcases enters.fresh _ mem with old | new
    · exact h.declared name old
    · exact absurd h.stands.lt (Nat.not_lt.2 new)

/-- A part of a run in a newer frame. -/
theorem Agree.inFrame {x : Eval Flow} {r : EStateM.Result Halt Machine (Flow Env)}
    {frame : FrameId} (h : At known cells m l scopes env) (outside : m'.current = m.current)
    (enters : Enters cells m cells' { m' with current := frame })
    (body : Agree known cells' { m' with current := frame } (ExecutedAll known)
      (x { m' with current := frame }) r) :
    Agree known cells m (Executed known scopes env) (Eval.inFrame frame x m') r := by
  unfold Eval.inFrame
  rw [outside]
  generalize x { m' with current := frame } = r' at body ⊢
  cases body with
  | ok grows holds =>
    have enters := enters.trans grows
    exact .ok enters.back ⟨h.back enters holds.1, holds.2⟩
  | halt grows related =>
    have enters := enters.trans grows
    exact .halt enters.back (related.inFrame m.current)

end Lox.Lexical
