import Lox.Proofs.Renaming.Relation
import Lox.Proofs.Scope.Watching

/-!
# The same steps under another name

What reading, assigning, declaring and entering do to two machines of which the second one runs a
program under another name.

* `Ends` — two parts of a run end the same way.
* `Agree` — besides, the first one keeps mentions in place; `At.bind` — so does one after the other.
* `At.read`, `At.write` — a mention comes to the same under either name.
* `At.define`, `At.function` — declarations.
* `At.inside`, `At.duringCall` — blocks and calls.
-/

namespace Lox

theorem Watch.Safe.imp {α : Type} {w : Watch.State} {post post' : α → Watch.State → Prop}
    {r : EStateM.Result Halt Watch.State α} (h : Safe w post r)
    (imp : ∀ a w', post a w' → post' a w') : Safe w post' r := by
  cases h with
  | ok keeps holds => exact .ok keeps (imp _ _ holds)
  | halt keeps sane => exact .halt keeps sane

namespace Renaming.Targets

variable {r : Renaming} {p : Place}

/-- Outside of initializers there is nothing to say. -/
theorem settled (h : p.Settled) : r.Targets p := fun t initializing => by
  rw [h.initializing] at initializing
  cases initializing

theorem inInitializer {name : Token}
    (fits : (r.declare name).lexeme = r.key (r.here p.sites) name.lexeme) :
    r.Targets (p.inInitializer name) := fun t initializing _ => by
  cases initializing
  exact fits

end Renaming.Targets

namespace Renamed

open Watch (State Keeps Sane Here Safe silently note entering)

variable {S : Renaming} {own own' : List FrameId} {w w' : State} {m m' : Machine} {r : Renaming}
variable {p p' : Place} {α β γ δ : Type} {post post' : State → Prop}
variable {rel : Ground → α → β → Prop} {rel' : Ground → γ → δ → Prop} {v v' : Value}

/-- Both parts of a run give results that belong together, or both halt for the same reason. Of the
first frames, as many as `size`, the same have the renamed declaration. -/
inductive Ends (S : Renaming) (own : List FrameId) (size : Nat) (rel : Ground → α → β → Prop) :
    EStateM.Result Halt State α → EStateM.Result Halt Machine β → Prop where
  | ok {a : α} {b : β} {own' : List FrameId} {w' : State} {m' : Machine}
      (kept : ∀ i < size, own'.contains i = own.contains i) (related : Related S own' w' m')
      (same : rel (.of w' own') a b) : Ends S own size rel (.ok a w') (.ok b m')
  | halt {halt halt' : Halt} {own' : List FrameId} {w' : State} {m' : Machine}
      (kept : ∀ i < size, own'.contains i = own.contains i) (related : Related S own' w' m')
      (same : halt' = S.halt w'.events halt) : Ends S own size rel (.error halt w') (.error halt' m')

/-- Both parts of a run end the same way, and the first one keeps mentions in place. -/
structure Agree (S : Renaming) (own : List FrameId) (w : State) (post : State → Prop)
    (rel : Ground → α → β → Prop) (x : EStateM.Result Halt State α)
    (y : EStateM.Result Halt Machine β) : Prop where
  safe : Safe w (fun _ w' => post w') x
  ends : Ends S own w.machine.frames.size rel x y

namespace Agree

theorem pure {a : α} {b : β} (holds : post w) (related : Related S own w m)
    (same : rel (.of w own) a b) : Agree S own w post rel (.ok a w) (.ok b m) :=
  ⟨.pure holds, .ok (fun _ _ => rfl) related same⟩

/-- Later parts of a run start where earlier ones end. -/
theorem after {x : EStateM.Result Halt State α} {y : EStateM.Result Halt Machine β}
    (keeps : Keeps w w') (kept : ∀ i < w.machine.frames.size, own'.contains i = own.contains i)
    (h : Agree S own' w' post rel x y) : Agree S own w post rel x y := by
  obtain ⟨safe, ends⟩ := h
  refine ⟨safe.after keeps, ?_⟩
  have both : ∀ {own'' : List FrameId},
      (∀ i < w'.machine.frames.size, own''.contains i = own'.contains i) →
      ∀ i < w.machine.frames.size, own''.contains i = own.contains i := fun kept' i lt =>
    (kept' i (Nat.lt_of_lt_of_le lt keeps.frames.size_le)).trans (kept i lt)
  cases ends with
  | ok kept' related same => exact .ok (both kept') related same
  | halt kept' related same => exact .halt (both kept') related same

/-- Parts that agree may be followed by parts that do. -/
theorem bind {x : Watch α} {y : Eval β} {f : α → Watch γ} {g : β → Eval δ}
    (h : Agree S own w post rel (x w) (y m))
    (next : ∀ a b own' w' m', Keeps w w' →
      (∀ i < w.machine.frames.size, own'.contains i = own.contains i) → post w' →
      Related S own' w' m' → rel (.of w' own') a b →
      Agree S own' w' post' rel' (f a w') (g b m')) :
    Agree S own w post' rel' ((x >>= f) w) ((y >>= g) m) := by
  show Agree S own w post' rel' (EStateM.bind x f w) (EStateM.bind y g m)
  unfold EStateM.bind
  obtain ⟨safe, ends⟩ := h
  generalize x w = q, y m = q' at safe ends ⊢
  cases ends with
  | ok kept related same =>
    cases safe with
    | ok keeps holds => exact (next _ _ _ _ _ keeps kept holds related same).after keeps kept
  | halt kept related same =>
    cases safe with
    | halt keeps sane => exact ⟨.halt keeps sane, .halt kept related same⟩

/-- What belongs together says more of the result on the first machine. -/
theorem safely {x : EStateM.Result Halt State α} {y : EStateM.Result Halt Machine β}
    {post' : α → State → Prop} (h : Agree S own w post rel x y)
    (imp : ∀ {a b own' w'}, post w' → rel (.of w' own') a b → post' a w') : Safe w post' x := by
  obtain ⟨safe, ends⟩ := h
  cases ends with
  | ok kept related same =>
    cases safe with
    | ok keeps holds => exact .ok keeps (imp holds same)
  | halt kept related same =>
    cases safe with
    | halt keeps sane => exact .halt keeps sane

end Agree

/-- Nothing but the events is new. -/
theorem Related.events {events : List Event} (h : Related S own w m) (more : w.events ⊆ events) :
    Related S own ⟨w.machine, events⟩ m where
  frames := @SameFrames.mono S _ (.of ⟨w.machine, events⟩ own) _ _ h.frames
    ⟨.refl _, more, fun _ _ held => held, fun _ _ => rfl⟩ (Nat.le_refl _)
  current := h.current
  locals := h.locals
  sink := h.sink
  depth := h.depth
  nextIdentity := h.nextIdentity
  own_lt := h.own_lt
  notGlobal := h.notGlobal

theorem Related.lookup (h : Related S own w m) (i : FrameId) (name : String) :
    Option.Rel (SameValue S (.of w own)) ((w.machine.frames.bindings i).lookup name)
      ((m.frames.bindings i).lookup (S.key (own.contains i) name)) :=
  h.frames.bindings i name

/-- A name gets a value in a frame, under the name that it has there. -/
theorem Related.giving {i : FrameId} {name : String} (h : Related S own w m)
    (keeps : Keeps w ⟨{ w.machine with frames := w.machine.frames.define i name v }, w.events⟩)
    (same : SameValue S (.of w own) v v') :
    Related S own ⟨{ w.machine with frames := w.machine.frames.define i name v }, w.events⟩
      { m with frames := m.frames.define i (S.key (own.contains i) name) v' } where
  frames := (h.frames.define i name same).mono (.ofKeeps keeps fun _ _ => rfl)
    (Nat.le_of_eq Frames.size_define)
  current := h.current
  locals := h.locals
  sink := h.sink
  depth := h.depth
  nextIdentity := h.nextIdentity
  own_lt i mem := by simpa using h.own_lt i mem
  notGlobal := h.notGlobal

namespace At

/-- Parts that agree may be followed by parts that do, in the same scope. -/
theorem bind {x : Watch α} {y : Eval β} {f : α → Watch γ} {g : β → Eval δ}
    (h : At S r p own w m) (agree : Agree S own w (Here · p') rel (x w) (y m))
    (sites : p'.sites = p.sites)
    (next : ∀ a b own' w' m', (Ground.of w own).Grows (.of w' own') → At S r p' own' w' m' →
      rel (.of w' own') a b → Agree S own' w' post' rel' (f a w') (g b m')) :
    Agree S own w post' rel' ((x >>= f) w) ((y >>= g) m) :=
  agree.bind fun _ _ _ _ _ keeps kept here related same =>
    next _ _ _ _ _ (.ofKeeps keeps kept) (h.next sites keeps kept here related) same

theorem pure {a : α} {b : β} (h : At S r p own w m) (same : rel (.of w own) a b) :
    Agree S own w (Here · p) rel (.ok a w) (.ok b m) :=
  .pure h.here h.related same

/-! ## What does not depend on names -/

theorem halted (h : At S r p own w m) {halt : Halt} (same : S.halt w.events halt = halt) :
    Agree S own w post rel (.error halt w) (.error halt m) :=
  ⟨.halt (.refl w) h.here.sane, .halt (fun _ _ => rfl) h.related same.symm⟩

theorem fail (h : At S r p own w m) (line : Nat) {cause : RuntimeError.Cause}
    (other : ∀ name, cause ≠ .undefinedVariable name) :
    Agree S own w post rel (silently (Eval.fail line cause) w) (Eval.fail line cause m) :=
  h.halted (Renaming.halt_of_ne other line)

theorem outOfFuel (h : At S r p own w m) :
    Agree S own w post rel (silently Eval.outOfFuel w) (Eval.outOfFuel m) :=
  h.halted Renaming.halt_outOfFuel

theorem orFail {result : Except RuntimeError.Cause Value} (h : At S r p own w m) (line : Nat)
    (plain : ∀ v, result = .ok v → v.Plain)
    (other : ∀ name, result ≠ .error (.undefinedVariable name)) :
    Agree S own w (Here · p) (SameValue S) (silently (Eval.orFail line result) w)
      (Eval.orFail line result m) := by
  cases result with
  | error cause => exact h.fail line fun name same => other name (congrArg Except.error same)
  | ok v => exact h.pure (.plain (plain v rfl))

theorem print (h : At S r p own w m) (line : Nat) (text : String) :
    Agree S own w (Here · p) (fun _ (_ _ : Unit) => True) (silently (Eval.print line text) w)
      (Eval.print line text m) := by
  refine ⟨h.here.print line text, ?_⟩
  unfold silently Eval.print
  rw [h.related.sink]
  dsimp only
  cases (w.machine.sink.write (text ++ "\n")).1 with
  | true => exact .ok (fun _ _ => rfl) { h.related with sink := rfl } trivial
  | false =>
    exact .halt (fun _ _ => rfl) { h.related with sink := rfl }
      (Renaming.halt_of_ne (by rintro _ ⟨⟩) line).symm

/-! ## Mentions -/

/-- Noting something down makes no difference. -/
theorem noting {e : Event} (h : At S r p own w m) (here : Here ⟨w.machine, e :: w.events⟩ p) :
    At S r p own ⟨w.machine, e :: w.events⟩ m where
  allows := h.allows
  here := here
  related := h.related.events (List.subset_cons_self _ _)
  matching := h.matching

theorem read {id : RefId} {name : Token} (h : At S r p own w m) (regular : p.Regular)
    (sees : S.Sees r w.events ⟨id, name, false, p⟩) :
    Agree S own w (Here · p) (SameValue S)
      ((note (.reached id name false) >>= fun _ => silently (Eval.read id name)) w)
      (Eval.read id (r.mention id name) m) := by
  let μ : Mention := ⟨id, name, false, p⟩
  refine ⟨(h.here.readStep regular sees.begun).imp fun _ _ evaluated => evaluated.1, ?_⟩
  have related : Related S own ⟨w.machine, .reached id name false w.machine :: w.events⟩ m :=
    h.related.events (List.subset_cons_self _ _)
  obtain ⟨frame, key⟩ := At.holder?_eq (μ := μ) h regular sees
  show Ends S own _ (SameValue S)
    (silently (Eval.read id name) ⟨w.machine, .reached id name false w.machine :: w.events⟩) _
  unfold silently Eval.read
  dsimp only
  rw [show m.holder? id (r.mention id name).lexeme = _ from frame]
  cases found : w.machine.holder? id name.lexeme with
  | none =>
    have kept : (r.mention id name).lexeme = name.lexeme := by
      rcases At.unfound (μ := μ) h regular sees found with kept | ⟨⟨_, hd⟩, isOwn, -⟩
      · exact kept
      · exact absurd isOwn (h.here.not_own regular sees.begun rfl hd)
    simp only [Option.bind_none, kept, Renaming.line_mention]
    exact .halt (fun _ _ => rfl) related rfl
  | some j =>
    have held : (w.machine.frames.bindings j).holds name.lexeme = true :=
      Here.holds_of_holder? (μ := μ) h.here regular sees.begun found
    have key : (r.mention id name).lexeme = S.key (own.contains j) name.lexeme := key j found
    have same := related.lookup j name.lexeme
    rw [← key] at same
    obtain ⟨v, hv⟩ := Option.isSome_iff_exists.1 held
    rw [hv] at same
    simp only [Option.bind_some, hv]
    generalize (m.frames.bindings j).lookup (r.mention id name).lexeme = found' at same
    cases same with
    | some same => exact .ok (fun _ _ => rfl) related same

/-- Evaluation has come to an assignment. -/
theorem reach {id : RefId} {name : Token} (h : At S r p own w m) (regular : p.Regular)
    (sees : S.Sees r w.events ⟨id, name, true, p⟩) :
    At S r p own ⟨w.machine, .reached id name true w.machine :: w.events⟩ m :=
  h.noting (h.here.reachStep regular sees.begun)

theorem write {id : RefId} {name : Token} (h : At S r p own w m) (regular : p.Regular)
    (sees : S.Sees r w.events ⟨id, name, true, p⟩)
    (target : r.Targets p)
    (same : SameValue S (.of w own) v v') :
    Agree S own w (Here · p) (fun _ (_ _ : Unit) => True)
      ((note (.assigning id name v) >>= fun _ => silently (Eval.write id name v)) w)
      (Eval.write id (r.mention id name) v' m) := by
  let μ : Mention := ⟨id, name, true, p⟩
  refine ⟨(h.here.writeStep regular sees.begun same.placed).imp fun _ _ evaluated => evaluated.1, ?_⟩
  have related : Related S own ⟨w.machine, .assigning id name v w.machine :: w.events⟩ m :=
    h.related.events (List.subset_cons_self _ _)
  obtain ⟨frame, key⟩ := At.holder?_eq (μ := μ) h regular sees
  show Ends S own _ _ (silently (Eval.write id name v)
    ⟨w.machine, .assigning id name v w.machine :: w.events⟩) _
  unfold silently Eval.write
  dsimp only
  rw [show m.holder? id (r.mention id name).lexeme = _ from frame]
  cases found : w.machine.holder? id name.lexeme with
  | none =>
    have reported := At.unfound_assigned (μ := μ) h regular sees rfl target found
    simp only [Renaming.line_mention]
    exact .halt (fun _ _ => rfl) related
      (congrArg (fun name' => Halt.failure ⟨.undefinedVariable name', name.line⟩) reported)
  | some j =>
    have held : (w.machine.frames.bindings j).holds name.lexeme = true :=
      Here.holds_of_holder? (μ := μ) h.here regular sees.begun found
    have key : (r.mention id name).lexeme = S.key (own.contains j) name.lexeme := key j found
    rw [key]
    exact .ok (fun _ _ => rfl) (related.giving (.giving (Frames.lt_size_of_holds held) (.inr held))
      (same.mono (.ofKeeps (.noting w (by simp)) fun _ _ => rfl))) trivial

/-! ## Declarations -/

/-- The value of a declared variable is being worked out. -/
theorem inInitializer {name : Token} (h : At S r p own w m)
    (untaken : p.scopes.taken name.lexeme = false) : At S r (p.inInitializer name) own w m :=
  { h with here := h.here.inInitializer untaken }

/-- A variable is declared under the name that its scope has. -/
theorem define {name name' : Token} (h : At S r p own w m) (sites : p'.sites = p.sites)
    (gets : Scopes.Gets p.scopes p'.scopes name.lexeme true)
    (fits : name'.lexeme = r.key (r.here p.sites) name.lexeme)
    (same : SameValue S (.of w own) v v') :
    Agree S own w (Here · p') (fun _ (_ _ : Unit) => True) (silently (Eval.define name v) w)
      (Eval.define name' v' m) := by
  refine ⟨h.here.declareStep sites gets same.placed, ?_⟩
  have keeps := @Keeps.giving w w.machine.current name.lexeme v h.lt (.inl rfl)
  have defined : m.frames.define m.current name'.lexeme v' = m.frames.define w.machine.current
      (S.key (own.contains w.machine.current) name.lexeme) v' := by
    rw [h.related.current, h.key_current, fits]
  unfold silently Eval.define
  rw [defined]
  exact .ok (fun _ _ => rfl) (h.related.giving keeps same) trivial

/-- The function that is declared is renamed as the part of the program is that declares it. -/
theorem function {name : Token} {parameters : List Token} {body : List Stmt} (h : At S r p own w m)
    (settled : p.Settled)
    (sees : ∀ μ ∈ Stmt.mentionsAll (p.inFunction name parameters body) body, S.Sees r w.events μ)
    (nodup : (parameters.map Token.lexeme).Nodup)
    (tidy : Stmt.TidyAll (p.inFunction name parameters body).scopes body)
    (fits : Stmt.Fits r (r.here p.sites) (.function name parameters body)) :
    Agree S own w (Here · (p.behind (.function name parameters body)))
      (fun _ (_ _ : Unit) => True)
      ((silently (Eval.closure name parameters body) >>= fun f => silently (Eval.define name f)) w)
      ((Eval.closure name (parameters.map r.declare) (Stmt.renamedAll r body) >>= fun f =>
        Eval.define name f) m) := by
  obtain ⟨kept, fitsParameters, fitsBody⟩ := fits
  let f : Closure := ⟨w.machine.nextIdentity, name, parameters, body, w.machine.current⟩
  let w' : State := ⟨{ w.machine with
    nextIdentity := w.machine.nextIdentity + 1
    frames := w.machine.frames.define w.machine.current name.lexeme (.function f) }, w.events⟩
  have safe : Safe w (fun _ w' => Here w' (p.behind (.function name parameters body))) (.ok () w') :=
    h.here.functionStep settled (fun μ hμ => (sees μ hμ).begun) nodup tidy
  refine ⟨safe, ?_⟩
  cases safe with
  | ok keeps here =>
    have grows : (Ground.of w own).Grows (.of w' own) := .ofKeeps keeps fun _ _ => rfl
    have stands : Stands S (.of w' own) r p f := {
      lt := Nat.lt_of_lt_of_le h.lt keeps.frames.size_le
      settled := settled
      chain := here.chain
      sees := sees
      nodup := nodup
      tidy := tidy
      matching := h.matching.mono grows h.lt
      parameters := fitsParameters
      fits := fitsBody }
    have same : SameValue S (.of w' own) (.function f) (.function (f.renamed r)) :=
      .function ⟨r, p, h.allows, stands, rfl⟩
    have frames := (h.related.frames.mono grows (Nat.le_refl _)).define w.machine.current name.lexeme
      same
    rw [show (Ground.of w' own).own = own from rfl, h.key_current, kept] at frames
    have renamed : Value.function ⟨m.nextIdentity, name, parameters.map r.declare,
        Stmt.renamedAll r body, m.current⟩ = .function (f.renamed r) := by
      rw [h.related.current, h.related.nextIdentity]
      rfl
    show Ends S own _ _ (.ok () w') (.ok () { m with
      nextIdentity := m.nextIdentity + 1
      frames := m.frames.define m.current name.lexeme (.function ⟨m.nextIdentity, name, _, _, _⟩) })
    rw [renamed]
    refine .ok (fun _ _ => rfl) ?_ trivial
    exact { h.related with
      frames := h.related.current ▸ frames
      nextIdentity := congrArg (· + 1) h.related.nextIdentity
      own_lt := fun i mem => Nat.lt_of_lt_of_le (h.related.own_lt i mem) keeps.frames.size_le }

end At

/-! ## Blocks and calls -/

/-- The frames that have the renamed declaration, when one more is made for a site. -/
def ownWith (own : List FrameId) (r : Renaming) (site : Site) (frame : FrameId) : List FrameId :=
  if r.opens site then frame :: own else own

section Entering

variable {site : Site} {sites : List Site} {parent : FrameId} {bindings bindings' : Bindings}

theorem contains_ownWith_of_lt {i size : FrameId} (lt : i < size) :
    (ownWith own r site size).contains i = own.contains i := by
  unfold ownWith
  split
  · have differ : (i == size) = false := beq_false_of_ne (Nat.ne_of_lt lt)
    rw [List.contains_cons, differ, Bool.false_or]
  · rfl

theorem contains_ownWith_self (h : Related S own w m) :
    (ownWith own r site w.machine.frames.size).contains w.machine.frames.size = r.opens site := by
  unfold ownWith
  split <;> rename_i opens
  · rw [List.contains_cons, beq_self_eq_true, opens, Bool.true_or]
  · rw [Bool.eq_false_iff.2 opens, Bool.eq_false_iff]
    exact fun mem => Nat.lt_irrefl _ (h.own_lt _ (List.contains_iff_mem.1 mem))

theorem grows_entering (w : State) (own : List FrameId) (r : Renaming) (site : Site)
    (parent : FrameId) (bindings : Bindings) :
    (Ground.of w own).Grows
      (.of (entering w site parent bindings) (ownWith own r site w.machine.frames.size)) where
  frames := .push _ _ _
  events := List.subset_cons_self _ _
  kept i name held := by
    show ((w.machine.frames.push parent bindings).bindings i).holds name = true
    rw [Watch.holds_push (Frames.lt_size_of_holds held)]
    exact held
  own _ lt := contains_ownWith_of_lt lt

/-- The new frame has the same variables under the names that its site has for them. -/
theorem Related.entering (h : Related S own w m) (sane : Sane w) (allows : S.Allows r)
    (site : Site) (parent : FrameId)
    (same : bindings.Keyed (r.key (r.opens site)) (SameValue S (.of w own)) bindings') :
    Related S (ownWith own r site w.machine.frames.size) (entering w site parent bindings)
      { m with frames := m.frames.push parent bindings', current := m.frames.size } := by
  have grows := grows_entering w own r site parent bindings
  refine { h with frames := ?_, current := h.frames.size, own_lt := fun i mem => ?_, notGlobal := ?_ }
  · refine (h.frames.mono grows (Nat.le_refl _)).push parent ?_
    have key : S.key ((Ground.of (Watch.entering w site parent bindings)
        (ownWith own r site w.machine.frames.size)).own.contains w.machine.frames.size) =
          r.key (r.opens site) := funext (allows.key_eq (contains_ownWith_self h))
    rw [key]
    exact same.imp fun _ _ same => same.mono grows
  · show i < (w.machine.frames.push parent bindings).size
    rw [Frames.size_push]
    unfold ownWith at mem
    split at mem
    · rcases List.mem_cons.1 mem with rfl | old
      · exact Nat.lt_succ_self _
      · exact Nat.lt_succ_of_lt (h.own_lt i old)
    · exact Nat.lt_succ_of_lt (h.own_lt i mem)
  · rw [contains_ownWith_of_lt sane.rooted]
    exact h.notGlobal

/-- Both machines are at the beginning of a block or function. -/
theorem At.entering {p' : Place} (h : Related S own w m) (sane : Sane w) (allows : S.Allows r)
    (matching : (Ground.of w own).Matches r sites parent) (lt : parent < w.machine.frames.size)
    (opened : p'.sites = site :: sites)
    (same : bindings.Keyed (r.key (r.opens site)) (SameValue S (.of w own)) bindings')
    (here : Here (Watch.entering w site parent bindings) p') :
    At S r p' (ownWith own r site w.machine.frames.size) (Watch.entering w site parent bindings)
      { m with frames := m.frames.push parent bindings', current := m.frames.size } where
  allows := allows
  here := here
  related := h.entering sane allows site parent same
  matching := by
    rw [opened]
    exact .inner (matching.mono (grows_entering w own r site parent bindings) lt)
      (Frames.parent?_push_self lt) (contains_ownWith_self h)

/-- A part of a run in a new frame. -/
theorem At.inside {x : Watch Flow} {y : Eval Flow} (h : At S r p own w m) (r' : Renaming)
    (site : Site) (parent : FrameId) (bindings bindings' : Bindings)
    (body : Agree S (ownWith own r' site w.machine.frames.size)
      (Watch.entering w site parent bindings) Sane (SameFlow S)
      (x (Watch.entering w site parent bindings))
      (y { m with frames := m.frames.push parent bindings', current := m.frames.size })) :
    Agree S own w (Here · p) (SameFlow S) (Watch.inside site parent bindings x w)
      ((Eval.newFrame parent bindings' >>= fun frame => Eval.inFrame frame y) m) := by
  have safe : Safe _ Watch.ExecutedAll _ := body.safely fun sane same => ⟨sane, same.placed⟩
  refine ⟨(Safe.inside h.here safe).imp fun _ _ executed => executed.1, ?_⟩
  have ends := body.ends
  have older : ∀ i < w.machine.frames.size,
      i < (Watch.entering w site parent bindings).machine.frames.size := fun i lt => by
    show i < (w.machine.frames.push parent bindings).size
    rw [Frames.size_push]
    exact Nat.lt_succ_of_lt lt
  show Ends S own w.machine.frames.size (SameFlow S)
    (Watch.inFrame w.machine.frames.size x
      ⟨{ w.machine with frames := w.machine.frames.push parent bindings },
        .entered site w.machine.frames.size :: w.events⟩)
    (Eval.inFrame m.frames.size y { m with frames := m.frames.push parent bindings' })
  unfold Watch.inFrame Eval.inFrame
  dsimp only [Watch.entering] at ends older ⊢
  generalize x _ = q, y _ = q' at ends ⊢
  cases ends with
  | ok kept related same =>
    exact .ok (fun i lt => (kept i (older i lt)).trans (contains_ownWith_of_lt lt))
      { related with current := h.related.current } same
  | halt kept related same =>
    exact .halt (fun i lt => (kept i (older i lt)).trans (contains_ownWith_of_lt lt))
      { related with current := h.related.current } same

end Entering

/-- One more call is active on both machines. -/
theorem At.deeper (h : At S r p own w m) :
    At S r p own ⟨{ w.machine with depth := w.machine.depth + 1 }, w.events⟩
      { m with depth := m.depth + 1 } where
  allows := h.allows
  here := h.here.same rfl rfl rfl
  related := { h.related with depth := congrArg (· + 1) h.related.depth }
  matching := h.matching

/-- A part of a run with one more call active. -/
theorem At.duringCall {x : Watch Value} {y : Eval Value} (h : At S r p own w m)
    (body : Agree S own ⟨{ w.machine with depth := w.machine.depth + 1 }, w.events⟩ (Here · p)
      (SameValue S) (x ⟨{ w.machine with depth := w.machine.depth + 1 }, w.events⟩)
      (y { m with depth := m.depth + 1 })) :
    Agree S own w (Here · p) (SameValue S) (Watch.duringCall x w) (Eval.duringCall y m) := by
  have safe : Safe _ (Watch.Evaluated p) _ := body.safely fun here same => ⟨here, same.placed⟩
  refine ⟨(Safe.duringCall safe).imp fun _ _ evaluated => evaluated.1, ?_⟩
  have ends := body.ends
  unfold Watch.duringCall Eval.duringCall
  dsimp only at ends ⊢
  generalize x _ = q, y _ = q' at ends ⊢
  cases ends with
  | ok kept related same => exact .ok kept { related with depth := h.related.depth } same
  | halt kept related same => exact .halt kept { related with depth := h.related.depth } same

end Renamed

end Lox
