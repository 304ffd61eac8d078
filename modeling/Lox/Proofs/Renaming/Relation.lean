import Lox.Proofs.Renaming.Fitting
import Lox.Proofs.Scope.Landing

/-!
# A machine under another name

Two machines, of which the second one runs a program under another name. The first one is watched,
which tells at which place of a program it is. What gets another name in the program is `S`; in the part
that runs it is `r`, which is nothing if that part is from an earlier program.

* `Renaming.Sees` — what is known of a mention.
* `Renaming.halt` — what a run halts with under the other name.
* `Ground` — the frames that there are, and those of them that have the renamed declaration.
* `Ground.Matches` — from some frame outwards these are the ones of the sites that have it.
* `SameFunction`, `SameValue` — a function is the same if it is the renamed one, or if it is from an
  earlier program.
* `Related` — the machines have the same values in the same frames, under the names that these have.
* `At.holder?_eq` — so a mention means the same in both.
-/

namespace Lox

namespace Renaming

variable (S : Renaming)

/-- In the text of the program names are renamed, and in those of earlier ones nothing is. -/
def Allows (r : Renaming) : Prop := r = S ∨ r = .off

/-- What is known of a mention in a part of a program that is renamed as `r` says. -/
structure Sees (r : Renaming) (events : List Event) (μ : Mention) : Prop where
  begun : μ.Begun events
  knows : r.Knows μ
  premature : S.premature.contains μ.id = true ↔
    r.mentions.contains μ.id = true ∧ μ.assigns = true ∧ μ.place.initializing = r.declaration

/-- What a run halts with under the other name, of which the events come last first. The report of an
assignment to the variable in its own initializer, which does not know it, has the other name. -/
def halt : List Event → Halt → Halt
  | .assigning id _ _ _ :: _, .failure ⟨.undefinedVariable name, line⟩ =>
    .failure ⟨.undefinedVariable (if S.premature.contains id then S.name else name), line⟩
  | _, halt => halt

variable {S} {r : Renaming} {events events' : List Event} {μ : Mention}

theorem Sees.mono (h : S.Sees r events μ) (more : events ⊆ events') : S.Sees r events' μ :=
  { h with begun := h.begun.mono more }

/-- Of a mention in an earlier program it is known that it is none in this one. -/
theorem Sees.off (begun : μ.Begun events) (old : S.premature.contains μ.id = false) :
    S.Sees .off events μ where
  begun := begun
  knows := knows_off μ
  premature := by
    rw [old]
    exact ⟨fun no => (by cases no), fun no => (by cases no.1)⟩

/-- A frame has the same names for a scope whichever way its site is renamed. -/
theorem Allows.key_eq (h : S.Allows r) {site : Site} {own : Bool} (same : own = r.opens site)
    (name : String) : S.key own name = r.key (r.opens site) name := by
  rcases h with rfl | rfl
  · rw [same]
  · rw [same, Renaming.opens_off, Renaming.key_false, Renaming.key_false]

/-- Any other report is the same. -/
theorem halt_of_ne {cause : RuntimeError.Cause} (other : ∀ name, cause ≠ .undefinedVariable name)
    (line : Nat) : S.halt events (.failure ⟨cause, line⟩) = .failure ⟨cause, line⟩ := by
  unfold halt
  split
  · rename_i same
    cases same
    exact absurd rfl (other _)
  · rfl

theorem halt_outOfFuel : S.halt events .outOfFuel = .outOfFuel := by
  unfold halt
  split
  · rename_i same
    cases same
  · rfl

end Renaming

namespace Renamed

open Watch (State Keeps Sane Here)

/-! ## Frames that have the renamed declaration -/

/-- The frames that there are, what happened before, and which frames have the renamed
declaration. -/
structure Ground where
  frames : Frames
  events : List Event
  own : List FrameId

namespace Ground

/-- The frames of a machine that is watched. -/
def of (w : State) (own : List FrameId) : Ground := ⟨w.machine.frames, w.events, own⟩

/-- Frames are added, and nothing is taken away. -/
structure Grows (G G' : Ground) : Prop where
  frames : G.frames.Extends G'.frames
  events : G.events ⊆ G'.events
  kept : ∀ i name, (G.frames.bindings i).holds name = true →
    (G'.frames.bindings i).holds name = true
  own : ∀ i < G.frames.size, G'.own.contains i = G.own.contains i

/-- From the frame `i` outwards the frames have the renamed declaration whose sites have it. -/
def Matches (G : Ground) (r : Renaming) (sites : List Site) (i : FrameId) : Prop :=
  ∀ k site j, sites[k]? = some site → G.frames.ancestor? i k = some j →
    G.own.contains j = r.opens site

variable {G G' G'' : Ground} {r : Renaming} {sites : List Site} {i : FrameId}

namespace Grows

theorem refl (G : Ground) : G.Grows G :=
  ⟨.refl _, List.Subset.refl _, fun _ _ h => h, fun _ _ => rfl⟩

theorem trans (h : G.Grows G') (h' : G'.Grows G'') : G.Grows G'' where
  frames := h.frames.trans h'.frames
  events := List.Subset.trans h.events h'.events
  kept i name held := h'.kept i name (h.kept i name held)
  own i lt := (h'.own i (Nat.lt_of_lt_of_le lt h.frames.size_le)).trans (h.own i lt)

theorem ofKeeps {w w' : State} {own own' : List FrameId} (keeps : Keeps w w')
    (same : ∀ i < w.machine.frames.size, own'.contains i = own.contains i) :
    (of w own).Grows (of w' own') :=
  ⟨keeps.frames, keeps.events, keeps.kept, same⟩

end Grows

theorem ancestor?_le {frames : Frames} {j : FrameId} {k : Nat}
    (h : frames.ancestor? i k = some j) : j ≤ i := by
  induction k generalizing i with
  | zero =>
    cases h
    exact Nat.le_refl _
  | succ k ih =>
    unfold Frames.ancestor? at h
    split at h
    · rename_i parent outer
      exact Nat.le_trans (ih h) (Nat.le_of_lt (Frames.lt_of_parent? outer))
    · cases h

theorem Matches.mono (h : G.Matches r sites i) (grows : G.Grows G') (lt : i < G.frames.size) :
    G'.Matches r sites i := by
  intro k site j hsite hj
  rw [grows.frames.ancestor?_eq lt] at hj
  rw [grows.own j (Nat.lt_of_le_of_lt (ancestor?_le hj) lt)]
  exact h k site j hsite hj

/-- At the top level there are no sites. -/
theorem Matches.top : G.Matches r [] i := fun _ _ _ none => by cases none

/-- One more site has its frame. -/
theorem Matches.inner {site : Site} {parent : FrameId} (h : G.Matches r sites parent)
    (inside : G.frames.parent? i = some parent) (own : G.own.contains i = r.opens site) :
    G.Matches r (site :: sites) i := by
  intro k site' j hsite hj
  cases k with
  | zero =>
    cases hsite
    cases hj
    exact own
  | succ k =>
    rw [Frames.ancestor?_succ inside] at hj
    exact h k site' j hsite hj

/-- Nothing is renamed where no frame has the renamed declaration. -/
theorem Matches.off (none : G.own = []) : G.Matches .off sites i := by
  intro k site j _ _
  rw [none]
  rfl

end Ground

/-! ## The same values -/

/-- Where a function was declared, and how it is renamed. -/
structure Stands (S : Renaming) (G : Ground) (r : Renaming) (p : Place) (f : Closure) : Prop where
  lt : f.env < G.frames.size
  settled : p.Settled
  chain : Chain G.frames G.events (p.scopes.introduce f.name) p.sites f.env
  sees : ∀ μ ∈ Stmt.mentionsAll (p.inFunction f.name f.parameters f.body) f.body,
    S.Sees r G.events μ
  nodup : (f.parameters.map Token.lexeme).Nodup
  tidy : Stmt.TidyAll (p.inFunction f.name f.parameters f.body).scopes f.body
  matching : G.Matches r p.sites f.env
  parameters : ∀ t ∈ f.parameters, (r.declare t).lexeme =
    r.key (r.opens (.function f.name f.parameters f.body)) t.lexeme
  fits : Stmt.FitsAll r (r.opens (.function f.name f.parameters f.body)) f.body

section SameValue

variable (S : Renaming) (G : Ground)

/-- The function is the renamed one, or is from an earlier program. -/
def SameFunction (f f' : Closure) : Prop :=
  ∃ r p, S.Allows r ∧ Stands S G r p f ∧ f' = f.renamed r

/-- The values are the same but for the names in functions. -/
inductive SameValue : Value → Value → Prop where
  | plain {v : Value} (h : v.Plain) : SameValue v v
  | function {f f' : Closure} (same : SameFunction S G f f') :
    SameValue (.function f) (.function f')

/-- Two ways to end a statement that are the same. -/
inductive SameFlow : Flow → Flow → Prop where
  | normal : SameFlow .normal .normal
  | returned {v v' : Value} (same : SameValue S G v v') : SameFlow (.returned v) (.returned v')

end SameValue

variable {S : Renaming} {G G' : Ground} {r : Renaming} {p : Place} {f f' : Closure}
variable {v v' : Value}

theorem Stands.mono (h : Stands S G r p f) (grows : G.Grows G') : Stands S G' r p f where
  lt := Nat.lt_of_lt_of_le h.lt grows.frames.size_le
  settled := h.settled
  chain := h.chain.mono grows.frames grows.events grows.kept
  sees μ hμ := (h.sees μ hμ).mono grows.events
  nodup := h.nodup
  tidy := h.tidy
  matching := h.matching.mono grows h.lt
  parameters := h.parameters
  fits := h.fits

theorem Stands.placed (h : Stands S G r p f) : f.Placed G.frames G.events :=
  ⟨p, h.settled, h.chain, fun μ hμ => (h.sees μ hμ).begun, h.nodup, h.tidy⟩

/-- A function of an earlier program is the same if nothing is renamed yet. -/
theorem Stands.off (placed : f.Placed G.frames G.events) (rooted : globalFrame < G.frames.size)
    (none : G.own = [])
    (old : ∀ μ : Mention, μ.Begun G.events → S.premature.contains μ.id = false) :
    ∃ p, Stands S G .off p f := by
  obtain ⟨p, settled, chain, begun, nodup, tidy⟩ := placed
  exact ⟨p, chain.lt rooted, settled, chain, fun μ hμ => .off (begun μ hμ) (old μ (begun μ hμ)),
    nodup, tidy, .off none, by simp, Stmt.fitsAll_off _ _⟩

namespace SameValue

theorem mono (h : SameValue S G v v') (grows : G.Grows G') : SameValue S G' v v' := by
  cases h with
  | plain h => exact .plain h
  | function same =>
    obtain ⟨r, p, allows, stands, rfl⟩ := same
    exact .function ⟨r, p, allows, stands.mono grows, rfl⟩

theorem placed (h : SameValue S G v v') : v.Placed G.frames G.events := by
  cases h with
  | plain h => exact h.placed
  | function same =>
    obtain ⟨r, p, -, stands, rfl⟩ := same
    intro f hf
    cases hf
    exact stands.placed

/-- No operator tells them apart. -/
theorem alike (h : SameValue S G v v') : v.Alike v' := by
  cases h with
  | plain h => exact .same _
  | function same =>
    obtain ⟨r, p, -, -, rfl⟩ := same
    exact .function rfl rfl

theorem settledBy_eq (h : SameValue S G v v') (op : Connective) :
    op.settledBy v' = op.settledBy v := by
  cases op <;> simp [Connective.settledBy, h.alike.truthy_eq]

theorem ofLiteral (value : Literal) : SameValue S G (.ofLiteral value) (.ofLiteral value) :=
  .plain fun f h => by cases value <;> cases h

theorem nil : SameValue S G .nil .nil := .plain fun _ h => by cases h

/-- A value from earlier programs is the same if nothing is renamed yet. -/
theorem old (placed : v.Placed G.frames G.events) (rooted : globalFrame < G.frames.size)
    (none : G.own = [])
    (old : ∀ μ : Mention, μ.Begun G.events → S.premature.contains μ.id = false) :
    SameValue S G v v := by
  cases v with
  | function f =>
    obtain ⟨p, stands⟩ := Stands.off (placed f rfl) rooted none old
    exact .function ⟨.off, p, .inr rfl, stands, f.renamed_off.symm⟩
  | _ => exact .plain fun _ h => by cases h

end SameValue

theorem placed_of_same {vs vs' : List Value} (h : List.Forall₂ (SameValue S G) vs vs') :
    ∀ v ∈ vs, v.Placed G.frames G.events := by
  induction h with
  | nil => exact fun _ mem => by cases mem
  | cons same _ ih => exact List.forall_mem_cons.2 ⟨same.placed, ih⟩

/-- The arguments of a call are in its frame under the names of the parameters there. -/
theorem Stands.keyed_parameters {vs vs' : List Value} (h : Stands S G r p f)
    (same : List.Forall₂ (SameValue S G) vs vs') :
    (parameterBindings f.parameters vs).Keyed
      (r.key (r.opens (.function f.name f.parameters f.body))) (SameValue S G)
      (parameterBindings (f.parameters.map r.declare) vs') := by
  refine Bindings.rel_parameterBindings .nil (fun t mem _ _ _ _ keyed same => ?_) same
  rw [h.parameters t mem]
  exact keyed.insert (Renaming.key_injective _ _) t.lexeme same

/-- What a statement returns is placed. -/
theorem SameFlow.placed {flow flow' : Flow} (h : SameFlow S G flow flow') :
    ∀ v, flow = .returned v → v.Placed G.frames G.events := by
  intro v hv
  cases h with
  | normal => cases hv
  | returned same =>
    cases hv
    exact same.placed

theorem SameFlow.result {flow flow' : Flow} (h : SameFlow S G flow flow') :
    SameValue S G flow.result flow'.result := by
  cases h with
  | normal => exact .nil
  | returned same => exact same

/-! ## Related machines -/

/-- There are the same frames, which have the same parents, and the same variables under the names that
they have there. -/
structure SameFrames (S : Renaming) (G : Ground) (frames frames' : Frames) : Prop where
  size : frames'.size = frames.size
  parent?_eq : ∀ i, frames'.parent? i = frames.parent? i
  bindings : ∀ i, (frames.bindings i).Keyed (S.key (G.own.contains i)) (SameValue S G)
    (frames'.bindings i)

/-- The machines are the same but for the names in frames and functions. -/
structure Related (S : Renaming) (own : List FrameId) (w : State) (m : Machine) : Prop where
  frames : SameFrames S (.of w own) w.machine.frames m.frames
  current : m.current = w.machine.current
  locals : m.locals = w.machine.locals
  sink : m.sink = w.machine.sink
  depth : m.depth = w.machine.depth
  nextIdentity : m.nextIdentity = w.machine.nextIdentity
  own_lt : ∀ i ∈ own, i < w.machine.frames.size
  notGlobal : own.contains globalFrame = false

namespace SameFrames

variable {frames frames' : Frames} {i : FrameId} {name : String}

theorem mono (h : SameFrames S G frames frames') (grows : G.Grows G')
    (le : frames.size ≤ G.frames.size) : SameFrames S G' frames frames' where
  size := h.size
  parent?_eq := h.parent?_eq
  bindings i := by
    rcases Nat.lt_or_ge i frames.size with lt | ge
    · rw [grows.own i (Nat.lt_of_lt_of_le lt le)]
      exact (h.bindings i).imp fun _ _ same => same.mono grows
    · rw [Frames.bindings_eq_nil ge, Frames.bindings_eq_nil (h.size ▸ ge)]
      exact .nil

theorem holds_eq (h : SameFrames S G frames frames') (i : FrameId) (name : String) :
    (frames'.bindings i).holds (S.key (G.own.contains i) name) =
      (frames.bindings i).holds name :=
  (h.bindings i).holds name

theorem define (h : SameFrames S G frames frames') (i : FrameId) (name : String)
    (same : SameValue S G v v') :
    SameFrames S G (frames.define i name v)
      (frames'.define i (S.key (G.own.contains i) name) v') where
  size := by simp [h.size]
  parent?_eq j := by simpa using h.parent?_eq j
  bindings j := by
    rcases Nat.lt_or_ge i frames.size with lt | ge
    · rw [Frames.bindings_define lt, Frames.bindings_define (h.size ▸ lt)]
      split
      · rename_i here
        rw [here]
        exact (h.bindings i).insert (Renaming.key_injective _ _) name same
      · exact h.bindings j
    · rw [Frames.define_of_size_le ge, Frames.define_of_size_le (h.size ▸ ge)]
      exact h.bindings j

theorem push {bindings bindings' : Bindings} (h : SameFrames S G frames frames')
    (parent : FrameId)
    (same : bindings.Keyed (S.key (G.own.contains frames.size)) (SameValue S G) bindings') :
    SameFrames S G (frames.push parent bindings) (frames'.push parent bindings') where
  size := by simp [h.size]
  parent?_eq j := by rw [Frames.parent?_push, Frames.parent?_push, h.size, h.parent?_eq]
  bindings j := by
    rw [Frames.bindings_push, Frames.bindings_push, h.size]
    split
    · rename_i newest
      rw [newest]
      exact same
    · exact h.bindings j

end SameFrames

/-! ## The same place -/

/-- Both machines are at a place of a program, which on the second one is renamed as `r` says. -/
structure At (S : Renaming) (r : Renaming) (p : Place) (own : List FrameId) (w : State)
    (m : Machine) : Prop where
  allows : S.Allows r
  here : Here w p
  related : Related S own w m
  matching : (Ground.of w own).Matches r p.sites w.machine.current

namespace At

variable {own own' : List FrameId} {w w' : State} {m m' : Machine} {μ : Mention}

theorem lt (h : At S r p own w m) : w.machine.current < w.machine.frames.size :=
  h.here.chain.lt h.here.sane.rooted

/-- The current frame is kept, so that only the frames, and what is known there, are new. -/
theorem next {p' : Place} (h : At S r p own w m) (sites : p'.sites = p.sites) (keeps : Keeps w w')
    (same : ∀ i < w.machine.frames.size, own'.contains i = own.contains i) (here : Here w' p')
    (related : Related S own' w' m') : At S r p' own' w' m' where
  allows := h.allows
  here := here
  related := related
  matching := by
    rw [sites, keeps.current]
    exact h.matching.mono (.ofKeeps keeps same) h.lt

/-- The current frame has the renamed declaration if the innermost site has it. -/
theorem own_current (h : At S r p own w m) :
    own.contains w.machine.current = r.here p.sites := by
  have chain := h.here.chain
  have matching := h.matching
  generalize p.scopes = scopes, p.sites = sites, w.machine.current = i at chain matching
  cases chain with
  | top => exact h.related.notGlobal
  | inner => exact matching 0 _ _ rfl rfl

theorem key_current (h : At S r p own w m) (name : String) :
    S.key (own.contains w.machine.current) name = r.key (r.here p.sites) name := by
  have own_current := h.own_current
  generalize p.sites = sites at own_current
  cases sites with
  | nil => rw [own_current]; rfl
  | cons site sites => exact h.allows.key_eq own_current name

/-- A mention refers to the same frame on both machines, by the name that this has. -/
theorem holder?_eq (h : At S r μ.place own w m) (regular : μ.place.Regular)
    (sees : S.Sees r w.events μ) :
    m.holder? μ.id (r.mention μ.id μ.name).lexeme = w.machine.holder? μ.id μ.name.lexeme ∧
      ∀ j, w.machine.holder? μ.id μ.name.lexeme = some j →
        (r.mention μ.id μ.name).lexeme = S.key (own.contains j) μ.name.lexeme := by
  have known := h.here.sane.locals μ sees.begun
  cases hd : μ.distance? with
  | none =>
    have root := (h.related.frames.parent?_eq globalFrame).trans h.here.sane.root
    have holds := h.related.frames.holds_eq globalFrame μ.name.lexeme
    have kept : (r.mention μ.id μ.name).lexeme = μ.name.lexeme := by
      rw [sees.knows.lexeme, Renaming.binds, hd]
      rfl
    have notGlobal : (Ground.of w own).own.contains globalFrame = false := h.related.notGlobal
    rw [notGlobal, Renaming.key_false] at holds
    rw [h.here.holder?_global sees.begun hd, Machine.holder?, h.related.locals, known, hd, kept]
    simp only [Frames.holder?_root root, holds, true_and]
    intro j hj
    split at hj <;> cases hj
    rw [h.related.notGlobal, Renaming.key_false]
  | some distance =>
    obtain ⟨j, site, hj, hsite, -⟩ := h.here.frame regular hd
    have hj' : m.frames.ancestor? m.current distance = some j := by
      rw [h.related.current, Frames.ancestor?_congr h.related.frames.parent?_eq]
      exact hj
    have key : (r.mention μ.id μ.name).lexeme = S.key (own.contains j) μ.name.lexeme := by
      rw [sees.knows.lexeme, Renaming.binds, hd, Option.any_some, hsite, Option.any_some]
      exact (h.allows.key_eq (h.matching distance site j hsite hj) _).symm
    have holds : (m.frames.bindings j).holds (r.mention μ.id μ.name).lexeme =
        (w.machine.frames.bindings j).holds μ.name.lexeme := by
      rw [key]
      exact h.related.frames.holds_eq j μ.name.lexeme
    rw [h.here.holder?_eq sees.begun hd hj, Machine.holder?, h.related.locals, known, hd]
    simp only [Frames.holderAt?_eq hj', holds, true_and]
    intro j' hj'
    split at hj' <;> cases hj'
    exact key

/-- A mention that refers to no frame keeps its name, but in the initializer of its own variable it
has the name of this. -/
theorem unfound (h : At S r μ.place own w m) (regular : μ.place.Regular)
    (sees : S.Sees r w.events μ) (none : w.machine.holder? μ.id μ.name.lexeme = none) :
    (r.mention μ.id μ.name).lexeme = μ.name.lexeme ∨
      (∃ distance, μ.distance? = some distance) ∧ μ.Own ∧
        (r.mention μ.id μ.name).lexeme = r.key (r.here μ.place.sites) μ.name.lexeme := by
  rw [sees.knows.lexeme, Renaming.binds]
  cases hd : μ.distance? with
  | none => exact .inl rfl
  | some distance =>
    obtain ⟨j, site, hj, hsite, -, -, holds⟩ := h.here.frame regular hd
    rw [h.here.holder?_eq sees.begun hd hj] at none
    by_cases own : μ.Own
    · refine .inr ⟨⟨distance, rfl⟩, own, ?_⟩
      -- the variable is in the innermost scope
      have early := regular.own
      unfold Mention.distance? at hd
      generalize μ.place.scopes = scopes at early hd
      cases scopes with
      | nil => cases hd
      | cons scope outer =>
        rw [Scopes.distance?_cons, (early scope rfl _).2 own] at hd
        cases hd
        rw [Renaming.here, List.head?_eq_getElem?]
        rfl
    · rw [holds own] at none
      cases none

/-- So an assignment that fails does so under the same name, or is the exception. -/
theorem unfound_assigned (h : At S r μ.place own w m) (regular : μ.place.Regular)
    (sees : S.Sees r w.events μ) (assigns : μ.assigns = true) (target : r.Targets μ.place)
    (none : w.machine.holder? μ.id μ.name.lexeme = none) :
    (r.mention μ.id μ.name).lexeme =
      if S.premature.contains μ.id then S.name else μ.name.lexeme := by
  split
  · rename_i premature
    have renamed := (sees.premature.1 premature).1
    have ownProgram : r = S := h.allows.resolve_right fun off => by
      rw [off] at renamed
      cases renamed
    rw [Renaming.mention, if_pos renamed, ownProgram]
  · rename_i usual
    by_contra changed
    obtain ⟨⟨distance, hd⟩, ⟨t, initializing, same⟩, key⟩ :=
      (h.unfound regular sees none).resolve_left changed
    have inside : μ.place.scopes ≠ [] := by
      intro outside
      rw [Mention.distance?, outside] at hd
      cases hd
    rw [← same, ← target t initializing inside] at key
    have renamed : r.declaration = some t := by
      by_contra other
      rw [Renaming.declare, if_neg other, same] at key
      exact changed key
    have mentioned : r.mentions.contains μ.id = true := by
      by_contra other
      rw [Renaming.mention, if_neg other] at changed
      exact changed rfl
    exact usual (sees.premature.2 ⟨mentioned, assigns, initializing.trans renamed.symm⟩)

end At

end Renamed

end Lox
