import Lox.Proofs.Scope.Chains
import Lox.Proofs.Values

/-!
# Where mentions lead

What it means that a mention leads to the frame of its declaration, and what must be so of a machine
for all mentions to do so.

* `Mention.Lands` — the frame at the distance of a mention was made for the scope of its name.
* `Mention.Reads`, `Mention.Writes` — what reading and assigning come to there.
* `Event.Fine` — if it is an event at a mention, that leads to where it should.
* `Closure.Placed`, `Value.Placed` — functions belong to frames that fit where they were declared.
* `Watch.Sane` — all values are placed and all events so far fine.
* `Watch.Keeps` — what a part of a run leaves as it is.
* `Watch.Here` — the current frame fits a place.
-/

namespace Lox

namespace Mention

/-- The machine knows the distance of the mention, and the frame so many steps outwards was made for
what opened the scope in which the name was found. In fact the frames outwards are just those of the
scopes around the mention, with the global one behind them. -/
structure Lands (μ : Mention) (events : List Event) (m : Machine) : Prop where
  entry : m.locals[μ.id]? = μ.distance?
  frame : ∀ distance, μ.distance? = some distance → ∃ j site,
    m.frames.ancestor? m.current distance = some j ∧ μ.place.sites[distance]? = some site ∧
      Event.entered site j ∈ events
  outwards : ∀ k site, μ.place.sites[k]? = some site → ∃ j,
    m.frames.ancestor? m.current k = some j ∧ Event.entered site j ∈ events
  root : m.frames.ancestor? m.current μ.place.sites.length = some globalFrame

/-- The mention stands in the initializer of a variable of its name. -/
def Own (μ : Mention) : Prop := ∃ t, μ.place.initializing = some t ∧ t.lexeme = μ.name.lexeme

/-- Reading gives the value that the name has in the frame at its distance. It has one there. A name
without a distance is read from the global frame, if it is there. -/
def Reads (μ : Mention) (m : Machine) : Prop :=
  match μ.distance? with
  | some distance => ∃ j v, m.frames.ancestor? m.current distance = some j ∧
      (m.frames.bindings j).lookup μ.name.lexeme = some v ∧ Eval.read μ.id μ.name m = .ok v m
  | none => Eval.read μ.id μ.name m =
      match (m.frames.bindings globalFrame).lookup μ.name.lexeme with
      | some v => .ok v m
      | none => Eval.fail μ.name.line (.undefinedVariable μ.name.lexeme) m

/-- Assigning changes the name in the frame at its distance, where it is already, but fails in the
initializer of the very variable. A name without a distance is assigned in the global frame, if it
is there. -/
def Writes (μ : Mention) (v : Value) (m : Machine) : Prop :=
  match μ.distance? with
  | some distance =>
    (μ.Own → Eval.write μ.id μ.name v m =
      Eval.fail μ.name.line (.undefinedVariable μ.name.lexeme) m) ∧
    (¬μ.Own → ∃ j, m.frames.ancestor? m.current distance = some j ∧
      (m.frames.bindings j).holds μ.name.lexeme = true ∧
      Eval.write μ.id μ.name v m = .ok () { m with frames := m.frames.define j μ.name.lexeme v })
  | none => Eval.write μ.id μ.name v m =
      if (m.frames.bindings globalFrame).holds μ.name.lexeme then
        .ok () { m with frames := m.frames.define globalFrame μ.name.lexeme v }
      else Eval.fail μ.name.line (.undefinedVariable μ.name.lexeme) m

/-- The mention stands in a program that has begun to run. -/
def Begun (events : List Event) (μ : Mention) : Prop :=
  ∃ program, .began program ∈ events ∧ μ ∈ programMentions program

end Mention

/-- If evaluation has come to a mention, it is one of a program that runs or has run, and leads to
where it should, considering what happened before. -/
def Event.Fine (earlier : List Event) : Event → Prop
  | .began _ => True
  | .entered _ _ => True
  | .reached id name assigns m => ∃ μ : Mention, μ.Begun earlier ∧ μ.id = id ∧ μ.name = name ∧
      μ.assigns = assigns ∧ μ.Lands earlier m ∧ (assigns = false → μ.Reads m)
  | .assigning id name v m => ∃ μ : Mention, μ.Begun earlier ∧ μ.id = id ∧ μ.name = name ∧
      μ.assigns = true ∧ μ.Lands earlier m ∧ μ.Writes v m

/-- All events are fine, the last one coming first. -/
def Event.FineAll : List Event → Prop
  | [] => True
  | e :: earlier => e.Fine earlier ∧ FineAll earlier

variable {frames frames' : Frames} {events events' : List Event}

theorem Mention.Begun.mono {μ : Mention} (h : μ.Begun events) (more : events ⊆ events') :
    μ.Begun events' := by
  obtain ⟨program, began, mem⟩ := h
  exact ⟨program, more began, mem⟩

/-- Only the beginning of a program makes more mentions known. -/
theorem Mention.begun_cons {μ : Mention} {e : Event} (other : ∀ program, e ≠ .began program) :
    μ.Begun (e :: events) ↔ μ.Begun events := by
  refine ⟨fun ⟨program, began, mem⟩ => ?_, fun h => h.mono (List.subset_cons_self _ _)⟩
  rcases List.mem_cons.1 began with same | began
  · exact absurd same.symm (other program)
  · exact ⟨program, began, mem⟩

/-! ## Functions -/

/-- The function was declared at a place around which there are the frames that it goes on from. -/
def Closure.Placed (frames : Frames) (events : List Event) (f : Closure) : Prop :=
  ∃ p : Place, p.Settled ∧ Chain frames events (p.scopes.introduce f.name) p.sites f.env ∧
    (∀ μ ∈ Stmt.mentionsAll (p.inFunction f.name f.parameters f.body) f.body, μ.Begun events) ∧
    (f.parameters.map Token.lexeme).Nodup ∧
    Stmt.TidyAll (p.inFunction f.name f.parameters f.body).scopes f.body

/-- If the value is a function, it is placed. -/
def Value.Placed (frames : Frames) (events : List Event) (v : Value) : Prop :=
  ∀ f, v = .function f → f.Placed frames events

theorem Value.Plain.placed {v : Value} (h : v.Plain) : v.Placed frames events :=
  fun f hf => absurd hf (h f)

theorem Value.Placed.mono {v : Value} (h : v.Placed frames events) (ext : frames.Extends frames')
    (more : events ⊆ events')
    (kept : ∀ i name, (frames.bindings i).holds name = true →
      (frames'.bindings i).holds name = true) : v.Placed frames' events' := by
  intro f hf
  obtain ⟨p, settled, chain, mentions, rest⟩ := h f hf
  exact ⟨p, settled, chain.mono ext more kept, fun μ hμ => (mentions μ hμ).mono more, rest⟩

namespace Watch

variable {w w' w'' : State} {p : Place} {α β : Type}

/-- All values are placed and all events so far fine. Frames are made once each. -/
structure Sane (w : State) : Prop where
  rooted : globalFrame < w.machine.frames.size
  root : w.machine.frames.parent? globalFrame = none
  made : ∀ site i, .entered site i ∈ w.events → i ≠ globalFrame ∧ i < w.machine.frames.size
  once : ∀ site site' i, .entered site i ∈ w.events → .entered site' i ∈ w.events → site = site'
  values : ∀ i name v, (w.machine.frames.bindings i).lookup name = some v →
    v.Placed w.machine.frames w.events
  locals : ∀ μ : Mention, μ.Begun w.events → w.machine.locals[μ.id]? = μ.distance?
  inTime : ∀ μ : Mention, μ.Begun w.events → μ.assigns = false → μ.early = false
  fine : Event.FineAll w.events

/-- What a part of a run leaves as it is: the current frame, the distances, the frames around
frames, and their names, though the current frame may get more. No program begins. -/
structure Keeps (w w' : State) : Prop where
  current : w'.machine.current = w.machine.current
  locals : w'.machine.locals = w.machine.locals
  frames : w.machine.frames.Extends w'.machine.frames
  events : w.events ⊆ w'.events
  kept : ∀ i name, (w.machine.frames.bindings i).holds name = true →
    (w'.machine.frames.bindings i).holds name = true
  others : ∀ i < w.machine.frames.size, i ≠ w.machine.current → ∀ name,
    (w'.machine.frames.bindings i).holds name = true →
      (w.machine.frames.bindings i).holds name = true
  begun : ∀ μ : Mention, μ.Begun w'.events → μ.Begun w.events

/-- The current frame fits the place, and holds just those names of the innermost scope that are
ready. -/
structure Here (w : State) (p : Place) : Prop where
  sane : Sane w
  chain : Chain w.machine.frames w.events p.scopes p.sites w.machine.current
  exact : ∀ scope ∈ p.scopes.head?, ∀ name,
    (w.machine.frames.bindings w.machine.current).holds name = true ↔ scope.lookup name = some true

namespace Keeps

theorem refl (w : State) : Keeps w w :=
  ⟨rfl, rfl, .refl _, List.Subset.refl _, fun _ _ h => h, fun _ _ _ _ h => h, fun _ h => h⟩

theorem trans (h : Keeps w w') (h' : Keeps w' w'') : Keeps w w'' where
  current := h'.current.trans h.current
  locals := h'.locals.trans h.locals
  frames := h.frames.trans h'.frames
  events := List.Subset.trans h.events h'.events
  kept i name held := h'.kept i name (h.kept i name held)
  others i lt other name held := by
    refine h.others i lt other name (h'.others i ?_ ?_ name held)
    · exact Nat.lt_of_lt_of_le lt h.frames.size_le
    · rwa [h.current]
  begun μ begun := h.begun μ (h'.begun μ begun)

theorem placed {v : Value} (h : Keeps w w') (placed : v.Placed w.machine.frames w.events) :
    v.Placed w'.machine.frames w'.events :=
  placed.mono h.frames h.events h.kept

/-- Noting something down keeps everything. -/
theorem noting (w : State) {e : Event} (noProgram : ∀ program, e ≠ .began program) :
    Keeps w ⟨w.machine, e :: w.events⟩ :=
  ⟨rfl, rfl, .refl _, List.subset_cons_self _ _, fun _ _ h => h, fun _ _ _ _ h => h,
    fun _ => (Mention.begun_cons noProgram).1⟩

/-- A name gets a value in the current frame, or where it has one already. -/
theorem giving {i : FrameId} {name : String} {v : Value} (lt : i < w.machine.frames.size)
    (allowed : i = w.machine.current ∨ (w.machine.frames.bindings i).holds name = true) :
    Keeps w ⟨{ w.machine with frames := w.machine.frames.define i name v }, w.events⟩ where
  current := rfl
  locals := rfl
  frames := .define _ _ _ _
  events := List.Subset.refl _
  kept j other held := by
    show ((w.machine.frames.define i name v).bindings j).holds other = true
    rw [Frames.holds_define lt, held, Bool.or_true]
  others j _ notCurrent other held := by
    have new : ((w.machine.frames.define i name v).bindings j).holds other = true := held
    rw [Frames.holds_define lt] at new
    rcases Bool.or_eq_true_iff.1 new with same | old
    · obtain ⟨rfl, rfl⟩ := of_decide_eq_true same
      exact allowed.resolve_left notCurrent
    · exact old
  begun _ h := h

end Keeps

/-! ## Mentions -/

namespace Here

variable {μ : Mention}

/-- The frame at the distance of a mention holds its name, unless the value of the name is just
being worked out. -/
theorem frame {distance : Nat} (h : Here w μ.place) (regular : μ.place.Regular)
    (hd : μ.distance? = some distance) :
    ∃ j site, w.machine.frames.ancestor? w.machine.current distance = some j ∧
      μ.place.sites[distance]? = some site ∧ Event.entered site j ∈ w.events ∧
      (μ.Own → (w.machine.frames.bindings j).holds μ.name.lexeme = false) ∧
      (¬μ.Own → (w.machine.frames.bindings j).holds μ.name.lexeme = true) := by
  obtain ⟨j, site, scope, hj, hsite, made, hscope, found, holds⟩ := h.chain.at_distance hd
  have outer := regular.outer
  have own := regular.own
  have exact := h.exact
  have first : μ.place.scopes.distance? μ.name.lexeme = some distance := hd
  generalize μ.place.scopes = scopes at outer own exact hscope first
  refine ⟨j, site, hj, hsite, made, fun isOwn => ?_, fun notOwn => ?_⟩
  · cases scopes with
    | nil => cases first
    | cons innermost rest =>
      have early : innermost.lookup μ.name.lexeme = some false := (own innermost rfl _).2 isOwn
      rw [Scopes.distance?_cons, if_pos (by rw [early]; rfl)] at first
      cases first
      cases hj
      have unheld := mt (exact innermost rfl μ.name.lexeme).1 (by rw [early]; simp)
      exact Bool.eq_false_iff.2 unheld
  · apply holds
    have ready : scope.lookup μ.name.lexeme ≠ some false := by
      cases distance with
      | zero =>
        intro early
        have innermost : scopes.head? = some scope := by rw [List.head?_eq_getElem?, hscope]
        exact notOwn ((own scope innermost _).1 early)
      | succ distance =>
        have mem : scope ∈ scopes.tail := by
          apply List.mem_of_getElem? (i := distance)
          rw [List.getElem?_tail]
          exact hscope
        exact outer scope mem _
    obtain ⟨b, hb⟩ := Option.isSome_iff_exists.1 found
    cases b with
    | true => exact hb
    | false => exact absurd hb ready

theorem lands (h : Here w μ.place) (regular : μ.place.Regular) (begun : μ.Begun w.events) :
    μ.Lands w.events w.machine where
  entry := h.sane.locals μ begun
  frame distance hd := by
    obtain ⟨j, site, hj, hsite, made, -⟩ := h.frame regular hd
    exact ⟨j, site, hj, hsite, made⟩
  outwards _ _ hk := h.chain.outwards hk
  root := h.chain.root

/-- What is read is not just being worked out. -/
theorem not_own {distance : Nat} (h : Here w μ.place) (regular : μ.place.Regular)
    (begun : μ.Begun w.events) (reads : μ.assigns = false) (hd : μ.distance? = some distance) :
    ¬μ.Own := by
  intro isOwn
  have inTime := h.sane.inTime μ begun reads
  have own := regular.own
  unfold Mention.early at inTime
  unfold Mention.distance? at hd
  generalize μ.place.scopes = scopes at inTime own hd
  cases scopes with
  | nil => cases hd
  | cons innermost rest =>
    have early : innermost.lookup μ.name.lexeme = some false := (own innermost rfl _).2 isOwn
    rw [Scopes.initializing, early] at inTime
    cases inTime

theorem holder?_eq {distance : Nat} {j : FrameId} (h : Here w μ.place) (begun : μ.Begun w.events)
    (hd : μ.distance? = some distance)
    (hj : w.machine.frames.ancestor? w.machine.current distance = some j) :
    w.machine.holder? μ.id μ.name.lexeme =
      if (w.machine.frames.bindings j).holds μ.name.lexeme then some j else none := by
  rw [Machine.holder?, h.sane.locals μ begun, hd]
  exact Frames.holderAt?_eq hj

theorem holder?_global (h : Here w μ.place) (begun : μ.Begun w.events) (hd : μ.distance? = none) :
    w.machine.holder? μ.id μ.name.lexeme =
      if (w.machine.frames.bindings globalFrame).holds μ.name.lexeme then some globalFrame
      else none := by
  rw [Machine.holder?, h.sane.locals μ begun, hd]
  exact Frames.holder?_root h.sane.root

theorem reads (h : Here w μ.place) (regular : μ.place.Regular) (begun : μ.Begun w.events)
    (reads : μ.assigns = false) : μ.Reads w.machine := by
  unfold Mention.Reads
  cases hd : μ.distance? with
  | none =>
    show Eval.read μ.id μ.name w.machine = _
    rw [Eval.read, h.holder?_global begun hd]
    cases hv : (w.machine.frames.bindings globalFrame).lookup μ.name.lexeme with
    | none => simp [Bindings.holds, hv]
    | some v => simp [Bindings.holds, hv]
  | some distance =>
    obtain ⟨j, site, hj, -, -, -, holds⟩ := h.frame regular hd
    have held := holds (h.not_own regular begun reads hd)
    obtain ⟨v, hv⟩ := Option.isSome_iff_exists.1 held
    refine ⟨j, v, hj, hv, ?_⟩
    rw [Eval.read, h.holder?_eq begun hd hj, held]
    simp [hv]

theorem writes (h : Here w μ.place) (regular : μ.place.Regular) (begun : μ.Begun w.events)
    (v : Value) : μ.Writes v w.machine := by
  unfold Mention.Writes
  cases hd : μ.distance? with
  | none =>
    show Eval.write μ.id μ.name v w.machine = _
    rw [Eval.write, h.holder?_global begun hd]
    cases (w.machine.frames.bindings globalFrame).holds μ.name.lexeme <;> rfl
  | some distance =>
    obtain ⟨j, site, hj, -, -, unheld, holds⟩ := h.frame regular hd
    refine ⟨fun own => ?_, fun notOwn => ⟨j, hj, holds notOwn, ?_⟩⟩
    · rw [Eval.write, h.holder?_eq begun hd hj, unheld own]
      rfl
    · rw [Eval.write, h.holder?_eq begun hd hj, holds notOwn]
      rfl

end Here

end Watch

end Lox
