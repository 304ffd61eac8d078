import Lox.Proofs.Lexical.Evaluation
import Lox.Proofs.Machine.Frames
import Lox.Proofs.Scope.Checked
import Lox.Proofs.Values

/-!
# Frames and cells

How a machine whose frames are addressed by distances and one whose cells are named by maps belong
together.

* `Layout` — which name in which frame each cell stands for.
* `Stands` — the scopes of a place, seen from a frame, mean the same as its surroundings.
* `SameClosure`, `SameValue` — functions are the same if they were declared at such a place.
* `Related` — the two machines: each cell has what its name has in its frame.
* `Related.lookup` — a mention means the same in both.
-/

namespace Lox

namespace Lexical

/-! ## Places -/

/-- For each cell the frame and the name in it that the cell stands for. -/
abbrev Layout := List (FrameId × String)

variable {frames frames' : Frames} {cells cells' : Layout} {scopes : Scopes} {env : Env}
variable {i : FrameId}

/-- Seen from the frame `i`, the scopes mean the same as the surroundings. At the top level there
are none of either. -/
structure Stands (frames : Frames) (cells : Layout) (scopes : Scopes) (env : Env)
    (i : FrameId) : Prop where
  lt : i < frames.size
  top : scopes = [] → env = .top ∧ i = globalFrame
  inner : scopes ≠ [] → env ≠ .top ∧ i ≠ globalFrame
  global : ∀ name, scopes.distance? name = none → env.names.lookup name = none
  bound : ∀ name distance, scopes.distance? name = some distance →
    ∃ j cell, frames.ancestor? i distance = some j ∧ env.names.lookup name = some cell ∧
      cells[cell]? = some (j, name)

theorem getElem?_of_prefix {α : Type} {l l' : List α} (h : l <+: l') {k : Nat} {a : α}
    (ha : l[k]? = some a) : l'[k]? = some a := by
  obtain ⟨rest, rfl⟩ := h
  exact (List.getElem?_append_left (List.getElem?_eq_some_iff.1 ha).1).trans ha

theorem Stands.mono (h : Stands frames cells scopes env i) (hf : frames.Extends frames')
    (hc : cells <+: cells') : Stands frames' cells' scopes env i where
  lt := Nat.lt_of_lt_of_le h.lt hf.size_le
  top := h.top
  inner := h.inner
  global := h.global
  bound name distance hd := by
    obtain ⟨j, cell, hj, hl, hcell⟩ := h.bound name distance hd
    exact ⟨j, cell, (hf.ancestor?_eq h.lt distance).trans hj, hl, getElem?_of_prefix hc hcell⟩

/-- A declared name means a new cell for it in the frame. -/
theorem Stands.extend {scope scope' : Scope} {outer : Scopes} {names : Names} {name : String}
    {ready : Bool} (h : Stands frames cells (scope :: outer) (.inner names) i)
    (marks : Scopes.Marks scope scope' name ready) :
    Stands frames (cells ++ [(i, name)]) (scope' :: outer)
      (.inner ((name, cells.length) :: names)) i where
  lt := h.lt
  top none := by cases none
  inner _ := ⟨by simp, (h.inner (by simp)).2⟩
  global other hd := by
    rw [marks.distance?] at hd
    by_cases same : other = name
    · simp [same] at hd
    · rw [if_neg same] at hd
      simpa [Env.names, List.lookup_cons, beq_eq_false_iff_ne.2 same] using h.global other hd
  bound other distance hd := by
    rw [marks.distance?] at hd
    by_cases same : other = name
    · rw [if_pos same] at hd
      cases hd
      exact ⟨i, cells.length, rfl, by simp [Env.names, same], by simp [same]⟩
    · rw [if_neg same] at hd
      obtain ⟨j, cell, hj, hl, hcell⟩ := h.bound other distance hd
      refine ⟨j, cell, hj, ?_, getElem?_of_prefix (List.prefix_append _ _) hcell⟩
      simpa [Env.names, List.lookup_cons, beq_eq_false_iff_ne.2 same] using hl

/-- In a new frame without variables all names mean what they mean around it. -/
theorem Stands.push (h : Stands frames cells scopes env i) :
    Stands (frames.push i []) cells ([] :: scopes) (.inner env.names) frames.size where
  lt := by simp
  top none := by cases none
  inner _ := ⟨by simp, Nat.ne_of_gt (Nat.lt_of_le_of_lt (Nat.zero_le i) h.lt)⟩
  global name hd := by
    rw [Scopes.distance?_open, Option.map_eq_none_iff] at hd
    exact h.global name hd
  bound name distance hd := by
    rw [Scopes.distance?_open, Option.map_eq_some_iff] at hd
    obtain ⟨distance, hd, rfl⟩ := hd
    obtain ⟨j, cell, hj, hl, hcell⟩ := h.bound name distance hd
    refine ⟨j, cell, ?_, hl, hcell⟩
    rw [Frames.ancestor?_succ (Frames.parent?_push_self h.lt)]
    exact ((Frames.Extends.push frames i []).ancestor?_eq h.lt distance).trans hj

/-! ## The same values -/

section SameValue

variable (known : Mention → Prop) (frames : Frames) (cells : Layout)

/-- The functions come from the same declaration, which stood at the same place. -/
structure SameClosure (f : Closure) (g : Closure Env) : Prop where
  identity : f.identity = g.identity
  name : f.name = g.name
  parameters : f.parameters = g.parameters
  body : f.body = g.body
  place : ∃ p : Place, Stands frames cells (p.scopes.introduce f.name) g.env f.env ∧
    (∀ μ ∈ Stmt.mentionsAll (p.inFunction f.name f.parameters f.body) f.body, known μ) ∧
    (f.parameters.map Token.lexeme).Nodup ∧
    Stmt.TidyAll (p.inFunction f.name f.parameters f.body).scopes f.body

/-- The values are the same but for the surroundings of functions, which belong together. -/
inductive SameValue : Value → Value Env → Prop where
  | nil : SameValue .nil .nil
  | bool (b : Bool) : SameValue (.bool b) (.bool b)
  | number (x : Number) : SameValue (.number x) (.number x)
  | string (s : String) : SameValue (.string s) (.string s)
  | function {f : Closure} {g : Closure Env} (same : SameClosure known frames cells f g) :
      SameValue (.function f) (.function g)

/-- Two ways to end a statement that are the same. -/
inductive SameFlow : Flow → Flow Env → Prop where
  | normal : SameFlow .normal .normal
  | returned {v : Value} {w : Value Env} (same : SameValue known frames cells v w) :
      SameFlow (.returned v) (.returned w)

end SameValue

variable {known known' : Mention → Prop} {v : Value} {w : Value Env}

theorem SameClosure.mono {f : Closure} {g : Closure Env} (h : SameClosure known frames cells f g)
    (hk : ∀ μ, known μ → known' μ) (hf : frames.Extends frames') (hc : cells <+: cells') :
    SameClosure known' frames' cells' f g := by
  obtain ⟨p, stands, mentions, rest⟩ := h.place
  exact ⟨h.identity, h.name, h.parameters, h.body, p, stands.mono hf hc,
    fun μ hμ => hk μ (mentions μ hμ), rest⟩

namespace SameValue

theorem mono_known (h : SameValue known frames cells v w) (hk : ∀ μ, known μ → known' μ)
    (hf : frames.Extends frames') (hc : cells <+: cells') :
    SameValue known' frames' cells' v w := by
  cases h with
  | nil => exact .nil
  | bool b => exact .bool b
  | number x => exact .number x
  | string s => exact .string s
  | function same => exact .function (same.mono hk hf hc)

theorem mono (h : SameValue known frames cells v w) (hf : frames.Extends frames')
    (hc : cells <+: cells') : SameValue known frames' cells' v w :=
  h.mono_known (fun _ hμ => hμ) hf hc

theorem forget_eq (h : SameValue known frames cells v w) : v.forget = w.forget := by
  cases h with
  | function same =>
    simp [Value.forget, same.identity, same.name, same.parameters, same.body]
  | _ => rfl

theorem of_forget (h : v.forget = w.forget) (plain : v.Plain) : SameValue known frames cells v w := by
  cases v with
  | function f => exact absurd rfl (plain f)
  | _ =>
    cases w <;> cases h
    constructor

theorem text_eq (h : SameValue known frames cells v w) : v.text = w.text := by
  rw [← v.text_forget, ← w.text_forget, h.forget_eq]

theorem truthy_eq (h : SameValue known frames cells v w) : v.truthy = w.truthy := by
  rw [← v.truthy_forget, ← w.truthy_forget, h.forget_eq]

theorem settledBy_eq (h : SameValue known frames cells v w) (op : Connective) :
    op.settledBy v = op.settledBy w := by
  cases op <;> simp [Connective.settledBy, h.truthy_eq]

theorem ofLiteral (value : Literal) :
    SameValue known frames cells (.ofLiteral value) (.ofLiteral value) := by
  cases value <;> constructor

end SameValue

/-- The results of an operation are the same, or the same error. -/
inductive SameResult (known : Mention → Prop) (frames : Frames) (cells : Layout) :
    Except RuntimeError.Cause Value → Except RuntimeError.Cause (Value Env) → Prop where
  | ok {v : Value} {w : Value Env} (same : SameValue known frames cells v w) :
      SameResult known frames cells (.ok v) (.ok w)
  | error (cause : RuntimeError.Cause) : SameResult known frames cells (.error cause) (.error cause)

theorem SameResult.of_forgets {r : Except RuntimeError.Cause Value}
    {r' : Except RuntimeError.Cause (Value Env)} {r'' : Except RuntimeError.Cause (Value Unit)}
    (h : Value.Forgets r r'') (h' : Value.Forgets r' r'') : SameResult known frames cells r r' := by
  have same := h.map_eq.trans h'.map_eq.symm
  cases r with
  | error cause =>
    cases r' with
    | error cause' => cases same; exact .error _
    | ok w => cases same
  | ok v =>
    cases r' with
    | error cause' => cases same
    | ok w => exact .ok (.of_forget (Except.ok.inj same) (h.plain v rfl))

theorem SameValue.binary {v' : Value} {w' : Value Env} (op : Token)
    (h : SameValue known frames cells v w) (h' : SameValue known frames cells v' w') :
    SameResult known frames cells (Value.binary op v v') (Value.binary op w w') := by
  refine .of_forgets (Value.forgets_binary op v v') ?_
  rw [h.forget_eq, h'.forget_eq]
  exact Value.forgets_binary op w w'

theorem SameValue.unary (op : Token) (h : SameValue known frames cells v w) :
    SameResult known frames cells (Value.unary op v) (Value.unary op w) := by
  refine .of_forgets (Value.forgets_unary op v) ?_
  rw [h.forget_eq]
  exact Value.forgets_unary op w

theorem SameFlow.result {flow : Flow} {flow' : Flow Env}
    (h : SameFlow known frames cells flow flow') :
    SameValue known frames cells flow.result flow'.result := by
  cases h with
  | normal => exact .nil
  | returned same => exact same

/-! ## Related machines -/

variable {m m' : Lox.Machine} {l l' : Machine}

/-- Each cell has what the name has that it stands for, the globals are the same, and so is whatever
else there is. -/
structure Related (known : Mention → Prop) (cells : Layout) (m : Lox.Machine)
    (l : Machine) : Prop where
  size : l.cells.size = cells.length
  nodup : cells.Nodup
  inner : ∀ b ∈ cells, b.1 ≠ globalFrame ∧ b.1 < m.frames.size
  content : ∀ cell i name, cells[cell]? = some (i, name) →
    Option.Rel (SameValue known m.frames cells) ((m.frames.bindings i).lookup name) (l.value? cell)
  covered : ∀ i name, i ≠ globalFrame → (m.frames.bindings i).holds name → (i, name) ∈ cells
  globals : List.Forall₂ (fun p q => p.1 = q.1 ∧ SameValue known m.frames cells p.2 q.2)
    (m.frames.bindings globalFrame) l.globals
  rooted : globalFrame < m.frames.size
  root : m.frames.parent? globalFrame = none
  sink : m.sink = l.sink
  depth : m.depth = l.depth
  nextIdentity : m.nextIdentity = l.nextIdentity
  locals : ∀ μ, known μ → m.locals[μ.id]? = μ.distance?

theorem rel_mono {v : Option Value} {w : Option (Value Env)}
    (h : Option.Rel (SameValue known frames cells) v w) (hk : ∀ μ, known μ → known' μ)
    (hf : frames.Extends frames') (hc : cells <+: cells') :
    Option.Rel (SameValue known' frames' cells') v w := by
  cases h with
  | none => exact .none
  | some same => exact .some (same.mono_known hk hf hc)

theorem globals_mono {bindings : Bindings} {globals : Bindings Env}
    (h : List.Forall₂ (fun p q => p.1 = q.1 ∧ SameValue known frames cells p.2 q.2) bindings globals)
    (hk : ∀ μ, known μ → known' μ) (hf : frames.Extends frames') (hc : cells <+: cells') :
    List.Forall₂ (fun p q => p.1 = q.1 ∧ SameValue known' frames' cells' p.2 q.2) bindings globals :=
  h.imp fun _ _ ⟨name, same⟩ => ⟨name, same.mono_known hk hf hc⟩

theorem value?_set (l : Machine) {cell : CellId} (lt : cell < l.cells.size) (w : Value Env)
    (other : CellId) :
    Machine.value? { l with cells := l.cells.setIfInBounds cell (some w) } other =
      if other = cell then some w else l.value? other := by
  unfold Machine.value?
  rw [Array.getElem?_setIfInBounds]
  by_cases h : other = cell
  · subst h
    simp [lt]
  · simp [h, Ne.symm h]

theorem value?_push (l : Machine) (other : CellId) :
    Machine.value? { l with cells := l.cells.push none } other = l.value? other := by
  unfold Machine.value?
  rw [Array.getElem?_push]
  split
  · rename_i h
    subst h
    simp
  · rfl

/-- The name means the binding of the frame `j`. -/
def Means (cells : Layout) (env : Env) (name : String) (j : FrameId) : Prop :=
  match env.names.lookup name with
  | none => j = globalFrame
  | some cell => cells[cell]? = some (j, name)

/-- A mention of the name means the same in both machines: nothing in either, or a binding that has
the same value in both. -/
def MeansSame (known : Mention → Prop) (cells : Layout) (m : Lox.Machine) (l : Machine) (env : Env)
    (id : RefId) (name : String) : Prop :=
  (m.holder? id name = none ∧ l.lookup env name = none) ∨
    ∃ j v w, m.holder? id name = some j ∧ (m.frames.bindings j).lookup name = some v ∧
      l.lookup env name = some w ∧ SameValue known m.frames cells v w ∧ Means cells env name j

theorem MeansSame.of_rel {j : FrameId} {id : RefId} {name : String}
    (holder : m.holder? id name = if (m.frames.bindings j).holds name then some j else none)
    (rel : Option.Rel (SameValue known m.frames cells) ((m.frames.bindings j).lookup name)
      (l.lookup env name))
    (means : Means cells env name j) : MeansSame known cells m l env id name := by
  unfold Bindings.holds at holder
  generalize hv : (m.frames.bindings j).lookup name = v at rel holder
  generalize hw : l.lookup env name = w at rel
  cases rel with
  | none => exact Or.inl ⟨by simpa using holder, hw⟩
  | some same => exact Or.inr ⟨j, _, _, by simpa using holder, hv, hw, same, means⟩

namespace Related

/-- A mention means the same in both machines. -/
theorem lookup {id : RefId} {name : Token} {assigns : Bool} {p : Place}
    (h : Related known cells m l) (stands : Stands m.frames cells p.scopes env m.current)
    (mention : known ⟨id, name, assigns, p⟩) : MeansSame known cells m l env id name.lexeme := by
  have entry : m.locals[id]? = p.scopes.distance? name.lexeme := h.locals _ mention
  cases hd : p.scopes.distance? name.lexeme with
  | none =>
    have global := stands.global _ hd
    refine .of_rel (j := globalFrame) ?_ ?_ ?_
    · rw [Lox.Machine.holder?, entry, hd]
      exact Frames.holder?_root h.root
    · rw [Machine.lookup, global]
      exact Bindings.Rel.lookup h.globals _
    · rw [Means, global]
  | some distance =>
    obtain ⟨j, cell, hj, hl, hcell⟩ := stands.bound _ _ hd
    refine .of_rel (j := j) ?_ ?_ ?_
    · rw [Lox.Machine.holder?, entry, hd]
      exact Frames.holderAt?_eq hj
    · rw [Machine.lookup, hl]
      exact h.content _ _ _ hcell
    · rw [Means, hl]
      exact hcell

/-- A global gets the same value in both machines. -/
theorem fillGlobal (name : String) (h : Related known cells m l)
    (same : SameValue known m.frames cells v w) :
    Related known cells { m with frames := m.frames.define globalFrame name v }
      { l with globals := l.globals.insert name w } where
  size := h.size
  nodup := h.nodup
  inner b hb := by simpa using h.inner b hb
  content cell i other hcell := by
    have notGlobal := (h.inner _ (List.mem_of_getElem? hcell)).1
    rw [Frames.bindings_define_of_ne notGlobal]
    exact rel_mono (h.content cell i other hcell) (fun _ hμ => hμ) (.define _ _ _ _)
      List.prefix_rfl
  covered i other hi holds := by
    rw [Frames.bindings_define_of_ne hi] at holds
    exact h.covered i other hi holds
  globals := by
    rw [Frames.bindings_define_self h.rooted]
    exact Bindings.Rel.insert
      (globals_mono h.globals (fun _ hμ => hμ) (.define _ _ _ _) List.prefix_rfl)
      name (same.mono (.define _ _ _ _) List.prefix_rfl)
  rooted := by simpa using h.rooted
  root := by simpa using h.root
  sink := h.sink
  depth := h.depth
  nextIdentity := h.nextIdentity
  locals := h.locals

/-- In the frame of a cell, only the name that the cell stands for changes. -/
theorem lookup_define {cell other : CellId} {i j : FrameId} {name name' : String}
    (h : Related known cells m l) (stands : cells[cell]? = some (j, name))
    (stands' : cells[other]? = some (i, name')) (v : Value) :
    ((m.frames.define j name v).bindings i).lookup name' =
      if other = cell then some v else (m.frames.bindings i).lookup name' := by
  rw [Frames.bindings_define (h.inner _ (List.mem_of_getElem? stands)).2]
  by_cases sameCell : other = cell
  · subst sameCell
    cases stands.symm.trans stands'
    simp [Bindings.lookup_insert]
  · have differ : i = j → name' ≠ name := by
      rintro rfl rfl
      exact sameCell ((List.getElem?_inj (List.getElem?_eq_some_iff.1 stands').1 h.nodup).1
        (stands'.trans stands.symm))
    rw [if_neg sameCell]
    split
    · rename_i sameFrame
      rw [Bindings.lookup_insert, if_neg (differ sameFrame), sameFrame]
    · rfl

/-- A cell and the name that it stands for get the same value. -/
theorem fillCell {cell : CellId} {j : FrameId} {name : String} (h : Related known cells m l)
    (stands : cells[cell]? = some (j, name)) (same : SameValue known m.frames cells v w) :
    Related known cells { m with frames := m.frames.define j name v }
      { l with cells := l.cells.setIfInBounds cell (some w) } := by
  obtain ⟨notGlobal, lt⟩ := h.inner _ (List.mem_of_getElem? stands)
  have inBounds : cell < l.cells.size := by
    rw [h.size]
    exact (List.getElem?_eq_some_iff.1 stands).1
  exact {
    size := by simpa using h.size
    nodup := h.nodup
    inner := fun b hb => by simpa using h.inner b hb
    content := fun other i name' stands' => by
      rw [value?_set l inBounds, h.lookup_define stands stands' v]
      split
      · exact .some (same.mono (.define _ _ _ _) List.prefix_rfl)
      · exact rel_mono (h.content other i name' stands') (fun _ hμ => hμ) (.define _ _ _ _)
          List.prefix_rfl
    covered := fun i other hi holds => by
      rw [Frames.holds_define lt, Bool.or_eq_true, decide_eq_true_iff] at holds
      rcases holds with ⟨rfl, rfl⟩ | holds
      · exact List.mem_of_getElem? stands
      · exact h.covered i other hi holds
    globals := by
      rw [Frames.bindings_define_of_ne (Ne.symm notGlobal)]
      exact globals_mono h.globals (fun _ hμ => hμ) (.define _ _ _ _) List.prefix_rfl
    rooted := by simpa using h.rooted
    root := by simpa using h.root
    sink := h.sink
    depth := h.depth
    nextIdentity := h.nextIdentity
    locals := h.locals }

/-- The name gets the same value in both machines. -/
theorem fill {name : Token} {j : FrameId} (h : Related known cells m l)
    (means : Means cells env name.lexeme j) (same : SameValue known m.frames cells v w) :
    ∃ l', fill env name w l = .ok () l' ∧
      Related known cells { m with frames := m.frames.define j name.lexeme v } l' := by
  unfold Lexical.fill
  unfold Means at means
  split at means
  · rename_i global
    subst means
    rw [global]
    exact ⟨_, rfl, h.fillGlobal name.lexeme same⟩
  · rename_i cell hl
    rw [hl]
    exact ⟨_, rfl, h.fillCell means same⟩

/-- The current frame does not matter. What else there is besides variables has to be the same. -/
theorem same {m' : Lox.Machine} {l' : Machine} (h : Related known cells m l)
    (frames : m'.frames = m.frames) (locals : m'.locals = m.locals) (stored : l'.cells = l.cells)
    (globals : l'.globals = l.globals) (sink : m'.sink = l'.sink) (depth : m'.depth = l'.depth)
    (nextIdentity : m'.nextIdentity = l'.nextIdentity) : Related known cells m' l' where
  size := stored ▸ h.size
  nodup := h.nodup
  inner := frames ▸ h.inner
  content := by
    unfold Machine.value?
    rw [frames, stored]
    exact h.content
  covered := frames ▸ h.covered
  globals := frames ▸ globals ▸ h.globals
  rooted := frames ▸ h.rooted
  root := frames ▸ h.root
  sink := sink
  depth := depth
  nextIdentity := nextIdentity
  locals := locals ▸ h.locals

/-- What is known of later programs changes nothing. -/
theorem learn {locals : Std.HashMap RefId Nat} (h : Related known cells m l)
    (more : ∀ μ, known μ → known' μ) (entries : ∀ μ, known' μ → locals[μ.id]? = μ.distance?) :
    Related known' cells { m with locals := locals } l where
  size := h.size
  nodup := h.nodup
  inner := h.inner
  content cell i name hcell :=
    rel_mono (h.content cell i name hcell) more (.refl _) List.prefix_rfl
  covered := h.covered
  globals := globals_mono h.globals more (.refl _) List.prefix_rfl
  rooted := h.rooted
  root := h.root
  sink := h.sink
  depth := h.depth
  nextIdentity := h.nextIdentity
  locals := entries

/-- A new cell stands for a name that its frame does not hold yet. -/
theorem allocate {name : String} (h : Related known cells m l) (fresh : (i, name) ∉ cells)
    (notGlobal : i ≠ globalFrame) (lt : i < m.frames.size) :
    Related known (cells ++ [(i, name)]) m { l with cells := l.cells.push none } where
  size := by simp [h.size]
  nodup := by
    refine List.nodup_append.2 ⟨h.nodup, List.nodup_singleton _, ?_⟩
    rintro a ha b hb rfl
    rw [List.mem_singleton.1 hb] at ha
    exact fresh ha
  inner b hb := by
    rcases List.mem_append.1 hb with hb | hb
    · exact h.inner b hb
    · rw [List.mem_singleton.1 hb]
      exact ⟨notGlobal, lt⟩
  content cell j other hcell := by
    rw [value?_push]
    rcases Nat.lt_or_ge cell cells.length with old | new
    · rw [List.getElem?_append_left old] at hcell
      exact rel_mono (h.content cell j other hcell) (fun _ hμ => hμ) (.refl _) (List.prefix_append _ _)
    · rw [List.getElem?_append_right new] at hcell
      have none : l.value? cell = none := by
        unfold Machine.value?
        rw [Array.getElem?_eq_none (by rw [h.size]; exact new)]
        rfl
      have mem := List.mem_of_getElem? hcell
      cases List.mem_singleton.1 mem
      have unheld : (m.frames.bindings i).lookup name = Option.none := by
        cases held : (m.frames.bindings i).lookup name with
        | none => rfl
        | some v => exact absurd (h.covered i name notGlobal (by simp [Bindings.holds, held])) fresh
      rw [unheld, none]
      exact .none
  covered j other hj holds := List.mem_append_left _ (h.covered j other hj holds)
  globals := globals_mono h.globals (fun _ hμ => hμ) (.refl _) (List.prefix_append _ _)
  rooted := h.rooted
  root := h.root
  sink := h.sink
  depth := h.depth
  nextIdentity := h.nextIdentity
  locals := h.locals

/-- A new frame without variables needs no cells. -/
theorem push (h : Related known cells m l) (parent : FrameId) :
    Related known cells { m with frames := m.frames.push parent [] } l where
  size := h.size
  nodup := h.nodup
  inner b hb := by
    obtain ⟨notGlobal, lt⟩ := h.inner b hb
    exact ⟨notGlobal, by simpa using Nat.lt_succ_of_lt lt⟩
  content cell i name hcell := by
    have lt := (h.inner _ (List.mem_of_getElem? hcell)).2
    rw [Frames.bindings_push_of_ne (Nat.ne_of_lt lt)]
    exact rel_mono (h.content cell i name hcell) (fun _ hμ => hμ) (.push _ _ _) List.prefix_rfl
  covered i name hi holds := by
    by_cases new : i = m.frames.size
    · subst new
      rw [Frames.bindings_push_self] at holds
      cases holds
    · rw [Frames.bindings_push_of_ne new] at holds
      exact h.covered i name hi holds
  globals := by
    rw [Frames.bindings_push_of_ne (Nat.ne_of_lt h.rooted)]
    exact globals_mono h.globals (fun _ hμ => hμ) (.push _ _ _) List.prefix_rfl
  rooted := by simpa using Nat.lt_succ_of_lt h.rooted
  root := (Frames.parent?_push_of_lt h.rooted).trans h.root
  sink := h.sink
  depth := h.depth
  nextIdentity := h.nextIdentity
  locals := h.locals

end Related

end Lexical

end Lox
