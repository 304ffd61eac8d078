import Lox.Proofs.Machine.Frames
import Lox.Proofs.Machine.Watch
import Lox.Proofs.Scope.Names

/-!
# Scopes and frames

What the scopes of a place have to do with the frames that there are when evaluation comes to it.

* `Place.Settled` — all names around a place are ready; so it is wherever a statement stands.
* `Place.Regular` — all are but the variable in whose initializer the place is.
* `Chain` — from some frame outwards, there is one frame for each scope, made for what opened it.
* `Chain.at_distance` — so the frame at the distance of a name was made for the scope that has it.
-/

namespace Lox

/-- All names of the scope have their values. -/
def Scope.Ready (scope : Scope) : Prop := ∀ name, scope.lookup name ≠ some false

theorem Scopes.Marks.ready {scope scope' : Scope} {name : String}
    (h : Scopes.Marks scope scope' name true) (ready : scope.Ready) : Scope.Ready scope' := by
  intro other
  by_cases same : other = name
  · rw [same, h.self]
    simp
  · rw [h.others other same]
    exact ready other

namespace Place

variable {p : Place}

/-- All names around the place have their values. -/
structure Settled (p : Place) : Prop where
  initializing : p.initializing = none
  ready : ∀ scope ∈ p.scopes, Scope.Ready scope

/-- All names around the place have their values but the variable in whose initializer it stands,
which belongs to the innermost scope. -/
structure Regular (p : Place) : Prop where
  outer : ∀ scope ∈ p.scopes.tail, Scope.Ready scope
  own : ∀ scope ∈ p.scopes.head?, ∀ name,
    scope.lookup name = some false ↔ ∃ t, p.initializing = some t ∧ t.lexeme = name

theorem Settled.regular (h : p.Settled) : p.Regular where
  outer scope mem := h.ready scope (List.mem_of_mem_tail mem)
  own scope mem name := by
    have ready := h.ready scope (List.mem_of_mem_head? mem) name
    simp [ready, h.initializing]

theorem Settled.top : Settled .top := ⟨rfl, fun _ mem => by cases mem⟩

theorem Settled.inBlock (h : p.Settled) (body : List Stmt) : (p.inBlock body).Settled where
  initializing := rfl
  ready scope mem := by
    rcases List.mem_cons.1 mem with rfl | mem
    · intro name
      simp
    · exact h.ready scope mem

theorem Settled.introduce (h : p.Settled) (name : Token) :
    ∀ scope ∈ p.scopes.introduce name, Scope.Ready scope := by
  have ready := h.ready
  generalize p.scopes = scopes at ready ⊢
  cases scopes with
  | nil => exact ready
  | cons scope outer =>
    obtain ⟨scope', introduced, marks⟩ := Scopes.introduce_cons scope outer name
    rw [introduced]
    rw [List.forall_mem_cons] at ready ⊢
    exact ⟨marks.ready ready.1, ready.2⟩

theorem Settled.inFunction (h : p.Settled) (name : Token) (parameters : List Token)
    (body : List Stmt) : (p.inFunction name parameters body).Settled where
  initializing := rfl
  ready := by
    obtain ⟨scope', introduced, lookup⟩ := @Scopes.introduceAll_cons [] (p.scopes.introduce name) parameters
    show ∀ scope ∈ (Scopes.introduceAll ([] :: p.scopes.introduce name) parameters).2,
      Scope.Ready scope
    rw [introduced, List.forall_mem_cons]
    refine ⟨fun other => ?_, h.introduce name⟩
    rw [lookup]
    split <;> simp

theorem Settled.behind (h : p.Settled) (s : Stmt) : (p.behind s).Settled where
  initializing := h.initializing
  ready := by
    show ∀ scope ∈ p.scopes.behind s, Scope.Ready scope
    unfold Scopes.behind
    split
    · exact h.introduce _
    · exact h.ready

theorem Settled.inInitializer (h : p.Settled) {name : Token}
    (untaken : p.scopes.taken name.lexeme = false) : (p.inInitializer name).Regular := by
  have ready := h.ready
  unfold Place.inInitializer
  generalize p.scopes = scopes at ready untaken ⊢
  cases scopes with
  | nil => exact ⟨fun _ mem => (by cases mem), fun _ mem => (by cases mem)⟩
  | cons scope outer =>
    obtain ⟨scope', declared, marks⟩ := Scopes.declare_cons untaken
    rw [List.forall_mem_cons] at ready
    rw [declared]
    refine ⟨ready.2, fun _ mem other => ?_⟩
    cases mem
    by_cases same : other = name.lexeme
    · simp [same, marks.self]
    · rw [marks.others other same]
      simp [ready.1 other, Ne.symm same]

end Place

variable {frames frames' : Frames} {events events' : List Event} {scopes : Scopes}
variable {sites : List Site} {i : FrameId}

/-- From the frame `i` outwards there is one frame for each scope. It was made for what opened the
scope, and holds the names that are ready there. The global frame is around all of them. -/
inductive Chain (frames : Frames) (events : List Event) : Scopes → List Site → FrameId → Prop where
  | top : Chain frames events [] [] globalFrame
  | inner {scope : Scope} {outer : Scopes} {site : Site} {sites : List Site} {i parent : FrameId}
      (made : .entered site i ∈ events) (inside : frames.parent? i = some parent)
      (holds : ∀ name, scope.lookup name = some true → (frames.bindings i).holds name = true)
      (around : Chain frames events outer sites parent) :
      Chain frames events (scope :: outer) (site :: sites) i

namespace Chain

theorem lt (h : Chain frames events scopes sites i) (rooted : globalFrame < frames.size) :
    i < frames.size := by
  cases h with
  | top => exact rooted
  | inner _ inside _ _ => exact Frames.lt_size_of_parent? inside

theorem mono (h : Chain frames events scopes sites i) (ext : frames.Extends frames')
    (more : events ⊆ events')
    (kept : ∀ i name, (frames.bindings i).holds name = true →
      (frames'.bindings i).holds name = true) :
    Chain frames' events' scopes sites i := by
  induction h with
  | top => exact .top
  | inner made inside holds around ih =>
    refine .inner (more made) ?_ (fun name ready => kept _ name (holds name ready)) ih
    rw [ext.parent?_eq _ (Frames.lt_size_of_parent? inside)]
    exact inside

/-- A name may get into the innermost scope, but ready only if the frame holds it. -/
theorem gets {scopes' : Scopes} {name : String} {ready : Bool}
    (h : Chain frames events scopes sites i) (gets : Scopes.Gets scopes scopes' name ready)
    (held : ready = true → (frames.bindings i).holds name = true) :
    Chain frames events scopes' sites i := by
  cases h with
  | top =>
    cases gets
    exact .top
  | inner made inside holds around =>
    obtain ⟨scope', rfl, marks⟩ := gets
    refine .inner made inside (fun other isReady => ?_) around
    by_cases same : other = name
    · subst same
      rw [marks.self] at isReady
      exact held (Option.some.inj isReady)
    · rw [marks.others other same] at isReady
      exact holds other isReady

/-- Outwards from the frame there are the frames of all scopes. -/
theorem outwards {k : Nat} {site : Site} (h : Chain frames events scopes sites i)
    (hk : sites[k]? = some site) :
    ∃ j, frames.ancestor? i k = some j ∧ Event.entered site j ∈ events := by
  induction h generalizing k with
  | top => cases hk
  | @inner _ _ site' sites i parent made inside _ _ ih =>
    cases k with
    | zero =>
      cases hk
      exact ⟨i, rfl, made⟩
    | succ k =>
      rw [Frames.ancestor?_succ inside]
      exact ih hk

/-- Behind all of them there is the global frame. -/
theorem root (h : Chain frames events scopes sites i) :
    frames.ancestor? i sites.length = some globalFrame := by
  induction h with
  | top => rfl
  | inner _ inside _ _ ih =>
    rw [List.length_cons, Frames.ancestor?_succ inside]
    exact ih

/-- The frame at the distance of a name was made for what opened the scope that has the name. -/
theorem at_distance {name : String} {distance : Nat} (h : Chain frames events scopes sites i)
    (hd : scopes.distance? name = some distance) :
    ∃ j site scope, frames.ancestor? i distance = some j ∧ sites[distance]? = some site ∧
      Event.entered site j ∈ events ∧ scopes[distance]? = some scope ∧
      (scope.lookup name).isSome = true ∧
      (scope.lookup name = some true → (frames.bindings j).holds name = true) := by
  induction h generalizing distance with
  | top => cases hd
  | @inner scope outer site sites i parent made inside holds around ih =>
    rw [Scopes.distance?_cons] at hd
    by_cases own : (scope.lookup name).isSome = true
    · rw [if_pos own] at hd
      cases hd
      exact ⟨i, site, scope, rfl, rfl, made, rfl, own, holds name⟩
    · rw [if_neg own, Option.map_eq_some_iff] at hd
      obtain ⟨distance, hd, rfl⟩ := hd
      rw [Frames.ancestor?_succ inside, List.getElem?_cons_succ, List.getElem?_cons_succ]
      exact ih hd

end Chain

end Lox
