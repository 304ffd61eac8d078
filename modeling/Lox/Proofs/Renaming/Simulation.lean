import Lox.Proofs.Renaming.Steps
import Lox.Proofs.Scope.Agreement

/-!
# Whatever runs under another name

Expressions, statements and calls end the same way on two machines of which the second one runs a
program under another name.

* `Invokes` — two ways to run the body of a function do so.
* `Expr.agree`, `Stmt.agree` — then so do expressions and statements.
* `invokes` — with the same fuel, calls do.
* `agree_runProgram` — and so do programs.
-/

namespace Lox.Renamed

open Watch (State Sane Here silently entering)

variable {S : Renaming} {own : List FrameId} {w : State} {m : Machine} {r : Renaming} {p : Place}

/-- The two ways to run the body of a function agree. -/
def Invokes (S : Renaming) (J : Watch.Invoke) (I : Lox.Invoke) : Prop :=
  ∀ {r : Renaming} {p : Place} {own : List FrameId} {f f' : Closure} {vs vs' : List Value} {w : State}
    {m : Machine}, At S r p own w m → SameFunction S (.of w own) f f' →
    List.Forall₂ (SameValue S (.of w own)) vs vs' → vs.length = f.parameters.length →
    Agree S own w (Here · p) (SameValue S) (J f vs w) (I f' vs' m)

variable {J : Watch.Invoke} {I : Lox.Invoke}

/-- Functions have as many parameters as before. -/
theorem At.call (inv : Invokes S J I) (h : At S r p own w m) (closing : Token) {f f' : Closure}
    {vs vs' : List Value} (same : SameFunction S (.of w own) f f')
    (sameAll : List.Forall₂ (SameValue S (.of w own)) vs vs') :
    Agree S own w (Here · p) (SameValue S) (Watch.call J closing f vs w)
      (Eval.call I closing f' vs' m) := by
  have parameters : f'.parameters.length = f.parameters.length := by
    obtain ⟨r', q, -, -, rfl⟩ := same
    exact f.length_parameters_renamed r'
  unfold Watch.call Eval.call
  rw [parameters, ← sameAll.length_eq]
  by_cases count : vs.length = f.parameters.length
  · rw [if_neg (not_not_intro count), if_neg (not_not_intro count)]
    show Agree S own w _ _ ((if maxCalls ≤ w.machine.depth then _ else _ : Watch Value) w)
      ((if maxCalls ≤ m.depth then _ else _ : Eval Value) m)
    rw [h.related.depth]
    split
    · exact h.fail closing.line (by rintro _ ⟨⟩)
    · exact h.duringCall (inv h.deeper same sameAll count)
  · rw [if_pos count, if_pos count]
    exact h.fail closing.line (by rintro _ ⟨⟩)

/-- What is known of mentions stays so. -/
theorem sees_mono {μs : List Mention} {own' : List FrameId} {w' : State}
    (grows : (Ground.of w own).Grows (.of w' own')) (sees : ∀ μ ∈ μs, S.Sees r w.events μ) :
    ∀ μ ∈ μs, S.Sees r w'.events μ := fun μ hμ => (sees μ hμ).mono grows.events

mutual

/-- An expression has the same value under the other name, or halts for the same reason. -/
theorem Expr.agree (inv : Invokes S J I) {r : Renaming} {p : Place} (regular : p.Regular)
    (target : r.Targets p) : ∀ (e : Expr) {own : List FrameId} {w : State} {m : Machine},
    (∀ μ ∈ e.mentions p, S.Sees r w.events μ) → At S r p own w m →
    Agree S own w (Here · p) (SameValue S) (Watch.evaluate J e w) ((e.renamed r).evaluate I m)
  | .literal value, own, w, m, _, h => by
    rw [Watch.evaluate, Expr.renamed, Expr.evaluate]
    exact h.pure (.ofLiteral value)
  | .grouping inner, own, w, m, sees, h => by
    rw [Watch.evaluate, Expr.renamed, Expr.evaluate]
    exact Expr.agree inv regular target inner sees h
  | .unary op right, own, w, m, sees, h => by
    rw [Watch.evaluate, Expr.renamed, Expr.evaluate]
    refine h.bind (Expr.agree inv regular target right sees h) rfl ?_
    intro v v' own₁ w₁ m₁ _ h₁ same
    have result : Value.unary op v' = Value.unary op v :=
      Value.Alike.unary_eq rfl rfl same.alike
    rw [result]
    exact h₁.orFail op.line (Value.forgets_unary op v).plain (Value.unary_ne_undefined op v)
  | .binary left op right, own, w, m, sees, h => by
    obtain ⟨inLeft, inRight⟩ := List.forall_mem_append.1 sees
    rw [Watch.evaluate, Expr.renamed, Expr.evaluate]
    refine h.bind (Expr.agree inv regular target left inLeft h) rfl ?_
    intro a a' own₁ w₁ m₁ grows₁ h₁ same₁
    refine h₁.bind (Expr.agree inv regular target right (sees_mono grows₁ inRight) h₁) rfl ?_
    intro b b' own₂ w₂ m₂ _ h₂ same₂
    have result : Value.binary op a' b' = Value.binary op a b :=
      Value.Alike.binary_eq rfl rfl same₁.alike same₂.alike
    rw [result]
    exact h₂.orFail op.line (Value.forgets_binary op a b).plain (Value.binary_ne_undefined op a b)
  | .logical left op right, own, w, m, sees, h => by
    obtain ⟨inLeft, inRight⟩ := List.forall_mem_append.1 sees
    rw [Watch.evaluate, Expr.renamed, Expr.evaluate]
    refine h.bind (Expr.agree inv regular target left inLeft h) rfl ?_
    intro a a' own₁ w₁ m₁ grows₁ h₁ same₁
    rw [same₁.settledBy_eq op]
    split
    · exact h₁.pure same₁
    · exact Expr.agree inv regular target right (sees_mono grows₁ inRight) h₁
  | .var id name, own, w, m, sees, h => by
    rw [Watch.evaluate, Expr.renamed, Expr.evaluate]
    exact h.read regular (sees _ (List.mem_singleton_self _))
  | .assign id name value, own, w, m, sees, h => by
    obtain ⟨inValue, self⟩ := List.forall_mem_append.1 sees
    have self := self _ (List.mem_singleton_self _)
    have reached : Watch.Keeps w ⟨w.machine, .reached id name true w.machine :: w.events⟩ :=
      .noting w (by simp)
    rw [Watch.evaluate, Expr.renamed, Expr.evaluate]
    refine Agree.after reached (fun _ _ => rfl) ?_
    have h₀ := h.reach regular self
    refine h₀.bind (Expr.agree inv regular target value
      (fun μ hμ => (inValue μ hμ).mono reached.events) h₀) rfl ?_
    intro v v' own₁ w₁ m₁ grows₁ h₁ same
    have written := h₁.write regular ((self.mono reached.events).mono grows₁.events) target same
    have rest := h₁.bind (f := fun _ => pure v) (g := fun _ => pure v') written rfl
      fun _ _ _ _ _ grows₂ h₂ _ => h₂.pure (same.mono grows₂)
    rw [bind_assoc] at rest
    exact rest
  | .call callee closing arguments, own, w, m, sees, h => by
    obtain ⟨inCallee, inArguments⟩ := List.forall_mem_append.1 sees
    rw [Watch.evaluate, Expr.renamed, Expr.evaluate]
    refine h.bind (Expr.agree inv regular target callee inCallee h) rfl ?_
    intro v v' own₁ w₁ m₁ grows₁ h₁ same
    cases same with
    | plain plain =>
      cases v with
      | function f => exact absurd rfl (plain f)
      | _ => exact h₁.fail closing.line (by rintro _ ⟨⟩)
    | function same =>
      refine h₁.bind (Expr.agreeAll inv regular target arguments
        (sees_mono grows₁ inArguments) h₁) rfl ?_
      intro vs vs' own₂ w₂ m₂ grows₂ h₂ sameAll
      obtain ⟨r', q, allows, stands, rfl⟩ := same
      exact h₂.call inv closing ⟨r', q, allows, stands.mono grows₂, rfl⟩ sameAll

/-- So have expressions, one after the other. -/
theorem Expr.agreeAll (inv : Invokes S J I) {r : Renaming} {p : Place} (regular : p.Regular)
    (target : r.Targets p) : ∀ (es : List Expr) {own : List FrameId} {w : State} {m : Machine},
    (∀ μ ∈ Expr.mentionsAll p es, S.Sees r w.events μ) → At S r p own w m →
    Agree S own w (Here · p) (fun G => List.Forall₂ (SameValue S G)) (Watch.evaluateAll J es w)
      (Expr.evaluateAll I (Expr.renamedAll r es) m)
  | [], own, w, m, _, h => h.pure .nil
  | e :: es, own, w, m, sees, h => by
    obtain ⟨inFirst, inOthers⟩ := List.forall_mem_append.1 sees
    rw [Watch.evaluateAll, Expr.renamedAll, Expr.evaluateAll]
    refine h.bind (Expr.agree inv regular target e inFirst h) rfl ?_
    intro v v' own₁ w₁ m₁ grows₁ h₁ same
    refine h₁.bind (Expr.agreeAll inv regular target es (sees_mono grows₁ inOthers) h₁) rfl ?_
    intro vs vs' own₂ w₂ m₂ grows₂ h₂ sameAll
    exact h₂.pure (.cons (same.mono grows₂) sameAll)

end

theorem Expr.agree? (inv : Invokes S J I) (regular : p.Regular) (target : r.Targets p)
    {e : Option Expr} (sees : ∀ μ ∈ Expr.mentions? p e, S.Sees r w.events μ) (h : At S r p own w m) :
    Agree S own w (Here · p) (SameValue S) (Watch.evaluate? J e w)
      (Expr.evaluate? I (Expr.renamed? r e) m) := by
  cases e with
  | none => exact h.pure .nil
  | some e => exact Expr.agree inv regular target e sees h

/-- Loops agree if their conditions and bodies do. -/
theorem agree_repeatWhile {condition : Watch Value} {condition' : Eval Value} {body : Watch Flow}
    {body' : Eval Flow} {events : List Event}
    (holds : ∀ {own w m}, events ⊆ w.events → At S r p own w m →
      Agree S own w (Here · p) (SameValue S) (condition w) (condition' m))
    (round : ∀ {own w m}, events ⊆ w.events → At S r p own w m →
      Agree S own w (Here · p) (SameFlow S) (body w) (body' m)) (fuel : Nat)
    (more : events ⊆ w.events) (h : At S r p own w m) :
    Agree S own w (Here · p) (SameFlow S) (Watch.repeatWhile condition body fuel w)
      (Lox.repeatWhile condition' body' fuel m) := by
  induction fuel generalizing own w m with
  | zero => exact h.outOfFuel
  | succ fuel ih =>
    rw [Watch.repeatWhile, Lox.repeatWhile]
    refine h.bind (holds more h) rfl ?_
    intro v v' own₁ w₁ m₁ grows₁ h₁ same
    have more₁ := List.Subset.trans more grows₁.events
    rw [same.alike.truthy_eq]
    split
    · refine h₁.bind (round more₁ h₁) rfl ?_
      intro flow flow' own₂ w₂ m₂ grows₂ h₂ same
      cases same with
      | normal => exact ih (List.Subset.trans more₁ grows₂.events) h₂
      | returned same => exact h₂.pure (.returned same)
    · exact h₁.pure .normal

/-- A variable is declared under the name that its scope has. -/
theorem At.variable (inv : Invokes S J I) (fuel : Nat) (h : At S r p own w m) (settled : p.Settled)
    (name name' : Token) (initializer : Option Expr)
    (sees : ∀ μ ∈ Expr.mentions? (p.inInitializer name) initializer, S.Sees r w.events μ)
    (untaken : p.scopes.taken name.lexeme = false)
    (fits : name'.lexeme = r.key (r.here p.sites) name.lexeme)
    (target : r.Targets (p.inInitializer name)) :
    Agree S own w (Here · (p.behind (.var name initializer))) (SameFlow S)
      (Watch.execute J fuel (.var name initializer) w)
      ((Stmt.var name' (Expr.renamed? r initializer)).execute I fuel m) := by
  rw [Watch.execute, Stmt.execute]
  have h₀ := h.inInitializer untaken
  refine h₀.bind (Expr.agree? inv (settled.inInitializer untaken) target sees h₀) rfl ?_
  intro v v' own₁ w₁ m₁ _ h₁ same
  have declared : Agree S own₁ w₁ (Here · (p.behind (.var name initializer))) _
      (silently (Eval.define name v) w₁) (Eval.define name' v' m₁) :=
    h₁.define rfl (Scopes.gets_define _ _) fits same
  refine h₁.bind declared rfl ?_
  intro _ _ own₂ w₂ m₂ _ h₂ _
  exact h₂.pure .normal

mutual

/-- A statement does the same under the other name. -/
theorem Stmt.agree (inv : Invokes S J I) (fuel : Nat) : ∀ (s : Stmt) {r : Renaming} {p : Place}
    {own : List FrameId} {w : State} {m : Machine}, (∀ μ ∈ s.mentions p, S.Sees r w.events μ) →
    s.Tidy p.scopes → s.Fits r (r.here p.sites) → p.Settled → At S r p own w m →
    Agree S own w (Here · (p.behind s)) (SameFlow S) (Watch.execute J fuel s w)
      ((s.renamed r).execute I fuel m)
  | .expression value, r, p, own, w, m, sees, _, _, settled, h => by
    rw [Watch.execute, Stmt.renamed, Stmt.execute]
    refine h.bind (Expr.agree inv settled.regular (.settled settled) value sees h) rfl ?_
    intro v v' own₁ w₁ m₁ _ h₁ _
    exact h₁.pure .normal
  | .print keyword value, r, p, own, w, m, sees, _, _, settled, h => by
    rw [Watch.execute, Stmt.renamed, Stmt.execute]
    refine h.bind (Expr.agree inv settled.regular (.settled settled) value sees h) rfl ?_
    intro v v' own₁ w₁ m₁ _ h₁ same
    rw [same.alike.text_eq]
    refine h₁.bind (h₁.print keyword.line v.text) rfl ?_
    intro _ _ own₂ w₂ m₂ _ h₂ _
    exact h₂.pure .normal
  | .var name initializer, r, p, own, w, m, sees, untaken, fits, settled, h =>
    h.variable inv fuel settled name (r.declare name) initializer sees untaken fits
      (.inInitializer fits)
  | .block body, r, p, own, w, m, sees, tidy, fits, settled, h => by
    rw [Watch.execute, Stmt.renamed, Stmt.execute]
    have here : Here (entering w (.block body) w.machine.current []) (p.inBlock body) :=
      .entering h.here.sane h.here.chain rfl rfl (by simp [Bindings.holds]) (by simp)
    have inside := At.entering h.related h.here.sane h.allows h.matching h.lt rfl .nil here
    have run := Stmt.agreeAll inv fuel body
      (fun μ hμ => (sees μ hμ).mono (List.subset_cons_self _ _)) tidy fits (settled.inBlock body)
      inside
    show Agree S own w _ _ (Watch.inside (.block body) w.machine.current [] _ w)
      ((Eval.newFrame m.current [] >>= fun frame => Eval.inFrame frame _) m)
    rw [h.related.current]
    exact h.inside r _ _ _ _ run
  | .ifThen condition yes none, r, p, own, w, m, sees, ⟨noDeclaration, tidy⟩, fits, settled, h => by
    obtain ⟨inCondition, inYes⟩ := List.forall_mem_append.1 sees
    rw [Watch.execute, Stmt.renamed, Stmt.execute]
    refine h.bind (Expr.agree inv settled.regular (.settled settled) condition inCondition h) rfl ?_
    intro v v' own₁ w₁ m₁ grows₁ h₁ same
    rw [same.alike.truthy_eq]
    split
    · exact Stmt.agreeBranch inv fuel yes (sees_mono grows₁ inYes) noDeclaration tidy fits settled h₁
    · exact h₁.pure .normal
  | .ifThen condition yes (some no), r, p, own, w, m, sees, ⟨tidyYes, tidyNo⟩, ⟨fitsYes, fitsNo⟩,
      settled, h => by
    obtain ⟨sees, inNo⟩ := List.forall_mem_append.1 sees
    obtain ⟨inCondition, inYes⟩ := List.forall_mem_append.1 sees
    rw [Watch.execute, Stmt.renamed, Stmt.execute]
    refine h.bind (Expr.agree inv settled.regular (.settled settled) condition inCondition h) rfl ?_
    intro v v' own₁ w₁ m₁ grows₁ h₁ same
    rw [same.alike.truthy_eq]
    split
    · exact Stmt.agreeBranch inv fuel yes (sees_mono grows₁ inYes) tidyYes.1 tidyYes.2 fitsYes
        settled h₁
    · exact Stmt.agreeBranch inv fuel no (sees_mono grows₁ inNo) tidyNo.1 tidyNo.2 fitsNo settled h₁
  | .whileDo condition body, r, p, own, w, m, sees, ⟨noDeclaration, tidy⟩, fits, settled, h => by
    obtain ⟨inCondition, inBody⟩ := List.forall_mem_append.1 sees
    rw [Watch.execute, Stmt.renamed, Stmt.execute]
    exact agree_repeatWhile
      (fun more h => Expr.agree inv settled.regular (.settled settled) condition
        (fun μ hμ => (inCondition μ hμ).mono more) h)
      (fun more h => Stmt.agreeBranch inv fuel body (fun μ hμ => (inBody μ hμ).mono more)
        noDeclaration tidy fits settled h) fuel (List.Subset.refl _) h
  | .function name parameters body, r, p, own, w, m, sees, ⟨_, nodup, tidy⟩, fits, settled, h => by
    rw [Watch.execute, Stmt.renamed, Stmt.execute]
    have declared := h.function settled sees nodup tidy fits
    have whole : Agree S own w (Here · (p.behind (.function name parameters body))) (SameFlow S) _ _ :=
      h.bind (f := fun _ => pure .normal) (g := fun _ => pure .normal) declared rfl
        fun _ _ _ _ _ _ h₁ _ => h₁.pure .normal
    rw [bind_assoc, bind_assoc] at whole
    exact whole
  | .ret _ value, r, p, own, w, m, sees, _, _, settled, h => by
    rw [Watch.execute, Stmt.renamed, Stmt.execute]
    refine h.bind (Expr.agree? inv settled.regular (.settled settled) sees h) rfl ?_
    intro v v' own₁ w₁ m₁ _ h₁ same
    exact h₁.pure (.returned same)

/-- So does a branch or the body of a loop, and the place stays the same. -/
theorem Stmt.agreeBranch (inv : Invokes S J I) (fuel : Nat) (s : Stmt) {r : Renaming} {p : Place}
    {own : List FrameId} {w : State} {m : Machine} (sees : ∀ μ ∈ s.mentions p, S.Sees r w.events μ)
    (noDeclaration : s.declared? = none) (tidy : s.Tidy p.scopes) (fits : s.Fits r (r.here p.sites))
    (settled : p.Settled) (h : At S r p own w m) :
    Agree S own w (Here · p) (SameFlow S) (Watch.execute J fuel s w)
      ((s.renamed r).execute I fuel m) := by
  have agree := Stmt.agree inv fuel s sees tidy fits settled h
  rw [Watch.behind_of_none noDeclaration] at agree
  exact agree

/-- Statements do the same one after the other. -/
theorem Stmt.agreeAll (inv : Invokes S J I) (fuel : Nat) : ∀ (ss : List Stmt) {r : Renaming}
    {p : Place} {own : List FrameId} {w : State} {m : Machine},
    (∀ μ ∈ Stmt.mentionsAll p ss, S.Sees r w.events μ) → Stmt.TidyAll p.scopes ss →
    Stmt.FitsAll r (r.here p.sites) ss → p.Settled → At S r p own w m →
    Agree S own w Sane (SameFlow S) (Watch.executeAll J fuel ss w)
      (Stmt.executeAll I fuel (Stmt.renamedAll r ss) m)
  | [], r, p, own, w, m, _, _, _, _, h => .pure h.here.sane h.related .normal
  | s :: ss, r, p, own, w, m, sees, ⟨tidy, tidyAll⟩, ⟨fits, fitsAll⟩, settled, h => by
    obtain ⟨inFirst, inOthers⟩ := List.forall_mem_append.1 sees
    rw [Watch.executeAll, Stmt.renamedAll, Stmt.executeAll]
    refine h.bind (Stmt.agree inv fuel s inFirst tidy fits settled h) rfl ?_
    intro flow flow' own₁ w₁ m₁ grows₁ h₁ same
    cases same with
    | normal =>
      exact Stmt.agreeAll inv fuel ss (sees_mono grows₁ inOthers) tidyAll fitsAll (settled.behind s) h₁
    | returned same => exact .pure h₁.here.sane h₁.related (.returned same)

end

/-- Calls do the same under the other name. -/
theorem invokes (S : Renaming) (fuel : Nat) : Invokes S (Watch.invoke fuel) (Lox.invoke fuel) := by
  induction fuel with
  | zero => exact fun h _ _ _ => h.outOfFuel
  | succ fuel ih =>
    intro r p own f f' vs vs' w m h same sameAll count
    obtain ⟨r', q, allows, stands, rfl⟩ := same
    have here := Here.enteringCall f.body h.here.sane stands.chain (placed_of_same sameAll) count
    have parameters := stands.keyed_parameters sameAll
    have inside := At.entering h.related h.here.sane allows stands.matching stands.lt rfl parameters
      here
    have run := Stmt.agreeAll ih fuel f.body
      (fun μ hμ => (stands.sees μ hμ).mono (List.subset_cons_self _ _)) stands.tidy stands.fits
      (stands.settled.inFunction f.name f.parameters f.body) inside
    have whole := h.bind (f := fun flow => pure flow.result) (g := fun flow => pure flow.result)
      (h.inside r' _ _ _ _ run) rfl fun _ _ _ _ _ _ h₁ same => h₁.pure same.result
    rw [Watch.invoke, Lox.invoke]
    rw [bind_assoc] at whole
    exact whole

/-- A statement outside of all blocks and functions does the same. The name of a global variable
stays. -/
theorem Stmt.agreeOutside (inv : Invokes S J I) (fuel : Nat) (s : Stmt)
    (sees : ∀ μ ∈ s.mentions .top, S.Sees r w.events μ) (tidy : s.Tidy [])
    (fits : (∀ global initializer, s ≠ .var global initializer) → s.Fits r false)
    (h : At S r .top own w m) :
    Agree S own w (Here · .top) (SameFlow S) (Watch.execute J fuel s w)
      ((s.renamedOutside r).execute I fuel m) := by
  have top : Place.top.behind s = .top := by rw [Place.behind, Place.top, Scopes.behind_nil]
  rw [← top]
  by_cases global : ∃ name initializer, s = .var name initializer
  · obtain ⟨name, initializer, rfl⟩ := global
    exact h.variable inv fuel .top name name initializer sees rfl rfl
      fun _ _ inside => absurd rfl inside
  · have notGlobal : ∀ name initializer, s ≠ .var name initializer := fun name initializer same =>
      global ⟨name, initializer, same⟩
    rw [Stmt.renamedOutside_eq notGlobal]
    exact Stmt.agree inv fuel s sees tidy (fits notGlobal) .top h

/-- So do the statements of a program one after the other. -/
theorem agree_runProgram (fuel : Nat) (ss : List Stmt)
    (sees : ∀ μ ∈ Stmt.mentionsAll .top ss, S.Sees r w.events μ) (tidy : Stmt.TidyAll [] ss)
    (fits : ∀ s ∈ ss, (∀ global initializer, s ≠ .var global initializer) → s.Fits r false)
    (h : At S r .top own w m) :
    Agree S own w Sane (fun _ (_ _ : Unit) => True) (Watch.runProgram fuel ss w)
      (Lox.runProgram fuel (Program.renamed r ss) m) := by
  induction ss generalizing own w m with
  | nil => exact .pure h.here.sane h.related trivial
  | cons s ss ih =>
    obtain ⟨inFirst, inOthers⟩ := List.forall_mem_append.1 sees
    obtain ⟨tidyFirst, tidyOthers⟩ := tidy
    rw [Place.behind, Place.top, Scopes.behind_nil] at inOthers
    rw [Scopes.behind_nil] at tidyOthers
    rw [Watch.runProgram, Program.renamed, List.map_cons, Lox.runProgram]
    refine h.bind (Stmt.agreeOutside (invokes S fuel) fuel s inFirst tidyFirst
      (fits s List.mem_cons_self) h) rfl ?_
    intro _ _ own₁ w₁ m₁ grows₁ h₁ _
    exact ih (sees_mono grows₁ inOthers) tidyOthers
      (fun s mem => fits s (List.mem_cons_of_mem _ mem)) h₁

end Lox.Renamed
