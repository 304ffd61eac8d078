import Lox.Proofs.Twins.Steps

/-!
# Whatever runs on twin machines

Expressions, statements and calls end the same way on two machines that are the same but for the
places of their programs, and the machines are so afterwards.

* `Invokes` — two ways to run the body of a function do so.
* `Expr.twins`, `Stmt.twins` — then so do expressions and statements.
* `invokes` — with the same fuel, so do the calls of traced and of other runs.
* `twins_runProgram` — and so do programs.
-/

namespace Lox.Twins

open Trace (Call State Stop atHome silently observed)

variable {S : Setting} {w w' : State} {m m' : Machine}

/-- The two ways to run the body of a function agree. -/
structure Invokes (S : Setting) (J : Trace.Invoke) (I : Lox.Invoke) : Prop where
  agree : ∀ {calls : List Call} {f f' : Closure} {vs vs' : List Value} {w : State} {m : Machine},
    Related S w m → SameFunction S (.of w) f f' → w.own.contains f.identity = atHome calls →
    List.Forall₂ (SameValue S (.of w)) vs vs' →
    Agree S (.of w) (SameValue S) (J calls f vs w) (I f' vs' m)
  restores : RestoringInvoke I

variable {J : Trace.Invoke} {I : Lox.Invoke}

/-- The calls are as many on both machines, so that both refuse one more or neither does. -/
theorem twins_call (inv : Invokes S J I) (calls : List Call) (closing : Token) {f f' : Closure}
    {vs vs' : List Value} (h : Related S w m) (same : SameFunction S (.of w) f f')
    (sameAll : List.Forall₂ (SameValue S (.of w)) vs vs') (k : Nat) :
    Agree S (.of w) (SameValue S) (Trace.call J calls closing f vs w)
      (Eval.call I (closing.moved (S.shiftAt (atHome calls) k)) f' vs' m) := by
  unfold Trace.call Eval.call
  rw [same.length_parameters, ← sameAll.length_eq]
  by_cases count : vs.length = f.parameters.length
  · rw [if_neg (not_not_intro count), if_neg (not_not_intro count)]
    show Agree S (.of w) _ ((if maxCalls ≤ w.machine.depth then _ else _ : Trace Value) _)
      ((if maxCalls ≤ m.depth then _ else _ : Eval Value) m)
    rw [h.depth]
    have attempted := h.noting (.attempted calls closing f vs :: w.events)
    by_cases deep : maxCalls ≤ w.machine.depth
    · rw [if_pos deep, if_pos deep]
      exact attempted.fail closing.line .stackOverflow
    · rw [if_neg deep, if_neg deep]
      let inner : List Call := ⟨f, w.own.contains f.identity⟩ :: calls
      exact .duringCall (inv.restores f' vs')
        (.observed (inv.agree (attempted.deeper.pass inner) same rfl sameAll))
  · rw [if_pos count, if_pos count]
    exact h.fail closing.line _

mutual

/-- An expression has the same value on both machines, or halts for the same reason. -/
theorem Expr.twins (inv : Invokes S J I) (calls : List Call) (k : Nat) : ∀ (e : Expr) {w : State}
    {m : Machine}, S.Agrees k e.references → Related S w m →
    Agree S (.of w) (SameValue S) (Trace.evaluate J calls e w)
      ((e.moved (S.shiftAt (atHome calls) k)).evaluate I m)
  | .literal value, w, m, _, h => by
    rw [Trace.evaluate, Expr.moved, Expr.evaluate]
    exact .observed (.pure (h.pass calls) (.ofLiteral value))
  | .grouping inner, w, m, agrees, h => by
    rw [Trace.evaluate, Expr.moved, Expr.evaluate]
    exact .observed (Expr.twins inv calls k inner agrees (h.pass calls))
  | .unary op right, w, m, agrees, h => by
    rw [Trace.evaluate, Expr.moved, Expr.evaluate]
    refine .observed ((Expr.twins inv calls k right agrees (h.pass calls)).bind ?_)
    intro v v' w₁ m₁ _ h₁ same
    exact h₁.orFail op.line (same.unary op _)
  | .binary left op right, w, m, agrees, h => by
    rw [Trace.evaluate, Expr.moved, Expr.evaluate]
    refine .observed ((Expr.twins inv calls k left agrees.left (h.pass calls)).bind ?_)
    intro a a' w₁ m₁ _ h₁ same₁
    refine (Expr.twins inv calls k right agrees.right h₁).bind ?_
    intro b b' w₂ m₂ grows h₂ same₂
    exact h₂.orFail op.line ((same₁.mono grows).binary op _ same₂)
  | .logical left op right, w, m, agrees, h => by
    rw [Trace.evaluate, Expr.moved, Expr.evaluate]
    refine .observed ((Expr.twins inv calls k left agrees.left (h.pass calls)).bind ?_)
    intro a a' w₁ m₁ _ h₁ same₁
    rw [same₁.settledBy_eq op]
    split
    · exact .pure h₁ same₁
    · exact Expr.twins inv calls k right agrees.right h₁
  | .var id name, w, m, agrees, h => by
    rw [Trace.evaluate, Expr.moved, Expr.evaluate]
    exact .observed ((h.pass calls).read name
      (agrees.distance ⟨id, name, false⟩ (List.mem_singleton_self _)))
  | .assign id target value, w, m, agrees, h => by
    rw [Trace.evaluate, Expr.moved, Expr.evaluate]
    refine .observed ((Expr.twins inv calls k value agrees.of_cons (h.pass calls)).bind ?_)
    intro v v' w₁ m₁ _ h₁ same
    refine (h₁.write target (agrees.distance ⟨id, target, true⟩ List.mem_cons_self) same).bind ?_
    intro _ _ w₂ m₂ grows h₂ _
    exact .pure h₂ (same.mono grows)
  | .call callee closing arguments, w, m, agrees, h => by
    rw [Trace.evaluate, Expr.moved, Expr.evaluate]
    refine .observed ((Expr.twins inv calls k callee agrees.left (h.pass calls)).bind ?_)
    intro v v' w₁ m₁ _ h₁ same
    have text := same.alike.text_eq
    cases same with
    | function same =>
      refine (Expr.twinsAll inv calls k arguments agrees.right h₁).bind ?_
      intro vs vs' w₂ m₂ grows h₂ sameAll
      exact twins_call inv calls closing h₂ (same.mono grows) sameAll k
    | _ => exact h₁.fail closing.line _

/-- Expressions have the same values on both machines, or one of them halts for the same reason. -/
theorem Expr.twinsAll (inv : Invokes S J I) (calls : List Call) (k : Nat) : ∀ (es : List Expr)
    {w : State} {m : Machine}, S.Agrees k (Expr.referencesAll es) → Related S w m →
    Agree S (.of w) (fun F => List.Forall₂ (SameValue S F)) (Trace.evaluateAll J calls es w)
      (Expr.evaluateAll I (Expr.movedAll (S.shiftAt (atHome calls) k) es) m)
  | [], w, m, _, h => .pure h .nil
  | e :: es, w, m, agrees, h => by
    rw [Trace.evaluateAll, Expr.movedAll, Expr.evaluateAll]
    refine (Expr.twins inv calls k e agrees.left h).bind ?_
    intro v v' w₁ m₁ _ h₁ same
    refine (Expr.twinsAll inv calls k es agrees.right h₁).bind ?_
    intro vs vs' w₂ m₂ grows h₂ sameAll
    exact .pure h₂ (.cons (same.mono grows) sameAll)

end

theorem Expr.twins? (inv : Invokes S J I) (calls : List Call) (k : Nat) (e : Option Expr)
    (agrees : ∀ value, e = some value → S.Agrees k value.references) (h : Related S w m) :
    Agree S (.of w) (SameValue S) (Trace.evaluate? J calls e w)
      (Expr.evaluate? I (Expr.moved? (S.shiftAt (atHome calls) k) e) m) := by
  cases e with
  | none => exact .pure h .nil
  | some e => exact Expr.twins inv calls k e (agrees e rfl) h

/-- Loops agree if their conditions and bodies do. -/
theorem twins_repeatWhile (calls : List Call) {condition : Trace Value} {body : Trace Flow}
    {condition' : Eval Value} {body' : Eval Flow}
    (holds : ∀ {w m}, Related S w m →
      Agree S (.of w) (SameValue S) (condition w) (condition' m))
    (round : ∀ {w m}, Related S w m → Agree S (.of w) (SameFlow S) (body w) (body' m)) (fuel : Nat)
    (h : Related S w m) :
    Agree S (.of w) (SameFlow S) (Trace.repeatWhile calls condition body fuel w)
      (Lox.repeatWhile condition' body' fuel m) := by
  induction fuel generalizing w m with
  | zero => exact h.outOfFuel
  | succ fuel ih =>
    rw [Trace.repeatWhile, Lox.repeatWhile]
    refine (holds h).bind ?_
    intro v v' w₁ m₁ _ h₁ same
    rw [same.alike.truthy_eq]
    split
    · refine (round h₁).bind ?_
      intro flow flow' w₂ m₂ _ h₂ same
      cases same with
      | normal => exact ih h₂
      | returned same => exact .pure h₂ (.returned same)
    · exact .pure h₁ .normal

mutual

/-- A statement does the same on both machines. -/
theorem Stmt.twins (inv : Invokes S J I) (calls : List Call) (fuel k : Nat) : ∀ (s : Stmt)
    {w : State} {m : Machine}, S.Agrees k s.references → Related S w m →
    Agree S (.of w) (SameFlow S) (Trace.execute J calls fuel s w)
      ((s.moved (S.shiftAt (atHome calls) k)).execute I fuel m)
  | .expression value, w, m, agrees, h => by
    rw [Trace.execute, Stmt.moved, Stmt.execute]
    refine .observed ((Expr.twins inv calls k value agrees (h.pass calls)).bind ?_)
    intro v v' w₁ m₁ _ h₁ _
    exact .pure h₁ .normal
  | .print keyword value, w, m, agrees, h => by
    rw [Trace.execute, Stmt.moved, Stmt.execute]
    refine .observed ((Expr.twins inv calls k value agrees (h.pass calls)).bind ?_)
    intro v v' w₁ m₁ _ h₁ same
    refine (h₁.print keyword.line same).bind ?_
    intro _ _ w₂ m₂ _ h₂ _
    exact .pure h₂ .normal
  | .var name initializer, w, m, agrees, h => by
    rw [Trace.execute, Stmt.moved, Stmt.execute]
    refine .observed ((Expr.twins? inv calls k initializer ?_ (h.pass calls)).bind ?_)
    · rintro value rfl
      exact agrees
    intro v v' w₁ m₁ _ h₁ same
    refine (h₁.define name _ same).bind ?_
    intro _ _ w₂ m₂ _ h₂ _
    exact .pure h₂ .normal
  | .block body, w, m, agrees, h => by
    rw [Trace.execute, Stmt.moved, Stmt.execute]
    refine .observed ?_
    show Agree S (.of w) (SameFlow S)
      ((silently calls (Eval.newFrame w.machine.current []) >>= fun frame =>
        Trace.inFrame frame (Trace.executeAll J calls fuel body)) (w.pass calls))
      ((Eval.newFrame m.current [] >>= fun frame => Eval.inFrame frame _) m)
    rw [h.current]
    refine ((h.pass calls).newFrame w.machine.current .nil).bind ?_
    rintro _ frame w₁ m₁ _ h₁ rfl
    exact .inFrame h₁ frame (Stmt.twinsAll inv calls fuel k body agrees (h₁.inFrame frame))
  | .ifThen condition yes none, w, m, agrees, h => by
    rw [Trace.execute, Stmt.moved, Stmt.execute]
    refine .observed ((Expr.twins inv calls k condition agrees.left (h.pass calls)).bind ?_)
    intro v v' w₁ m₁ _ h₁ same
    rw [same.alike.truthy_eq]
    split
    · exact Stmt.twins inv calls fuel k yes agrees.right h₁
    · exact .pure h₁ .normal
  | .ifThen condition yes (some no), w, m, agrees, h => by
    rw [Trace.execute, Stmt.moved, Stmt.execute]
    refine .observed ((Expr.twins inv calls k condition agrees.left.left (h.pass calls)).bind ?_)
    intro v v' w₁ m₁ _ h₁ same
    rw [same.alike.truthy_eq]
    split
    · exact Stmt.twins inv calls fuel k yes agrees.left.right h₁
    · exact Stmt.twins inv calls fuel k no agrees.right h₁
  | .whileDo condition body, w, m, agrees, h => by
    rw [Trace.execute, Stmt.moved, Stmt.execute]
    exact .observed (twins_repeatWhile calls (Expr.twins inv calls k condition agrees.left)
      (Stmt.twins inv calls fuel k body agrees.right) fuel (h.pass calls))
  | .function name parameters body, w, m, agrees, h => by
    rw [Trace.execute, Stmt.moved, Stmt.execute]
    rw [← bind_assoc]
    refine .observed (((h.pass calls).closure name parameters agrees).bind ?_)
    intro v v' w₁ m₁ _ h₁ same
    refine (h₁.define name _ same).bind ?_
    intro _ _ w₂ m₂ _ h₂ _
    exact .pure h₂ .normal
  | .ret _ value, w, m, agrees, h => by
    rw [Trace.execute, Stmt.moved, Stmt.execute]
    refine .observed ((Expr.twins? inv calls k value ?_ (h.pass calls)).bind ?_)
    · rintro value rfl
      exact agrees
    intro v v' w₁ m₁ _ h₁ same
    exact .pure h₁ (.returned same)

/-- Statements do the same one after the other. -/
theorem Stmt.twinsAll (inv : Invokes S J I) (calls : List Call) (fuel k : Nat) : ∀ (ss : List Stmt)
    {w : State} {m : Machine}, S.Agrees k (Stmt.referencesAll ss) → Related S w m →
    Agree S (.of w) (SameFlow S) (Trace.executeAll J calls fuel ss w)
      (Stmt.executeAll I fuel (Stmt.movedAll (S.shiftAt (atHome calls) k) ss) m)
  | [], w, m, _, h => .pure h .normal
  | s :: ss, w, m, agrees, h => by
    rw [Trace.executeAll, Stmt.movedAll, Stmt.executeAll]
    refine (Stmt.twins inv calls fuel k s agrees.left h).bind ?_
    intro flow flow' w₁ m₁ _ h₁ same
    cases same with
    | normal => exact Stmt.twinsAll inv calls fuel k ss agrees.right h₁
    | returned same => exact .pure h₁ (.returned same)

end

/-- Calls do the same on both machines, and put back what they change. -/
theorem invokes (S : Setting) (fuel : Nat) : Invokes S (Trace.invoke fuel) (Lox.invoke fuel) := by
  refine ⟨?_, restores_invoke fuel⟩
  induction fuel with
  | zero =>
    intro calls f f' vs vs' w m h _ _ _
    exact h.outOfFuel
  | succ fuel ih =>
    intro calls f f' vs vs' w m h same home sameAll
    obtain ⟨k, agrees, rfl⟩ := same.moved
    rw [Trace.invoke, Lox.invoke]
    have parameters (d : Shift) : (parameterBindings f.parameters vs).Rel (SameValue S (.of w))
        (parameterBindings (f.moved d).parameters vs') :=
      Bindings.rel_parameterBindings .nil (fun t _ _ _ _ _ rel same => rel.insert t.lexeme same) sameAll
    refine (h.newFrame f.env (parameters _)).bind ?_
    rintro _ frame w₁ m₁ _ h₁ rfl
    have body := Stmt.twinsAll ⟨ih, restores_invoke fuel⟩ calls fuel k f.body agrees
      (h₁.inFrame frame)
    rw [← home] at body
    refine (Agree.inFrame h₁ frame body).bind ?_
    intro flow flow' w₂ m₂ _ h₂ same
    exact .pure h₂ same.result

/-- Programs do the same on both machines. -/
theorem twins_runProgram (fuel k : Nat) : ∀ (ss : List Stmt) {w : State} {m : Machine},
    S.Agrees k (Stmt.referencesAll ss) → Related S w m →
    Agree S (.of w) (fun _ (_ _ : Unit) => True) (Trace.runProgram fuel ss w)
      (Lox.runProgram fuel (Stmt.movedAll (S.shiftAt true k) ss) m)
  | [], w, m, _, h => .pure h trivial
  | s :: ss, w, m, agrees, h => by
    rw [Trace.runProgram, Stmt.movedAll, Lox.runProgram]
    refine (Stmt.twins (invokes S fuel) [] fuel k s agrees.left h).bind ?_
    intro _ _ w₁ m₁ _ h₁ _
    exact twins_runProgram fuel k ss agrees.right h₁

end Lox.Twins
