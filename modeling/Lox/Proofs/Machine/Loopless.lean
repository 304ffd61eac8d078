import Lox.Proofs.Ending
import Lox.Proofs.Grammar.Soundness
import Lox.Proofs.Machine.Bodies
import Lox.Proofs.Machine.Fuel
import Lox.Proofs.Scope.Checked

/-!
# Programs without loops

A program without a loop comes to an end, whatever its functions call. A call does not go on with a
smaller part of the program but with the body of a function that is found in a variable. What gets
smaller is the number of calls that may still become active. So the bodies of all functions that a
machine can come across must be without loops, and as much fuel suffices as calls may be active.

* `Stmt.Loopless` — there is no loop in a statement.
* `Frames.Loopless` — there is none in any function that a variable holds.
* `Settles d x good` — while `d` calls are active, `x` does not run out of fuel.
* `settles_evaluate`, `settles_execute`, `settles_invoke` — so it is with expressions, statements
  and calls.
* `Session.runAll_ends` — every program of a session without loops ends.
-/

namespace Lox

mutual

/-- There is no loop in the statement. -/
def Stmt.Loopless : Stmt → Prop
  | .whileDo _ _ => False
  | .block body => Stmt.LooplessAll body
  | .ifThen _ yes none => yes.Loopless
  | .ifThen _ yes (some no) => yes.Loopless ∧ no.Loopless
  | .function _ _ body => Stmt.LooplessAll body
  | .expression _ | .print _ _ | .var _ _ | .ret _ _ => True

/-- There is no loop in the statements. -/
def Stmt.LooplessAll : List Stmt → Prop
  | [] => True
  | s :: ss => s.Loopless ∧ Stmt.LooplessAll ss

end

/-- The text has no loop, if it is a program at all. -/
def LooplessText (source : String) : Prop :=
  ∀ firstId nextId c, Checked.ofSource firstId source = (.ok c, nextId) → Stmt.LooplessAll c.program

/-! ## Texts -/

/-- The token is one that a loop begins with. -/
def Token.beginsLoop (t : Token) : Bool := t.kind == .keyword .while_ || t.kind == .keyword .for_

namespace Grammar

variable {width n : Nat} {ts : List Token} {s : Stmt}

theorem IsVariable.loopless (h : IsVariable width n ts s) : s.Loopless := by
  cases h <;> trivial

mutual

theorem IsDeclaration.loopless {n : Nat} {ts : List Token} {s : Stmt} :
    IsDeclaration width n ts s → (∀ t ∈ ts, t.beginsLoop = false) → s.Loopless
  | .function _ _ _ _ _ _ _ inner _, words =>
    IsDeclarations.loopless inner fun t mem => words t (by simp [mem])
  | .var inner, _ => inner.loopless
  | .statement inner, words => IsStatement.loopless inner words

theorem IsDeclarations.loopless {n : Nat} {ts : List Token} {ss : List Stmt} :
    IsDeclarations width n ts ss → (∀ t ∈ ts, t.beginsLoop = false) → Stmt.LooplessAll ss
  | .nil, _ => trivial
  | .cons first others, words =>
    ⟨IsDeclaration.loopless first fun t mem => words t (List.mem_append_left _ mem),
      IsDeclarations.loopless others fun t mem => words t (List.mem_append_right _ mem)⟩

/-- Without the words that a loop begins with there is none. -/
theorem IsStatement.loopless {dangling : Bool} {n : Nat} {ts : List Token} {s : Stmt} :
    IsStatement width dangling n ts s → (∀ t ∈ ts, t.beginsLoop = false) → s.Loopless
  | .expression (.mk _ _), _ => trivial
  | .forLoop keywordKind _ _ _ _ _ _ _, words =>
    absurd words (by simp [Token.beginsLoop, keywordKind])
  | .ifThen _ _ _ _ inner, words => by
    rw [Stmt.Loopless]
    exact IsStatement.loopless inner fun t mem => words t (by simp [mem])
  | .ifThenElse _ _ _ _ inner _ other, words =>
    ⟨IsStatement.loopless inner fun t mem => words t (by simp [mem]),
      IsStatement.loopless other fun t mem => words t (by simp [mem])⟩
  | .print _ _ _, _ => trivial
  | .ret _ _ _, _ => trivial
  | .whileDo keywordKind _ _ _ _, words => absurd words (by simp [Token.beginsLoop, keywordKind])
  | .block _ inner _, words => IsDeclarations.loopless inner fun t mem => words t (by simp [mem])

end

end Grammar

/-- A text in which neither word that begins a loop is found has none. -/
theorem looplessText_of_tokens {source : String}
    (h : ∀ tokens ∈ (scan source).toOption, ∀ t ∈ tokens, t.beginsLoop = false) :
    LooplessText source := by
  intro firstId nextId c checked
  obtain ⟨tokens, scanned, parsed, -⟩ := Checked.ofSource_parts checked
  obtain ⟨r, read, clean, -⟩ := Program.ok_of_ofTokens parsed
  have words := h tokens (by rw [scanned]; rfl)
  exact (Grammar.isDeclarations_of_ok read clean).loopless words

/-! ## Values and frames -/

/-- If the value is a function, then there is no loop in its body. -/
def Value.Loopless : Value → Prop
  | .function f => Stmt.LooplessAll f.body
  | _ => True

/-- If the function around returns, then with such a value. -/
def Flow.Loopless : Flow → Prop
  | .normal => True
  | .returned value => value.Loopless

theorem Flow.Loopless.result {flow : Flow} (h : flow.Loopless) : flow.result.Loopless := by
  cases flow with
  | normal => trivial
  | returned value => exact h

theorem Value.loopless_iff {v : Value} : v.Loopless ↔ v.Carries Stmt.LooplessAll := by
  cases v <;> rfl

/-- There is no loop in any function that is bound to a name. -/
def Bindings.Loopless (bindings : Bindings) : Prop :=
  ∀ name v, bindings.lookup name = some v → v.Loopless

/-- There is no loop in any function that a variable holds. -/
def Frames.Loopless (frames : Frames) : Prop := ∀ i, (frames.bindings i).Loopless

theorem Bindings.loopless_iff {bindings : Bindings} :
    bindings.Loopless ↔ bindings.Carry Stmt.LooplessAll :=
  forall_congr' fun _ => forall_congr' fun _ => imp_congr_right fun _ => Value.loopless_iff

theorem Frames.loopless_iff {frames : Frames} : frames.Loopless ↔ frames.Carry Stmt.LooplessAll :=
  forall_congr' fun _ => Bindings.loopless_iff

namespace Frames.Loopless

variable {frames : Frames}

theorem define {value : Value} (h : frames.Loopless) (i : FrameId) (name : String)
    (new : value.Loopless) : (frames.define i name value).Loopless := by
  rw [Frames.loopless_iff] at h ⊢
  exact h.define i name (Value.loopless_iff.1 new)

theorem push {bindings : Bindings} (h : frames.Loopless) (parent : FrameId)
    (new : bindings.Loopless) : (frames.push parent bindings).Loopless := by
  rw [Frames.loopless_iff] at h ⊢
  exact h.push parent (Bindings.loopless_iff.1 new)

end Frames.Loopless

/-! ## Computations -/

/-- So many calls are active, and no function with a loop can be come across. -/
structure Machine.Loopless (d : Nat) (m : Machine) : Prop where
  depth : m.depth = d
  frames : m.frames.Loopless

/-- While `d` calls are active, the computation ends without running out of fuel, and if with a
result then with a good one. -/
def Settles {α : Type} (d : Nat) (x : Eval α) (good : α → Prop) : Prop :=
  ∀ m, m.Loopless d → Ends x m (fun a m' => good a ∧ m'.Loopless d)
    fun halt m' => halt ≠ .outOfFuel ∧ m'.Loopless d

namespace Settles

variable {α β : Type} {d : Nat} {x : Eval α} {good : α → Prop} {good' : β → Prop}

theorem pure {a : α} (h : good a) : Settles d (Pure.pure a) good := fun _ hm => ⟨h, hm⟩

theorem bind {f : α → Eval β} (h : Settles d x good) (next : ∀ a, good a → Settles d (f a) good') :
    Settles d (x >>= f) good' := by
  intro m hm
  rw [Ends.bind_iff]
  exact (h m hm).mono (fun a m' ⟨ha, hm'⟩ => next a ha m' hm') fun _ _ stopped => stopped

theorem ite {c : Prop} [Decidable c] {y : Eval α} (hx : c → Settles d x good)
    (hy : ¬c → Settles d y good) : Settles d (if c then x else y) good := by
  split
  · exact hx ‹_›
  · exact hy ‹_›

theorem fail (line : Nat) (cause : RuntimeError.Cause) :
    Settles d (Eval.fail line cause : Eval α) good := by
  intro m hm
  have other : Halt.failure ⟨cause, line⟩ ≠ .outOfFuel := by simp
  exact ⟨other, hm⟩

theorem orFail (line : Nat) {r : Except RuntimeError.Cause α} (h : ∀ a, r = .ok a → good a) :
    Settles d (Eval.orFail line r) good := by
  cases r with
  | ok a => exact fun m hm => ⟨h a rfl, hm⟩
  | error cause => exact .fail line cause

theorem newFrame (parent : FrameId) {bindings : Bindings} (h : bindings.Loopless) :
    Settles d (Eval.newFrame parent bindings) fun _ => True :=
  fun _ hm => ⟨trivial, hm.depth, hm.frames.push parent h⟩

theorem define (name : Token) {value : Value} (h : value.Loopless) :
    Settles d (Eval.define name value) fun _ => True :=
  fun _ hm => ⟨trivial, hm.depth, hm.frames.define _ _ h⟩

theorem closure (name : Token) (parameters : List Token) {body : List Stmt}
    (h : Stmt.LooplessAll body) : Settles d (Eval.closure name parameters body) Value.Loopless :=
  fun _ hm => ⟨h, hm.depth, hm.frames⟩

theorem read (id : RefId) (name : Token) : Settles d (Eval.read id name) Value.Loopless := by
  intro m hm
  unfold Ends Eval.read
  cases found : (m.holder? id name.lexeme).bind fun i => (m.frames.bindings i).lookup name.lexeme with
  | some value =>
    obtain ⟨i, -, lookup⟩ := Option.bind_eq_some_iff.1 found
    exact ⟨hm.frames i name.lexeme value lookup, hm⟩
  | none => exact ⟨by simp, hm⟩

theorem write (id : RefId) (name : Token) {value : Value} (h : value.Loopless) :
    Settles d (Eval.write id name value) fun _ => True := by
  intro m hm
  unfold Ends Eval.write
  cases m.holder? id name.lexeme with
  | some i => exact ⟨trivial, hm.depth, hm.frames.define i _ h⟩
  | none => exact ⟨by simp, hm⟩

theorem print (line : Nat) (text : String) :
    Settles d (Eval.print line text) fun _ => True := by
  intro m hm
  unfold Ends Eval.print
  cases m.sink.write (text ++ "\n") with
  | mk fits sink =>
    cases fits with
    | true => exact ⟨trivial, hm.depth, hm.frames⟩
    | false => exact ⟨by simp, hm.depth, hm.frames⟩

theorem inFrame (frame : FrameId) (h : Settles d x good) : Settles d (Eval.inFrame frame x) good := by
  intro m hm
  have inside := h { m with current := frame } ⟨hm.depth, hm.frames⟩
  unfold Ends at *
  unfold Eval.inFrame
  dsimp only
  cases hx : x { m with current := frame } <;> rw [hx] at inside <;>
    exact ⟨inside.1, inside.2.depth, inside.2.frames⟩

theorem inNewFrame (h : Settles d x good) : Settles d (Eval.inNewFrame x) good := by
  have get : Settles d (MonadState.get : Eval Machine) fun _ => True := fun m hm => ⟨trivial, hm⟩
  have empty : Bindings.Loopless [] := fun name v found => by cases found
  unfold Eval.inNewFrame
  exact get.bind fun m _ => (newFrame m.current empty).bind fun frame _ => h.inFrame frame

/-- During a call one more is active. -/
theorem duringCall (h : Settles (d + 1) x good) : Settles d (Eval.duringCall x) good := by
  intro m hm
  have one_more : m.depth + 1 = d + 1 := by rw [hm.depth]
  have inside := h { m with depth := m.depth + 1 } ⟨one_more, hm.frames⟩
  unfold Ends at *
  unfold Eval.duringCall
  dsimp only
  cases hx : x { m with depth := m.depth + 1 } <;> rw [hx] at inside <;>
    exact ⟨inside.1, hm.depth, inside.2.frames⟩

end Settles

/-- While `d` calls are active, one more comes to an end if it is allowed at all. -/
def SettlesInvoke (d : Nat) (I : Invoke) : Prop :=
  d < maxCalls → ∀ (f : Closure) (arguments : List Value), Stmt.LooplessAll f.body →
    (∀ v ∈ arguments, v.Loopless) → Settles (d + 1) (I f arguments) Value.Loopless

section Syntax

variable {d : Nat} {I : Invoke}

theorem settles_call (h : SettlesInvoke d I) (closing : Token) {f : Closure}
    {arguments : List Value} (hf : Stmt.LooplessAll f.body) (ha : ∀ v ∈ arguments, v.Loopless) :
    Settles d (Eval.call I closing f arguments) Value.Loopless := by
  unfold Eval.call
  refine .ite (fun _ => .fail _ _) fun _ => ?_
  intro m hm
  show Ends (if maxCalls ≤ m.depth then _ else _ : Eval Value) m _ _
  rw [hm.depth]
  refine Settles.ite (fun _ => .fail _ _) (fun few => ?_) m hm
  have allowed : d < maxCalls := by omega
  exact (h allowed f arguments hf ha).duringCall

mutual

theorem settles_evaluate (h : SettlesInvoke d I) : ∀ e : Expr,
    Settles d (e.evaluate I) Value.Loopless
  | .literal value => by
    rw [Expr.evaluate]
    exact .pure (Value.loopless_iff.2 (Value.carries_ofLiteral value))
  | .grouping inner => by
    rw [Expr.evaluate]
    exact settles_evaluate h inner
  | .unary op right => by
    rw [Expr.evaluate]
    exact (settles_evaluate h right).bind fun _ _ =>
      .orFail _ fun _ made => Value.loopless_iff.2 (Value.carries_unary made)
  | .binary left op right => by
    rw [Expr.evaluate]
    exact (settles_evaluate h left).bind fun _ _ => (settles_evaluate h right).bind fun _ _ =>
      .orFail _ fun _ made => Value.loopless_iff.2 (Value.carries_binary made)
  | .logical left op right => by
    rw [Expr.evaluate]
    exact (settles_evaluate h left).bind fun a ha =>
      .ite (fun _ => .pure ha) fun _ => settles_evaluate h right
  | .var id name => by
    rw [Expr.evaluate]
    exact .read id name
  | .assign id target value => by
    rw [Expr.evaluate]
    exact (settles_evaluate h value).bind fun v hv =>
      (Settles.write id target hv).bind fun _ _ => .pure hv
  | .call callee closing arguments => by
    rw [Expr.evaluate]
    refine (settles_evaluate h callee).bind fun v hv => ?_
    cases v with
    | function f =>
      exact (settles_evaluateAll h arguments).bind fun vs hvs => settles_call h closing hv hvs
    | _ => exact .fail _ _

theorem settles_evaluateAll (h : SettlesInvoke d I) : ∀ es : List Expr,
    Settles d (Expr.evaluateAll I es) fun vs => ∀ v ∈ vs, v.Loopless
  | [] => by
    rw [Expr.evaluateAll]
    exact .pure fun v mem => by cases mem
  | e :: es => by
    rw [Expr.evaluateAll]
    refine (settles_evaluate h e).bind fun v hv => ?_
    refine (settles_evaluateAll h es).bind fun vs hvs => .pure ?_
    intro u mem
    rcases List.mem_cons.1 mem with rfl | mem
    · exact hv
    · exact hvs u mem

end

theorem settles_evaluate? (h : SettlesInvoke d I) (e : Option Expr) :
    Settles d (Expr.evaluate? I e) Value.Loopless := by
  cases e with
  | none => exact .pure trivial
  | some e => exact settles_evaluate h e

variable {fuel : Nat}

mutual

/-- A statement without loops comes to an end, if the calls in it do. -/
theorem settles_execute (h : SettlesInvoke d I) : ∀ s : Stmt, s.Loopless →
    Settles d (s.execute I fuel) Flow.Loopless
  | .expression value, _ => by
    rw [Stmt.execute]
    exact (settles_evaluate h value).bind fun _ _ => .pure trivial
  | .print keyword value, _ => by
    rw [Stmt.execute]
    exact (settles_evaluate h value).bind fun v _ =>
      (Settles.print keyword.line v.text).bind fun _ _ => .pure trivial
  | .var name initializer, _ => by
    rw [Stmt.execute]
    exact (settles_evaluate? h initializer).bind fun v hv =>
      (Settles.define name hv).bind fun _ _ => .pure trivial
  | .block body, loopless => by
    rw [Stmt.execute]
    exact (settles_executeAll h body loopless).inNewFrame
  | .ifThen condition yes none, loopless => by
    rw [Stmt.execute]
    exact (settles_evaluate h condition).bind fun _ _ =>
      .ite (fun _ => settles_execute h yes loopless) fun _ => .pure trivial
  | .ifThen condition yes (some no), loopless => by
    rw [Stmt.execute]
    exact (settles_evaluate h condition).bind fun _ _ =>
      .ite (fun _ => settles_execute h yes loopless.1) fun _ => settles_execute h no loopless.2
  | .whileDo condition body, loopless => absurd loopless id
  | .function name parameters body, loopless => by
    rw [Stmt.execute]
    exact (Settles.closure name parameters loopless).bind fun f hf =>
      (Settles.define name hf).bind fun _ _ => .pure trivial
  | .ret _ value, _ => by
    rw [Stmt.execute]
    exact (settles_evaluate? h value).bind fun _ hv => .pure hv

theorem settles_executeAll (h : SettlesInvoke d I) : ∀ ss : List Stmt, Stmt.LooplessAll ss →
    Settles d (Stmt.executeAll I fuel ss) Flow.Loopless
  | [], _ => by
    rw [Stmt.executeAll]
    exact .pure trivial
  | s :: ss, loopless => by
    rw [Stmt.executeAll]
    refine (settles_execute h s loopless.1).bind fun flow hflow => ?_
    cases flow with
    | normal => exact settles_executeAll h ss loopless.2
    | returned value => exact .pure hflow

end

end Syntax

/-- Calls come to an end with fuel for as many of them as may still become active. The induction is
on the fuel: inside the call there is less of it, but one more call is active. -/
theorem settles_invoke {d fuel : Nat} (enough : maxCalls ≤ d + fuel) :
    SettlesInvoke d (invoke fuel) := by
  induction fuel generalizing d with
  | zero =>
    intro allowed
    omega
  | succ fuel ih =>
    intro allowed f arguments hf ha
    have inner : SettlesInvoke (d + 1) (invoke fuel) := ih (by omega)
    rw [invoke]
    have bindings := Bindings.Carry.parameters f.parameters fun v mem => Value.loopless_iff.1 (ha v mem)
    refine (Settles.newFrame f.env (Bindings.loopless_iff.2 bindings)).bind fun frame _ => ?_
    refine ((settles_executeAll inner f.body hf).inFrame frame).bind fun flow hflow => ?_
    exact .pure hflow.result

theorem settles_runProgram {fuel : Nat} (enough : maxCalls ≤ fuel) : ∀ program : List Stmt,
    Stmt.LooplessAll program → Settles 0 (runProgram fuel program) fun _ => True
  | [], _ => .pure trivial
  | s :: program, loopless => by
    have calls : SettlesInvoke 0 (invoke fuel) := settles_invoke (by omega)
    rw [runProgram]
    exact (settles_execute calls s loopless.1).bind fun _ _ =>
      settles_runProgram enough program loopless.2

/-! ## Sessions -/

namespace Session

variable {session : Session} {source : String} {fuel : Nat}

/-- A program without loops ends, and leaves none behind. -/
theorem run_ends (h : session.machine.Loopless 0) (enough : maxCalls ≤ fuel)
    (loopless : LooplessText source) : (session.run fuel source).1 ≠ .error .outOfFuel ∧
      (session.run fuel source).2.machine.Loopless 0 := by
  obtain ⟨m, firstId⟩ := session
  unfold run
  dsimp only
  cases checked : Checked.ofSource firstId source with
  | mk result nextId =>
    cases result with
    | error failure =>
      -- checking a program takes no fuel
      obtain ⟨_, rfl⟩ | ⟨_, rfl⟩ | ⟨_, rfl⟩ := Checked.ofSource_error checked <;>
        exact ⟨by simp, h⟩
    | ok c =>
      have program := loopless firstId nextId c checked
      have ends := settles_runProgram enough c.program program (m.learn c.distances)
        ⟨h.depth, h.frames⟩
      unfold Ends at ends
      dsimp only
      split at ends
      · rename_i ran
        rw [ran]
        exact ⟨by simp, ends.2⟩
      · rename_i halt _ ran
        rw [ran]
        refine ⟨?_, ends.2⟩
        cases halt with
        | failure e => simp [failureOf]
        | outOfFuel => exact absurd rfl ends.1

theorem loopless_start (limit : Option Nat) : (start limit).machine.Loopless 0 :=
  ⟨rfl, Frames.loopless_iff.2 (.start limit)⟩

/-- **Without loops every program ends.** In a session whose programs have no loops no run wants for
fuel, if there is as much as calls may be active at once. More of it changes nothing. -/
theorem runAll_ends (limit : Option Nat) (programs : List (Nat × String))
    (enough : ∀ p ∈ programs, maxCalls ≤ p.1) (loopless : ∀ p ∈ programs, LooplessText p.2) :
    (∀ result ∈ (runAll programs (start limit)).1, result ≠ .error .outOfFuel) ∧
      runAll programs (start limit) =
        runAll (programs.map fun p => (maxCalls, p.2)) (start limit) := by
  suffices ∀ session : Session, session.machine.Loopless 0 →
      (∀ result ∈ (runAll programs session).1, result ≠ .error .outOfFuel) ∧
        runAll programs session = runAll (programs.map fun p => (maxCalls, p.2)) session from
    this _ (loopless_start limit)
  induction programs with
  | nil =>
    intro session _
    exact ⟨fun result mem => absurd mem List.not_mem_nil, rfl⟩
  | cons p programs ih =>
    intro session h
    obtain ⟨fuel, source⟩ := p
    obtain ⟨le, enough⟩ := List.forall_mem_cons.1 enough
    obtain ⟨first, loopless⟩ := List.forall_mem_cons.1 loopless
    obtain ⟨ended, behind⟩ := run_ends h (Nat.le_refl maxCalls) first
    have same : session.run fuel source = session.run maxCalls source := run_eq_of_le le ended
    obtain ⟨others, same'⟩ := ih enough loopless (session.run maxCalls source).2 behind
    simp only [runAll, List.map_cons, same]
    rw [← same']
    refine ⟨fun result mem => ?_, rfl⟩
    rcases List.mem_cons.1 mem with rfl | mem
    · exact ended
    · exact others result mem

/-- A function that calls what it is given is given itself by a later program. -/
def selfApplication : List (Nat × String) :=
  [(maxCalls, "fun f(g) \x7b g(g); \x7d"), (300, "f(f);")]

/-- It calls itself until there are too many calls, and so ends. -/
theorem runAll_ends_selfApplication :
    (∀ p ∈ selfApplication, maxCalls ≤ p.1) ∧ (∀ p ∈ selfApplication, LooplessText p.2) ∧
      ∀ result ∈ (runAll selfApplication (start none)).1, result ≠ .error .outOfFuel := by
  have enough : ∀ p ∈ selfApplication, maxCalls ≤ p.1 := by decide
  have loopless : ∀ p ∈ selfApplication, LooplessText p.2 := by
    have first : LooplessText "fun f(g) \x7b g(g); \x7d" :=
      looplessText_of_tokens (by decide +kernel)
    have second : LooplessText "f(f);" := looplessText_of_tokens (by decide +kernel)
    simp [selfApplication, first, second]
  exact ⟨enough, loopless, (runAll_ends none selfApplication enough loopless).1⟩

end Session

end Lox
