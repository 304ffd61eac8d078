import Lox.Proofs.Machine.Trace

/-!
# Calls in progress

The machine's number of active calls is the number of calls in progress, at every moment of every
run. It never exceeds the limit, and a run stops for too many calls exactly if it attempts one
while there are as many as allowed.

* `Trace.Event.Counted`, `Trace.Event.Overflows` — what is said of one moment, and of one attempt.
* `Trace.Counts` — what is said of the moments from one state of a run to another.
* `Trace.counted_execute`, `Trace.counted_invoke` — it holds of statements and calls.
* `Session.runAll_orderly` — frames and calls are put back on every way out, and counted in between.
-/

namespace Lox

/-- The line on which a run was stopped because of too many calls, if it was. -/
def Halt.overflow? : Halt → Option Nat
  | .failure ⟨.stackOverflow, line⟩ => some line
  | _ => none

theorem Halt.overflow?_eq_some {halt : Halt} {line : Nat} :
    halt.overflow? = some line ↔ halt = .failure ⟨.stackOverflow, line⟩ := by
  unfold overflow?
  split <;> simp_all

namespace Value

variable {Env : Type}

/-- No operator fails for too many calls. -/
theorem binary_ne_stackOverflow (op : Token) (v w : Value Env) :
    binary op v w ≠ .error .stackOverflow := by
  unfold binary plus arithmetic divide comparison
  intro h
  repeat' split at h
  all_goals cases h

theorem unary_ne_stackOverflow (op : Token) (v : Value Env) :
    unary op v ≠ .error .stackOverflow := by
  unfold unary
  intro h
  split at h <;> cases h

end Value

namespace Trace

/-- The machine has counted the calls in progress, and there are no more than allowed. -/
def Event.Counted : Event → Prop
  | .passed calls m => m.depth = calls.length ∧ calls.length ≤ maxCalls
  | .attempted calls _ _ _ => calls.length ≤ maxCalls

/-- A function is called, with an error to be reported on this line, while as many calls as allowed
are in progress. -/
def Event.Overflows (line : Nat) : Event → Prop
  | .passed _ _ => False
  | .attempted calls closing _ _ => calls.length = maxCalls ∧ closing.line = line

/-- From one state of a run to another the calls are counted, and as many are active in the end. A
call was one too many if this is why the run stops. -/
structure Counts (overflow : Option Nat) (w w' : State) : Prop where
  depth : w'.machine.depth = w.machine.depth
  events : ∃ new, w'.events = new ++ w.events ∧ (∀ e ∈ new, e.Counted) ∧
    ∀ line, (∃ e ∈ new, e.Overflows line) ↔ overflow = some line

namespace Counts

variable {overflow : Option Nat} {w w' w'' : State} {calls : List Call}

/-- Nothing is noted down. -/
theorem silent (depth : w'.machine.depth = w.machine.depth) (events : w'.events = w.events) :
    Counts none w w' :=
  ⟨depth, [], events, by simp, by simp⟩

theorem trans (h : Counts none w w') (h' : Counts overflow w' w'') : Counts overflow w w'' := by
  obtain ⟨depth, new, events, counted, overflows⟩ := h
  obtain ⟨depth', new', events', counted', overflows'⟩ := h'
  refine ⟨depth'.trans depth, new' ++ new, by rw [events', events, List.append_assoc], ?_, ?_⟩
  · intro e mem
    exact (List.mem_append.1 mem).elim (counted' e) (counted e)
  · intro line
    rw [← overflows' line]
    constructor
    · rintro ⟨e, mem, he⟩
      rcases List.mem_append.1 mem with mem | mem
      · exact ⟨e, mem, he⟩
      · have never := (overflows line).1 ⟨e, mem, he⟩
        cases never
    · rintro ⟨e, mem, he⟩
      exact ⟨e, List.mem_append_left new mem, he⟩

/-- One moment passes. -/
theorem pass (depth : w.machine.depth = calls.length) (few : calls.length ≤ maxCalls) :
    Counts none w (w.pass calls) := by
  refine ⟨rfl, [.passed calls w.machine], rfl, ?_, ?_⟩
  · intro e mem
    cases List.mem_singleton.1 mem
    exact ⟨depth, few⟩
  · intro line
    simp [Event.Overflows]

theorem passing (h : Counts overflow w w') (depth : w.machine.depth = calls.length)
    (few : calls.length ≤ maxCalls) : Counts overflow w (w'.pass calls) := by
  obtain ⟨same, new, events, counted, overflows⟩ := h
  refine ⟨same, .passed calls w'.machine :: new, congrArg (_ :: ·) events, ?_, fun line => ?_⟩
  · intro e mem
    rcases List.mem_cons.1 mem with rfl | mem
    · exact ⟨same.trans depth, few⟩
    · exact counted e mem
  · simp [Event.Overflows, ← overflows line]

/-- A function is called while as many calls as allowed are in progress, or while there are
fewer. -/
theorem attempt (few : calls.length ≤ maxCalls) (closing : Token) (f : Closure)
    (arguments : List Value) :
    Counts (if maxCalls ≤ calls.length then some closing.line else none) w
      { w with events := .attempted calls closing f arguments :: w.events } := by
  refine ⟨rfl, [.attempted calls closing f arguments], rfl, ?_, ?_⟩
  · intro e mem
    cases List.mem_singleton.1 mem
    exact few
  · intro line
    by_cases full : maxCalls ≤ calls.length
    · have all : calls.length = maxCalls := Nat.le_antisymm few full
      simp [Event.Overflows, all]
    · have fewer : calls.length ≠ maxCalls := by omega
      simp [Event.Overflows, full, fewer]

end Counts

/-- What happens during these calls is counted right, however it ends. -/
def Counted {α : Type} (calls : List Call) (x : Trace α) : Prop :=
  ∀ w, w.machine.depth = calls.length →
    Ends x w (fun _ => Counts none w) fun stop => Counts stop.halt.overflow? w

/-- The computation does not stop for too many calls. -/
def Shallow {α : Type} (part : Eval α) : Prop :=
  ∀ m, Ends part m (fun _ _ => True) fun halt _ => halt.overflow? = none

namespace Shallow

variable {α : Type}

theorem fail {line : Nat} {cause : RuntimeError.Cause} (h : cause ≠ .stackOverflow) :
    Shallow (Eval.fail line cause : Eval α) := by
  intro m
  show (Halt.failure ⟨cause, line⟩).overflow? = none
  cases cause <;> first | rfl | exact absurd rfl h

theorem outOfFuel : Shallow (Eval.outOfFuel : Eval α) := fun _ => rfl

theorem orFail {line : Nat} {r : Except RuntimeError.Cause α} (h : r ≠ .error .stackOverflow) :
    Shallow (Eval.orFail line r) := by
  cases r with
  | ok a => exact fun _ => trivial
  | error cause => exact .fail fun same => h (congrArg Except.error same)

theorem newFrame (parent : FrameId) (bindings : Bindings) :
    Shallow (Eval.newFrame parent bindings) := fun _ => trivial

theorem define (name : Token) (value : Value) : Shallow (Eval.define name value) := fun _ => trivial

theorem closure (name : Token) (parameters : List Token) (body : List Stmt) :
    Shallow (Eval.closure name parameters body) := fun _ => trivial

theorem read (id : RefId) (name : Token) : Shallow (Eval.read id name) := by
  intro m
  unfold Ends Eval.read Eval.fail
  cases (m.holder? id name.lexeme).bind fun i => (m.frames.bindings i).lookup name.lexeme with
  | some value => trivial
  | none => rfl

theorem write (id : RefId) (name : Token) (value : Value) : Shallow (Eval.write id name value) := by
  intro m
  unfold Ends Eval.write Eval.fail
  cases m.holder? id name.lexeme with
  | some i => trivial
  | none => rfl

theorem print (line : Nat) (text : String) : Shallow (Eval.print line text) := by
  intro m
  unfold Ends Eval.print Eval.fail
  cases m.sink.write (text ++ "\n") with
  | mk fits sink => cases fits <;> trivial

end Shallow

namespace Counted

variable {α β : Type} {calls : List Call} {x : Trace α}

theorem pure (a : α) : Counted calls (Pure.pure a : Trace α) := fun _ _ => .silent rfl rfl

theorem bind {f : α → Trace β} (h : Counted calls x) (next : ∀ a, Counted calls (f a)) :
    Counted calls (x >>= f) := by
  intro w depth
  rw [Ends.bind_iff]
  refine (h w depth).mono (fun a w' first => ?_) fun _ _ => id
  exact (next a w' (first.depth.trans depth)).mono (fun _ _ => first.trans) fun _ _ => first.trans

theorem ite {c : Prop} [Decidable c] {y : Trace α} (hx : Counted calls x) (hy : Counted calls y) :
    Counted calls (if c then x else y) := by
  split
  · exact hx
  · exact hy

theorem silently {part : Eval α} (restores : Restores part) (shallow : Shallow part) :
    Counted calls (silently calls part) := by
  intro w _
  have behind := (restores w.machine).and (shallow w.machine)
  unfold Ends at *
  unfold Trace.silently
  cases hp : part w.machine with
  | ok a m =>
    rw [hp] at behind
    exact .silent behind.1.depth rfl
  | error halt m =>
    rw [hp] at behind
    show Counts halt.overflow? w _
    rw [behind.2]
    exact .silent behind.1.depth rfl

theorem fail {line : Nat} {cause : RuntimeError.Cause} (h : cause ≠ .stackOverflow) :
    Counted calls (Trace.silently calls (Eval.fail line cause) : Trace α) :=
  .silently (.fail line cause) (.fail h)

theorem adopt : Counted calls (adopt calls) := fun _ _ => .silent rfl rfl

theorem observed (h : Counted calls x) (few : calls.length ≤ maxCalls) :
    Counted calls (observed calls x) := by
  intro w depth
  have inside := h (w.pass calls) depth
  have first : Counts none w (w.pass calls) := .pass depth few
  unfold Ends at *
  unfold Trace.observed
  cases hx : x (w.pass calls) <;> rw [hx] at inside <;>
    exact (first.trans inside).passing depth few

theorem inFrame (h : Counted calls x) (frame : FrameId) : Counted calls (inFrame frame x) := by
  intro w depth
  have inside := h { w with machine := { w.machine with current := frame } } depth
  unfold Ends at *
  unfold Trace.inFrame
  dsimp only
  cases hx : x { w with machine := { w.machine with current := frame } } <;>
    rw [hx] at inside <;> exact ⟨inside.depth, inside.events⟩

/-- A part of a run with one more call in progress. Where it ends, the call is no longer counted. -/
theorem duringCall {call : Call} (h : Counted (call :: calls) x) (w : State)
    (depth : w.machine.depth = calls.length) :
    Ends (duringCall x) w (fun _ => Counts none w) fun stop => Counts stop.halt.overflow? w := by
  have inside := h { w with machine := { w.machine with depth := w.machine.depth + 1 } }
    (congrArg (· + 1) depth)
  unfold Ends at *
  unfold Trace.duringCall
  dsimp only
  cases hx : x { w with machine := { w.machine with depth := w.machine.depth + 1 } } <;>
    rw [hx] at inside <;> exact ⟨congrArg (· - 1) inside.depth, inside.events⟩

end Counted

/-- Running the bodies of functions is counted right, as long as there are not too many calls. -/
def CountedInvoke (J : Invoke) : Prop :=
  ∀ calls f arguments, calls.length ≤ maxCalls → Counted calls (J calls f arguments)

variable {J : Invoke} {calls : List Call}

/-- An attempt is noted down. It is one too many if as many calls as allowed are in progress, which
is just when the machine refuses it. -/
theorem counted_call (h : CountedInvoke J) (few : calls.length ≤ maxCalls) (closing : Token)
    (f : Closure) (arguments : List Value) : Counted calls (call J calls closing f arguments) := by
  intro w depth
  unfold call
  by_cases count : arguments.length = f.parameters.length
  · rw [if_neg (not_not_intro count), Ends.bind_iff]
    have attempted := Counts.attempt (w := w) few closing f arguments
    show Ends (if maxCalls ≤ w.machine.depth then _ else _ : Trace Value) _ _ _
    rw [depth]
    split
    · rename_i full
      rw [if_pos full] at attempted
      exact attempted
    · rename_i free
      rw [if_neg free] at attempted
      have room : (⟨f, w.own.contains f.identity⟩ :: calls : List Call).length ≤ maxCalls :=
        Nat.lt_of_not_le free
      have inside := ((h _ f arguments room).observed room).duringCall _
        (attempted.depth.trans depth)
      exact inside.mono (fun _ _ => attempted.trans) fun _ _ => attempted.trans
  · rw [if_pos count]
    exact Counted.fail (by simp) w depth

mutual

theorem counted_evaluate (h : CountedInvoke J) (few : calls.length ≤ maxCalls) : ∀ e : Expr,
    Counted calls (evaluate J calls e)
  | .literal value => by
    rw [evaluate]
    exact (Counted.pure _).observed few
  | .grouping inner => by
    rw [evaluate]
    exact (counted_evaluate h few inner).observed few
  | .unary op right => by
    rw [evaluate]
    exact ((counted_evaluate h few right).bind fun v =>
      .silently (.orFail _ _) (.orFail (Value.unary_ne_stackOverflow op v))).observed few
  | .binary left op right => by
    rw [evaluate]
    exact ((counted_evaluate h few left).bind fun v => (counted_evaluate h few right).bind fun w =>
      .silently (.orFail _ _) (.orFail (Value.binary_ne_stackOverflow op v w))).observed few
  | .logical left op right => by
    rw [evaluate]
    exact ((counted_evaluate h few left).bind fun _ =>
      .ite (.pure _) (counted_evaluate h few right)).observed few
  | .var id name => by
    rw [evaluate]
    exact (Counted.silently (.read id name) (.read id name)).observed few
  | .assign id target value => by
    rw [evaluate]
    exact ((counted_evaluate h few value).bind fun v =>
      (Counted.silently (.write id target v) (.write id target v)).bind fun _ => .pure v).observed few
  | .call callee closing arguments => by
    rw [evaluate]
    refine ((counted_evaluate h few callee).bind fun v => ?_).observed few
    cases v with
    | function f =>
      exact (counted_evaluateAll h few arguments).bind fun vs => counted_call h few closing f vs
    | _ => exact .fail (by simp)

theorem counted_evaluateAll (h : CountedInvoke J) (few : calls.length ≤ maxCalls) :
    ∀ es : List Expr, Counted calls (evaluateAll J calls es)
  | [] => .pure _
  | e :: es => by
    rw [evaluateAll]
    exact (counted_evaluate h few e).bind fun _ => (counted_evaluateAll h few es).bind fun _ =>
      .pure _

end

theorem counted_evaluate? (h : CountedInvoke J) (few : calls.length ≤ maxCalls) (e : Option Expr) :
    Counted calls (evaluate? J calls e) := by
  cases e with
  | none => exact .pure _
  | some e => exact counted_evaluate h few e

theorem counted_repeatWhile {condition : Trace Value} {body : Trace Flow}
    (holds : Counted calls condition) (round : Counted calls body) (fuel : Nat) :
    Counted calls (repeatWhile calls condition body fuel) := by
  induction fuel with
  | zero => exact .silently .outOfFuel .outOfFuel
  | succ fuel ih =>
    rw [repeatWhile]
    refine holds.bind fun _ => .ite (round.bind fun flow => ?_) (.pure _)
    cases flow with
    | normal => exact ih
    | returned value => exact .pure _

mutual

theorem counted_execute (h : CountedInvoke J) (few : calls.length ≤ maxCalls) (fuel : Nat) :
    ∀ s : Stmt, Counted calls (execute J calls fuel s)
  | .expression value => by
    rw [execute]
    exact ((counted_evaluate h few value).bind fun _ => .pure _).observed few
  | .print keyword value => by
    rw [execute]
    exact ((counted_evaluate h few value).bind fun v =>
      (Counted.silently (.print _ _) (.print _ _)).bind fun _ => .pure _).observed few
  | .var name initializer => by
    rw [execute]
    exact ((counted_evaluate? h few initializer).bind fun v =>
      (Counted.silently (.define name v) (.define name v)).bind fun _ => .pure _).observed few
  | .block body => by
    rw [execute]
    refine Counted.observed (fun w => ?_) few
    exact ((Counted.silently (.newFrame w.machine.current []) (.newFrame _ _)).bind fun frame =>
      (counted_executeAll h few fuel body).inFrame frame) w
  | .ifThen condition yes none => by
    rw [execute]
    exact ((counted_evaluate h few condition).bind fun _ =>
      .ite (counted_execute h few fuel yes) (.pure _)).observed few
  | .ifThen condition yes (some no) => by
    rw [execute]
    exact ((counted_evaluate h few condition).bind fun _ =>
      .ite (counted_execute h few fuel yes) (counted_execute h few fuel no)).observed few
  | .whileDo condition body => by
    rw [execute]
    exact (counted_repeatWhile (counted_evaluate h few condition)
      (counted_execute h few fuel body) fuel).observed few
  | .function name parameters body => by
    rw [execute]
    exact (Counted.adopt.bind fun _ =>
      (Counted.silently (.closure name parameters body) (.closure _ _ _)).bind fun f =>
        (Counted.silently (.define name f) (.define name f)).bind fun _ => .pure _).observed few
  | .ret _ value => by
    rw [execute]
    exact ((counted_evaluate? h few value).bind fun _ => .pure _).observed few

theorem counted_executeAll (h : CountedInvoke J) (few : calls.length ≤ maxCalls) (fuel : Nat) :
    ∀ ss : List Stmt, Counted calls (executeAll J calls fuel ss)
  | [] => .pure _
  | s :: ss => by
    rw [executeAll]
    refine (counted_execute h few fuel s).bind fun flow => ?_
    cases flow with
    | normal => exact counted_executeAll h few fuel ss
    | returned value => exact .pure _

end

/-- Calls are counted right, with whatever fuel. -/
theorem counted_invoke (fuel : Nat) : CountedInvoke (invoke fuel) := by
  induction fuel with
  | zero => exact fun _ _ _ _ => .silently .outOfFuel .outOfFuel
  | succ fuel ih =>
    intro calls f arguments few
    rw [invoke]
    exact (Counted.silently (.newFrame _ _) (.newFrame _ _)).bind fun frame =>
      ((counted_executeAll ih few fuel f.body).inFrame frame).bind fun _ => .pure _

theorem counted_runProgram (fuel : Nat) (program : List Stmt) :
    Counted [] (runProgram fuel program) := by
  induction program with
  | nil => exact .pure _
  | cons s program ih =>
    rw [runProgram]
    exact (counted_execute (counted_invoke fuel) (Nat.zero_le _) fuel s).bind fun _ => ih

/-- A run puts frames and calls back, has counted the calls at every moment, and is stopped for too
many calls exactly if it has attempted one too many. -/
structure Run.Orderly (r : Run) : Prop where
  current : r.session.machine.current = globalFrame
  depth : r.session.machine.depth = 0
  counted : ∀ e ∈ r.events, e.Counted
  overflow : ∀ line, r.result = .error (.runtime ⟨.stackOverflow, line⟩) ↔
    ∃ e ∈ r.events, e.Overflows line

/-- What has happened from the start of a run is all that is noted down. -/
theorem Counts.of_start {overflow : Option Nat} {m : Machine} {w : State}
    (h : Counts overflow (.start m) w) :
    (∀ e ∈ w.events, e.Counted) ∧ ∀ line, overflow = some line ↔ ∃ e ∈ w.events, e.Overflows line := by
  obtain ⟨-, new, events, counted, overflows⟩ := h
  rw [events, State.start, List.append_nil]
  exact ⟨counted, fun line => (overflows line).symm⟩

/-- A run from the outermost frame with no call in progress is orderly, whatever it runs. -/
theorem run_orderly (fuel : Nat) (source : String) {s : Session}
    (current : s.machine.current = globalFrame) (depth : s.machine.depth = 0) :
    (run fuel source s).Orderly := by
  obtain ⟨m, firstId⟩ := s
  unfold run
  cases checked : Checked.ofSource firstId source with
  | mk result nextId =>
    cases result with
    | error failure =>
      refine ⟨current, depth, by simp, fun line => ?_⟩
      have static : failure ≠ .runtime ⟨.stackOverflow, line⟩ := by
        rintro rfl
        unfold Checked.ofSource at checked
        repeat' split at checked
        all_goals cases checked
      simp [static]
    | ok c =>
      have counts := counted_runProgram fuel c.program (.start (m.learn c.distances)) depth
      have restored := restores_runProgram fuel c.program (m.learn c.distances)
      have same := shows_runProgram fuel c.program (.start (m.learn c.distances))
      dsimp only
      unfold Ends at counts restored
      rw [← show _ = Lox.runProgram fuel c.program (m.learn c.distances) from same] at restored
      cases hw : runProgram fuel c.program (.start (m.learn c.distances)) with
      | ok _ w =>
        rw [hw] at counts restored
        obtain ⟨counted, overflows⟩ := counts.of_start
        refine ⟨restored.current.trans current, restored.depth.trans depth, counted, fun line => ?_⟩
        rw [← overflows line]
        simp
      | error stop w =>
        rw [hw] at counts restored
        obtain ⟨counted, overflows⟩ := counts.of_start
        refine ⟨restored.current.trans current, restored.depth.trans depth, counted, fun line => ?_⟩
        rw [← overflows line, Halt.overflow?_eq_some]
        obtain ⟨halt, calls⟩ := stop
        cases halt <;> simp [Session.failureOf]

end Trace

namespace Session

/-- Between two runs of a session the global frame is the current one and no call is active. -/
theorem runAll_current_depth (programs : List (Nat × String)) {s : Session}
    (current : s.machine.current = globalFrame) (depth : s.machine.depth = 0) :
    (s.runAll programs).2.machine.current = globalFrame ∧
      (s.runAll programs).2.machine.depth = 0 := by
  induction programs generalizing s with
  | nil => exact ⟨current, depth⟩
  | cons program programs ih =>
    obtain ⟨fuel, source⟩ := program
    have orderly := Trace.run_orderly fuel source current depth
    have behind : (s.run fuel source).2 = (Trace.run fuel source s).session :=
      congrArg Prod.snd (Trace.run_shows fuel source s)
    exact ih (behind ▸ orderly.current) (behind ▸ orderly.depth)

/-- **Frames and calls are put back on every way out.** Whatever state the machine is in, behind an
expression or a statement the current frame and the number of active calls are as before, however it
ends. Behind every run of a session the global frame is the current one and no call is active. At
every moment of a run the machine has counted the calls in progress, of which there are never too
many; it stops for too many calls exactly if one is attempted while as many as allowed are in
progress. -/
theorem runAll_orderly (limit : Option Nat) (programs : List (Nat × String)) :
    (∀ (fuel : Nat) (e : Expr) (m : Machine),
      Ends (e.evaluate (invoke fuel)) m (fun _ => m.Restored) fun _ => m.Restored) ∧
    (∀ (fuel rounds : Nat) (stmt : Stmt) (m : Machine),
      Ends (stmt.execute (invoke fuel) rounds) m (fun _ => m.Restored) fun _ => m.Restored) ∧
    let s := ((start limit).runAll programs).2
    s.machine.current = globalFrame ∧ s.machine.depth = 0 ∧
      ∀ fuel source, s.run fuel source =
          ((Trace.run fuel source s).result, (Trace.run fuel source s).session) ∧
        (Trace.run fuel source s).Orderly := by
  have ⟨current, depth⟩ := runAll_current_depth programs (s := start limit) rfl rfl
  refine ⟨fun fuel e m => e.restores_evaluate (restores_invoke fuel) m,
    fun fuel rounds stmt m => stmt.restores_execute (restores_invoke fuel) rounds m,
    current, depth, fun fuel source => ?_⟩
  exact ⟨Trace.run_shows fuel source _, Trace.run_orderly fuel source current depth⟩

end Session

end Lox
