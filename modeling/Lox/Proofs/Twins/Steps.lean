import Lox.Proofs.Twins.Relation

/-!
# The same steps on twin machines

What reading, assigning and declaring do to two machines that are the same but for the places of
their programs.

* `Agree` — two parts of a run end the same way; `Agree.bind` — so does one after the other.
* `Related.read`, `Related.write`, `Related.print` — the same happens on both machines.
* `Related.closure` — a function that is declared stands where its program does.
* `Agree.inFrame`, `Agree.duringCall` — what is put back is so on both machines.
-/

namespace Lox.Twins

open Trace (Call State Stop atHome silently observed)

variable {S : Setting} {F F' : Functions} {w w' : State} {m m' : Machine} {k : Nat}
variable {calls : List Call}
variable {α β γ δ : Type} {post : Functions → α → β → Prop} {post' : Functions → γ → δ → Prop}

/-- Both parts of a run give results that belong together, or both halt for the same reason, on the
line that is reported of either program. -/
inductive Agree (S : Setting) (F : Functions) (post : Functions → α → β → Prop) :
    EStateM.Result Stop State α → EStateM.Result Halt Machine β → Prop where
  | ok {a : α} {b : β} {w' : State} {m' : Machine} (grows : F.Grows (.of w'))
      (related : Related S w' m') (holds : post (.of w') a b) : Agree S F post (.ok a w') (.ok b m')
  | halt {stop : Stop} {w' : State} {m' : Machine} (grows : F.Grows (.of w'))
      (related : Related S w' m') : Agree S F post (.error stop w') (.error (S.halt stop) m')

namespace Agree

theorem pure {a : α} {b : β} (h : Related S w m) (holds : post (.of w) a b) :
    Agree S (.of w) post (.ok a w) (.ok b m) :=
  .ok (.refl _) h holds

theorem halted (halt : Halt) (h : Related S w m) :
    Agree S (.of w) post (.error ⟨halt, calls⟩ w) (.error (S.halt ⟨halt, calls⟩) m) :=
  .halt (.refl _) h

/-- Later parts of a run start where earlier ones end. -/
theorem after {r : EStateM.Result Stop State α} {r' : EStateM.Result Halt Machine β}
    (grows : F.Grows F') (h : Agree S F' post r r') : Agree S F post r r' := by
  cases h with
  | ok grows' related holds => exact .ok (grows.trans grows') related holds
  | halt grows' related => exact .halt (grows.trans grows') related

/-- Parts that agree may be followed by parts that do. -/
theorem bind {x : Trace α} {y : Eval β} {f : α → Trace γ} {g : β → Eval δ}
    (h : Agree S (.of w) post (x w) (y m))
    (next : ∀ a b w' m', (Functions.of w).Grows (.of w') → Related S w' m' → post (.of w') a b →
      Agree S (.of w') post' (f a w') (g b m')) :
    Agree S (.of w) post' ((x >>= f) w) ((y >>= g) m) := by
  show Agree S (.of w) post' (EStateM.bind x f w) (EStateM.bind y g m)
  unfold EStateM.bind
  generalize x w = r, y m = r' at h ⊢
  cases h with
  | ok grows related holds => exact (next _ _ _ _ grows related holds).after grows
  | halt grows related => exact .halt grows related

/-- Noting down the beginning and the end makes no difference. -/
theorem observed {x : Trace α} {r : EStateM.Result Halt Machine β}
    (h : Agree S F post (x (w.pass calls)) r) : Agree S F post (observed calls x w) r := by
  unfold Trace.observed
  generalize x (w.pass calls) = r' at h ⊢
  cases h with
  | ok grows related holds => exact .ok grows (related.pass calls) holds
  | halt grows related => exact .halt grows (related.pass calls)

theorem inFrame {x : Trace α} {y : Eval β} (h : Related S w m) (frame : FrameId)
    (body : Agree S F post (x { w with machine := { w.machine with current := frame } })
      (y { m with current := frame })) :
    Agree S F post (Trace.inFrame frame x w) (Eval.inFrame frame y m) := by
  unfold Trace.inFrame Eval.inFrame
  dsimp only
  generalize x { w with machine := { w.machine with current := frame } } = r,
    y { m with current := frame } = r' at body ⊢
  cases body with
  | ok grows related holds => exact .ok grows { related with current := h.current } holds
  | halt grows related => exact .halt grows { related with current := h.current }

/-- The calls are counted down on one machine, and on the other one the number from before is put
back. It is the same since calls restore it. -/
theorem duringCall {x : Trace α} {y : Eval β} (restores : Restores y)
    (body : Agree S F post
      (x { w with machine := { w.machine with depth := w.machine.depth + 1 } })
      (y { m with depth := m.depth + 1 })) :
    Agree S F post (Trace.duringCall x w) (Eval.duringCall y m) := by
  have restored := restores { m with depth := m.depth + 1 }
  unfold Ends at restored
  unfold Trace.duringCall Eval.duringCall
  dsimp only
  generalize x { w with machine := { w.machine with depth := w.machine.depth + 1 } } = r,
    y { m with depth := m.depth + 1 } = r' at body restored ⊢
  cases body with
  | @ok a b w' m' grows related holds =>
    have depth : m.depth = w'.machine.depth - 1 := by
      rw [← related.depth, restored.depth, Nat.add_sub_cancel]
    exact .ok grows { related with depth := depth } holds
  | @halt stop w' m' grows related =>
    have depth : m.depth = w'.machine.depth - 1 := by
      rw [← related.depth, restored.depth, Nat.add_sub_cancel]
    exact .halt grows { related with depth := depth }

end Agree

/-! ## The steps -/

namespace Related

theorem fail (h : Related S w m) (line : Nat) (cause : RuntimeError.Cause) :
    Agree S (.of w) post (silently calls (Eval.fail line cause) w)
      (Eval.fail (line + S.linesAt (atHome calls)) cause m) :=
  .halted (.failure ⟨cause, line⟩) h

theorem outOfFuel (h : Related S w m) :
    Agree S (.of w) post (silently calls Eval.outOfFuel w) (Eval.outOfFuel m) :=
  .halted .outOfFuel h

theorem orFail {r r' : Except RuntimeError.Cause Value} (h : Related S w m) (line : Nat)
    (same : SameResult S (.of w) r r') :
    Agree S (.of w) (SameValue S) (silently calls (Eval.orFail line r) w)
      (Eval.orFail (line + S.linesAt (atHome calls)) r' m) := by
  cases same with
  | ok same => exact .pure h same
  | error cause => exact h.fail line cause

theorem read {id : RefId} (h : Related S w m) (name : Token)
    (distance : S.locals'[id + k]? = S.locals[id]?) :
    Agree S (.of w) (SameValue S) (silently calls (Eval.read id name) w)
      (Eval.read (id + k) (name.moved (S.shiftAt (atHome calls) k)) m) := by
  unfold silently Eval.read
  rw [Token.lexeme_moved, h.holder?_eq distance]
  cases w.machine.holder? id name.lexeme with
  | none => exact h.fail name.line _
  | some i =>
    have same := (h.frames.bindings i).lookup name.lexeme
    simp only [Option.bind_some]
    generalize (w.machine.frames.bindings i).lookup name.lexeme = v,
      (m.frames.bindings i).lookup name.lexeme = v' at same
    cases same with
    | none => exact h.fail name.line _
    | some same => exact .pure h same

theorem write {id : RefId} {v v' : Value} (h : Related S w m) (name : Token)
    (distance : S.locals'[id + k]? = S.locals[id]?) (same : SameValue S (.of w) v v') :
    Agree S (.of w) (fun _ (_ _ : Unit) => True) (silently calls (Eval.write id name v) w)
      (Eval.write (id + k) (name.moved (S.shiftAt (atHome calls) k)) v' m) := by
  unfold silently Eval.write
  rw [Token.lexeme_moved, h.holder?_eq distance]
  cases w.machine.holder? id name.lexeme with
  | none => exact h.fail name.line _
  | some i => exact .ok (.refl _) { h with frames := h.frames.define i name.lexeme same } trivial

theorem define {v v' : Value} (h : Related S w m) (name : Token) (d : Shift)
    (same : SameValue S (.of w) v v') :
    Agree S (.of w) (fun _ (_ _ : Unit) => True) (silently calls (Eval.define name v) w)
      (Eval.define (name.moved d) v' m) := by
  have frames : SameFrames S (.of w) (w.machine.frames.define w.machine.current name.lexeme v)
      (m.frames.define m.current name.lexeme v') := by
    rw [h.current]
    exact h.frames.define _ _ same
  exact .ok (.refl _) { h with frames := frames } trivial

theorem print {v v' : Value} (h : Related S w m) (line : Nat) (same : SameValue S (.of w) v v') :
    Agree S (.of w) (fun _ (_ _ : Unit) => True) (silently calls (Eval.print line v.text) w)
      (Eval.print (line + S.linesAt (atHome calls)) v'.text m) := by
  unfold silently Eval.print
  rw [same.alike.text_eq, h.sink]
  obtain ⟨fits, sink⟩ := w.machine.sink.write (v.text ++ "\n")
  have after : Related S { w with machine := { w.machine with sink := sink } }
    { m with sink := sink } := { h with sink := rfl }
  cases fits with
  | true => exact .ok (.refl _) after trivial
  | false => exact after.fail line .sinkFull

/-- A new frame has the same number on both machines. -/
theorem newFrame {bindings bindings' : Bindings} (h : Related S w m) (parent : FrameId)
    (same : bindings.Rel (SameValue S (.of w)) bindings') :
    Agree S (.of w) (fun _ frame frame' => frame' = frame)
      (silently calls (Eval.newFrame parent bindings) w) (Eval.newFrame parent bindings' m) :=
  .ok (.refl _) { h with frames := h.frames.push parent same } h.frames.size

/-- The function that is declared is moved as the part of the program is that declares it. -/
theorem closure {body : List Stmt} (h : Related S w m) (name : Token) (parameters : List Token)
    (agrees : S.Agrees k (Stmt.referencesAll body)) :
    Agree S (.of w) (SameValue S)
      ((Trace.adopt calls >>= fun _ => silently calls (Eval.closure name parameters body)) w)
      (Eval.closure (name.moved (S.shiftAt (atHome calls) k))
        (parameters.map (Token.moved (S.shiftAt (atHome calls) k)))
        (Stmt.movedAll (S.shiftAt (atHome calls) k) body) m) := by
  show Agree S (.of w) (SameValue S) (.ok _ _) (.ok _ _)
  rw [h.nextIdentity, h.current]
  have grows : (Functions.of w).Grows ⟨w.machine.nextIdentity + 1,
      if atHome calls then w.machine.nextIdentity :: w.own else w.own⟩ := by
    refine ⟨Nat.le_succ _, fun i hi => ?_⟩
    have : i ≠ w.machine.nextIdentity := Nat.ne_of_lt hi
    by_cases home : atHome calls <;> simp [home, Functions.of, this]
  have own : (if atHome calls then w.machine.nextIdentity :: w.own else w.own).contains
      w.machine.nextIdentity = atHome calls := by
    have : w.machine.nextIdentity ∉ w.own := fun mem => Nat.lt_irrefl _ (h.own_lt _ mem)
    by_cases home : atHome calls <;> simp [home, this]
  have own_lt : ∀ i ∈ (if atHome calls then w.machine.nextIdentity :: w.own else w.own),
      i < w.machine.nextIdentity + 1 := by
    intro i hi
    split at hi
    · rcases List.mem_cons.1 hi with rfl | old
      · exact Nat.lt_succ_self _
      · exact Nat.lt_succ_of_lt (h.own_lt i old)
    · exact Nat.lt_succ_of_lt (h.own_lt i hi)
  refine .ok grows ?_ (.function ⟨Nat.lt_succ_self _, k, agrees, ?_⟩)
  · exact { h with
      frames := h.frames.mono grows, current := rfl, nextIdentity := rfl, own_lt := own_lt }
  · show _ = Closure.moved (S.shiftAt (List.contains (if _ then _ else _) _) k) _
    rw [own]
    rfl

end Related

end Lox.Twins
