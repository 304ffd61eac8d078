import Lox.Proofs.Grammar.Steps

/-!
# Errors noted before

Nothing that is read depends on the errors that were noted before.

* `Reader.after` — a reader with more errors in front of its own; `endAfter` — an ending with them.
* `Unaffected`, `unaffected_closed` — they change nothing else in any rule.
* `SameEnd`, `sameEnd_closed` — no rule changes what stands behind the last token.
-/

namespace Lox.Grammar

/-- The reader, had these errors been noted before all others. -/
def Reader.after (earlier : Array ParseError) (r : Reader) : Reader :=
  { r with errors := earlier ++ r.errors }

/-- The same ending, had these errors been noted before all others. -/
def endAfter {α : Type} (earlier : Array ParseError) :
    EStateM.Result Stop Reader α → EStateM.Result Stop Reader α
  | .ok a r => .ok a (r.after earlier)
  | .error stop r => .error stop (r.after earlier)

/-- Errors that were noted before do not change what the computation does. -/
def Unaffected {α : Type} (x : Parse α) : Prop :=
  ∀ earlier r, x (r.after earlier) = endAfter earlier (x r)

namespace Unaffected

variable {α β : Type} {x : Parse α}

theorem bind {f : α → Parse β} (hx : Unaffected x) (hf : ∀ a, Unaffected (f a)) :
    Unaffected (x >>= f) := by
  intro earlier r
  simp only [Bind.bind, EStateM.bind, hx earlier r]
  cases x r with
  | ok a r' => exact hf a earlier r'
  | error stop r' => rfl

theorem deepen : Unaffected deepen := by
  intro earlier r
  unfold Grammar.deepen
  by_cases full : r.limit ≤ r.depth
  · rw [if_pos full, if_pos (show (r.after earlier).limit ≤ (r.after earlier).depth from full)]
    rfl
  · rw [if_neg full, if_neg (show ¬(r.after earlier).limit ≤ (r.after earlier).depth from full)]
    rfl

theorem note (e : ParseError) : Unaffected (note e) := by
  intro earlier r
  simp [Grammar.note, endAfter, Reader.after, Reader.noting]

theorem noteHere (cause : ParseError.Cause) : Unaffected (noteHere cause) := fun earlier r =>
  note (r.errorHere cause) earlier r

theorem levelled (hx : Unaffected x) : Unaffected (levelled x) := by
  intro earlier r
  simp only [Grammar.levelled, hx earlier r]
  cases x r <;> rfl

theorem recover (hx : Unaffected x) : Unaffected (recover x) := by
  intro earlier r
  simp only [Grammar.recover, hx earlier r]
  cases x r with
  | ok a r' => rfl
  | error stop r' =>
    cases stop with
    | fault e => simp [endAfter, Reader.after, Reader.noting]
    | exhausted => rfl

end Unaffected

theorem unaffected_closed : Closed @Unaffected where
  pure _ _ _ := rfl
  bind := Unaffected.bind
  exhausted _ _ := rfl
  fail _ _ _ := rfl
  peek _ _ := rfl
  sees _ _ _ := rfl
  seesLevel _ _ _ := rfl
  atEnd _ _ := rfl
  advance _ _ := rfl
  note := Unaffected.note
  noteHere := Unaffected.noteHere
  freshId _ _ := rfl
  deepen := Unaffected.deepen
  ascend _ _ := rfl
  levelled := Unaffected.levelled
  recover := Unaffected.recover
  measured _ h earlier r := h _ earlier r

/-! ## What stands behind the tokens -/

/-- However the computation ends, the same token stands behind the last one. -/
def SameEnd {α : Type} (x : Parse α) : Prop :=
  ∀ r, Ends x r (fun _ r' => r'.last = r.last) fun _ r' => r'.last = r.last

theorem sameEnd_closed : Closed @SameEnd where
  pure _ _ := rfl
  bind hx hf r := by
    rw [Ends.bind_iff]
    exact (hx r).mono (fun a r' h => (hf a r').mono (fun _ _ => h ▸ id) fun _ _ => h ▸ id)
      fun _ _ => id
  exhausted _ := rfl
  fail _ _ := rfl
  peek _ := rfl
  sees _ _ := rfl
  seesLevel _ _ := rfl
  atEnd _ := rfl
  advance _ := rfl
  note _ _ := rfl
  noteHere _ _ := rfl
  freshId _ := rfl
  deepen r := by
    rw [ends_deepen]
    split <;> rfl
  ascend _ := rfl
  levelled hx r := by
    rw [ends_levelled]
    exact hx r
  recover hx r := by
    rw [ends_recover]
    refine (hx r).mono (fun _ _ h => h) fun stop r' h => ?_
    cases stop <;> exact h
  measured _ h r := h _ r

end Lox.Grammar
