/-!
# Endings

What can be said about both ways in which a computation on a state ends. Reading and running are
such computations, and every invariant of theirs is stated as an ending.

* `Ends x s ok stop` — `x`, started in `s`, ends with a result for which `ok` holds or stops
  early with a reason for which `stop` holds.
* `Ends.bind_iff`, `Ends.mono` — the ending of a sequence is that of its parts in turn.
-/

namespace Lox

variable {ε σ α β : Type}

/-- The computation `x` ends in `s` as `ok` or `stop` say. -/
def Ends (x : EStateM ε σ α) (s : σ) (ok : α → σ → Prop) (stop : ε → σ → Prop) : Prop :=
  match x s with
  | .ok a s' => ok a s'
  | .error e s' => stop e s'

namespace Ends

variable {x : EStateM ε σ α} {s : σ} {ok ok' : α → σ → Prop} {stop stop' : ε → σ → Prop}

theorem of_eq_ok {a : α} {s' : σ} (h : x s = .ok a s') : Ends x s ok stop ↔ ok a s' := by
  simp only [Ends, h]

/-- What holds however a computation ends holds of the way it does. -/
theorem ok_of_eq {a : α} {s' : σ} (ho : Ends x s ok stop) (h : x s = .ok a s') : ok a s' :=
  (of_eq_ok h).1 ho

theorem error_of_eq {e : ε} {s' : σ} (ho : Ends x s ok stop) (h : x s = .error e s') :
    stop e s' := by
  simpa only [Ends, h] using ho

/-- A computation that never stops early has a result. -/
theorem exists_ok (ho : Ends x s ok fun _ _ => False) : ∃ a s', x s = .ok a s' ∧ ok a s' := by
  unfold Ends at ho
  split at ho
  · exact ⟨_, _, ‹_›, ho⟩
  · exact ho.elim

theorem mono (ho : Ends x s ok stop) (hok : ∀ a s', ok a s' → ok' a s')
    (hstop : ∀ e s', stop e s' → stop' e s') : Ends x s ok' stop' := by
  unfold Ends at *
  split at ho
  · exact hok _ _ ho
  · exact hstop _ _ ho

theorem and (ho : Ends x s ok stop) (ho' : Ends x s ok' stop') :
    Ends x s (fun a s' => ok a s' ∧ ok' a s') (fun e s' => stop e s' ∧ stop' e s') := by
  unfold Ends at *
  split at ho <;> rename_i h <;> simp only [h] at ho' <;> exact ⟨ho, ho'⟩

/-- It ends as it does. -/
theorem with_eq (ho : Ends x s ok stop) :
    Ends x s (fun a s' => x s = .ok a s' ∧ ok a s') (fun e s' => x s = .error e s' ∧ stop e s') := by
  unfold Ends at *
  split at ho <;> rename_i h <;> exact ⟨h, ho⟩

@[simp] theorem pure_iff {a : α} : Ends (pure a : EStateM ε σ α) s ok stop ↔ ok a s := Iff.rfl

@[simp] theorem bind_iff {f : α → EStateM ε σ β} {ok : β → σ → Prop} :
    Ends (x >>= f) s ok stop ↔
      Ends x s (fun a s' => Ends (f a) s' ok stop) stop := by
  simp only [Ends, bind, EStateM.bind]
  cases x s <;> rfl

@[simp] theorem map_iff {f : α → β} {ok : β → σ → Prop} :
    Ends (f <$> x) s ok stop ↔ Ends x s (fun a s' => ok (f a) s') stop := by
  simp only [Ends, Functor.map, EStateM.map]
  cases x s <;> rfl

end Ends

end Lox
