import Lox.Proofs.Machine.Transcript

/-!
# Runs with room for everything

What a program prints is put behind the bytes that are in the sink already. If the sink takes everything,
then these do not matter: neither for what is printed, nor for what else happens.

* `Appends` — a computation puts the same bytes behind whatever there is.
* `appends_closed` — so do all parts of a run.
* `Session.run_appends` — and all runs of programs.
-/

namespace Lox

/-- The machine with a sink that takes everything and has these bytes. -/
def Machine.holding (m : Machine) (bytes : ByteArray) : Machine := m.withSink ⟨bytes, none⟩

@[simp] theorem Machine.holding_holding (m : Machine) (bytes bytes' : ByteArray) :
    (m.holding bytes).holding bytes' = m.holding bytes' := rfl

/-- A sink that takes everything has the bytes that it has. -/
theorem Machine.holding_self {m : Machine} (unlimited : m.sink.limit = none) :
    m.holding m.sink.bytes = m := by
  unfold Machine.holding
  rw [← unlimited]
  rfl

/-- Whatever bytes there are, the same ones get behind them, and the rest is the same as well. -/
def Appends {α : Type} (x : Eval α) : Prop :=
  ∀ m : Machine, ∃ (r : EStateM.Result Halt Machine α) (out : ByteArray), ∀ bytes,
    x (m.holding bytes) = onState (·.holding (bytes ++ out)) r

/-- Every part of a run appends. -/
theorem appends_closed : Transcript.Closed fun _ x => Appends x where
  pure a m := ⟨.ok a m, .empty, fun bytes => by rw [ByteArray.append_empty]; rfl⟩
  bind {_ _ _ x _ g} h next := by
    intro m
    obtain ⟨r, out, first⟩ := h m
    cases r with
    | error halt m' =>
      refine ⟨.error halt m', out, fun bytes => ?_⟩
      show EStateM.bind x g (m.holding bytes) = _
      rw [EStateM.bind, first]
      rfl
    | ok a m' =>
      obtain ⟨r', out', second⟩ := next a m'
      refine ⟨r', out ++ out', fun bytes => ?_⟩
      show EStateM.bind x g (m.holding bytes) = _
      rw [EStateM.bind, first, ← ByteArray.append_assoc]
      exact second (bytes ++ out)
  quietly {_ step} quiet := by
    intro m
    refine ⟨step m, .empty, fun bytes => ?_⟩
    rw [ByteArray.append_empty]
    exact quiet m ⟨bytes, none⟩
  say keyword text m := ⟨.ok () m, (text ++ "\n").toUTF8, fun _ => rfl⟩
  within {_ enter leave _ x} apart h := by
    intro m
    obtain ⟨r, out, inner⟩ := h (enter m)
    refine ⟨onState (leave m) r, out, fun bytes => ?_⟩
    have entered : enter (m.holding bytes) = (enter m).holding bytes := apart.enter m _
    unfold Eval.within
    rw [entered, inner]
    cases r with
    | ok a m' => exact congrArg (EStateM.Result.ok a) (apart.leave m m' _ _)
    | error halt m' => exact congrArg (EStateM.Result.error halt) (apart.leave m m' _ _)

/-- The session with a sink that takes everything and has these bytes. -/
def Session.holding (s : Session) (bytes : ByteArray) : Session := ⟨s.machine.holding bytes, s.nextId⟩

/-- The result of a run and what it prints do not depend on what was printed before. -/
theorem Session.run_appends (fuel : Nat) (source : String) (s : Session) :
    ∃ (result : Except Failure Unit) (s' : Session) (out : ByteArray), ∀ bytes,
      (s.holding bytes).run fuel source = (result, s'.holding (bytes ++ out)) := by
  obtain ⟨m, firstId⟩ := s
  cases checked : Checked.ofSource firstId source with
  | mk checks nextId =>
    cases checks with
    | error failure =>
      refine ⟨.error failure, ⟨m, nextId⟩, .empty, fun bytes => ?_⟩
      rw [ByteArray.append_empty]
      unfold run holding
      dsimp only
      rw [checked]
    | ok c =>
      obtain ⟨r, out, appends⟩ := appends_closed.runProgram fuel c.program (m.learn c.distances)
      have ran : ∀ bytes, runProgram fuel c.program ((m.holding bytes).learn c.distances) =
          onState (·.holding (bytes ++ out)) r := appends
      cases r with
      | ok _ m' =>
        refine ⟨.ok (), ⟨m', nextId⟩, out, fun bytes => ?_⟩
        unfold run holding
        dsimp only
        rw [checked]
        dsimp only
        rw [ran]
        rfl
      | error halt m' =>
        refine ⟨.error (failureOf halt), ⟨m', nextId⟩, out, fun bytes => ?_⟩
        unfold run holding
        dsimp only
        rw [checked]
        dsimp only
        rw [ran]
        rfl

end Lox
