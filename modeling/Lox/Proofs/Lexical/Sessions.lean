import Lox.Proofs.Lexical.Simulation
import Lox.Proofs.Machine.Fuel

/-!
# Distances implement lexical scoping

* `Session.Alike` — two sessions, one with frames and one with cells, that can not be told apart.
* `Session.run_alike` — running a program on both gives the same, and they stay alike.
* `Session.runAll_eq_lexical` — every session gives the same as the one without distances.
-/

namespace Lox.Lexical

variable {cells : Layout} {m : Lox.Machine} {l : Machine} {known : Mention → Prop}

/-- A mention in a program that has been checked, with its distance known. -/
def Known (nextId : RefId) (locals : Std.HashMap RefId Nat) (μ : Mention) : Prop :=
  μ.id < nextId ∧ locals[μ.id]? = μ.distance?

/-- The machines of the sessions belong together, and no identity is used twice. -/
structure Session.Alike (s : Lox.Session) (s' : Session) : Prop where
  nextId : s.nextId = s'.nextId
  outside : s.machine.current = globalFrame
  below : ∀ id distance, s.machine.locals[id]? = some distance → id < s.nextId
  related : ∃ cells, Related (Known s.nextId s.machine.locals) cells s.machine s'.machine

theorem Known.mono {nextId nextId' : RefId} {locals : Std.HashMap RefId Nat} {μ : Mention}
    (h : Known nextId locals μ) (le : nextId ≤ nextId') : Known nextId' locals μ :=
  ⟨Nat.lt_of_lt_of_le h.1 le, h.2⟩

/-- What was known of earlier programs is known when the distances of another one are. -/
theorem Known.learned {nextId nextId' : RefId} {locals : Std.HashMap RefId Nat} {c : Checked}
    {μ : Mention} (h : Known nextId locals μ) (sound : c.Sound nextId nextId')
    (le : nextId ≤ nextId') : Known nextId' (locals.insertMany c.distances) μ :=
  ⟨Nat.lt_of_lt_of_le h.1 le, (sound.unchanged h.1).trans h.2⟩

/-- In the beginning nothing is there. -/
theorem Related.start (limit : Option Nat) :
    Related (Known 0 ∅) [] (Lox.Machine.start limit) (Machine.start limit) where
  size := rfl
  nodup := List.nodup_nil
  inner _ hb := by cases hb
  content _ _ _ hcell := by cases hcell
  covered i name notGlobal holds := by
    have none : (Lox.Machine.start limit).frames.all[i]? = none :=
      Array.getElem?_eq_none (Nat.one_le_iff_ne_zero.2 notGlobal)
    rw [Frames.bindings, none] at holds
    cases holds
  globals := .nil
  rooted := Nat.one_pos
  root := rfl
  sink := rfl
  depth := rfl
  nextIdentity := rfl
  locals _ hμ := absurd hμ.1 (Nat.not_lt_zero _)

namespace Session

variable {s : Lox.Session} {s' : Session}

theorem alike_start (limit : Option Nat) : Alike (.start limit) (start limit) where
  nextId := rfl
  outside := rfl
  below _ _ entry := by simp [Lox.Session.start, Lox.Machine.start] at entry
  related := ⟨[], .start limit⟩

/-- Whatever a program has done until it ends or halts, the sessions are alike. -/
theorem Alike.behind {nextId : RefId} {locals : Std.HashMap RefId Nat} {m m' : Lox.Machine}
    {l' : Machine} {cells cells' : Layout} (outside : m.current = globalFrame)
    (learned : m.locals = locals) (below : ∀ id distance, locals[id]? = some distance → id < nextId)
    (grows : Grows cells m cells' m') (related : Related (Known nextId locals) cells' m' l') :
    Alike ⟨m', nextId⟩ ⟨l', nextId⟩ where
  nextId := rfl
  outside := grows.current.trans outside
  below := by
    show ∀ id distance, m'.locals[id]? = some distance → id < nextId
    rw [grows.locals, learned]
    exact below
  related := ⟨cells', by
    show Related (Known nextId m'.locals) cells' m' l'
    rw [grows.locals, learned]
    exact related⟩

/-- Running a program does the same to sessions that are alike. -/
theorem run_alike (h : Alike s s') (fuel : Nat) (source : String) :
    (s.run fuel source).1 = (s'.run fuel source).1 ∧
      Alike (s.run fuel source).2 (s'.run fuel source).2 := by
  obtain ⟨m, nextId⟩ := s
  obtain ⟨l, nextId'⟩ := s'
  obtain ⟨same, outside, below, cells, related⟩ := h
  dsimp only at same outside below related
  subst same
  have le := Checked.nextId_le_of_ofSource nextId source
  unfold Lox.Session.run run
  dsimp only
  cases checked : Checked.ofSource nextId source with
  | mk result nextId' =>
    rw [checked] at le
    cases result with
    | error failure =>
      dsimp only
      refine ⟨rfl, rfl, outside, fun id distance entry => ?_, cells, ?_⟩
      · exact Nat.lt_of_lt_of_le (below id distance entry) le
      · exact related.learn (fun μ hμ => hμ.mono le) fun μ hμ => hμ.2
    | ok c =>
      have sound := Checked.sound_of_ofSource checked
      have start : Related (Known nextId' (m.locals.insertMany c.distances)) cells
          (m.learn c.distances) l :=
        related.learn (fun μ hμ => hμ.learned sound le) fun μ hμ => hμ.2
      have mentions : ∀ μ ∈ programMentions c.program,
          Known nextId' (m.locals.insertMany c.distances) μ :=
        fun μ hμ => ⟨(sound.lt_of_mem hμ).2, sound.learned below hμ⟩
      have agree := agree_runProgram fuel c.program (p := .top) rfl mentions sound.tidy
        (.top start outside)
      have below' : ∀ id distance, (m.locals.insertMany c.distances)[id]? = some distance →
          id < nextId' := fun _ _ entry => sound.lt_of_learned le below entry
      dsimp only
      generalize Lox.runProgram fuel c.program (m.learn c.distances) = r,
        runProgram fuel c.program l = r' at agree ⊢
      cases agree with
      | ok grows holds => exact ⟨rfl, .behind (m := m.learn c.distances) outside rfl below' grows holds.related⟩
      | halt grows related => exact ⟨rfl, .behind (m := m.learn c.distances) outside rfl below' grows related⟩

theorem runAll_alike (h : Alike s s') (programs : List (Nat × String)) :
    (s.runAll programs).1 = (s'.runAll programs).1 ∧
      Alike (s.runAll programs).2 (s'.runAll programs).2 := by
  induction programs generalizing s s' with
  | nil => exact ⟨rfl, h⟩
  | cons program programs ih =>
    obtain ⟨fuel, source⟩ := program
    obtain ⟨first, h₁⟩ := run_alike h fuel source
    obtain ⟨others, h₂⟩ := ih h₁
    refine ⟨?_, h₂⟩
    show (s.run fuel source).1 :: ((s.run fuel source).2.runAll programs).1 =
      (s'.run fuel source).1 :: ((s'.run fuel source).2.runAll programs).1
    rw [first, others]

end Session

/-- What can be seen of the globals: functions do not show their surroundings. -/
def visible {E : Type} (globals : Bindings E) : List (String × Value Unit) :=
  globals.map fun p => (p.1, p.2.forget)

theorem Related.visible_eq (h : Related known cells m l) :
    visible (m.frames.bindings globalFrame) = visible l.globals := by
  have globals := h.globals
  generalize m.frames.bindings globalFrame = bindings, l.globals = globals' at globals
  induction globals with
  | nil => rfl
  | cons same _ ih =>
    rw [visible, visible, List.map_cons, List.map_cons, same.1, same.2.forget_eq]
    exact congrArg _ ih

/-- **Distances implement lexical scoping.** Every session has the same results with the distances
that were found before the programs ran as with surroundings in which names mean cells, and prints
the same and leaves the same globals. What is run next diverges in both or in none. -/
theorem Session.runAll_eq_lexical (limit : Option Nat) (programs : List (Nat × String)) :
    ((Lox.Session.start limit).runAll programs).1 = ((start limit).runAll programs).1 ∧
      ((Lox.Session.start limit).runAll programs).2.machine.sink =
        ((start limit).runAll programs).2.machine.sink ∧
      visible (((Lox.Session.start limit).runAll programs).2.machine.frames.bindings globalFrame) =
        visible ((start limit).runAll programs).2.machine.globals ∧
      ∀ source, ((Lox.Session.start limit).runAll programs).2.Diverges source ↔
        ((start limit).runAll programs).2.Diverges source := by
  obtain ⟨results, alike⟩ := runAll_alike (alike_start limit) programs
  obtain ⟨cells, related⟩ := alike.related
  refine ⟨results, related.sink, related.visible_eq, fun source => forall_congr' fun fuel => ?_⟩
  rw [(run_alike alike fuel source).1]

end Lox.Lexical
