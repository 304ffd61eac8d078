import Mathlib
import Lox.Proofs.Renaming.Resolution
import Lox.Proofs.Renaming.Simulation

/-!
# Programs under another name in a session

A program whose local variable or parameter gets another name passes the same checks and has the same
run, whatever has run before it.

* `Value.RenamedTo`, `Machine.RenamedTo` — what is left of a run is the same under the other name.
* `RunRenamedTo` — so is how it ends.
* `SameFrames.start`, `At.start` — the machines at the beginning of the run.
* `Session.run_renamed` — renaming a local variable changes nothing but the one report that names it.
-/

namespace Lox

/-! ## What a run leaves -/

/-- The values are the same, or one function under both names. -/
inductive Value.RenamedTo (r : Renaming) : Value → Value → Prop where
  | same (v : Value) : RenamedTo r v v
  | function (f : Closure) : RenamedTo r (.function f) (.function (f.renamed r))

/-- The machines have the same global variables, and the same was printed on them. -/
structure Machine.RenamedTo (r : Renaming) (m m' : Machine) : Prop where
  sink : m'.sink = m.sink
  globals : ∀ name, Option.Rel (Value.RenamedTo r) ((m.frames.bindings globalFrame).lookup name)
    ((m'.frames.bindings globalFrame).lookup name)

/-- Both runs succeed, or both halt with the same report. The report of an assignment to the variable
in its own initializer has the other name. -/
inductive RunRenamedTo (r : Renaming) : EStateM.Result Halt Watch.State Unit →
    EStateM.Result Halt Machine Unit → Prop where
  | ok {w : Watch.State} {m : Machine} (leaves : w.machine.RenamedTo r m) :
      RunRenamedTo r (.ok () w) (.ok () m)
  | halt {halt : Halt} {w : Watch.State} {m : Machine} (leaves : w.machine.RenamedTo r m) :
      RunRenamedTo r (.error halt w) (.error (r.halt w.events halt) m)

namespace Renamed

open Watch (State Here)

variable {S : Renaming}

theorem SameValue.renamedTo {G : Ground} {v v' : Value} (h : SameValue S G v v') :
    v.RenamedTo S v' := by
  cases h with
  | plain => exact .same _
  | function same =>
    obtain ⟨r, p, allows, -, rfl⟩ := same
    rcases allows with rfl | rfl
    · exact .function _
    · rw [Closure.renamed_off]
      exact .same _

theorem Related.renamedTo {own : List FrameId} {w : State} {m : Machine} (h : Related S own w m) :
    w.machine.RenamedTo S m where
  sink := h.sink
  globals name := by
    have same := h.lookup globalFrame name
    rw [h.notGlobal, Renaming.key_false] at same
    generalize (w.machine.frames.bindings globalFrame).lookup name = v,
      (m.frames.bindings globalFrame).lookup name = v' at same
    cases same with
    | none => exact .none
    | some same => exact .some same.renamedTo

theorem Ends.renamedTo {own : List FrameId} {size : Nat} {rel : Ground → Unit → Unit → Prop}
    {x : EStateM.Result Halt State Unit} {y : EStateM.Result Halt Machine Unit}
    (h : Ends S own size rel x y) : RunRenamedTo S x y := by
  cases h with
  | ok _ related => exact .ok related.renamedTo
  | halt _ related same =>
    rw [same]
    exact .halt related.renamedTo

/-! ## The beginning of a run -/

section Start

variable {s : Watch.Session} {c : Checked} {nextId : RefId} {d : Token} {name : String}

/-- Whatever has run before, the frames are the same as long as nothing is renamed. -/
theorem SameFrames.start (sound : s.Sound)
    (old : ∀ μ : Mention, μ.Begun s.state.events → S.premature.contains μ.id = false) :
    SameFrames S (.of s.state []) s.state.machine.frames s.state.machine.frames where
  size := rfl
  parent?_eq _ := rfl
  bindings i name := by
    rw [show S.key ((Ground.of s.state []).own.contains i) name = name from rfl]
    cases found : (s.state.machine.frames.bindings i).lookup name with
    | none => exact .none
    | some v => exact .some (.old (sound.sane.values i name v found) sound.sane.rooted rfl old)

/-- Both machines are at the beginning of the program. -/
theorem At.start (sound : s.Sound) (checked : c.Sound s.nextId nextId) (le : s.nextId ≤ nextId) :
    At (.of c.program d name) (.of c.program d name) .top [] (s.begin c nextId).state
      (s.begin c nextId).state.machine := by
  have begun := sound.begin checked le
  have old : ∀ μ : Mention, μ.Begun s.state.events →
      (Renaming.of c.program d name).premature.contains μ.id = false := by
    intro μ hμ
    rw [Bool.eq_false_iff]
    intro mem
    obtain ⟨μ', hμ', same⟩ := List.mem_map.1 (List.contains_iff_mem.1 mem)
    have new := (checked.lt_of_mem (List.mem_filter.1 hμ').1).1
    rw [same] at new
    exact absurd (sound.older μ hμ) (Nat.not_lt.2 new)
  have grows : (Ground.of s.state []).Grows (.of (s.begin c nextId).state []) :=
    ⟨.refl _, List.subset_cons_self _ _, fun _ _ held => held, fun _ _ => rfl⟩
  exact {
    allows := .inl rfl
    here := ⟨begun.sane, begun.outside ▸ .top, fun _ mem => by cases mem⟩
    related := {
      frames := (SameFrames.start sound old).mono grows (Nat.le_refl _)
      current := rfl
      locals := rfl
      sink := rfl
      depth := rfl
      nextIdentity := rfl
      own_lt := fun _ mem => by cases mem
      notGlobal := rfl }
    matching := .top }

/-- What is known of the mentions in the program. -/
theorem sees_begin (sound : c.Sound s.nextId nextId) (fresh : name ∉ Stmt.namesAll c.program)
    {μ : Mention} (hμ : μ ∈ programMentions c.program) :
    (Renaming.of c.program d name).Sees (.of c.program d name) (s.begin c nextId).state.events μ where
  begun := ⟨c.program, List.mem_cons_self, hμ⟩
  knows := sound.knows fresh hμ
  premature := sound.premature_iff hμ

end Start

end Renamed

open Renamed

/-- **Local variables and parameters can be renamed.** Whatever has run before: if a variable or
parameter of a program without errors gets a name that is not in the program, and with it all mentions
that are bound to it, then the program still has no errors, and all its mentions have the same
distances. With the same fuel it prints the same, ends the same way and leaves the same global
variables. Only the report of an assignment to the variable in its own initializer, which is the last
event then, has the other name. -/
theorem Session.run_renamed (limit : Option Nat) (earlier : List (Nat × String)) (fuel : Nat)
    {source : String} {c : Checked} {nextId : RefId} {d : Token} {name : String}
    (checked : Checked.ofSource ((Session.start limit).runAll earlier).2.nextId source =
      (.ok c, nextId))
    (fresh : name ∉ Stmt.namesAll c.program) :
    let machine := ((Session.start limit).runAll earlier).2.machine.learn c.distances
    let watched := (((Watch.Session.start limit).runAll earlier).2.begin c nextId).state
    let r := Renaming.of c.program d name
    resolve (Program.renamed r c.program) = .ok c.distances ∧
      Watch.forget (Watch.runProgram fuel c.program watched) = runProgram fuel c.program machine ∧
      RunRenamedTo r (Watch.runProgram fuel c.program watched)
        (runProgram fuel (Program.renamed r c.program) machine) := by
  intro machine watched r
  have shown : ((Watch.Session.start limit).runAll earlier).2.unwatched =
      ((Session.start limit).runAll earlier).2 := (Watch.Session.runAll_shows earlier _).2
  obtain ⟨sound, -⟩ := (Watch.Session.sound_start limit).runAll earlier
  have same : watched.machine = machine := congrArg (fun s => s.machine.learn c.distances) shown
  have ids : ((Watch.Session.start limit).runAll earlier).2.nextId =
      ((Session.start limit).runAll earlier).2.nextId := congrArg Session.nextId shown
  rw [← ids] at checked
  have le := Checked.nextId_le_of_ofSource ((Watch.Session.start limit).runAll earlier).2.nextId source
  rw [checked] at le
  have valid := Checked.sound_of_ofSource checked
  have start : At r r .top [] watched watched.machine := .start sound valid le
  have agree := agree_runProgram fuel c.program (fun _ => sees_begin valid fresh) valid.tidy
    (valid.fits fresh) start
  refine ⟨Checked.resolve_renamed checked fresh, ?_, ?_⟩
  · rw [← same]
    exact Watch.shows_runProgram fuel c.program watched
  · rw [← same]
    exact agree.ends.renamedTo

/-- Two variables of one name, of which the inner one may have another. -/
def Stmt.shadowing (inner : String) : List Stmt :=
  [.block [.var ⟨.identifier, "a", 1, 5⟩ (some (.literal .nil)),
    .block [.var ⟨.identifier, inner, 1, 16⟩
      (some (.assign 1 ⟨.identifier, inner, 1, 18⟩ (.literal .nil)))]]]

/-- The inner variable is assigned in its own initializer, so that its other name is in the report. -/
theorem Session.run_renamed_shadowing :
    let machine := (Machine.start none).learn [(1, 0)]
    let watched : Watch.State := ⟨machine, [.began (Stmt.shadowing "a")]⟩
    let r := Renaming.of (Stmt.shadowing "a") ⟨.identifier, "a", 1, 16⟩ "b"
    r.premature = [1] ∧ Program.renamed r (Stmt.shadowing "a") = Stmt.shadowing "b" ∧
      resolve (Stmt.shadowing "b") = .ok [(1, 0)] ∧
      RunRenamedTo r (Watch.runProgram 9 (Stmt.shadowing "a") watched)
        (runProgram 9 (Stmt.shadowing "b") machine) := by
  have checked : Checked.ofSource 0 "\x7bvar a=nil;\x7bvar a=a=nil;\x7d\x7d" =
      (.ok ⟨Stmt.shadowing "a", [(1, 0)]⟩, 2) := by cbv
  obtain ⟨resolved, -, same⟩ :=
    @Session.run_renamed none [] 9 _ _ 2 ⟨.identifier, "a", 1, 16⟩ "b" checked (by decide)
  exact ⟨rfl, rfl, resolved, same⟩

end Lox
