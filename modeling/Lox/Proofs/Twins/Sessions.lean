import Mathlib
import Lox.Proofs.Grammar.Moving
import Lox.Proofs.Scope.Checked
import Lox.Proofs.Twins.Simulation

/-!
# Sessions with other identities

A program that fails before it runs takes identities, and nothing else. Two sessions that differ in
the identities that were given can not be told apart.

* `Checked.ofSource_moved` — with other identities the same checks fail, or none.
* `Session.run_of_ofSource` — what a run comes to where nothing is wrong with the program.
* `Related.restart` — between two runs the machines stay the same while they learn distances.
* `Session.Twin` — sessions that differ in the identities only; `Session.run_twin` — running a
  program does the same to both.
* `Session.reports_insertIdx` — a program that fails before it runs leaves no trace.
-/

namespace Lox

open Trace (State)

/-! ## Checks -/

/-- The program at its new place, with the distances of its mentions. -/
def Checked.moved (d : Shift) (c : Checked) : Checked :=
  ⟨Stmt.movedAll d c.program, distancesMoved d c.distances⟩

/-- With greater identities a program passes the same checks, or fails with the same errors. -/
theorem Checked.ofSource_moved (firstId k : Nat) (source : String) :
    Checked.ofSource (firstId + k) source =
      ((Checked.ofSource firstId source).1.map (Checked.moved ⟨0, 0, k⟩),
        (Checked.ofSource firstId source).2 + k) := by
  unfold Checked.ofSource
  cases scan source with
  | error errors => rfl
  | ok tokens =>
    simp only [Program.ofTokens_moved firstId k tokens]
    obtain ⟨result, nextId⟩ := Program.ofTokens firstId tokens
    cases result with
    | error errors => rfl
    | ok program =>
      simp only [Except.map, resolve_moved]
      cases resolve program with
      | error errors =>
        have same : ResolveError.moved ⟨0, 0, k⟩ = id := rfl
        simp only [same, List.map_id]
      | ok distances => rfl

/-- All that depends on the identities given before are those of the mentions. -/
theorem Checked.ofSource_eq_moved (firstId : RefId) (source : String) :
    Checked.ofSource firstId source =
      ((Checked.ofSource 0 source).1.map (Checked.moved ⟨0, 0, firstId⟩),
        (Checked.ofSource 0 source).2 + firstId) := by
  rw [← Checked.ofSource_moved, Nat.zero_add]

/-- Which errors a program has before it runs does not depend on the identities given before. -/
theorem Checked.error_of_ofSource {firstId : RefId} {source : String} {failure : Failure}
    (h : (Checked.ofSource firstId source).1 = .error failure) (nextId : RefId) :
    (Checked.ofSource nextId source).1 = .error failure := by
  rw [Checked.ofSource_eq_moved] at h ⊢
  cases hs : (Checked.ofSource 0 source).1 with
  | error failure' =>
    rw [hs] at h
    cases h
    rfl
  | ok c =>
    rw [hs] at h
    cases h

namespace Checked.Sound

variable {firstId nextId : RefId} {c : Checked}

theorem range_of_reference (h : c.Sound firstId nextId) {r : Reference}
    (hr : r ∈ Stmt.referencesAll c.program) : firstId ≤ r.id ∧ r.id < nextId := by
  refine h.distinct.range _ ((Stmt.perm_referencesAll .top c.program).mem_iff.2 ?_)
  exact List.mem_map_of_mem hr

/-- What is known then of a new identity is what was found out about the program. -/
theorem learned_eq_some_iff (h : c.Sound firstId nextId) {locals : Std.HashMap RefId Nat}
    (below : ∀ id distance, locals[id]? = some distance → id < firstId) {id : RefId}
    {distance : Nat} (new : firstId ≤ id) :
    (locals.insertMany c.distances)[id]? = some distance ↔ (id, distance) ∈ c.distances := by
  rw [h.mem_distances]
  by_cases mem : ∃ μ ∈ programMentions c.program, μ.id = id
  · obtain ⟨μ, hμ, rfl⟩ := mem
    rw [h.learned below hμ]
    refine ⟨fun hd => ⟨μ, hμ, rfl, hd⟩, ?_⟩
    rintro ⟨μ', hμ', same, hd⟩
    rw [h.eq_of_id hμ hμ' same.symm]
    exact hd
  · have absent := h.not_contains fun μ hμ same => absurd ⟨μ, hμ, same⟩ mem
    rw [Std.HashMap.getElem?_insertMany_list_of_contains_eq_false absent]
    constructor
    · intro hd
      exact absurd (below _ _ hd) (Nat.not_lt.2 new)
    · rintro ⟨μ, hμ, same, -⟩
      exact absurd ⟨μ, hμ, same⟩ mem

end Checked.Sound

/-! ## Runs -/

/-- What comes of a traced run that ends like this. -/
def Trace.ended (nextId : RefId) : EStateM.Result Trace.Stop State Unit → Trace.Run
  | .ok _ w => ⟨.ok (), ⟨w.machine, nextId⟩, w.events, [], w.own⟩
  | .error stop w =>
    ⟨.error (Session.failureOf stop.halt), ⟨w.machine, nextId⟩, w.events, stop.calls, w.own⟩

theorem Trace.run_of_ofSource {s : Session} {source : String} {c : Checked} {nextId : RefId}
    (checked : Checked.ofSource s.nextId source = (.ok c, nextId)) (fuel : Nat) :
    Trace.run fuel source s =
      ended nextId (Trace.runProgram fuel c.program (.start (s.machine.learn c.distances))) := by
  unfold Trace.run
  split <;> rename_i result <;> rw [checked] at result <;> cases result
  unfold ended
  rfl

namespace Session

/-- What comes of a run that ends like this. -/
def ended (nextId : RefId) : EStateM.Result Halt Machine Unit → Except Failure Unit × Session
  | .ok _ m => (.ok (), ⟨m, nextId⟩)
  | .error halt m => (.error (failureOf halt), ⟨m, nextId⟩)

theorem run_of_ofSource_error {s : Session} {source : String} {failure : Failure} {nextId : RefId}
    (checked : Checked.ofSource s.nextId source = (.error failure, nextId)) (fuel : Nat) :
    s.run fuel source = (.error failure, ⟨s.machine, nextId⟩) := by
  obtain ⟨m, firstId⟩ := s
  change Checked.ofSource firstId source = _ at checked
  unfold run
  dsimp only
  split <;> rename_i result <;> rw [checked] at result <;> cases result
  rfl

theorem run_of_ofSource {s : Session} {source : String} {c : Checked} {nextId : RefId}
    (checked : Checked.ofSource s.nextId source = (.ok c, nextId)) (fuel : Nat) :
    s.run fuel source = ended nextId (runProgram fuel c.program (s.machine.learn c.distances)) := by
  obtain ⟨m, firstId⟩ := s
  change Checked.ofSource firstId source = _ at checked
  unfold run
  dsimp only
  split <;> rename_i result <;> rw [checked] at result <;> cases result
  unfold ended
  rfl

end Session

namespace Twins

/-! ## Between two runs -/

/-- The text of the running program stands at the same place on both machines. -/
structure Setting.Flat (S : Setting) : Prop where
  lines : S.shift.lines = 0
  bytes : S.shift.bytes = 0

namespace Setting.Flat

variable {S : Setting} (flat : S.Flat)

include flat

theorem linesAt (home : Bool) : S.linesAt home = 0 := by
  unfold Setting.linesAt
  rw [flat.lines, ite_self]

theorem shiftAt (home : Bool) (k : Nat) : S.shiftAt home k = ⟨0, 0, k⟩ := by
  unfold Setting.shiftAt
  rw [flat.linesAt, flat.bytes, ite_self]

theorem halt (stop : Trace.Stop) : S.halt stop = stop.halt := by
  unfold Setting.halt
  rw [flat.linesAt]
  split <;> rename_i h <;> rw [h]
  rfl

end Setting.Flat

variable {S S' : Setting} {F : Functions}

/-- A function of an earlier run is not one of the program that runs next. -/
theorem SameFunction.restart {f f' : Closure} (h : SameFunction S F f f') (flat : S.Flat)
    (more : ∀ k refs, S.Agrees k refs → S'.Agrees k refs) : SameFunction S' ⟨F.next, []⟩ f f' := by
  obtain ⟨k, agrees, moved⟩ := h.moved
  rw [flat.shiftAt] at moved
  exact ⟨h.lt, k, more _ _ agrees, moved⟩

theorem SameValue.restart {v v' : Value} (h : SameValue S F v v') (flat : S.Flat)
    (more : ∀ k refs, S.Agrees k refs → S'.Agrees k refs) : SameValue S' ⟨F.next, []⟩ v v' := by
  cases h with
  | nil => exact .nil
  | bool b => exact .bool b
  | number x => exact .number x
  | string s => exact .string s
  | function same => exact .function (same.restart flat more)

/-- Before the next program runs the machines may learn what does not touch the earlier ones. -/
theorem Related.restart {w : State} {m : Machine} (h : Related S w m) (flat : S.Flat)
    (S' : Setting) (more : ∀ k refs, S.Agrees k refs → S'.Agrees k refs) :
    Related S' (.start { w.machine with locals := S'.locals }) { m with locals := S'.locals' } where
  frames := by
    refine ⟨h.frames.size, fun i => ?_⟩
    have same := h.frames.all i
    show Option.Rel _ w.machine.frames.all[i]? m.frames.all[i]?
    generalize w.machine.frames.all[i]? = frame, m.frames.all[i]? = frame' at same
    cases same with
    | none => exact .none
    | some same =>
      exact .some ⟨same.parent, same.bindings.imp fun _ _ same => same.restart flat more⟩
  current := h.current
  sink := h.sink
  depth := h.depth
  nextIdentity := h.nextIdentity
  locals := rfl
  locals' := rfl
  own_lt _ hi := by cases hi

/-! ## Two sessions -/

/-- The sessions are the same, but for mentions on the second one with identities greater by up
to `k`. -/
def Setting.between (k : Nat) (s s' : Session) : Setting :=
  ⟨⟨0, 0, k⟩, s.nextId, s.machine.locals, s'.machine.locals⟩

theorem Setting.flat_between (k : Nat) (s s' : Session) : (Setting.between k s s').Flat :=
  ⟨rfl, rfl⟩

end Twins

open Twins

theorem Sink.since_size (sink : Sink) : sink.since sink.bytes.size = [] := by
  simp [Sink.since]

namespace Session

/-- The sessions can not be told apart. On the second one `k` more identities were given. -/
structure Twin (k : Nat) (s s' : Session) : Prop where
  nextId : s'.nextId = s.nextId + k
  below : ∀ id distance, s.machine.locals[id]? = some distance → id < s.nextId
  below' : ∀ id distance, s'.machine.locals[id]? = some distance → id < s'.nextId
  related : Related (.between k s s') (.start s.machine) s'.machine

variable {k : Nat} {s s' : Session}

theorem Twin.start (limit : Option Nat) : Twin 0 (start limit) (start limit) where
  nextId := rfl
  below _ _ entry := by simp [Session.start, Machine.start] at entry
  below' _ _ entry := by simp [Session.start, Machine.start] at entry
  related := {
    frames := by
      refine ⟨rfl, fun i => ?_⟩
      cases i with
      | zero => exact .some ⟨rfl, .nil⟩
      | succ i => exact .none
    current := rfl
    sink := rfl
    depth := rfl
    nextIdentity := rfl
    locals := rfl
    locals' := rfl
    own_lt := fun _ hi => by cases hi }

/-- On the second session more identities are given. -/
theorem Twin.skip (h : Twin k s s') (more : Nat) :
    Twin (k + more) s ⟨s'.machine, s'.nextId + more⟩ where
  nextId := by
    show s'.nextId + more = _
    rw [h.nextId, Nat.add_assoc]
  below := h.below
  below' id distance entry := Nat.lt_of_lt_of_le (h.below' id distance entry) (Nat.le_add_right _ _)
  related := by
    refine h.related.restart (Setting.flat_between k s s')
      (.between (k + more) s ⟨s'.machine, s'.nextId + more⟩) fun j refs agrees => ?_
    exact ⟨Nat.le_add_right_of_le agrees.le, agrees.known, agrees.distance⟩

section Run

variable {c : Checked} {nextId : RefId}

/-- What both sessions know when a program runs that was checked on them. -/
def Twin.learning (k : Nat) (s s' : Session) (c : Checked) (nextId : RefId) : Setting :=
  ⟨⟨0, 0, k⟩, nextId, s.machine.locals.insertMany c.distances,
    s'.machine.locals.insertMany (distancesMoved ⟨0, 0, k⟩ c.distances)⟩

/-- The mentions of the program have the same distances on both sessions. -/
theorem Twin.agrees (h : Twin k s s') (sound : c.Sound s.nextId nextId)
    (sound' : (c.moved ⟨0, 0, k⟩).Sound s'.nextId (nextId + k)) :
    (Twin.learning k s s' c nextId).Agrees k (Stmt.referencesAll c.program) where
  le := Nat.le_refl k
  known r hr := (sound.range_of_reference hr).2
  distance r hr := by
    have new := (sound.range_of_reference hr).1
    have new' : s'.nextId ≤ r.id + k := by
      rw [h.nextId]
      exact Nat.add_le_add_right new k
    apply Option.ext
    intro distance
    show (s'.machine.locals.insertMany (c.moved ⟨0, 0, k⟩).distances)[r.id + k]? = some distance ↔
      (s.machine.locals.insertMany c.distances)[r.id]? = some distance
    rw [sound'.learned_eq_some_iff h.below' new', sound.learned_eq_some_iff h.below new]
    show (r.id + k, distance) ∈ c.distances.map _ ↔ _
    rw [List.mem_map]
    constructor
    · rintro ⟨⟨id, _⟩, mem, same⟩
      obtain ⟨shifted, rfl⟩ := Prod.mk.inj same
      exact Nat.add_right_cancel shifted ▸ mem
    · intro mem
      exact ⟨_, mem, rfl⟩

/-- The mentions of earlier programs keep their distances. -/
theorem Twin.learned (h : Twin k s s') (sound : c.Sound s.nextId nextId)
    (sound' : (c.moved ⟨0, 0, k⟩).Sound s'.nextId (nextId + k)) (le : s.nextId ≤ nextId) :
    Related (Twin.learning k s s' c nextId) (.start (s.machine.learn c.distances))
      (s'.machine.learn (distancesMoved ⟨0, 0, k⟩ c.distances)) := by
  refine h.related.restart (Setting.flat_between k s s') (Twin.learning k s s' c nextId)
    fun j refs agrees => ?_
  refine ⟨agrees.le, fun r hr => Nat.lt_of_lt_of_le (agrees.known r hr) le, fun r hr => ?_⟩
  have old : r.id < s.nextId := agrees.known r hr
  have old' : r.id + j < s'.nextId := by
    rw [h.nextId]
    exact Nat.add_lt_add_of_lt_of_le old agrees.le
  show (s'.machine.locals.insertMany (c.moved ⟨0, 0, k⟩).distances)[r.id + j]? =
    (s.machine.locals.insertMany c.distances)[r.id]?
  rw [sound'.unchanged old', sound.unchanged old]
  exact agrees.distance r hr

/-- Whatever a program has done until it ends or halts, the sessions can not be told apart. -/
theorem Twin.behind {S : Setting} {w : State} {m : Machine} (related : Related S w m)
    (flat : S.Flat) (ids : S.shift.ids = k) (known : S.known ≤ nextId)
    (below : ∀ id distance, S.locals[id]? = some distance → id < nextId)
    (below' : ∀ id distance, S.locals'[id]? = some distance → id < nextId + k) :
    Twin k ⟨w.machine, nextId⟩ ⟨m, nextId + k⟩ where
  nextId := rfl
  below := by
    show ∀ id distance, w.machine.locals[id]? = some distance → id < nextId
    rw [related.locals]
    exact below
  below' := by
    show ∀ id distance, m.locals[id]? = some distance → id < nextId + k
    rw [related.locals']
    exact below'
  related := by
    refine related.restart flat (.between k ⟨w.machine, nextId⟩ ⟨m, nextId + k⟩)
      fun j refs agrees => ⟨ids ▸ agrees.le, ?_, ?_⟩
    · exact fun r hr => Nat.lt_of_lt_of_le (agrees.known r hr) known
    show ∀ r ∈ refs, m.locals[r.id + j]? = w.machine.locals[r.id]?
    rw [related.locals, related.locals']
    exact agrees.distance

/-- Running a program does the same to both sessions. -/
theorem run_twin (h : Twin k s s') (fuel : Nat) (source : String) :
    (s'.run fuel source).1 = (s.run fuel source).1 ∧
      Twin k (s.run fuel source).2 (s'.run fuel source).2 := by
  have le := Checked.nextId_le_of_ofSource s.nextId source
  have moved := Checked.ofSource_moved s.nextId k source
  rw [← h.nextId] at moved
  cases checked : Checked.ofSource s.nextId source with
  | mk result nextId =>
    rw [checked] at le moved
    cases result with
    | error failure =>
      rw [run_of_ofSource_error checked, run_of_ofSource_error moved]
      exact ⟨rfl, .behind h.related (Setting.flat_between _ _ _) rfl le
        (fun id distance entry => Nat.lt_of_lt_of_le (h.below id distance entry) le)
        fun id distance entry => Nat.lt_of_lt_of_le (h.below' id distance entry)
          (h.nextId ▸ Nat.add_le_add_right le k)⟩
    | ok c =>
      have sound := Checked.sound_of_ofSource checked
      have sound' := Checked.sound_of_ofSource moved
      have flat : (Twin.learning k s s' c nextId).Flat := ⟨rfl, rfl⟩
      have behind {w : State} {m : Machine} (related : Related (Twin.learning k s s' c nextId) w m) :
          Twin k ⟨w.machine, nextId⟩ ⟨m, nextId + k⟩ :=
        .behind related flat rfl (Nat.le_refl _)
          (fun _ _ entry => sound.lt_of_learned le h.below entry)
          fun _ _ entry =>
            sound'.lt_of_learned (h.nextId ▸ Nat.add_le_add_right le k) h.below' entry
      have agree := twins_runProgram fuel k c.program (h.agrees sound sound')
        (h.learned sound sound' le)
      rw [flat.shiftAt] at agree
      rw [Trace.run_shows fuel source s, Trace.run_of_ofSource checked, run_of_ofSource moved]
      dsimp only [Checked.moved]
      generalize Trace.runProgram fuel c.program _ = r, runProgram fuel _ _ = r' at agree ⊢
      cases agree with
      | ok _ related _ => exact ⟨rfl, behind related⟩
      | @halt stop _ _ _ related =>
        rw [flat.halt]
        exact ⟨rfl, behind related⟩

end Run

/-- What can be seen of running programs: the result of each, and what it has printed. -/
def reports : List (Nat × String) → Session → List (Except Failure Unit × List UInt8)
  | [], _ => []
  | (fuel, source) :: programs, s =>
    let (result, s') := s.run fuel source
    (result, s'.machine.sink.since s.machine.sink.bytes.size) :: reports programs s'

theorem reports_cons (fuel : Nat) (source : String) (programs : List (Nat × String)) (s : Session) :
    s.reports ((fuel, source) :: programs) = ((s.run fuel source).1,
      (s.run fuel source).2.machine.sink.since s.machine.sink.bytes.size) ::
        (s.run fuel source).2.reports programs := rfl

theorem Twin.sink_eq (h : Twin k s s') : s'.machine.sink = s.machine.sink := h.related.sink

theorem reports_twin (programs : List (Nat × String)) (h : Twin k s s') :
    s'.reports programs = s.reports programs := by
  induction programs generalizing s s' with
  | nil => rfl
  | cons program programs ih =>
    obtain ⟨fuel, source⟩ := program
    obtain ⟨result, behind⟩ := run_twin h fuel source
    rw [reports_cons, reports_cons, result, behind.sink_eq, h.sink_eq, ih behind]

/-- A program that fails before it runs only takes identities. -/
theorem run_of_error {firstId : RefId} {source : String} {failure : Failure}
    (static : (Checked.ofSource firstId source).1 = .error failure) (fuel : Nat) (s : Session) :
    ∃ more, s.run fuel source = (.error failure, ⟨s.machine, s.nextId + more⟩) := by
  have le := Checked.nextId_le_of_ofSource s.nextId source
  have fails := Checked.error_of_ofSource static s.nextId
  cases checked : Checked.ofSource s.nextId source with
  | mk result nextId =>
    rw [checked] at le fails
    obtain ⟨more, rfl⟩ := Nat.le.dest le
    cases (show result = .error failure from fails)
    exact ⟨more, run_of_ofSource_error checked fuel⟩

/-- **A run that fails statically leaves no trace.** Wherever a program that fails before it runs is
put into a session, it prints nothing, and every other program has the same result and prints the
same as without it. -/
theorem reports_insertIdx (limit : Option Nat) (before after : List (Nat × String)) (fuel : Nat)
    {firstId : RefId} {source : String} {failure : Failure}
    (static : (Checked.ofSource firstId source).1 = .error failure) :
    (start limit).reports (before ++ (fuel, source) :: after) =
      ((start limit).reports (before ++ after)).insertIdx before.length (.error failure, []) := by
  suffices ∀ s, Twin 0 s s → s.reports (before ++ (fuel, source) :: after) =
      (s.reports (before ++ after)).insertIdx before.length (.error failure, []) from
    this _ (.start limit)
  induction before with
  | nil =>
    intro s h
    obtain ⟨more, ran⟩ := run_of_error static fuel s
    rw [List.nil_append, reports_cons, ran, reports_twin after (h.skip more), Sink.since_size]
    rfl
  | cons program before ih =>
    intro s h
    obtain ⟨fuel', source'⟩ := program
    rw [List.cons_append, List.cons_append, reports_cons, reports_cons,
      ih _ (run_twin h fuel' source').2]
    rfl

/-- A text that ends too early stands between two programs. -/
theorem reports_insertIdx_unfinished :
    (start none).reports [(9, "print 1;"), (9, "x"), (9, "print 2;")] =
      ((start none).reports [(9, "print 1;"), (9, "print 2;")]).insertIdx 1
        (.error (.parse [⟨.expressionEnd, ⟨.endOfInput, "", 1, 1⟩⟩]), []) :=
  @reports_insertIdx none [(9, "print 1;")] [(9, "print 2;")] 9 0 "x" _ (by cbv)

end Session

end Lox
