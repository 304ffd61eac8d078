import Lox.Proofs.Token.Joining
import Lox.Proofs.Twins.Sessions

/-!
# Joined programs

Two programs that are joined by a line end do what they do one after the other. The second one
stands further down then, which shows in the lines of its errors and in the functions it declares.

* `resolve_append` — no scope is open between two statements of a program.
* `Checked.ofSource_join` — the checks of joined texts.
* `Value.moved`, `Frames.moved`, `Session.moved` — what there is behind a program that has moved.
* `Session.run_join` — joined programs do what they do one after the other.
-/

namespace Lox

open Trace (State)
open Twins

/-! ## Checks -/

/-- No statement opens a scope at the top level. -/
theorem Stmt.findings_top (inFunction : Bool) : ∀ s : Stmt, (s.findings inFunction []).2 = []
  | .expression _ | .print _ _ | .var _ _ | .block _ | .function _ _ _ | .ret _ _ => rfl
  | .ifThen _ yes none => Stmt.findings_top inFunction yes
  | .ifThen _ yes (some no) => by
    rw [Stmt.findings]
    simp only [Stmt.findings_top inFunction yes, Stmt.findings_top inFunction no]
  | .whileDo _ body => Stmt.findings_top inFunction body

theorem programFindings_append (ss ss' : List Stmt) :
    programFindings (ss ++ ss') = programFindings ss ++ programFindings ss' := by
  unfold programFindings
  induction ss with
  | nil => rfl
  | cons s ss ih =>
    simp only [List.cons_append, Stmt.findingsAll, Stmt.findings_top, ih, List.append_assoc]

theorem resolve_eq_ok_iff {program : List Stmt} {distances : List (RefId × Nat)} :
    resolve program = .ok distances ↔
      (programFindings program).filterMap Finding.fault? = [] ∧
        (programFindings program).filterMap Finding.bound? = distances := by
  simp only [resolve, List.isEmpty_iff]
  by_cases clean : (programFindings program).filterMap Finding.fault? = []
  · rw [if_pos clean, Except.ok.injEq, and_iff_right clean]
  · rw [if_neg clean]
    exact ⟨(by intro h; cases h), fun h => absurd h.1 clean⟩

/-- What is found out about two programs is found out about both as one. -/
theorem resolve_append {ss ss' : List Stmt} {distances distances' : List (RefId × Nat)}
    (resolved : resolve ss = .ok distances) (resolved' : resolve ss' = .ok distances') :
    resolve (ss ++ ss') = .ok (distances ++ distances') := by
  rw [resolve_eq_ok_iff] at resolved resolved' ⊢
  rw [programFindings_append, List.filterMap_append, List.filterMap_append, resolved.1, resolved'.1,
    resolved.2, resolved'.2]
  exact ⟨rfl, rfl⟩

namespace Checked

/-- A program is ready to run if it can be read and makes sense. -/
theorem ofSource_eq_ok_iff {firstId nextId : RefId} {source : String} {c : Checked} :
    ofSource firstId source = (.ok c, nextId) ↔
      ∃ tokens, scan source = .ok tokens ∧
        Program.ofTokens firstId tokens = (.ok c.program, nextId) ∧
        resolve c.program = .ok c.distances := by
  unfold ofSource
  constructor
  · intro h
    split at h
    · cases h
    · rename_i tokens scanned
      split at h
      · cases h
      · rename_i program _ parsed
        split at h
        · cases h
        · rename_i distances resolved
          cases h
          exact ⟨tokens, scanned, parsed, resolved⟩
  · rintro ⟨tokens, scanned, parsed, resolved⟩
    simp only [scanned, parsed, resolved]

/-- Two texts that pass the checks one after the other do so when they are joined. -/
theorem ofSource_join {firstId nextId lastId : RefId} {first second : String} {c c' : Checked}
    (checked : ofSource firstId first = (.ok c, nextId))
    (checked' : ofSource nextId second = (.ok c', lastId)) :
    ofSource firstId (first ++ "\n" ++ second) =
      (.ok ⟨c.program ++ Stmt.movedAll (joinShift first) c'.program, c.distances ++ c'.distances⟩,
        lastId) := by
  obtain ⟨tokens, scanned, parsed, resolved⟩ := ofSource_eq_ok_iff.1 checked
  obtain ⟨tokens', scanned', parsed', resolved'⟩ := ofSource_eq_ok_iff.1 checked'
  refine ofSource_eq_ok_iff.2 ⟨_, scan_join scanned scanned',
    Program.ofTokens_append _ _ parsed parsed', resolve_append resolved ?_⟩
  rw [resolve_moved, resolved']
  exact congrArg Except.ok (List.map_id' _)

/-- Nothing is wrong with the program before it runs. -/
def accepts (source : String) : Bool := (ofSource 0 source).1.isOk

/-- A program that is accepted is so whatever identities were given before. -/
theorem ofSource_of_accepts {source : String} (accepted : accepts source) (firstId : RefId) :
    ∃ c nextId, ofSource firstId source = (.ok c, nextId) := by
  have moved := ofSource_eq_moved firstId source
  unfold accepts at accepted
  cases checked : (ofSource 0 source).1 with
  | error failure =>
    rw [checked] at accepted
    cases accepted
  | ok c =>
    rw [checked] at moved
    exact ⟨_, _, moved⟩

end Checked

/-! ## Behind a program that has moved -/

theorem Closure.moved_zero (f : Closure) : f.moved .zero = f := by
  unfold Closure.moved
  rw [Stmt.movedAll_zero, Token.moved_zero]
  exact congrArg (Closure.mk f.identity f.name · f.body f.env) (List.map_id' _)

section Moved

variable (d : Shift) (own : List Nat)

/-- The value behind a program that has moved, in whose text these functions stand. -/
def Value.moved : Value → Value
  | .function f => .function (if own.contains f.identity then f.moved d else f)
  | value => value

/-- The variables of a frame behind a program that has moved. -/
def Frame.moved (frame : Frame) : Frame :=
  { frame with bindings := frame.bindings.map fun entry => (entry.1, entry.2.moved d own) }

/-- The frames behind a program that has moved. -/
def Frames.moved (frames : Frames) : Frames where
  all := frames.all.map (Frame.moved d own)
  parent_lt i h p hp := by
    rw [Array.getElem_map] at hp
    exact frames.parent_lt i _ p hp

/-- The session behind a program that has moved. -/
def Session.moved (s : Session) : Session :=
  { s with machine := { s.machine with frames := s.machine.frames.moved d own } }

end Moved

section Zero

variable (own : List Nat)

theorem Value.moved_zero (value : Value) : value.moved .zero own = value := by
  cases value with
  | function f => rw [Value.moved, f.moved_zero, ite_self]
  | _ => rfl

theorem Frame.moved_zero (frame : Frame) : frame.moved .zero own = frame := by
  simp only [Frame.moved, Value.moved_zero, List.map_id']

theorem Frames.moved_zero (frames : Frames) : frames.moved .zero own = frames := by
  obtain ⟨all, older⟩ := frames
  have same : all.map (Frame.moved .zero own) = all := by
    rw [funext (Frame.moved_zero own), Array.map_id']
  simp only [Frames.moved, same]

end Zero

/-- The failure, if it is an error of a running program, so many lines further down. -/
def Failure.below (lines : Nat) : Failure → Failure
  | .runtime e => .runtime ⟨e.cause, e.line + lines⟩
  | failure => failure

namespace Twins

variable {S : Setting} {F : Functions}

theorem SameFunction.eq_moved {f f' : Closure} (h : SameFunction S F f f') (ids : S.shift.ids = 0) :
    f' = if F.own.contains f.identity then f.moved S.shift else f := by
  obtain ⟨k, agrees, rfl⟩ := h.moved
  have none : k = 0 := Nat.le_zero.1 (ids ▸ agrees.le)
  subst none
  split <;> rename_i home
  · rw [home, Setting.shiftAt, Setting.linesAt, if_pos rfl, if_pos rfl, ← ids]
  · rw [Bool.eq_false_iff.2 home]
    exact f.moved_zero

theorem SameValue.eq_moved {v v' : Value} (h : SameValue S F v v') (ids : S.shift.ids = 0) :
    v' = v.moved S.shift F.own := by
  cases h with
  | function same => exact congrArg Value.function (same.eq_moved ids)
  | _ => rfl

theorem SameFrame.eq_moved {frame frame' : Frame} (h : SameFrame S F frame frame')
    (ids : S.shift.ids = 0) : frame' = frame.moved S.shift F.own := by
  obtain ⟨parent, bindings⟩ := frame
  obtain ⟨parent', bindings'⟩ := frame'
  cases (show parent' = parent from h.parent)
  have all : bindings.Rel (SameValue S F) bindings' := h.bindings
  refine congrArg (Frame.mk parent) ?_
  clear h
  induction all with
  | nil => rfl
  | cons entry _ ih => exact congrArg₂ List.cons (Prod.ext entry.1.symm (entry.2.eq_moved ids)) ih

/-- The frames are those of the first machine, but for the functions that have moved. -/
theorem SameFrames.eq_moved {frames frames' : Frames} (h : SameFrames S F frames frames')
    (ids : S.shift.ids = 0) : frames' = frames.moved S.shift F.own := by
  obtain ⟨all, older⟩ := frames
  obtain ⟨all', older'⟩ := frames'
  suffices all' = all.map (Frame.moved S.shift F.own) by
    subst this
    rfl
  refine Array.ext_getElem? fun i => ?_
  rw [Array.getElem?_map]
  have same : Option.Rel (SameFrame S F) all[i]? all'[i]? := h.all i
  generalize all[i]? = frame, all'[i]? = frame' at same
  cases same with
  | none => rfl
  | some same => exact congrArg some (same.eq_moved ids)

theorem Related.eq_moved {w : State} {m : Machine} (h : Related S w m) (ids : S.shift.ids = 0)
    (locals : S.locals' = S.locals) :
    m = { w.machine with frames := w.machine.frames.moved S.shift w.own } := by
  obtain ⟨frames, current, known, sink, depth, nextIdentity⟩ := m
  cases h.frames.eq_moved ids
  cases h.current
  cases h.sink
  cases h.depth
  cases h.nextIdentity
  cases (h.locals'.trans locals).trans h.locals.symm
  rfl

end Twins

/-! ## Running -/

/-- A program runs up to some place and then from there. -/
theorem runProgram_append (fuel : Nat) (ss ss' : List Stmt) :
    runProgram fuel (ss ++ ss') = runProgram fuel ss >>= fun _ => runProgram fuel ss' := by
  induction ss with
  | nil => exact (pure_bind () fun _ => runProgram fuel ss').symm
  | cons s ss ih => rw [List.cons_append, runProgram, runProgram, ih, bind_assoc]

namespace Session

/-- A session can not be told from itself, whatever has run on it. -/
theorem Twin.runAll {s : Session} (h : Twin 0 s s) (programs : List (Nat × String)) :
    Twin 0 (s.runAll programs).2 (s.runAll programs).2 := by
  induction programs generalizing s with
  | nil => exact h
  | cons program programs ih => exact ih (run_twin h program.1 program.2).2

section Join

variable {s : Session} {c c' : Checked} {nextId lastId : RefId} {w : State} {m : Machine}

/-- What is known when a program runs alone, and when it runs with another one joined to it. -/
def Twin.ahead (s : Session) (c c' : Checked) (nextId : RefId) : Setting :=
  ⟨.zero, nextId, s.machine.locals.insertMany c.distances,
    s.machine.locals.insertMany (c.distances ++ c'.distances)⟩

theorem Twin.flat_ahead (s : Session) (c c' : Checked) (nextId : RefId) :
    (Twin.ahead s c c' nextId).Flat := ⟨rfl, rfl⟩

/-- To the first program, and to earlier ones, the distances of the second one mean nothing. -/
theorem Twin.agrees_ahead {refs : List Reference} (sound' : c'.Sound nextId lastId)
    (old : ∀ r ∈ refs, r.id < nextId) : (Twin.ahead s c c' nextId).Agrees 0 refs where
  le := Nat.le_refl 0
  known := old
  distance r hr := by
    show (s.machine.locals.insertMany (c.distances ++ c'.distances))[r.id]? = _
    rw [Std.HashMap.insertMany_append, sound'.unchanged (old r hr)]
    rfl

/-- The first program does the same alone and with another one joined to it. -/
theorem Twin.agree_first (h : Twin 0 s s) (le : s.nextId ≤ nextId) (sound : c.Sound s.nextId nextId)
    (sound' : c'.Sound nextId lastId) (fuel : Nat) :
    Agree (Twin.ahead s c c' nextId) (.of (.start (s.machine.learn c.distances)))
      (fun _ _ _ => True)
      (Trace.runProgram fuel c.program (.start (s.machine.learn c.distances)))
      (runProgram fuel c.program (s.machine.learn (c.distances ++ c'.distances))) := by
  have agrees : (Twin.ahead s c c' nextId).Agrees 0 (Stmt.referencesAll c.program) :=
    agrees_ahead sound' fun r hr => (sound.range_of_reference hr).2
  have related : Related (Twin.ahead s c c' nextId) (.start (s.machine.learn c.distances))
      (s.machine.learn (c.distances ++ c'.distances)) := by
    refine h.related.restart (Setting.flat_between 0 s s) (Twin.ahead s c c' nextId)
      fun k refs earlier => ?_
    -- what is known of earlier programs is known of them with the same identities
    cases Nat.le_zero.1 earlier.le
    exact agrees_ahead sound' fun r hr => Nat.lt_of_lt_of_le (earlier.known r hr) le
  have agree := twins_runProgram fuel 0 c.program agrees related
  rw [(flat_ahead s c c' nextId).shiftAt] at agree
  exact (congrArg (fun ss => Agree _ _ _ _ (runProgram fuel ss _)) (Stmt.movedAll_zero _)).mp agree

/-- What is known when the second program runs, alone or joined to the first one. -/
def Twin.behindFirst (first : String) (m : Machine) (lastId : RefId) : Setting :=
  ⟨joinShift first, lastId, m.locals, m.locals⟩

/-- Behind the first program, the second one does the same alone and at its place further down. -/
theorem Twin.agree_second (h : Related (Twin.ahead s c c' nextId) w m) (le : nextId ≤ lastId)
    (sound' : c'.Sound nextId lastId) (first : String) (fuel : Nat) :
    Agree (Twin.behindFirst first m lastId) (.of (.start (w.machine.learn c'.distances)))
      (fun _ _ _ => True)
      (Trace.runProgram fuel c'.program (.start (w.machine.learn c'.distances)))
      (runProgram fuel (Stmt.movedAll (joinShift first) c'.program) m) := by
  have agrees {refs : List Reference} (known : ∀ r ∈ refs, r.id < lastId) :
      (Twin.behindFirst first m lastId).Agrees 0 refs :=
    ⟨Nat.le_refl 0, known, fun _ _ => rfl⟩
  -- the distances are learned one program after the other, or all of them before
  have locals : w.machine.learn c'.distances = { w.machine with locals := m.locals } := by
    rw [Machine.learn, h.locals, h.locals']
    show Machine.mk _ _ ((s.machine.locals.insertMany c.distances).insertMany c'.distances) _ _ _ =
      Machine.mk _ _ (s.machine.locals.insertMany (c.distances ++ c'.distances)) _ _ _
    rw [Std.HashMap.insertMany_append]
  rw [locals]
  refine twins_runProgram fuel 0 c'.program
    (agrees fun r hr => (sound'.range_of_reference hr).2) ?_
  refine h.restart (flat_ahead s c c' nextId) (Twin.behindFirst first m lastId)
    fun k refs earlier => ?_
  cases Nat.le_zero.1 earlier.le
  exact agrees fun r hr => Nat.lt_of_lt_of_le (earlier.known r hr) le

/-- The second program ends at its place further down as it does alone. -/
theorem Twin.ended_second {first : String} {F : Functions}
    {r : EStateM.Result Trace.Stop State Unit} {r' : EStateM.Result Halt Machine Unit}
    (agree : Agree (Twin.behindFirst first m lastId) F (fun _ _ _ => True) r r') :
    let next := Trace.ended lastId r
    ended lastId r' =
      (next.result.mapError
          (Failure.below (if Trace.atHome next.calls then (joinShift first).lines else 0)),
        next.session.moved (joinShift first) next.own) := by
  cases agree with
  | ok _ related _ =>
    rw [related.eq_moved rfl rfl]
    rfl
  | @halt stop w _ _ related =>
    have failure : failureOf ((Twin.behindFirst first m lastId).halt stop) =
        (failureOf stop.halt).below
          (if Trace.atHome stop.calls then (joinShift first).lines else 0) := by
      unfold Setting.halt
      cases stop.halt <;> rfl
    rw [ended, failure, related.eq_moved rfl rfl]
    rfl

end Join

/-- **Running programs one by one equals running them as one.** If the first program fails, so does
the joined one, and the second one does not run. Otherwise the joined one ends as the second one
does. What it has made of the second program stands further down: functions of its text, and errors
that are found while its text runs. -/
theorem run_join (limit : Option Nat) (programs : List (Nat × String)) (fuel : Nat)
    {first second : String} (ready : Checked.accepts first) (ready' : Checked.accepts second) :
    let s := ((start limit).runAll programs).2
    let alone := s.run fuel first
    let next := Trace.run fuel second alone.2
    let joined := s.run fuel (first ++ "\n" ++ second)
    (∀ failure, alone.1 = .error failure → joined.1 = .error failure ∧
      joined.2.machine.sink = alone.2.machine.sink ∧
      joined.2.machine.frames = alone.2.machine.frames) ∧
    (alone.1 = .ok () → alone.2.run fuel second = (next.result, next.session) ∧
      joined = (next.result.mapError
          (Failure.below (if Trace.atHome next.calls then (joinShift first).lines else 0)),
        next.session.moved (joinShift first) next.own)) := by
  have twin := (Twin.start limit).runAll programs
  generalize ((start limit).runAll programs).2 = s at twin ⊢
  -- both programs are checked from the identities on that are given to them in the joined text
  obtain ⟨c, nextId, checked⟩ := Checked.ofSource_of_accepts ready s.nextId
  obtain ⟨c', lastId, checked'⟩ := Checked.ofSource_of_accepts ready' nextId
  have le := Checked.nextId_le_of_ofSource s.nextId first
  have le' := Checked.nextId_le_of_ofSource nextId second
  rw [checked] at le
  rw [checked'] at le'
  have sound := Checked.sound_of_ofSource checked
  have sound' := Checked.sound_of_ofSource checked'
  have agree := twin.agree_first le sound sound' fuel
  -- the second program starts where the first one has ended, if it has
  have alone := Trace.run_shows fuel first s
  rw [Trace.run_of_ofSource checked] at alone
  have joined := run_of_ofSource (Checked.ofSource_join checked checked') fuel
  rw [runProgram_append] at joined
  dsimp only [bind, EStateM.bind] at joined ⊢
  generalize Trace.runProgram fuel c.program _ = r, runProgram fuel c.program _ = r'
    at agree alone joined
  rw [alone, joined]
  cases agree with
  | halt _ related =>
    rw [(Twin.flat_ahead s c c' nextId).halt]
    refine ⟨?_, fun ended => by cases ended⟩
    intro failure failed
    exact ⟨failed, related.sink, (related.frames.eq_moved rfl).trans (Frames.moved_zero _ _)⟩
  | @ok _ _ w m _ related _ =>
    refine ⟨(fun _ failed => by cases failed), fun _ => ⟨Trace.run_shows fuel second _, ?_⟩⟩
    show ended lastId (runProgram fuel (Stmt.movedAll (joinShift first) c'.program) m) = _
    have next : Trace.run fuel second ⟨w.machine, nextId⟩ = _ :=
      Trace.run_of_ofSource checked' fuel
    exact next ▸ Twin.ended_second (Twin.agree_second related le' sound' first fuel)

/-- A declaration takes two lines, and behind it something is called that is no function. -/
theorem run_join_call :
    ((start none).run 9 ("var x =\n 1;" ++ "\n" ++ "nil();")).1 =
      .error (.runtime ⟨.notCallable "nil", 3⟩) := by
  have joined := ((@run_join none [] 9 "var x =\n 1;" "nil();" (by cbv) (by cbv)).2 (by cbv)).2
  refine (congrArg Prod.fst joined).trans ?_
  cbv

end Session

end Lox
