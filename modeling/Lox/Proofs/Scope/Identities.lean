import Mathlib
import Lox.Proofs.Scope.Agreement

/-!
# Identities of mentions

Every mention of a variable has an identity of its own, in all programs that one process reads.

* `boundIds` — the mentions for which resolution finds a distance, as often as it does;
  `FoundWithin`, `Stmt.foundWithin` — no more often than there are such mentions.
* `Program.ofTokensAll` — programs that are read one after the other;
  `Program.distinct_of_ofTokensAll` — all their identities are different.
* `Process` — sessions that draw identities from one supply; `Machine.Adds` — distances are added and
  none is replaced.
* `identities_unshared` — no identity is shared, and no distance is ever replaced.
-/

namespace Lox

/-! ## Distances that are found -/

/-- The mentions for which a distance is found, in order. -/
def boundIds (found : List Finding) : List RefId := (found.filterMap Finding.bound?).map Prod.fst

theorem boundIds_append (found found' : List Finding) :
    boundIds (found ++ found') = boundIds found ++ boundIds found' := by
  simp [boundIds]

theorem boundIds_declaring (scopes : Scopes) (name : Token) : boundIds (scopes.declaring name) = [] := by
  rw [boundIds, bound_declaring, List.map_nil]

theorem boundIds_introduceAll (scopes : Scopes) (names : List Token) :
    boundIds (scopes.introduceAll names).1 = [] := by
  rw [boundIds, bound_introduceAll, List.map_nil]

/-- A distance for the mention is found no more often than there are such mentions. -/
def FoundWithin (i : RefId) (mentions : List Reference) (found : List Finding) : Prop :=
  (boundIds found).count i ≤ (mentions.map Reference.id).count i

namespace FoundWithin

variable {i : RefId} {mentions mentions' : List Reference} {found found' : List Finding}

theorem of_unbound (none : boundIds found = []) : FoundWithin i [] found := by
  rw [FoundWithin, none]
  exact Nat.le_refl _

theorem append (h : FoundWithin i mentions found) (h' : FoundWithin i mentions' found') :
    FoundWithin i (mentions ++ mentions') (found ++ found') := by
  rw [FoundWithin, boundIds_append, List.map_append, List.count_append, List.count_append]
  exact Nat.add_le_add h h'

theorem perm (h : FoundWithin i mentions found) (same : mentions.Perm mentions') :
    FoundWithin i mentions' found := by
  rw [FoundWithin, ← (same.map Reference.id).count_eq i]
  exact h

/-- For a mention one distance is found, or none. -/
theorem mention (scopes : Scopes) (i : RefId) (r : Reference) :
    FoundWithin i [r] (scopes.mention r.id r.name) := by
  unfold Scopes.mention
  split
  · exact Nat.le_refl _
  · exact Nat.zero_le _

end FoundWithin

mutual

theorem Expr.foundWithin (scopes : Scopes) (i : RefId) : ∀ e : Expr,
    FoundWithin i e.references (e.findings scopes)
  | .literal _ => .of_unbound rfl
  | .grouping inner | .unary _ inner => inner.foundWithin scopes i
  | .binary left _ right | .logical left _ right =>
    (left.foundWithin scopes i).append (right.foundWithin scopes i)
  | .var id name => by
    have early : boundIds (if scopes.initializing name.lexeme then
        [.fault ⟨.selfReferencingInitializer, name⟩] else []) = [] := by
      split <;> rfl
    exact (FoundWithin.of_unbound early).append (.mention scopes i ⟨id, name, false⟩)
  | .assign id target value =>
    ((value.foundWithin scopes i).append (.mention scopes i ⟨id, target, true⟩)).perm
      (List.perm_append_singleton _ _)
  | .call callee _ arguments =>
    (callee.foundWithin scopes i).append (Expr.foundWithinAll scopes i arguments)

theorem Expr.foundWithinAll (scopes : Scopes) (i : RefId) : ∀ es : List Expr,
    FoundWithin i (Expr.referencesAll es) (Expr.findingsAll scopes es)
  | [] => .of_unbound rfl
  | e :: es => (e.foundWithin scopes i).append (Expr.foundWithinAll scopes i es)

end

mutual

/-- Whatever is wrong with a statement, for each mention in it at most one distance is found. -/
theorem Stmt.foundWithin (i : RefId) : ∀ (s : Stmt) (inFunction : Bool) (scopes : Scopes),
    FoundWithin i s.references (s.findings inFunction scopes).1
  | .expression value, _, scopes | .print _ value, _, scopes => value.foundWithin scopes i
  | .var name none, _, scopes =>
    (FoundWithin.of_unbound (boundIds_declaring scopes name)).append (.of_unbound rfl)
  | .var name (some value), _, scopes =>
    (FoundWithin.of_unbound (boundIds_declaring scopes name)).append (value.foundWithin _ i)
  | .block body, inFunction, scopes => Stmt.foundWithinAll i body inFunction ([] :: scopes)
  | .ifThen condition yes none, inFunction, scopes =>
    (condition.foundWithin scopes i).append (yes.foundWithin i inFunction scopes)
  | .ifThen condition yes (some no), inFunction, scopes =>
    ((condition.foundWithin scopes i).append (yes.foundWithin i inFunction scopes)).append
      (no.foundWithin i inFunction _)
  | .whileDo condition body, inFunction, scopes =>
    (condition.foundWithin scopes i).append (body.foundWithin i inFunction scopes)
  | .function name parameters body, _, scopes =>
    ((FoundWithin.of_unbound (boundIds_declaring scopes name)).append
      (.of_unbound (boundIds_introduceAll _ parameters))).append (Stmt.foundWithinAll i body true _)
  | .ret keyword none, inFunction, scopes => by
    refine .of_unbound ?_
    cases inFunction <;> rfl
  | .ret keyword (some value), inFunction, scopes => by
    have outside : boundIds (if inFunction then [] else
        [.fault ⟨.returnOutsideFunction, keyword⟩]) = [] := by
      split <;> rfl
    exact (FoundWithin.of_unbound outside).append (value.foundWithin scopes i)

theorem Stmt.foundWithinAll (i : RefId) : ∀ (ss : List Stmt) (inFunction : Bool)
    (scopes : Scopes), FoundWithin i (Stmt.referencesAll ss) (Stmt.findingsAll inFunction scopes ss).1
  | [], _, _ => .of_unbound rfl
  | s :: ss, inFunction, scopes =>
    (s.foundWithin i inFunction scopes).append (Stmt.foundWithinAll i ss inFunction _)

end

/-! ## Programs read one after the other -/

/-- What different tokens make up, read one after the other: each has its identities from behind those
that were given before, whether there were errors or not. The first one that was not given comes with
the results. -/
def Program.ofTokensAll (firstId : RefId) :
    List (List Token) → List (Except (List ParseError) Program) × RefId
  | [] => ([], firstId)
  | tokens :: more =>
    let (result, nextId) := Program.ofTokens firstId tokens
    let (results, lastId) := ofTokensAll nextId more
    (result :: results, lastId)

theorem Distinct.append {first next last : RefId} {ids ids' : List RefId}
    (h : Distinct first next ids) (h' : Distinct next last ids') (le : first ≤ next)
    (le' : next ≤ last) : Distinct first last (ids ++ ids') where
  nodup := by
    refine List.nodup_append.2 ⟨h.nodup, h'.nodup, fun id mem id' mem' same => ?_⟩
    exact Nat.ne_of_lt (Nat.lt_of_lt_of_le (h.range id mem).2 (h'.range id' mem').1) same
  range id mem := by
    rcases List.mem_append.1 mem with mem | mem
    · exact ⟨(h.range id mem).1, Nat.lt_of_lt_of_le (h.range id mem).2 le'⟩
    · exact ⟨Nat.le_trans le (h'.range id mem).1, (h'.range id mem).2⟩

/-- All mentions of all programs have different identities. -/
theorem Program.distinct_of_ofTokensAll (firstId : RefId) (parses : List (List Token)) :
    firstId ≤ (Program.ofTokensAll firstId parses).2 ∧
      Distinct firstId (Program.ofTokensAll firstId parses).2
        (((Program.ofTokensAll firstId parses).1.filterMap Except.toOption).flatMap
          Grammar.stmtsIds) := by
  induction parses generalizing firstId with
  | nil => exact ⟨Nat.le_refl _, List.nodup_nil, fun _ mem => absurd mem List.not_mem_nil⟩
  | cons tokens parses ih =>
    have le := Program.nextId_le_of_ofTokens firstId tokens
    rw [Program.ofTokensAll]
    cases read : Program.ofTokens firstId tokens with
    | mk result nextId =>
      rw [read] at le
      obtain ⟨le', others⟩ := ih nextId
      refine ⟨Nat.le_trans le le', ?_⟩
      cases result with
      | ok program => exact (Program.distinct_of_ofTokens read).append others le le'
      | error errors => exact ⟨others.nodup, fun id mem => ⟨Nat.le_trans le (others.range id mem).1,
          (others.range id mem).2⟩⟩

/-- Among different identities, distances are found for different ones. -/
theorem nodup_boundIds {programs : List Program} (h : (programs.flatMap Grammar.stmtsIds).Nodup) :
    (programs.flatMap fun program => boundIds (programFindings program)).Nodup := by
  have few (programs : List Program) (i : RefId) :
      (programs.flatMap fun program => boundIds (programFindings program)).count i ≤
        (programs.flatMap Grammar.stmtsIds).count i := by
    induction programs with
    | nil => exact Nat.le_refl _
    | cons program programs ih =>
      rw [List.flatMap_cons, List.flatMap_cons, List.count_append, List.count_append]
      exact Nat.add_le_add (Stmt.foundWithinAll i program false []) ih
  rw [List.nodup_iff_count] at h ⊢
  exact fun i => Nat.le_trans (few programs i) (h i)

/-- The distances of programs that resolution accepts are those that it finds. -/
theorem tables_sublist (programs : List Program) :
    ((programs.filterMap fun program => (resolve program).toOption).flatMap
      (·.map Prod.fst)).Sublist (programs.flatMap fun program => boundIds (programFindings program)) := by
  induction programs with
  | nil => exact .slnil
  | cons program programs ih =>
    rw [List.filterMap_cons, List.flatMap_cons]
    cases resolved : resolve program with
    | error errors => exact ih.trans (List.sublist_append_right _ _)
    | ok distances =>
      obtain ⟨-, rfl⟩ := noFault_of_resolve resolved
      exact (List.Sublist.refl _).append ih

/-- The identities are different also as words of 64 bits, unless more of them are given than there
are words. -/
theorem Distinct.words {first last : RefId} {ids : List RefId} (h : Distinct first last ids)
    (few : last ≤ first + 2 ^ 64) : (ids.map (· % 2 ^ 64)).Nodup := by
  have within (id : RefId) (mem : id ∈ ids) : id ∈ Finset.Ico first (first + 2 ^ 64) :=
    Finset.mem_Ico.2 ⟨(h.range id mem).1, Nat.lt_of_lt_of_le (h.range id mem).2 few⟩
  exact List.Nodup.map_on (fun id mem id' mem' same =>
    Nat.mod_injOn_Ico first (2 ^ 64) (within id mem) (within id' mem') same) h.nodup

/-! ## Sessions side by side -/

/-- The distances are added to those that the machine knows, each one once: none that it knew is
replaced, and none of them replaces another one. -/
structure Machine.Adds (m : Machine) (distances : List (RefId × Nat)) : Prop where
  once : (distances.map Prod.fst).Nodup
  new : ∀ (id : RefId) (distance : Nat), (id, distance) ∈ distances → m.locals[id]? = none
  known : ∀ (id : RefId) (distance : Nat), (id, distance) ∈ distances →
    (m.learn distances).locals[id]? = some distance
  kept : ∀ (id : RefId) (distance : Nat), m.locals[id]? = some distance →
    (m.learn distances).locals[id]? = some distance

/-- The machines of sessions, which draw identities for mentions from one supply. -/
structure Process where
  machine : Nat → Machine
  nextId : RefId

namespace Process

/-- Sessions in which nothing has run yet. -/
def start (limits : Nat → Option Nat) : Process := ⟨fun i => Machine.start (limits i), 0⟩

/-- Runs a program in one of the sessions. -/
def run (i fuel : Nat) (source : String) (p : Process) : Process :=
  let s := (Session.run fuel source ⟨p.machine i, p.nextId⟩).2
  ⟨Function.update p.machine i s.machine, s.nextId⟩

/-- Runs programs one after the other, each with so much fuel in one of the sessions. -/
def runAll : List (Nat × Nat × String) → Process → Process
  | [], p => p
  | (i, fuel, source) :: runs, p => runAll runs (p.run i fuel source)

/-- A run gives the identities that the text of its program is given, however it ends. -/
theorem nextId_run (p : Process) (i fuel : Nat) (source : String) :
    (p.run i fuel source).nextId = (Checked.ofSource p.nextId source).2 := by
  have ends : (Session.run fuel source ⟨p.machine i, p.nextId⟩).2.nextId =
      (Checked.ofSource p.nextId source).2 := by
    unfold Session.run
    dsimp only
    cases Checked.ofSource p.nextId source with
    | mk result nextId =>
      cases result with
      | error failure => rfl
      | ok checked =>
        dsimp only
        cases runProgram fuel checked.program ((p.machine i).learn checked.distances) <;> rfl
  exact ends

/-- What is known in a session was given to a program that ran before. -/
def Sound (p : Process) : Prop :=
  ∀ i, ∃ events, Watch.Session.Sound ⟨⟨p.machine i, events⟩, p.nextId⟩

theorem sound_start (limits : Nat → Option Nat) : (start limits).Sound := fun i =>
  ⟨[], Watch.Session.sound_start (limits i)⟩

theorem Sound.run {p : Process} (h : p.Sound) (i fuel : Nat) (source : String) :
    (p.run i fuel source).Sound := by
  intro j
  obtain ⟨events, sound⟩ := h i
  obtain ⟨after, leaves⟩ := sound.run fuel source
  obtain ⟨-, same⟩ := Watch.Session.run_shows fuel source ⟨⟨p.machine i, events⟩, p.nextId⟩
  have same : (Watch.Session.run fuel source ⟨⟨p.machine i, events⟩, p.nextId⟩).2.unwatched =
    (Session.run fuel source ⟨p.machine i, p.nextId⟩).2 := same
  unfold Process.run
  rw [← same]
  by_cases own : j = i
  · subst own
    exact ⟨_, by simpa [Watch.Session.unwatched] using after⟩
  · obtain ⟨events', other⟩ := h j
    refine ⟨events', ?_⟩
    simpa [own, Watch.Session.unwatched] using other.skip leaves.nextId

theorem Sound.runAll {p : Process} (h : p.Sound) (runs : List (Nat × Nat × String)) :
    (p.runAll runs).Sound := by
  induction runs generalizing p with
  | nil => exact h
  | cons r runs ih => exact ih (h.run r.1 r.2.1 r.2.2)

/-- In a sound process all distances of a program are new. -/
theorem Sound.adds {p : Process} (h : p.Sound) {source : String} {c : Checked} {nextId : RefId}
    (checked : Checked.ofSource p.nextId source = (.ok c, nextId)) (i : Nat) :
    (p.machine i).Adds c.distances := by
  obtain ⟨events, session⟩ := h i
  have sound := Checked.sound_of_ofSource checked
  have below := session.below
  have distinct := sound.keys_distinct
  exact {
    once := List.pairwise_map.2 (distinct.imp fun differ => beq_eq_false_iff_ne.1 differ)
    new := fun id distance mem => by
      obtain ⟨μ, hμ, rfl, -⟩ := sound.mem_distances.1 mem
      cases known : (p.machine i).locals[μ.id]? with
      | none => rfl
      | some old => exact absurd (below _ _ known) (Nat.not_lt.2 (sound.lt_of_mem hμ).1)
    known := fun id distance mem =>
      Std.HashMap.getElem?_insertMany_list_of_mem BEq.rfl distinct mem
    kept := fun id distance known =>
      (sound.unchanged (below _ _ known)).trans known }

end Process

/-- **No identity is shared.** Of all programs that are read one after the other, whether there are
errors in between or not, all mentions have different identities, also as words of 64 bits if no more
than these are given. Resolution finds a distance for each of them at most once, whatever is wrong with
a program, and so the distances of different programs are those of different mentions. In sessions that
draw identities from one supply, the distances of a program are always new to the machine that learns
them: none that it knew is replaced, and none of them replaces another one. -/
theorem identities_unshared (firstId : RefId) (parses : List (List Token)) :
    let read := Program.ofTokensAll firstId parses
    let programs := read.1.filterMap Except.toOption
    (programs.flatMap Grammar.stmtsIds).Nodup ∧
    (read.2 ≤ firstId + 2 ^ 64 → ((programs.flatMap Grammar.stmtsIds).map (· % 2 ^ 64)).Nodup) ∧
    (programs.flatMap fun program => boundIds (programFindings program)).Nodup ∧
    ((programs.filterMap fun program => (resolve program).toOption).flatMap
      (·.map Prod.fst)).Nodup ∧
    ∀ (limits : Nat → Option Nat) (runs : List (Nat × Nat × String)) (i : Nat) (source : String)
      (checked : Checked) (nextId : RefId),
      let process := (Process.start limits).runAll runs
      Checked.ofSource process.nextId source = (.ok checked, nextId) →
        (process.machine i).Adds checked.distances := by
  obtain ⟨-, distinct⟩ := Program.distinct_of_ofTokensAll firstId parses
  have found := nodup_boundIds distinct.nodup
  refine ⟨distinct.nodup, distinct.words, found, found.sublist (tables_sublist _), ?_⟩
  intro limits runs i source checked nextId process ofSource
  exact ((Process.sound_start limits).runAll runs).adds ofSource i

/-- A block in which a variable is given its own value. -/
def selfAssignment (firstId : RefId) : Program :=
  [.block [.var ⟨.identifier, "a", 1, 5⟩ none,
    .expression (.assign (firstId + 2) ⟨.identifier, "a", 1, 7⟩
      (.var (firstId + 1) ⟨.identifier, "a", 1, 9⟩))]]

/-- The tokens of `selfAssignment`. -/
def selfAssignmentTokens : List Token :=
  [⟨.symbol .leftBrace, "\x7b", 1, 0⟩, ⟨.keyword .var, "var", 1, 1⟩, ⟨.identifier, "a", 1, 5⟩,
    ⟨.symbol .semicolon, ";", 1, 6⟩, ⟨.identifier, "a", 1, 7⟩, ⟨.symbol .equal, "=", 1, 8⟩,
    ⟨.identifier, "a", 1, 9⟩, ⟨.symbol .semicolon, ";", 1, 10⟩, ⟨.symbol .rightBrace, "\x7d", 1, 11⟩]

/-- These tokens twice, and in between the last of them, which are no program. -/
def selfAssignmentParses : List (List Token) :=
  [selfAssignmentTokens, selfAssignmentTokens.drop 6, selfAssignmentTokens]

/-- What stands in front of `=` is read as a mention first, so that three identities are given for the
block and two of them are kept. One is given in vain where there is an error. -/
theorem identities_unshared_twice :
    let read := Program.ofTokensAll 0 selfAssignmentParses
    let process := (Process.start fun _ => none).runAll [(0, 9, "\x7bvar a;a=a;\x7d")]
    (read.1.filterMap Except.toOption = [selfAssignment 0, selfAssignment 4] ∧ read.2 = 7 ∧
      (([2, 1, 6, 5] : List RefId).map (· % 2 ^ 64)).Nodup) ∧
    Checked.ofSource process.nextId "\x7bvar a;a=a;\x7d" =
      (.ok ⟨selfAssignment 3, [(4, 0), (5, 0)]⟩, 6) ∧ (process.machine 0).Adds [(4, 0), (5, 0)] := by
  have read : (Program.ofTokensAll 0 selfAssignmentParses).1.filterMap Except.toOption =
      [selfAssignment 0, selfAssignment 4] := by cbv
  have few : (Program.ofTokensAll 0 selfAssignmentParses).2 = 7 := by cbv
  have first : Checked.ofSource 0 "\x7bvar a;a=a;\x7d" =
      (.ok ⟨selfAssignment 0, [(1, 0), (2, 0)]⟩, 3) := by cbv
  have second : Checked.ofSource 3 "\x7bvar a;a=a;\x7d" =
      (.ok ⟨selfAssignment 3, [(4, 0), (5, 0)]⟩, 6) := by cbv
  have given : ((Process.start fun _ => none).runAll [(0, 9, "\x7bvar a;a=a;\x7d")]).nextId = 3 :=
    (Process.nextId_run _ 0 9 _).trans (congrArg Prod.snd first)
  have checked : Checked.ofSource ((Process.start fun _ => none).runAll
      [(0, 9, "\x7bvar a;a=a;\x7d")]).nextId "\x7bvar a;a=a;\x7d" =
        (.ok ⟨selfAssignment 3, [(4, 0), (5, 0)]⟩, 6) := by rw [given, second]
  obtain ⟨-, words, -, -, adds⟩ := identities_unshared 0 selfAssignmentParses
  rw [read, few] at words
  exact ⟨⟨read, few, words (by decide)⟩, checked, adds _ _ 0 _ _ _ checked⟩

end Lox
