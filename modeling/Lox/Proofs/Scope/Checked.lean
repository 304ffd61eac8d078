import Mathlib.Data.List.Nodup
import Lox.Proofs.Grammar.Trees
import Lox.Session

/-!
# Checked programs

What is known of a program in which no error was found before it runs.

* `Checked.Sound` — it is tidy, its mentions have identities of their own, and their distances are
  those that were found.
* `Checked.sound_of_ofSource` — this is so for every text that passes all checks.
* `Checked.Sound.learned` — a machine that has learned the distances knows them for all mentions of
  the program, and what it knew of other programs is as before.
-/

namespace Lox

mutual

/-- The mentions in an expression are its references. -/
theorem Expr.perm_references (p : Place) : ∀ e : Expr,
    ((e.mentions p).map Mention.id).Perm (e.references.map Reference.id)
  | .literal _ => .refl _
  | .grouping inner | .unary _ inner => Expr.perm_references p inner
  | .binary left _ right | .logical left _ right => by
    simp only [Expr.mentions, Expr.references, List.map_append]
    exact (Expr.perm_references p left).append (Expr.perm_references p right)
  | .var _ _ => .refl _
  | .assign id target value => by
    simp only [Expr.mentions, Expr.references, List.map_append]
    exact (List.perm_append_singleton id _).trans ((Expr.perm_references p value).cons id)
  | .call callee _ arguments => by
    simp only [Expr.mentions, Expr.references, List.map_append]
    exact (Expr.perm_references p callee).append (Expr.perm_referencesAll p arguments)

theorem Expr.perm_referencesAll (p : Place) : ∀ es : List Expr,
    ((Expr.mentionsAll p es).map Mention.id).Perm ((Expr.referencesAll es).map Reference.id)
  | [] => .refl _
  | e :: es => by
    simp only [Expr.mentionsAll, Expr.referencesAll, List.map_append]
    exact (Expr.perm_references p e).append (Expr.perm_referencesAll p es)

end

mutual

/-- The mentions in a statement are its references. -/
theorem Stmt.perm_references (p : Place) : ∀ s : Stmt,
    ((s.mentions p).map Mention.id).Perm (s.references.map Reference.id)
  | .expression value | .print _ value => value.perm_references p
  | .var _ none | .ret _ none => .refl _
  | .var name (some value) => value.perm_references (p.inInitializer name)
  | .ret _ (some value) => value.perm_references p
  | .block body => Stmt.perm_referencesAll (p.inBlock body) body
  | .ifThen condition yes none => by
    simp only [Stmt.mentions, Stmt.references, List.map_append]
    exact (condition.perm_references p).append (Stmt.perm_references p yes)
  | .ifThen condition yes (some no) => by
    simp only [Stmt.mentions, Stmt.references, List.map_append]
    exact ((condition.perm_references p).append (Stmt.perm_references p yes)).append
      (Stmt.perm_references p no)
  | .whileDo condition body => by
    simp only [Stmt.mentions, Stmt.references, List.map_append]
    exact (condition.perm_references p).append (Stmt.perm_references p body)
  | .function name parameters body =>
    Stmt.perm_referencesAll (p.inFunction name parameters body) body

theorem Stmt.perm_referencesAll (p : Place) : ∀ ss : List Stmt,
    ((Stmt.mentionsAll p ss).map Mention.id).Perm ((Stmt.referencesAll ss).map Reference.id)
  | [] => .refl _
  | s :: ss => by
    simp only [Stmt.mentionsAll, Stmt.referencesAll, List.map_append]
    exact (Stmt.perm_references p s).append (Stmt.perm_referencesAll (p.behind s) ss)

end

theorem Distinct.perm {first last : RefId} {ids ids' : List RefId} (h : Distinct first last ids)
    (perm : ids.Perm ids') : Distinct first last ids' :=
  ⟨perm.nodup_iff.1 h.nodup, fun id mem => h.range id (perm.mem_iff.2 mem)⟩

namespace Checked

/-- What the checks of a program establish, which was given the identities from `firstId` up to
`nextId`. -/
structure Sound (firstId nextId : RefId) (c : Checked) : Prop where
  tidy : Stmt.TidyAll [] c.program
  inTime : InTime (programMentions c.program)
  distinct : Distinct firstId nextId ((programMentions c.program).map Mention.id)
  distances_eq : c.distances = (programMentions c.program).filterMap Mention.entry?

/-- Checking gives no identity back. -/
theorem nextId_le_of_ofSource (firstId : RefId) (source : String) :
    firstId ≤ (ofSource firstId source).2 := by
  unfold ofSource
  split
  · exact Nat.le_refl _
  · rename_i tokens _
    have le := Program.nextId_le_of_ofTokens firstId tokens
    split <;> rename_i h <;> rw [h] at le
    · exact le
    · split <;> exact le

/-- What checking says of a text that is a program. -/
theorem ofSource_parts {firstId nextId : RefId} {source : String} {c : Checked}
    (h : ofSource firstId source = (.ok c, nextId)) : ∃ tokens, scan source = .ok tokens ∧
      Program.ofTokens firstId tokens = (.ok c.program, nextId) ∧
      resolve c.program = .ok c.distances := by
  unfold ofSource at h
  split at h
  · cases h
  · rename_i tokens scanned
    split at h
    · cases h
    · rename_i parsed
      split at h
      · cases h
      · rename_i resolved
        cases h
        exact ⟨tokens, scanned, parsed, resolved⟩

/-- What checking finds are errors of the text. -/
theorem ofSource_error {firstId nextId : RefId} {source : String} {failure : Failure}
    (h : ofSource firstId source = (.error failure, nextId)) :
    (∃ errors, failure = .scan errors) ∨ (∃ errors, failure = .parse errors) ∨
      ∃ errors, failure = .resolve errors := by
  unfold ofSource at h
  split at h
  · cases h
    exact .inl ⟨_, rfl⟩
  · split at h
    · cases h
      exact .inr (.inl ⟨_, rfl⟩)
    · split at h <;> cases h
      exact .inr (.inr ⟨_, rfl⟩)

/-- A program that was read and resolved is sound. -/
theorem sound_of_ofTokens {firstId nextId : RefId} {tokens : List Token} {c : Checked}
    (parsed : Program.ofTokens firstId tokens = (.ok c.program, nextId))
    (resolved : resolve c.program = .ok c.distances) : c.Sound firstId nextId := by
  obtain ⟨tidy, inTime, distances⟩ := resolve_ok (Program.plain_of_ofTokens parsed) resolved
  refine ⟨tidy, inTime, ?_, distances⟩
  exact (Program.distinct_of_ofTokens parsed).perm (Stmt.perm_referencesAll .top c.program).symm

/-- A program that passes all checks is sound. -/
theorem sound_of_ofSource {firstId nextId : RefId} {source : String} {c : Checked}
    (h : ofSource firstId source = (.ok c, nextId)) : c.Sound firstId nextId := by
  obtain ⟨tokens, -, parsed, resolved⟩ := ofSource_parts h
  exact sound_of_ofTokens parsed resolved

namespace Sound

variable {firstId nextId : RefId} {c : Checked}

theorem mem_distances {id : RefId} {distance : Nat} (h : c.Sound firstId nextId) :
    (id, distance) ∈ c.distances ↔
      ∃ μ ∈ programMentions c.program, μ.id = id ∧ μ.distance? = some distance := by
  rw [h.distances_eq, List.mem_filterMap]
  refine exists_congr fun μ => and_congr_right fun _ => ?_
  simp only [Mention.entry?, Option.map_eq_some_iff, Prod.mk.injEq]
  constructor
  · rintro ⟨_, hd, rfl, rfl⟩
    exact ⟨rfl, hd⟩
  · rintro ⟨rfl, hd⟩
    exact ⟨distance, hd, rfl, rfl⟩

/-- A mention is known by its identity. -/
theorem eq_of_id {μ μ' : Mention} (h : c.Sound firstId nextId)
    (hμ : μ ∈ programMentions c.program) (hμ' : μ' ∈ programMentions c.program)
    (same : μ.id = μ'.id) : μ = μ' :=
  List.inj_on_of_nodup_map h.distinct.nodup hμ hμ' same

theorem lt_of_mem {μ : Mention} (h : c.Sound firstId nextId)
    (hμ : μ ∈ programMentions c.program) : firstId ≤ μ.id ∧ μ.id < nextId :=
  h.distinct.range _ (List.mem_map_of_mem hμ)

theorem keys_distinct (h : c.Sound firstId nextId) :
    c.distances.Pairwise fun a b => (a.1 == b.1) = false := by
  rw [h.distances_eq, List.pairwise_filterMap]
  refine (List.pairwise_map.1 h.distinct.nodup).imp ?_
  intro μ μ' differ a ha a' ha'
  obtain ⟨_, -, rfl⟩ := Option.map_eq_some_iff.1 ha
  obtain ⟨_, -, rfl⟩ := Option.map_eq_some_iff.1 ha'
  exact beq_eq_false_iff_ne.2 differ

theorem not_contains {id : RefId} (h : c.Sound firstId nextId)
    (none : ∀ μ ∈ programMentions c.program, μ.id = id → μ.distance? = none) :
    (c.distances.map Prod.fst).contains id = false := by
  cases found : (c.distances.map Prod.fst).contains id with
  | false => rfl
  | true =>
    obtain ⟨⟨_, distance⟩, mem, rfl⟩ := List.mem_map.1 (List.contains_iff_mem.1 found)
    obtain ⟨μ, hμ, same, hd⟩ := h.mem_distances.1 mem
    rw [none μ hμ same] at hd
    cases hd

/-- What is learned about a program are the distances of its mentions. -/
theorem learned {locals : Std.HashMap RefId Nat} {μ : Mention} (h : c.Sound firstId nextId)
    (below : ∀ id distance, locals[id]? = some distance → id < firstId)
    (hμ : μ ∈ programMentions c.program) :
    (locals.insertMany c.distances)[μ.id]? = μ.distance? := by
  cases hd : μ.distance? with
  | some distance =>
    exact Std.HashMap.getElem?_insertMany_list_of_mem (BEq.rfl) h.keys_distinct
      (h.mem_distances.2 ⟨μ, hμ, rfl, hd⟩)
  | none =>
    have absent := h.not_contains fun μ' hμ' same => h.eq_of_id hμ' hμ same ▸ hd
    rw [Std.HashMap.getElem?_insertMany_list_of_contains_eq_false absent]
    cases known : locals[μ.id]? with
    | none => rfl
    | some distance => exact absurd (below _ _ known) (Nat.not_lt.2 (h.lt_of_mem hμ).1)

/-- What was known before stays as it was. -/
theorem unchanged {locals : Std.HashMap RefId Nat} {id : RefId} (h : c.Sound firstId nextId)
    (old : id < firstId) : (locals.insertMany c.distances)[id]? = locals[id]? := by
  refine Std.HashMap.getElem?_insertMany_list_of_contains_eq_false (h.not_contains ?_)
  rintro μ hμ rfl
  exact absurd old (Nat.not_lt.2 (h.lt_of_mem hμ).1)

/-- Whatever is known then was given to this program or an earlier one. -/
theorem lt_of_learned {locals : Std.HashMap RefId Nat} {id : RefId} {distance : Nat}
    (h : c.Sound firstId nextId) (le : firstId ≤ nextId)
    (below : ∀ id distance, locals[id]? = some distance → id < firstId)
    (known : (locals.insertMany c.distances)[id]? = some distance) : id < nextId := by
  rcases Nat.lt_or_ge id firstId with old | new
  · exact Nat.lt_of_lt_of_le old le
  · by_cases mem : ∃ μ ∈ programMentions c.program, μ.id = id
    · obtain ⟨μ, hμ, rfl⟩ := mem
      exact (h.lt_of_mem hμ).2
    · have absent := h.not_contains fun μ hμ same => absurd ⟨μ, hμ, same⟩ mem
      rw [Std.HashMap.getElem?_insertMany_list_of_contains_eq_false absent] at known
      exact Nat.lt_of_lt_of_le (below _ _ known) le

end Sound

end Checked

end Lox
