import Mathlib
import Lox.Proofs.Grammar.Completeness
import Lox.Proofs.Grammar.Soundness

/-!
# Programs and the grammar

The programs that are read are those that the grammar derives, as far as the limits of the language
allow.

* `Program.isProgram_of_ofTokens` — what is read is derived.
* `IsProgram.erasedAll_eq` — only one tree is derived from the same tokens, since the tokens
  determine what is read.
* `Program.ofTokens_of_isProgram` — what is derived is read, within the limits.
-/

namespace Lox

/-- **A program that is read is derived from its tokens.** All of them are used, each once and in
order. No call and no function has more arguments or parameters than allowed, and the parts nest
no deeper than allowed. -/
theorem Program.isProgram_of_ofTokens {firstId nextId : RefId} {tokens : List Token}
    {program : Program} (h : Program.ofTokens firstId tokens = (.ok program, nextId)) :
    Grammar.IsProgram Grammar.maxArguments Grammar.maxNesting tokens program := by
  obtain ⟨r, read, clean, -⟩ := Program.ok_of_ofTokens h
  exact Grammar.isDeclarations_of_ok read clean

/-- The tokens of `a = b or c;` are read. -/
theorem Program.isProgram_of_assignment :
    Grammar.IsProgram Grammar.maxArguments Grammar.maxNesting
      [⟨.identifier, "a", 1, 0⟩, ⟨.symbol .equal, "=", 1, 2⟩, ⟨.identifier, "b", 1, 4⟩,
        ⟨.keyword .or, "or", 1, 6⟩, ⟨.identifier, "c", 1, 9⟩, ⟨.symbol .semicolon, ";", 1, 10⟩]
      [.expression (.assign 3 ⟨.identifier, "a", 1, 0⟩
        (.logical (.var 1 ⟨.identifier, "b", 1, 4⟩) .or (.var 2 ⟨.identifier, "c", 1, 9⟩)))] :=
  @Program.isProgram_of_ofTokens 0 4 _ _ (by cbv)

namespace Grammar

/-- Tokens derive only one program. To see this they are read once, by a reader that has room for
both derivations. -/
theorem IsProgram.erasedAll_eq {width width' nesting nesting' : Nat} {tokens : List Token}
    {program program' : Program} (h : IsProgram width nesting tokens program)
    (h' : IsProgram width' nesting' tokens program') :
    Stmt.erasedAll program = Stmt.erasedAll program' := by
  have read := gets_declarations (b := ⟨width, nesting, max nesting nesting'⟩)
    (4 * (tokens.length + 1)) h (Nat.le_refl _) _ (.start tokens 0)
  have read' := gets_declarations (b := ⟨width', nesting', max nesting nesting'⟩)
    (4 * (tokens.length + 1)) h' (Nat.le_refl _) _ (.start tokens 0)
  have room : ¬max nesting nesting' < nesting := by omega
  have room' : ¬max nesting nesting' < nesting' := by omega
  have both := read.and read'
  unfold Ends at both
  split at both
  · obtain ⟨arrived, arrived'⟩ := both
    have first := (arrived.resolve_right fun lost => room lost.2.1).2.2
    have second := (arrived'.resolve_right fun lost => room' lost.2.1).2.2
    exact first.symm.trans second
  · exact absurd both.1.1 room

end Grammar

/-- **Whatever derives a program is read as this program.** Tokens that can be derived at all, with
whatever bounds, are read as the tree of the derivation, up to identities; or the first error is
about a limit, and the derivation is really wider or deeper than allowed. No two trees have the
same tokens. -/
theorem Program.ofTokens_of_isProgram (firstId : RefId) {width nesting : Nat}
    {tokens : List Token} {program : Program}
    (h : Grammar.IsProgram width nesting tokens program) :
    ((∃ program' nextId, Program.ofTokens firstId tokens = (.ok program', nextId) ∧
        Stmt.erasedAll program' = Stmt.erasedAll program) ∨
      ∃ e errors nextId, Program.ofTokens firstId tokens = (.error (e :: errors), nextId) ∧
        e.cause.isLimit = true ∧
        (Grammar.maxArguments < width ∨ Grammar.maxNesting < nesting)) ∧
    ∀ width' nesting' program', Grammar.IsProgram width' nesting' tokens program' →
      Stmt.erasedAll program' = Stmt.erasedAll program := by
  refine ⟨?_, fun _ _ _ h' => h'.erasedAll_eq h⟩
  have read := Grammar.gets_declarations (b := ⟨width, nesting, Grammar.maxNesting⟩)
    (4 * (tokens.length + 1)) h (Nat.le_refl _) _ (.start tokens firstId)
  have stops := Grammar.declarations_stops (4 * (tokens.length + 1))
    ⟨tokens, Token.endOf tokens, Token.kind_endOf tokens, #[], 0, Grammar.maxNesting, firstId⟩
  have both := read.and stops
  unfold Ends at both
  unfold Program.ofTokens
  simp only
  split at both
  · rename_i program' r hr
    rw [hr]
    have outcome : r.errors = #[] ∧ Stmt.erasedAll program' = Stmt.erasedAll program ∨
        Grammar.LimitFirst [] r.errors.toList ∧
          (Grammar.maxArguments < width ∨ Grammar.maxNesting < nesting) := by
      rcases both.1 with ⟨-, clean | ⟨wide, first⟩, same⟩ | ⟨-, deep, first⟩
      · exact .inl ⟨clean, same⟩
      · exact .inr ⟨first, .inl wide⟩
      · exact .inr ⟨first, .inr deep⟩
    rcases outcome with ⟨clean, same⟩ | ⟨first, beyond⟩
    · exact .inl ⟨program', r.nextId, by simp [clean], same⟩
    · obtain ⟨e, errors, he, limit⟩ := first.of_nil
      have some : r.errors.isEmpty = false := by
        cases hr : r.errors.isEmpty with
        | false => rfl
        | true => simp [Array.isEmpty_iff.1 hr] at he
      exact .inr ⟨e, errors, r.nextId, by simp [some, he], limit, beyond⟩
  · rename_i reason r hr
    rw [hr]
    obtain ⟨⟨deep, first⟩, rfl⟩ := both
    obtain ⟨e, errors, he, limit⟩ := first.of_nil
    exact .inr ⟨e, errors, r.nextId, by rw [← he]; rfl, limit, .inr deep⟩

namespace Grammar

/-- The tokens of `if (f(a)) b + c - d; else e;`. -/
def choiceTokens : List Token :=
  [⟨.keyword .if_, "if", 1, 0⟩, ⟨.symbol .leftParen, "(", 1, 3⟩, ⟨.identifier, "f", 1, 4⟩,
    ⟨.symbol .leftParen, "(", 1, 5⟩, ⟨.identifier, "a", 1, 6⟩, ⟨.symbol .rightParen, ")", 1, 7⟩,
    ⟨.symbol .rightParen, ")", 1, 8⟩, ⟨.identifier, "b", 1, 10⟩, ⟨.symbol .plus, "+", 1, 12⟩,
    ⟨.identifier, "c", 1, 14⟩, ⟨.symbol .minus, "-", 1, 16⟩, ⟨.identifier, "d", 1, 18⟩,
    ⟨.symbol .semicolon, ";", 1, 19⟩, ⟨.keyword .else_, "else", 1, 21⟩, ⟨.identifier, "e", 1, 26⟩,
    ⟨.symbol .semicolon, ";", 1, 27⟩]

/-- The call in `choiceTokens`. -/
def choiceTest : Expr :=
  .call (.var 0 ⟨.identifier, "f", 1, 4⟩) ⟨.symbol .rightParen, ")", 1, 7⟩
    [.var 0 ⟨.identifier, "a", 1, 6⟩]

/-- The row of operators in `choiceTokens`. -/
def choiceRow : Expr :=
  .binary (.binary (.var 0 ⟨.identifier, "b", 1, 10⟩) ⟨.symbol .plus, "+", 1, 12⟩
    (.var 0 ⟨.identifier, "c", 1, 14⟩)) ⟨.symbol .minus, "-", 1, 16⟩ (.var 0 ⟨.identifier, "d", 1, 18⟩)

theorem isUnary_choiceTest : IsUnary 1 3 ((choiceTokens.drop 2).take 4) choiceTest := by
  have argument : IsExpression 1 3 [⟨.identifier, "a", 1, 6⟩] (.var 0 ⟨.identifier, "a", 1, 6⟩) :=
    .nested (.level (.of_name rfl (Nat.le_refl 6)))
  have calls : IsCalls 1 3 (.var 0 ⟨.identifier, "f", 1, 4⟩) ((choiceTokens.drop 3).take 3) choiceTest :=
    .call rfl (.some (.one argument)) (by decide) rfl .done
  exact .call (.name rfl) calls

theorem isLevel_choiceRow : IsLevel 1 0 2 ((choiceTokens.drop 7).take 5) choiceRow := by
  have operand (n : Nat) (text : String) (place : Nat) :
      IsLevel 1 5 n [⟨.identifier, text, 1, place⟩] (.var 0 ⟨.identifier, text, 1, place⟩) :=
    IsLevel.of_name rfl (show 1 ≤ 6 by decide)
  have last : IsOperands 1 4 1 _ ((choiceTokens.drop 10).take 2) choiceRow :=
    .more (.term (.inl rfl)) (operand 0 "d" 18) .done
  have operators : IsOperands 1 4 2 (.var 0 ⟨.identifier, "b", 1, 10⟩) ((choiceTokens.drop 8).take 4)
      choiceRow :=
    .more (.term (.inr rfl)) (operand 1 "c" 14) last
  have row : IsLevel 1 4 2 ((choiceTokens.drop 7).take 5) choiceRow := .infixes (operand 2 "b" 10) operators
  exact .infixes (.infixes (.infixes (.infixes row .done) .done) .done) .done

/-- One argument and four levels are enough. -/
theorem isProgram_choice :
    IsProgram 1 4 choiceTokens [.ifThen choiceTest (.expression choiceRow)
      (some (.expression (.var 0 ⟨.identifier, "e", 1, 26⟩)))] := by
  have test : IsExpression 1 4 ((choiceTokens.drop 2).take 4) choiceTest :=
    .nested (.level (.of_unary isUnary_choiceTest (Nat.le_refl 6)))
  have yes : IsStatement 1 false 3 ((choiceTokens.drop 7).take 6) (.expression choiceRow) :=
    .expression (.mk (.nested (.level isLevel_choiceRow)) rfl)
  have no : IsStatement 1 false 3 (choiceTokens.drop 14)
      (.expression (.var 0 ⟨.identifier, "e", 1, 26⟩)) :=
    .expression (.mk (.nested (.level (.of_name rfl (Nat.le_refl 6)))) rfl)
  exact .cons (.statement (.ifThenElse rfl rfl test rfl yes rfl no)) .nil

end Grammar

/-- The row of operators is read from its left, the call with its argument, and the `else` belongs to
the `if`. -/
theorem Program.ofTokens_of_choice :
    ∃ program nextId, Program.ofTokens 0 Grammar.choiceTokens = (.ok program, nextId) ∧
      Stmt.erasedAll program = [.ifThen Grammar.choiceTest (.expression Grammar.choiceRow)
        (some (.expression (.var 0 ⟨.identifier, "e", 1, 26⟩)))] := by
  rcases (Program.ofTokens_of_isProgram 0 Grammar.isProgram_choice).1 with
    read | ⟨_, _, _, -, -, wide | deep⟩
  · exact read
  · exact absurd wide (by decide)
  · exact absurd deep (by decide)

end Lox
