import Lox.Text.Bytes

/-!
# Lines

What the lines of a stream of bytes are, apart from any way of finding them.

* `Text.withoutReturn` — a line without the carriage return in front of its end.
* `Text.IsLines` — the stream falls into these lines.
* `Text.isLines_iff` — these are the lines that are found.
-/

namespace Lox.Text

/-- The bytes without a carriage return at their end. Only one is left out. -/
def withoutReturn (line : List UInt8) : List UInt8 :=
  if line.getLast? = some 13 then line.dropLast else line

/-- The stream falls into these lines. Each ends with a byte 10, in front of which there may be a carriage
return, except that the last one may do without. -/
inductive IsLines : List UInt8 → List (List UInt8) → Prop where
  | none : IsLines [] []
  | last {line : List UInt8} (some : line ≠ []) (inside : 10 ∉ line) : IsLines line [line]
  | ended {line rest : List UInt8} {others : List (List UInt8)} (inside : 10 ∉ line)
      (behind : IsLines rest others) : IsLines (line ++ 10 :: rest) (withoutReturn line :: others)

/-- Where no line ends, all is one line. -/
theorem lines_of_not_mem {line : List UInt8} (some : line ≠ []) (inside : 10 ∉ line) :
    lines line = [line] := by
  induction line with
  | nil => exact absurd rfl some
  | cons b line ih =>
    obtain ⟨here, others⟩ := not_or.1 (mt List.mem_cons.2 inside)
    cases line with
    | nil => simp [lines, Ne.symm here]
    | cons d line =>
      have next : d ≠ 10 := by
        rintro rfl
        exact others List.mem_cons_self
      have rest := ih (List.cons_ne_nil d line) others
      rw [lines, rest]
      · simp [Ne.symm here]
      · rintro _ - same
        exact next (List.cons.inj same).1

theorem withoutReturn_cons (b d : UInt8) (line : List UInt8) :
    withoutReturn (b :: d :: line) = b :: withoutReturn (d :: line) := by
  unfold withoutReturn
  rw [List.getLast?_cons_cons, List.dropLast_cons_cons]
  split <;> rfl

/-- A line goes up to the first byte that ends one. -/
theorem lines_append {line : List UInt8} (inside : 10 ∉ line) (rest : List UInt8) :
    lines (line ++ 10 :: rest) = withoutReturn line :: lines rest := by
  induction line with
  | nil => simp [lines, withoutReturn]
  | cons b line ih =>
    obtain ⟨here, others⟩ := not_or.1 (mt List.mem_cons.2 inside)
    have behind := ih others
    cases line with
    | nil =>
      by_cases isReturn : b = 13
      · subst isReturn
        simp [lines, withoutReturn]
      · rw [List.singleton_append, lines, show lines (10 :: rest) = [] :: lines rest from behind]
        · simp [withoutReturn, Ne.symm here, isReturn]
        · rintro _ rfl -
          exact isReturn rfl
    | cons d line =>
      have next : d ≠ 10 := by
        rintro rfl
        exact others List.mem_cons_self
      rw [List.cons_append, lines, behind, withoutReturn_cons]
      · simp [Ne.symm here]
      · rintro _ - same
        exact next (List.cons.inj same).1

/-- The lines of a stream are those that are found in it. -/
theorem isLines_iff {input : List UInt8} {found : List (List UInt8)} :
    IsLines input found ↔ found = lines input := by
  constructor
  · intro h
    induction h with
    | none => rfl
    | last some inside => rw [lines_of_not_mem some inside]
    | ended inside _ ih => rw [lines_append inside, ih]
  · rintro rfl
    induction h : input.length using Nat.strongRecOn generalizing input with
    | ind n ih =>
      subst h
      by_cases ends : 10 ∈ input
      · obtain ⟨line, rest, rfl, inside⟩ := List.eq_append_cons_of_mem ends
        rw [lines_append inside]
        exact .ended inside (ih rest.length (by simp; omega) rfl)
      · cases input with
        | nil => exact .none
        | cons b input =>
          rw [lines_of_not_mem (List.cons_ne_nil b input) ends]
          exact .last (List.cons_ne_nil b input) ends

example : IsLines [97, 13, 13, 10, 10, 98, 13] [[97, 13], [], [98, 13]] := isLines_iff.2 rfl

end Lox.Text
