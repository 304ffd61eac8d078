import Lox.Token.Scan

/-!
# Scanned texts

* `scan_eq_ok_iff` — a text is scanned without errors if each of its pieces is a token.
-/

namespace Lox

theorem filterMap_toOption_ok {ε α : Type} (as : List α) :
    (as.map (Except.ok : α → Except ε α)).filterMap Except.toOption = as := by
  induction as with
  | nil => rfl
  | cons a as ih => exact congrArg (a :: ·) ih

/-- A text is scanned as some tokens if nothing else is found in it. -/
theorem scan_eq_ok_iff {source : String} {tokens : List Token} :
    scan source = .ok tokens ↔ scanFrom 1 0 source.toList = tokens.map .ok := by
  simp only [scan]
  constructor
  · intro h
    split at h
    · rename_i clean
      cases h
      generalize scanFrom 1 0 source.toList = found at clean
      induction found with
      | nil => rfl
      | cons f found ih =>
        cases f with
        | error e => simp at clean
        | ok t => exact congrArg (Except.ok t :: ·) (ih clean)
    · cases h
  · intro h
    rw [h, filterMap_toOption_ok, if_pos]
    simp

end Lox
