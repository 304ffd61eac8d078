import Mathlib
import Lox.Proofs.Grammar.Steps

/-!
# Recovery from errors

Where reading goes on behind a declaration that is faulty.

* `nextBoundary` — the tokens from the next boundary of statements on; `resume_eq` — what `resume`
  makes of the tokens from the faulty one on.
* `FaultsHere`, `faultsHere_closed` — a fault is reported at the token in front of which reading
  stops, in every rule.
* `declaration_resumes` — a faulty declaration is left at the boundary that is next, except that the
  faulty token itself is never one: if it begins a statement, this statement is left out as well.
* `declaration_skips_boundary` — so a boundary can be lost, as behind the faulty token of
  `unfinished`.
-/

namespace Lox.Grammar

/-- The tokens from the earliest place on where a statement may begin: behind a semicolon, or in
front of a word that begins one, and be it the first of all. -/
def nextBoundary : List Token → List Token
  | [] => []
  | t :: rest =>
    if t.startsStatement then t :: rest
    else if t.kind == .symbol .semicolon then rest
    else nextBoundary rest

/-- A semicolon does not begin a statement. -/
theorem startsStatement_of_semicolon {t : Token} (h : t.kind = .symbol .semicolon) :
    t.startsStatement = false := by
  simp [Token.startsStatement, h]

/-- The search begins behind the first token, unless this one is a semicolon. -/
theorem resume_cons (t : Token) (rest : List Token) :
    resume (t :: rest) = if t.kind == .symbol .semicolon then rest else nextBoundary rest := by
  induction rest generalizing t with
  | nil => simp [resume, nextBoundary]
  | cons u rest ih =>
    rw [resume, List.head?_cons, Option.any_some, nextBoundary, ih u]
    by_cases semicolon : t.kind = .symbol .semicolon <;>
      by_cases starts : u.startsStatement = true <;> simp [semicolon, starts]

/-- Reading goes on at the next boundary; but a token that begins a statement is passed over if it
is the first one. -/
theorem resume_eq (ts : List Token) :
    resume ts = nextBoundary (if ts.head?.any Token.startsStatement then ts.tail else ts) := by
  cases ts with
  | nil => rfl
  | cons t rest =>
    rw [resume_cons, List.head?_cons, Option.any_some, List.tail_cons]
    by_cases starts : t.startsStatement = true
    · have other : t.kind ≠ .symbol .semicolon := fun h => by
        simp [startsStatement_of_semicolon h] at starts
      simp [starts, other]
    · simp [starts, nextBoundary]

/-! ## Where a fault is reported -/

/-- A fault is reported at the token that is next where the computation stops. -/
def FaultsHere {α : Type} (x : Parse α) : Prop :=
  ∀ r, Ends x r (fun _ _ => True) fun reason r' => ∀ e, reason = .fault e → e.token = r'.next

namespace FaultsHere

variable {α β : Type} {x : Parse α}

/-- The computation does not stop in this way at all. -/
theorem of_ends (h : ∀ r, Ends x r (fun _ _ => True) fun _ _ => False) : FaultsHere x := fun r =>
  (h r).mono (fun _ _ _ => trivial) fun _ _ no => no.elim

theorem bind {f : α → Parse β} (hx : FaultsHere x) (hf : ∀ a, FaultsHere (f a)) :
    FaultsHere (x >>= f) := by
  intro r
  rw [Ends.bind_iff]
  exact (hx r).mono (fun a r' _ => hf a r') fun _ _ h => h

theorem fail (cause : ParseError.Cause) : FaultsHere (fail cause : Parse α) := by
  rintro r e ⟨⟩
  rfl

theorem deepen : FaultsHere deepen := by
  intro r
  rw [ends_deepen]
  split
  · rintro e ⟨⟩
    rfl
  · trivial

theorem levelled (hx : FaultsHere x) : FaultsHere (levelled x) := by
  intro r
  rw [ends_levelled]
  exact hx r

/-- Behind a fault reading goes on. -/
theorem recover (x : Parse α) : FaultsHere (recover x) := by
  intro r
  simp only [Ends, Grammar.recover]
  cases x r with
  | ok a r' => trivial
  | error reason r' =>
    cases reason with
    | fault e => trivial
    | exhausted => rintro e ⟨⟩

end FaultsHere

theorem faultsHere_closed : Closed @FaultsHere where
  pure a := .of_ends fun _ => trivial
  bind := FaultsHere.bind
  exhausted r e h := by cases h
  fail := FaultsHere.fail
  peek := .of_ends fun _ => trivial
  sees kind := .of_ends fun _ => trivial
  seesLevel level := .of_ends fun _ => trivial
  atEnd := .of_ends fun _ => trivial
  advance := .of_ends fun _ => trivial
  note e := .of_ends fun _ => trivial
  noteHere cause := .of_ends fun _ => trivial
  freshId := .of_ends fun _ => trivial
  deepen := FaultsHere.deepen
  ascend := .of_ends fun _ => trivial
  levelled := FaultsHere.levelled
  recover _ := .recover _
  measured _ h r := h _ r

/-! ## Where reading goes on -/

/-- What `recover` leaves out has stopped at a fault, and this is where reading goes on behind. -/
theorem error_of_recover {α : Type} {x : Parse α} {r r' : Reader} (h : recover x r = .ok none r') :
    ∃ e stuck, x r = .error (.fault e) stuck ∧
      r' = { stuck.noting e with depth := r.depth, rest := resume stuck.rest } := by
  unfold recover at h
  split at h
  · cases h
  · rename_i e stuck hx
    cases h
    exact ⟨e, stuck, hx, rfl⟩
  · cases h

/-- The next token and the first of those left begin a statement or not alike. -/
theorem Reader.startsStatement_next (r : Reader) :
    r.next.startsStatement = r.rest.head?.any Token.startsStatement := by
  unfold Reader.next
  cases r.rest with
  | nil => simp [Token.startsStatement, r.last_kind]
  | cons t rest => rfl

/-- Of a declaration that is left out nothing is put in front of those that follow. -/
theorem leftOut_bind {first : Parse (Option Stmt)} (others : Parse (List Stmt)) {r r' : Reader}
    (h : first r = .ok none r') :
    (do let first ← first; let others ← others; return first.toList ++ others : Parse _) r =
      others r' := by
  simp only [bind, EStateM.bind, h, Option.toList_none, List.nil_append]
  cases others r' <;> rfl

/-- **Where reading goes on behind a faulty declaration.** The error is noted at the token that the
declaration is stuck at, and the declarations that follow are read from the next boundary of
statements on. The faulty token itself does not count as one: if it begins a statement, then the
search begins behind it. -/
theorem declaration_resumes {n : Nat} {r r' : Reader} (h : declaration n r = .ok none r') :
    ∃ (stuck : Reader) (e : ParseError),
      r.Later stuck ∧ e.token = stuck.next ∧ r'.errors = stuck.errors.push e ∧
      r'.depth = r.depth ∧ r'.limit = r.limit ∧
      r'.rest = nextBoundary
        (if stuck.next.startsStatement then stuck.rest.tail else stuck.rest) ∧
      (r.rest ≠ [] → declarations (n + 1) r = declarations n r') ∧
      (r.rest ≠ [] → r.sees (.symbol .rightBrace) = false → block (n + 1) r = block n r') := by
  have program : r.rest ≠ [] → declarations (n + 1) r = declarations n r' := fun more => by
    rw [← leftOut_bind (declarations n) h]
    simp [declarations, bind, EStateM.bind, atEnd, more]
  have inner : r.rest ≠ [] → r.sees (.symbol .rightBrace) = false →
      block (n + 1) r = block n r' := fun more unclosed => by
    rw [← leftOut_bind (block n) h]
    simp [block, bind, EStateM.bind, atEnd, more, sees, unclosed]
  cases n with
  | zero => cases h
  | succ n =>
    rw [declaration_succ] at h
    obtain ⟨e, stuck, hx, rfl⟩ := error_of_recover h
    have later : r.Later stuck :=
      (advances_closed.declarationPart (advances_closed.statements n) r).error_of_eq hx
    have here : e.token = stuck.next :=
      (faultsHere_closed.declarationPart (faultsHere_closed.statements n) r).error_of_eq hx e rfl
    refine ⟨stuck, e, later, here, rfl, rfl, later.limit, ?_, program, inner⟩
    rw [stuck.startsStatement_next]
    exact resume_eq stuck.rest

/-- A `print` without its semicolon, and behind it a `var` without a name: `print a var = b;` -/
def unfinished : List Token :=
  [⟨.keyword .print, "print", 1, 0⟩, ⟨.identifier, "a", 1, 6⟩, ⟨.keyword .var, "var", 2, 8⟩,
    ⟨.symbol .equal, "=", 2, 12⟩, ⟨.identifier, "b", 2, 14⟩, ⟨.symbol .semicolon, ";", 2, 15⟩]

/-- The reader behind `unfinished`. Only the missing semicolon was noted. -/
def behindUnfinished : Reader :=
  { Reader.start 0 unfinished with
    rest := []
    errors := #[⟨.printEnd, ⟨.keyword .var, "var", 2, 8⟩⟩]
    nextId := 1 }

/-- What is wrong with the second statement stays unnoticed: reading goes on behind it. -/
theorem declaration_resumes_unfinished :
    declaration 28 (.start 0 unfinished) = .ok none behindUnfinished ∧
    declarations 29 (.start 0 unfinished) = declarations 28 behindUnfinished := by
  have read : declaration 28 (.start 0 unfinished) = .ok none behindUnfinished := by cbv
  obtain ⟨-, -, -, -, -, -, -, -, program, -⟩ := declaration_resumes read
  exact ⟨read, program (by decide)⟩

/-- **A boundary of statements can be lost.** The tokens are all different and the faulty one is
not the first, and still reading does not go on at the boundary that is next from the faulty token
on. -/
theorem declaration_skips_boundary :
    ¬∀ (n : Nat) (r r' : Reader) (e : ParseError), r.rest.Nodup →
      declaration n r = .ok none r' → r'.errors.back? = some e → r.rest.head? ≠ some e.token →
      r'.rest = nextBoundary (r.rest.dropWhile (· ≠ e.token)) := by
  intro always
  have lost := always 28 (.start 0 unfinished) behindUnfinished
    ⟨.printEnd, ⟨.keyword .var, "var", 2, 8⟩⟩ (by decide) (by cbv) rfl (by decide)
  exact absurd lost (by decide)

end Lox.Grammar
