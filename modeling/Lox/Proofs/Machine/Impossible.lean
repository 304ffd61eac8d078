import Lox.Proofs.Machine.Operations
import Lox.Proofs.Scope.Agreement
import Lox.Proofs.Scope.Returns
import Lox.Proofs.Token.Stepwise

/-!
# What never happens

In some places something is provided for that does not happen, because of what was made sure of in
others: the scanner takes only numerals for numbers, the grammar has operators only where they belong,
and resolution has found the returns outside of functions and the distances of names. Functions from
earlier programs are no exception.

* `Failure.OfProgram` — a run fails with errors of its program only, or does not end.
* `Event.Reaches` — there is a frame at the distance of a mention.
* `Watch.Session.runAll_possible` — what never happens, in all sessions.
-/

namespace Lox

/-- Something is wrong with the program, in a way that is possible, or it does not come to an end. -/
def Failure.OfProgram : Failure → Prop
  | .scan _ | .parse _ | .resolve _ | .outOfFuel => True
  | .runtime e => e.cause.Possible
  | .missingFile _ | .unreadableFile _ _ => False

namespace Session

variable {session : Session}

theorem run_ofProgram (fuel : Nat) (source : String)
    (h : session.machine.frames.Carry Stmt.ProperAll) {failure : Failure}
    (failed : (session.run fuel source).1 = .error failure) : failure.OfProgram := by
  have possible := (session.run_possible fuel source h).1
  cases failure with
  | scan _ | parse _ | resolve _ | outOfFuel => trivial
  | runtime e => exact possible e failed
  | missingFile _ | unreadableFile _ _ =>
    unfold run at failed
    dsimp only at failed
    split at failed
    · rename_i checked
      cases failed
      rcases Checked.ofSource_error checked with ⟨_, h⟩ | ⟨_, h⟩ | ⟨_, h⟩ <;> cases h
    · split at failed
      · cases failed
      · rename_i halt _ _
        cases halt <;> cases failed

theorem runAll_ofProgram (programs : List (Nat × String))
    (h : session.machine.frames.Carry Stmt.ProperAll) :
    ∀ failure, .error failure ∈ (runAll programs session).1 → failure.OfProgram := by
  induction programs generalizing session with
  | nil => exact fun _ mem => by cases mem
  | cons p programs ih =>
    obtain ⟨fuel, source⟩ := p
    intro failure mem
    rcases List.mem_cons.1 mem with first | mem
    · exact run_ofProgram fuel source h first.symm
    · exact ih (session.run_possible fuel source h).2 failure mem

end Session

/-- If the machine knows a distance of the mention, there is a frame so many steps outwards. -/
def Event.Reaches : Event → Prop
  | .reached id _ _ m | .assigning id _ _ m => ∀ distance, m.locals[id]? = some distance →
      ∃ j, m.frames.ancestor? m.current distance = some j
  | .began _ | .entered _ _ => True

theorem Mention.Lands.reaches {μ : Mention} {events : List Event} {m : Machine}
    (h : μ.Lands events m) : ∀ distance, m.locals[μ.id]? = some distance →
      ∃ j, m.frames.ancestor? m.current distance = some j := by
  intro distance known
  rw [h.entry] at known
  obtain ⟨j, site, found, -⟩ := h.frame distance known
  exact ⟨j, found⟩

theorem Event.FineAll.reaches {events : List Event} (h : Event.FineAll events) :
    ∀ e ∈ events, e.Reaches := by
  induction events with
  | nil => exact fun _ mem => by cases mem
  | cons first events ih =>
    obtain ⟨fine, others⟩ := h
    refine List.forall_mem_cons.2 ⟨?_, ih others⟩
    cases first with
    | began _ | entered _ _ => trivial
    | reached id name assigns m =>
      obtain ⟨μ, -, rfl, -, -, lands, -⟩ := fine
      exact lands.reaches
    | assigning id name v m =>
      obtain ⟨μ, -, rfl, -, -, lands, -⟩ := fine
      exact lands.reaches

namespace Watch.Session

/-- **What is impossible does not happen.** In no session does the scanner break down, or a run fail
with something that is no fault of its program. No operator is applied that there is none, and an
operator that names itself in an error is one with this error; so only a minus sign wants a number behind it.
No statement outside of functions returns. Wherever a name is looked for at a distance, there is a frame.
What is watched is what happens. -/
theorem runAll_possible (limit : Option Nat) (programs : List (Nat × String)) :
    ((start limit).runAll programs).1 = ((Lox.Session.start limit).runAll programs).1 ∧
      ((start limit).runAll programs).2.unwatched = ((Lox.Session.start limit).runAll programs).2 ∧
      (∀ failure, .error failure ∈ ((start limit).runAll programs).1 → failure.OfProgram) ∧
      (∀ event ∈ ((start limit).runAll programs).2.state.events, event.Reaches) ∧
      ∀ source, Stepwise.scan source = .ok (scan source) ∧
        ∀ firstId nextId c, Checked.ofSource firstId source = (.ok c, nextId) →
          ∀ s ∈ c.program, ∀ I fuel m, Ends (s.execute I fuel) m (fun flow _ => flow = .normal)
            fun _ _ => True := by
  obtain ⟨results, machine⟩ := runAll_shows programs (start limit)
  obtain ⟨sound, -⟩ := (sound_start limit).runAll programs
  refine ⟨results, machine, ?_, sound.sane.fine.reaches, fun source => ⟨Stepwise.scan_eq source, ?_⟩⟩
  · rw [results]
    exact Lox.Session.runAll_ofProgram programs (Frames.Carry.start limit)
  · intro firstId nextId c checked s mem I fuel
    obtain ⟨tokens, -, -, resolved⟩ := Checked.ofSource_parts checked
    exact staysNormal_of_resolve resolved s mem

end Watch.Session

end Lox
