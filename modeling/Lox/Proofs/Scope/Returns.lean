import Lox.Proofs.Ending
import Lox.Proofs.Scope.Mentions
import Lox.Session

/-!
# Returning outside of functions

A statement in which resolution finds no fault, and which stands outside of functions, does not return.
The calls in it may do so, but that ends with the call.

* `StaysNormal` — a computation that may halt, but never returns.
* `Stmt.staysNormal` — so it is with the statements outside of functions.
-/

namespace Lox

/-- If the computation does not halt, it does not return from the function around either. -/
def StaysNormal (x : Eval Flow) : Prop :=
  ∀ m, Ends x m (fun flow _ => flow = .normal) fun _ _ => True

namespace StaysNormal

variable {α : Type} {x : Eval α}

theorem pure : StaysNormal (Pure.pure .normal) := fun _ => rfl

/-- What counts is how a sequence ends. -/
theorem after {f : α → Eval Flow} (next : ∀ a, StaysNormal (f a)) : StaysNormal (x >>= f) := by
  intro m
  rw [Ends.bind_iff]
  unfold Ends
  split
  · exact next _ _
  · trivial

/-- The first part of the sequence does not return, and so the second one follows. -/
theorem bind {y : Eval Flow} {f : Flow → Eval Flow} (h : StaysNormal y) (next : StaysNormal (f .normal)) :
    StaysNormal (y >>= f) := by
  intro m
  rw [Ends.bind_iff]
  refine (h m).mono (fun flow m' normal => ?_) fun _ _ _ => trivial
  subst normal
  exact next m'

theorem ite {c : Prop} [Decidable c] {y z : Eval Flow} (hy : StaysNormal y) (hz : StaysNormal z) :
    StaysNormal (if c then y else z) := by
  split
  · exact hy
  · exact hz

theorem inNewFrame {y : Eval Flow} (h : StaysNormal y) : StaysNormal (Eval.inNewFrame y) := by
  unfold Eval.inNewFrame
  refine after fun m => after fun frame m' => ?_
  have inside := h { m' with current := frame }
  unfold Ends at *
  unfold Eval.inFrame
  dsimp only
  split at inside <;> rename_i ran <;> rw [ran] <;> exact inside

theorem repeatWhile {condition : Eval Value} {body : Eval Flow} (round : StaysNormal body)
    (fuel : Nat) : StaysNormal (repeatWhile condition body fuel) := by
  induction fuel with
  | zero => exact fun _ => trivial
  | succ fuel ih => exact after fun _ => .ite (round.bind ih) .pure

end StaysNormal

variable {I : Invoke} {fuel : Nat}

mutual

/-- A statement outside of functions that returned would be at fault. -/
theorem Stmt.staysNormal : ∀ (s : Stmt) {scopes : Scopes}, NoFault (s.findings false scopes).1 →
    StaysNormal (s.execute I fuel)
  | .expression value, _, _ => by
    rw [Stmt.execute]
    exact .after fun _ => .pure
  | .print keyword value, _, _ => by
    rw [Stmt.execute]
    exact .after fun _ => .after fun _ => .pure
  | .var name initializer, _, _ => by
    rw [Stmt.execute]
    exact .after fun _ => .after fun _ => .pure
  | .block body, _, h => by
    rw [Stmt.execute]
    exact (Stmt.staysNormalAll body h).inNewFrame
  | .ifThen condition yes none, _, h => by
    rw [Stmt.execute]
    have ⟨_, hy⟩ := NoFault.append_iff.1 h
    exact .after fun _ => .ite (Stmt.staysNormal yes hy) .pure
  | .ifThen condition yes (some no), _, h => by
    rw [Stmt.execute]
    simp only [Stmt.findings, NoFault.append_iff] at h
    obtain ⟨⟨_, hy⟩, hn⟩ := h
    exact .after fun _ => .ite (Stmt.staysNormal yes hy) (Stmt.staysNormal no hn)
  | .whileDo condition body, _, h => by
    rw [Stmt.execute]
    have ⟨_, hb⟩ := NoFault.append_iff.1 h
    exact (Stmt.staysNormal body hb).repeatWhile fuel
  | .function name parameters body, _, _ => by
    rw [Stmt.execute]
    exact .after fun _ => .after fun _ => .pure
  | .ret keyword value, scopes, h => by
    have ⟨outside, _⟩ := NoFault.append_iff.1 h
    have faulty := outside (.fault ⟨.returnOutsideFunction, keyword⟩) (by simp)
    cases faulty

theorem Stmt.staysNormalAll : ∀ (ss : List Stmt) {scopes : Scopes},
    NoFault (Stmt.findingsAll false scopes ss).1 → StaysNormal (Stmt.executeAll I fuel ss)
  | [], _, _ => .pure
  | s :: ss, _, h => by
    rw [Stmt.executeAll]
    have ⟨hs, hss⟩ := NoFault.append_iff.1 h
    exact (Stmt.staysNormal s hs).bind (Stmt.staysNormalAll ss hss)

end

/-- Statements without faults are so one by one. -/
theorem noFault_of_mem {ss : List Stmt} {scopes : Scopes} {s : Stmt}
    (h : NoFault (Stmt.findingsAll false scopes ss).1) (mem : s ∈ ss) :
    ∃ scopes', NoFault (s.findings false scopes').1 := by
  induction ss generalizing scopes with
  | nil => cases mem
  | cons first ss ih =>
    have ⟨hs, hss⟩ := NoFault.append_iff.1 h
    rcases List.mem_cons.1 mem with rfl | mem
    · exact ⟨scopes, hs⟩
    · exact ih hss mem

/-- The statements of a program in which no fault is found do not return. -/
theorem staysNormal_of_resolve {program : List Stmt} {distances : List (RefId × Nat)}
    (h : resolve program = .ok distances) : ∀ s ∈ program, StaysNormal (s.execute I fuel) := by
  intro s mem
  obtain ⟨scopes, noFault⟩ := noFault_of_mem (noFault_of_resolve h).1 mem
  exact s.staysNormal noFault

end Lox
