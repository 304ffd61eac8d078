import Lox.Failure
import Lox.Grammar.Program
import Lox.Machine.Execution

/-!
# Sessions

Programs run one after the other on one machine, so that a program can use what the ones before it
declared.

* `Checked`, `Checked.ofSource` — a program ready to run.
* `Session.run` — checks a program and runs it. Nothing of it runs unless all of it is in order.
* `Session.runAll` — does so with one program after the other.
-/

namespace Lox

/-- A program in which no error was found, with the distances of its local names. -/
structure Checked where
  program : Program
  distances : List (RefId × Nat)

/-- The program of a text, or what is wrong with it. Identities are given from `firstId` on; the
first one that was not given comes with the result. -/
def Checked.ofSource (firstId : RefId) (source : String) : Except Failure Checked × RefId :=
  match scan source with
  | .error errors => (.error (.scan errors), firstId)
  | .ok tokens =>
    match Program.ofTokens firstId tokens with
    | (.error errors, nextId) => (.error (.parse errors), nextId)
    | (.ok program, nextId) =>
      match resolve program with
      | .error errors => (.error (.resolve errors), nextId)
      | .ok distances => (.ok ⟨program, distances⟩, nextId)

/-- A machine with the next identity for a mention of a variable. -/
structure Session where
  machine : Machine
  nextId : RefId

namespace Session

/-- A session in which nothing has run yet. -/
def start (limit : Option Nat) : Session := ⟨Machine.start limit, 0⟩

/-- What a run that halted early failed with. -/
def failureOf : Halt → Failure
  | .failure e => .runtime e
  | .outOfFuel => .outOfFuel

/-- Runs a program. If it fails, what it did until then stays done. -/
def run (fuel : Nat) (source : String) (session : Session) : Except Failure Unit × Session :=
  let ⟨machine, firstId⟩ := session
  match Checked.ofSource firstId source with
  | (.error failure, nextId) => (.error failure, ⟨machine, nextId⟩)
  | (.ok checked, nextId) =>
    match runProgram fuel checked.program (machine.learn checked.distances) with
    | .ok _ machine' => (.ok (), ⟨machine', nextId⟩)
    | .error halt machine' => (.error (failureOf halt), ⟨machine', nextId⟩)

/-- Runs programs one after the other, each with so much fuel. -/
def runAll : List (Nat × String) → Session → List (Except Failure Unit) × Session
  | [], session => ([], session)
  | (fuel, source) :: programs, session =>
    let (result, session') := session.run fuel source
    let (results, session'') := runAll programs session'
    (result :: results, session'')

end Session

end Lox
