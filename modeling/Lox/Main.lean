import Lox.CommandLine

/-!
# The command

Reads what a command line asks for from files and standard input, and shows what comes of it.
-/

namespace Lox

/-- More fuel than a program that comes to an end can use up. -/
def commandFuel : Nat := 0x4000000000000000

/-- What there is at a path. -/
def fileContent (path : String) : IO FileContent := do
  try
    return .bytes (← IO.FS.readBinFile path).toList
  catch
    | .noFileOrDirectory .. => return .missing
    | .inappropriateType .. => return .directory
    | e => throw e

/-- The bytes of the next line with its end, behind those of it that are read already. None are
left if there is no next line. -/
partial def readLine (input : IO.FS.Stream) (bytes : ByteArray) : IO ByteArray := do
  let next ← input.read 1
  if next.isEmpty then return bytes
  let bytes := bytes ++ next
  if next.toList = [10] then return bytes
  readLine input bytes

/-- Shows what an interactive session printed and reported since it had got so far. -/
def showSince (printed reported : Nat) (repl : Repl) : IO Unit := do
  let output ← IO.getStdout
  output.write (repl.session.machine.sink.since printed).toByteArray
  output.flush
  for text in repl.reports.toList.drop reported do
    IO.eprintln text

/-- Goes on with an interactive session until it ends. -/
partial def converse (input : IO.FS.Stream) (repl : Repl) : IO Unit := do
  let printed := repl.session.machine.sink.bytes.size
  let reported := repl.reports.size
  match Text.lines (← readLine input ByteArray.empty).toList with
  | [] => showSince printed reported repl.finish
  | line :: _ =>
    let (repl, goesOn) := repl.feed commandFuel line
    showSince printed reported repl
    if goesOn then converse input repl

/-- Shows what a command leaves behind. -/
def showOutcome (outcome : Outcome) : IO UInt32 := do
  let output ← IO.getStdout
  output.write outcome.output.toByteArray
  output.flush
  IO.eprint outcome.reports
  return outcome.status.toUInt32

end Lox

/-- Runs a script, or starts an interactive session without one. -/
def main (arguments : List String) : IO UInt32 := do
  match Lox.Request.ofArguments arguments with
  | .interactive =>
    let repl := Lox.Repl.start none
    Lox.showSince 0 0 repl
    Lox.converse (← IO.getStdin) repl
    return 0
  | .script path =>
    Lox.showOutcome (Lox.runScript Lox.commandFuel path (← Lox.fileContent path))
  | .help => Lox.showOutcome (.ofNotice Lox.usage)
  | .unexpected argument => Lox.showOutcome (.ofUnexpected argument)
