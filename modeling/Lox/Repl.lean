import Lox.Session
import Lox.Text.Blank
import Lox.Text.Bytes

/-!
# The interactive session

Every line that is entered is a program of its own; all run in one session. Banner, prompts and
farewell go to the same sink as what the programs print, reports go elsewhere.

* `Repl.start` — the banner and the first prompt.
* `Repl.feed` — takes a line, and says whether to go on.
* `Repl.finish` — the farewell, when the lines have ended.
* `Repl.converse` — all of it, on a stream of bytes.
-/

namespace Lox

/-- An interactive session. -/
structure Repl where
  session : Session
  /-- The reports so far, in order. -/
  reports : Array String

namespace Repl

/-- What the session starts with. -/
def banner : String :=
  "  _     _____  __\n | |   / _ \\ \\/ /\n | |  | | | \\  /\n | |__| |_| /  \\\n" ++
  " |_____\\___/_/\\_\\\n\nLOX interactive interpreter\n"

/-- What asks for a line. -/
def prompt : String := "> "

/-- What the session ends with when there are no more lines. -/
def farewell : String := "\nExited treelox repl\n"

/-- The line that ends the session. -/
def exitCommand : String := "exit()"

/-- Adds a report. -/
def report (repl : Repl) (text : String) : Repl := { repl with reports := repl.reports.push text }

/-- Writes a text of the session's own to the sink. That it does not fit is only reported. -/
def echo (repl : Repl) (text : String) : Repl :=
  let ⟨⟨machine, nextId⟩, reports⟩ := repl
  let (fits, sink) := machine.sink.write text
  let repl : Repl := ⟨⟨{ machine with sink := sink }, nextId⟩, reports⟩
  if fits then repl else repl.report ("Failed write prompt: " ++ sinkFullText)

/-- The session up to its first prompt. -/
def start (limit : Option Nat) : Repl := ((⟨Session.start limit, #[]⟩ : Repl).echo banner).echo prompt

/-- Runs a program and reports its failure. -/
def run (fuel : Nat) (source : String) (repl : Repl) : Repl :=
  let ⟨session, reports⟩ := repl
  match session.run fuel source with
  | (.ok _, session') => ⟨session', reports⟩
  | (.error failure, session') => (⟨session', reports⟩ : Repl).report failure.message

/-- Takes a line. The session goes on, up to the next prompt, unless the line asks for its end or
is no text. Blank lines are left out. -/
def feed (fuel : Nat) (line : List UInt8) (repl : Repl) : Repl × Bool :=
  match Text.ofBytes? line with
  | none => (repl.report ("Failed read line: " ++ Unreadable.notText.message), false)
  | some text =>
    let command := Text.trim text
    if command = exitCommand then (repl, false)
    else if command = "" then (repl.echo prompt, true)
    else ((repl.run fuel command).echo prompt, true)

/-- The end of a session whose lines have ended. -/
def finish (repl : Repl) : Repl := repl.echo farewell

/-- Takes lines until one ends the session. -/
def feedAll (fuel : Nat) : List (List UInt8) → Repl → Repl
  | [], repl => repl.finish
  | line :: lines, repl =>
    match repl.feed fuel line with
    | (repl', true) => feedAll fuel lines repl'
    | (repl', false) => repl'

/-- A whole session on a stream of bytes. -/
def converse (fuel : Nat) (limit : Option Nat) (input : List UInt8) : Repl :=
  feedAll fuel (Text.lines input) (start limit)

end Repl

end Lox
