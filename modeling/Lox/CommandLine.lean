import Lox.Repl

/-!
# The command line

* `Flag` — an argument that is an option: `-c…` by its first character, `--name=…` by its name.
* `Flag.text` — how an option is named in a report.
* `Request` — what the arguments ask for.
* `Request.ofArguments` — reads them in order; the first one that decides the matter counts.
* `Outcome` — what a command leaves behind.
* `runScript` — runs a file as one program.
-/

namespace Lox

/-- An option on a command line. What is attached to it is not part of it: no option takes a
value, and an unknown one is refused before a value is looked at. -/
inductive Flag where
  /-- A dash and a character; whatever follows is attached. -/
  | short (name : Char)
  /-- Two dashes and a name; whatever follows from the first `=` is attached. -/
  | long (name : List Char)
  deriving DecidableEq

namespace Flag

/-- The option that an argument stands for. A dash alone is none, and neither is a text that
starts with no dash. -/
def ofArgument? : List Char → Option Flag
  | '-' :: '-' :: text => some (.long (text.takeWhile (· ≠ '=')))
  | '-' :: name :: _ => some (.short name)
  | _ => none

/-- How an option is written in a report. A long name gets two dashes in front, but none if it
starts with two of its own, and only one if it is empty or a single character beyond ASCII. -/
def text : Flag → List Char
  | .short name => ['-', name]
  | .long ('-' :: '-' :: name) => '-' :: '-' :: name
  | .long [] => ['-']
  | .long [name] => if name.toNat < 128 then ['-', '-', name] else ['-', name]
  | .long name => '-' :: '-' :: name

/-- Whether an option asks how to use the command. -/
def asksHelp (flag : Flag) : Bool :=
  flag = .short 'h' || flag = .long ['h', 'e', 'l', 'p']

end Flag

/-- What a command line asks for. -/
inductive Request where
  | interactive
  | script (path : String)
  | help
  | unexpected (argument : String)
  deriving DecidableEq

namespace Request

/-- What the arguments behind the options ask for: at most one path. -/
def ofPaths (path : Option String) (arguments : List String) : Request :=
  match path, arguments with
  | none, [] => .interactive
  | some p, [] => .script p
  | none, [p] => .script p
  | none, _ :: second :: _ => .unexpected second
  | some _, second :: _ => .unexpected second

/-- What the arguments ask for, behind a path if there was one. -/
def ofRest (path : Option String) : List String → Request
  | [] => ofPaths path []
  | argument :: rest =>
    if argument = "--" then ofPaths path rest
    else match Flag.ofArgument? argument.toList, path with
      | some flag, _ => if flag.asksHelp then .help else .unexpected (String.ofList flag.text)
      | none, none => ofRest (some argument) rest
      | none, some _ => .unexpected argument

/-- What the arguments of a command ask for. -/
def ofArguments (arguments : List String) : Request := ofRest none arguments

end Request

/-- The text that explains the command. -/
def usage : String :=
  "Usage: treelox\n\nArguments:\n  [PATH]\n          Script to run\n\n" ++
  "Runs a Lox script, or starts an interactive session without one.\n"

/-- What a command leaves behind. -/
structure Outcome where
  /-- The bytes printed. -/
  output : List UInt8
  /-- The text reported. -/
  reports : String
  /-- The status it ends with. -/
  status : Nat

/-- What there is at a path. -/
inductive FileContent where
  | missing
  | directory
  | bytes (content : List UInt8)

/-- The program text of a file. -/
def FileContent.source (path : String) : FileContent → Except Failure String
  | .missing => .error (.missingFile path)
  | .directory => .error (.unreadableFile path .directory)
  | .bytes content =>
    match Text.ofBytes? content with
    | some text => .ok text
    | none => .error (.unreadableFile path .notText)

namespace Outcome

/-- A command that printed this and failed. -/
def ofFailure (output : List UInt8) (failure : Failure) : Outcome :=
  ⟨output, failure.message ++ "\n", failure.exitStatus⟩

/-- A command that does nothing but explain what is wrong or how to use it. -/
def ofNotice (text : String) : Outcome := ⟨[], text, 1⟩

/-- A command with an argument that it cannot make sense of. -/
def ofUnexpected (argument : String) : Outcome :=
  ofNotice ("unexpected argument " ++ quoteText argument ++ "\n")

/-- An interactive session that has ended. -/
def ofRepl (repl : Repl) : Outcome :=
  ⟨repl.session.machine.sink.since 0, String.join (repl.reports.toList.map (· ++ "\n")), 0⟩

end Outcome

/-- Runs the file at a path as one program. -/
def runScript (fuel : Nat) (path : String) (content : FileContent) : Outcome :=
  match content.source path with
  | .error failure => .ofFailure [] failure
  | .ok source =>
    match (Session.start none).run fuel source with
    | (.ok _, session) => ⟨session.machine.sink.since 0, "", 0⟩
    | (.error failure, session) => .ofFailure (session.machine.sink.since 0) failure

/-- What a command leaves behind, given what there is at each path and what is entered. -/
def runCommand (fuel : Nat) (files : String → FileContent) (input : List UInt8)
    (arguments : List String) : Outcome :=
  match Request.ofArguments arguments with
  | .interactive => .ofRepl (Repl.converse fuel none input)
  | .script path => runScript fuel path (files path)
  | .help => .ofNotice usage
  | .unexpected argument => .ofUnexpected argument

end Lox
