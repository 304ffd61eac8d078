import Lox.Proofs.Machine.Appending
import Lox.Proofs.Repl.Lines
import Lox.Proofs.Text.Encoding
import Lox.Repl

/-!
# Interactive sessions are sessions

What is printed in an interactive session is what the lines print as programs that are run one after
the other, with prompts in between. An interactive session may begin in any session.

* `Repl.converseIn` — an interactive session that begins in a session as it stands.
* `Repl.entered?`, `Repl.entered` — what is entered with a line, and with the lines up to the one that ends the
  session.
* `Session.enter`, `Session.enterAll` — the replies to what is entered, without a prompt.
* `Repl.converseIn_eq` — the interactive session has these replies, and leaves the same session.
-/

namespace Lox

/-- The bytes that were written. -/
def Sink.contents (sink : Sink) : List UInt8 := sink.bytes.data.toList

/-! ## Replies -/

/-- What comes of a line that is entered. -/
structure Reply where
  output : List UInt8
  report : Option String

namespace Session

/-- Runs what is entered, unless it is blank. The output are the bytes that get behind those there are. -/
def enter (fuel : Nat) (source : String) (s : Session) : Reply × Session :=
  if source = "" then (⟨[], none⟩, s)
  else
    let (result, s') := s.run fuel source
    let output := s'.machine.sink.contents.drop s.machine.sink.contents.length
    match result with
    | .ok _ => (⟨output, none⟩, s')
    | .error failure => (⟨output, some failure.message⟩, s')

/-- Runs what is entered, one after the other. -/
def enterAll (fuel : Nat) : List String → Session → List Reply × Session
  | [], s => ([], s)
  | source :: sources, s =>
    let (reply, s') := s.enter fuel source
    let (replies, s'') := enterAll fuel sources s'
    (reply :: replies, s'')

end Session

namespace Repl

/-- An interactive session that begins in this session, on a stream of bytes. -/
def converseIn (fuel : Nat) (s : Session) (input : List UInt8) : Repl :=
  feedAll fuel (Text.lines input) (((⟨s, #[]⟩ : Repl).echo banner).echo prompt)

/-- As a rule nothing has run before. -/
theorem converse_eq (fuel : Nat) (limit : Option Nat) (input : List UInt8) :
    converse fuel limit input = converseIn fuel (Session.start limit) input := rfl

/-- What is entered with a line, without the blanks around it. Nothing if the line is no text or asks for the
end of the session. -/
def entered? (line : List UInt8) : Option String :=
  ((Text.ofBytes? line).map Text.trim).filter (· ≠ exitCommand)

/-- What is entered with the lines in front of the one that ends the session. -/
def entered (lines : List (List UInt8)) : List String :=
  ((lines.map entered?).takeWhile Option.isSome).filterMap id

/-- The last words: none if a line ends the session. -/
def lastWords (lines : List (List UInt8)) : String :=
  if lines.all fun line => (entered? line).isSome then farewell else ""

theorem entered_cons {line : List UInt8} {source : String} (h : entered? line = some source)
    (lines : List (List UInt8)) : entered (line :: lines) = source :: entered lines := by
  simp [entered, h]

theorem entered_end {line : List UInt8} (h : entered? line = none) (lines : List (List UInt8)) :
    entered (line :: lines) = [] := by
  simp [entered, h]

theorem lastWords_cons {line : List UInt8} {source : String} (h : entered? line = some source)
    (lines : List (List UInt8)) : lastWords (line :: lines) = lastWords lines := by
  simp [lastWords, h]

theorem lastWords_end {line : List UInt8} (h : entered? line = none) (lines : List (List UInt8)) :
    lastWords (line :: lines) = "" := by
  simp [lastWords, h]

/-! ## One line -/

variable {fuel : Nat} {s : Session}

theorem echo_holding (s : Session) (bytes : ByteArray) (reports : Array String) (text : String) :
    (⟨s.holding bytes, reports⟩ : Repl).echo text = ⟨s.holding (bytes ++ text.toUTF8), reports⟩ := rfl

/-- What is entered and is not blank is run. What that prints and reports has nothing to do with prompts. -/
theorem run_holding {source : String} (some : source ≠ "") (unlimited : s.machine.sink.limit = none) :
    (s.enter fuel source).2.machine.sink.limit = none ∧
      ∃ out : ByteArray, out.data.toList = (s.enter fuel source).1.output ∧
        ∀ bytes reports, (⟨s.holding bytes, reports⟩ : Repl).run fuel source =
          ⟨(s.enter fuel source).2.holding (bytes ++ out),
            reports ++ (s.enter fuel source).1.report.toArray⟩ := by
  obtain ⟨result, s', out, appends⟩ := s.run_appends fuel source
  have same : s.holding s.machine.sink.bytes = s := by
    unfold Session.holding
    rw [Machine.holding_self unlimited]
  have ran := appends s.machine.sink.bytes
  rw [same] at ran
  have output : (s'.holding (s.machine.sink.bytes ++ out)).machine.sink.contents.drop
      s.machine.sink.contents.length = out.data.toList := by
    simp [Sink.contents, Session.holding, Machine.holding, ByteArray.data_append]
  unfold Session.enter
  rw [if_neg some, ran]
  dsimp only
  cases result with
  | ok _ =>
    refine ⟨rfl, out, output.symm, fun bytes reports => ?_⟩
    unfold run
    dsimp only
    rw [appends]
    simp
    rfl
  | error failure =>
    refine ⟨rfl, out, output.symm, fun bytes reports => ?_⟩
    unfold run
    dsimp only
    rw [appends]
    rfl

/-- What comes of a line with which something is entered. -/
theorem feed_entered {line : List UInt8} {source : String} (h : entered? line = some source)
    (repl : Repl) : repl.feed fuel line =
      (if source = "" then repl.echo prompt else (repl.run fuel source).echo prompt, true) := by
  obtain ⟨text, decoded, rfl⟩ := Option.map_eq_some_iff.1 (Option.filter_eq_some_iff.1 h).1
  have goesOn : Text.trim text ≠ exitCommand := by
    simpa using (Option.filter_eq_some_iff.1 h).2
  unfold feed
  rw [decoded]
  dsimp only
  rw [if_neg goesOn]
  split <;> rfl

theorem unread_entered {line : List UInt8} {source : String} (h : entered? line = some source)
    (lines : List (List UInt8)) : unread (line :: lines) = unread lines := by
  obtain ⟨text, decoded, rfl⟩ := Option.map_eq_some_iff.1 (Option.filter_eq_some_iff.1 h).1
  have goesOn : Text.trim text ≠ exitCommand := by
    simpa using (Option.filter_eq_some_iff.1 h).2
  rw [unread, decoded]
  dsimp only
  rw [if_neg goesOn]

/-- With a line that ends the session nothing else comes of it, apart from a report if it is no text. -/
theorem feed_end {line : List UInt8} (h : entered? line = none) (s : Session)
    (reports : Array String) (lines : List (List UInt8)) :
    (⟨s, reports⟩ : Repl).feed fuel line =
      (⟨s, reports ++ (unread (line :: lines)).toArray⟩, false) := by
  unfold feed unread
  cases decoded : Text.ofBytes? line with
  | none => simp [report]
  | some text =>
    have ends : Text.trim text = exitCommand := by simpa [entered?, decoded] using h
    simp [ends]

/-! ## All lines -/

/-- Behind a prompt there are the replies to the lines, with a prompt behind each, and the last words. -/
theorem feedAll_holding (lines : List (List UInt8)) (s : Session) (bytes : ByteArray)
    (reports : Array String) (unlimited : s.machine.sink.limit = none) :
    let plain := s.enterAll fuel (entered lines)
    ∃ tail : ByteArray,
      tail.data.toList = plain.1.flatMap (fun reply => reply.output ++ Text.bytes prompt) ++
        Text.bytes (lastWords lines) ∧
      feedAll fuel lines ⟨s.holding bytes, reports⟩ = ⟨plain.2.holding (bytes ++ tail),
        reports ++ (plain.1.filterMap Reply.report ++ unread lines).toArray⟩ := by
  induction lines generalizing s bytes reports with
  | nil =>
    refine ⟨farewell.toUTF8, rfl, ?_⟩
    simp [feedAll, finish, unread, entered, Session.enterAll, echo_holding]
  | cons line lines ih =>
    cases h : entered? line with
    | none =>
      refine ⟨.empty, ?_, ?_⟩
      · rw [entered_end h, lastWords_end h]
        rfl
      · unfold feedAll
        rw [feed_end h _ _ lines, entered_end h]
        simp [Session.enterAll]
    | some source =>
      rw [entered_cons h, lastWords_cons h, unread_entered h]
      unfold feedAll
      rw [feed_entered h]
      by_cases blank : source = ""
      · obtain ⟨tail, contents, behind⟩ := ih s (bytes ++ prompt.toUTF8) reports unlimited
        have entered : s.enter fuel source = (⟨[], none⟩, s) := if_pos blank
        refine ⟨prompt.toUTF8 ++ tail, ?_, ?_⟩
        · simp [Session.enterAll, entered, ByteArray.data_append, contents, Text.bytes]
        · rw [if_pos blank, echo_holding]
          refine behind.trans ?_
          simp [Session.enterAll, entered, ByteArray.append_assoc]
      · obtain ⟨unlimited', out, output, ran⟩ := @run_holding fuel s source blank unlimited
        obtain ⟨tail, contents, behind⟩ := ih (s.enter fuel source).2 (bytes ++ out ++ prompt.toUTF8)
          (reports ++ (s.enter fuel source).1.report.toArray) unlimited'
        refine ⟨out ++ prompt.toUTF8 ++ tail, ?_, ?_⟩
        · simp [Session.enterAll, ByteArray.data_append, contents, output, Text.bytes]
        · rw [if_neg blank, ran, echo_holding]
          refine behind.trans ?_
          cases reported : (s.enter fuel source).1.report <;>
            simp [Session.enterAll, ByteArray.append_assoc, reported]

/-- A prompt behind each reply and one in front is the same as one in front of each and one behind. -/
theorem prompts_eq (replies : List Reply) :
    Text.bytes prompt ++ replies.flatMap (fun reply => reply.output ++ Text.bytes prompt) =
      replies.flatMap (fun reply => Text.bytes prompt ++ reply.output) ++ Text.bytes prompt := by
  induction replies with
  | nil => simp
  | cons reply replies ih =>
    simp only [List.flatMap_cons, List.append_assoc]
    rw [ih]

/-- **An interactive session is a session over its lines.** Behind what was printed before there is the
banner, and for each line a prompt with what is printed for the line by the session that the lines before it
leave, without a prompt: nothing if the line is blank. A last prompt stands in front of a line that asks for
the end of the session or is no text, and in front of the farewell if there is no such line. The session
behind it is the same, apart from the sink, and failures are only reported. -/
theorem converseIn_eq (fuel : Nat) (s : Session) (unlimited : s.machine.sink.limit = none)
    (input : List UInt8) :
    let lines := Text.lines input
    let plain := s.enterAll fuel (entered lines)
    let behind := converseIn fuel s input
    (∀ found, Text.IsLines input found ↔ found = lines) ∧
      behind.session.machine.sink.contents = s.machine.sink.contents ++ Text.bytes banner ++
        plain.1.flatMap (fun reply => Text.bytes prompt ++ reply.output) ++ Text.bytes prompt ++
        Text.bytes (lastWords lines) ∧
      behind.session = plain.2.holding behind.session.machine.sink.bytes ∧
      behind.reports.toList = plain.1.filterMap Reply.report ++ unread lines := by
  have same : s.holding s.machine.sink.bytes = s := by
    unfold Session.holding
    rw [Machine.holding_self unlimited]
  have begun : ((⟨s, #[]⟩ : Repl).echo banner).echo prompt =
      ⟨s.holding (s.machine.sink.bytes ++ banner.toUTF8 ++ prompt.toUTF8), #[]⟩ := by
    rw [← echo_holding, ← echo_holding, same]
  obtain ⟨tail, contents, behind⟩ := @feedAll_holding fuel (Text.lines input) s
    (s.machine.sink.bytes ++ banner.toUTF8 ++ prompt.toUTF8) #[] unlimited
  dsimp only
  unfold converseIn
  rw [begun, behind]
  refine ⟨fun found => Text.isLines_iff, ?_, rfl, by simp⟩
  have tailed : Text.bytes prompt ++ tail.data.toList =
      (s.enterAll fuel (entered (Text.lines input))).1.flatMap
          (fun reply => Text.bytes prompt ++ reply.output) ++ Text.bytes prompt ++
        Text.bytes (lastWords (Text.lines input)) := by
    rw [contents, ← List.append_assoc, prompts_eq]
  calc (s.machine.sink.bytes ++ banner.toUTF8 ++ prompt.toUTF8 ++ tail).data.toList
    _ = s.machine.sink.contents ++ Text.bytes banner ++ (Text.bytes prompt ++ tail.data.toList) := by
      simp [ByteArray.data_append, Sink.contents, Text.bytes]
    _ = _ := by
      rw [tailed]
      simp only [List.append_assoc]

/-- A session in which `a` was declared is asked for it, behind a blank line and in front of a line that
fails and one that ends the session. -/
theorem converseIn_eq_declared :
    let s := ((Session.start none).run 1 "var a = true;").2
    s.machine.sink.limit = none ∧
      (converseIn 1 s (Text.bytes " \nprint a;\nprint a\nexit()\nprint a;")).session.machine.sink.contents =
        Text.bytes (banner ++ "> > true\n> > ") := by
  have unlimited : ((Session.start none).run 1 "var a = true;").2.machine.sink.limit = none := by
    decide +kernel
  obtain ⟨-, contents, -, -⟩ := converseIn_eq 1 ((Session.start none).run 1 "var a = true;").2 unlimited
    (Text.bytes " \nprint a;\nprint a\nexit()\nprint a;")
  exact ⟨unlimited, contents.trans (by decide +kernel)⟩

end Repl

end Lox
