/-!
# Bytes and text

How a stream of bytes falls into lines, and how bytes are shown when a text was cut.

* `Text.lines` — the lines of a stream, without their ends.
* `Text.readable` — the text of some bytes, with a mark in place of a broken last character.
-/

namespace Lox.Text

/-- The lines of a stream. Byte 10 ends a line, and so do bytes 13 and 10 together; what follows
the last end is a line of its own unless it is empty. -/
def lines : List UInt8 → List (List UInt8)
  | [] => []
  | 13 :: 10 :: rest => [] :: lines rest
  | b :: rest =>
    if b = 10 then [] :: lines rest
    else match lines rest with
      | [] => [[b]]
      | line :: others => (b :: line) :: others

/-- The text of a line, if its bytes encode one. -/
def ofBytes? (line : List UInt8) : Option String := String.fromUTF8? line.toByteArray

/-- The text of bytes of which at most the last character is incomplete. One mark stands for
the bytes of the incomplete character. -/
def readable (bytes : List UInt8) : String :=
  let cut := fun n => ofBytes? (bytes.take (bytes.length - n))
  match cut 0 with
  | some text => text
  | none => (((cut 1).or (cut 2)).or (cut 3)).getD "" ++ "\uFFFD"

end Lox.Text
