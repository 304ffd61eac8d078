/-!
# Sinks

Where printed text goes. A sink may have a limit; a text that does not fit is refused, but the
bytes of it that fit are kept.

* `Sink.write` — adds a text and says whether it was taken whole.
-/

namespace Lox

/-- The bytes written so far and how many there may be in all. -/
structure Sink where
  bytes : ByteArray
  limit : Option Nat

namespace Sink

/-- Nothing is written yet. -/
def empty (limit : Option Nat) : Sink := ⟨ByteArray.empty, limit⟩

/-- Adds the bytes of a text as far as they fit. True if all of them did. -/
def write (sink : Sink) (text : String) : Bool × Sink :=
  match sink.limit with
  | none => (true, ⟨sink.bytes ++ text.toUTF8, none⟩)
  | some limit =>
    let room := limit - sink.bytes.size
    (decide (text.utf8ByteSize ≤ room), ⟨sink.bytes ++ text.toUTF8.extract 0 room, some limit⟩)

/-- The bytes written behind the first `start`. -/
def since (sink : Sink) (start : Nat) : List UInt8 :=
  (sink.bytes.extract start sink.bytes.size).toList

end Sink

end Lox
