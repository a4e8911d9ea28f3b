import ArmListing.Span

/-!
# ArmListing.Output

**Writing to a sink** that may run full.

A sink with a capacity takes as many bytes as there is room for. A text that
does not fit leaves its first bytes behind and ends the writing with an error,
so after a failure the sink holds a beginning of what was meant for it.
-/

namespace ArmListing

/-- Why a listing was not written, or not to its end. -/
inductive ListingError
  /-- The span does not lie in an input of `length` bytes. -/
  | outOfRange (span : Span) (length : Nat)
  /-- The sink is full. -/
  | sinkFull
  deriving DecidableEq, Repr

namespace ListingError

/-- What a full sink says of itself. -/
def sinkMessage : String := "failed to write whole buffer"

def message : ListingError → String
  | outOfRange span length =>
    "range " ++ span.text ++ " is out of bounds of the input (0x" ++ Hex.lower length ++ " bytes)"
  | sinkFull => "failed to write output: " ++ sinkMessage

/-- The text of the failure behind the error, if there is one. -/
def cause? : ListingError → Option String
  | outOfRange .. => none
  | sinkFull => some sinkMessage

end ListingError

/-- Bytes that have been written, and how many there is room for. -/
structure Sink where
  /-- The greatest number of bytes; without one the sink never runs full. -/
  capacity? : Option Nat := none
  written : ByteArray := ByteArray.empty

/-- A computation that writes to a sink. -/
abbrev Output := EStateM ListingError Sink

namespace Sink

/-- Writes the bytes of `text` as far as there is room. -/
def emit (text : String) : Output Unit := fun sink =>
  let bytes := text.toUTF8
  let room := sink.capacity?.elim bytes.size (· - sink.written.size)
  if bytes.size ≤ room then .ok () { sink with written := sink.written ++ bytes }
  else .error .sinkFull { sink with written := sink.written ++ bytes.extract 0 room }

/-- Writes `text` and ends the line. -/
def emitLine (text : String) : Output Unit := emit (text ++ "\n")

end Sink

end ArmListing
