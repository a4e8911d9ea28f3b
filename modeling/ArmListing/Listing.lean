import ArmListing.Walk

/-!
# ArmListing.Listing

**Listings**: the lines of a walk, alone or between a header with the size and a
trailer with the number of undefined encodings, and the line of a single word.

The span is held against the input before anything is written.
-/

namespace ArmListing.Listing

/-- Starts a walk, or reports that the span lies outside. -/
def startWalk (decoder : Decoder) (target : Target) (data : Array UInt8) (span : Span) :
    Output Walk :=
  match Walk.start decoder target data span with
  | .ok walk => pure walk
  | .error e => throw e

/-- Writes one line for each instruction of `span`. -/
def writeLines (decoder : Decoder) (target : Target) (data : Array UInt8) (span : Span) :
    Output Tally := do
  let walk ← startWalk decoder target data span
  walk.write {}

/-- The line above a listing of `size` bytes. -/
def header (size : Nat) : String :=
  "Disassembly of " ++ toString size ++ " (0x" ++ Hex.upper size ++ ") bytes:"

/-- The line below a listing. -/
def trailer (tally : Tally) : String :=
  toString tally.unknown ++ " unknown instructions."

/-- Writes a whole listing of `span`. The size in its header is that of the code before the stop. -/
def write (decoder : Decoder) (target : Target) (data : Array UInt8) (span : Span) :
    Output Tally := do
  let walk ← startWalk decoder target data span
  Sink.emit (header walk.left ++ "\n\n")
  let tally ← walk.write {}
  Sink.emit ("\n" ++ trailer tally ++ "\n")
  return tally

/-- The line of a single word, which stands at no address. -/
def single (decoder : Decoder) (target : Target) (code : Word) : Line :=
  .ofPrefetch 0 code (decoder.decode target code)

/-- Writes the line of a single word, without its address. -/
def writeSingle (decoder : Decoder) (target : Target) (code : Word) : Output Tally := do
  let line := single decoder target code
  Sink.emitLine line.body
  return Tally.add {} line

end ArmListing.Listing
