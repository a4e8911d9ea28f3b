import ArmListing.Span
import ArmListing.Target
import ArmListing.Word

/-!
# ArmListing.Argument

The **grammars of the command line arguments**: spans, modes, codes and paths.

Each reader refuses what it does not take with a cause (`SpanError`,
`ModeError`, `CodeError`) whose wording is in one place. A span that ends before
it starts is refused like any other text, but it also is a reason to warn
(`SpanError.warning?`), since the listing will then be longer than the user
thinks.

The grammars are loose. A span takes any text with a separator in it: numbers
end where their digits end, an absent number is zero, and what follows is
ignored.
-/

namespace ArmListing

/-! ## Numbers -/

/-- The largest offset, which is that of a 64-bit machine. -/
def maxOffset : Nat := UInt64.size - 1

/-- The number at the start of `text` in hexadecimal, read onto `high`. A number past the largest
offset is held there, and no digits are zero. -/
def leadingOffsetFrom (high : Nat) : List Char → Nat
  | [] => high
  | c :: rest =>
    match Hex.digit? c with
    | some d => leadingOffsetFrom (min (min (high * 16) maxOffset + d) maxOffset) rest
    | none => high

/-- The number at the start of `text` in hexadecimal. -/
def leadingOffset (text : List Char) : Nat := leadingOffsetFrom 0 text

/-! ## Spans -/

/-- Why a text is not a span. -/
inductive SpanError
  /-- The text is empty or starts like a mode. -/
  | notASpan
  | noSeparator
  /-- The sum of start and size is too large for an offset. -/
  | sizeOverflow
  | stopBeforeStart (start stop : Nat)
  deriving DecidableEq, Repr

namespace SpanError

def message : SpanError → String
  | notASpan => "not a range"
  | noSeparator => "range separator not found"
  | sizeOverflow => "range size overflow"
  | stopBeforeStart .. => "range end is less than start"

/-- What the user is told about a refused span. -/
def warning? : SpanError → Option String
  | stopBeforeStart start stop =>
    some ("range end 0x" ++ Hex.lower stop ++ " is less than start 0x" ++ Hex.lower start ++
      ", the whole input will be disassembled")
  | _ => none

end SpanError

/-- Whether `c` stands between the two numbers of a span. -/
def isSeparator (c : Char) : Bool := c == '-' || c == ':'

/-- The number of characters of a span that are looked at. -/
def spanLength : Nat := 31

/-- The span that a text with both its numbers stands for. The stop is given behind a hyphen, the
size behind a colon. -/
def spanOfParts (text : List Char) : Except SpanError Span :=
  let start := leadingOffset text
  match text.dropWhile (!isSeparator ·) with
  | [] => .error .noSeparator
  | separator :: rest =>
    let number := leadingOffset rest
    if separator = ':' then
      if start + number ≤ maxOffset then .ok ⟨start, start + number⟩ else .error .sizeOverflow
    else .ok ⟨start, number⟩

/-- The span that a text stands for before its ends are compared. Two separators in front leave
the start out. -/
def spanCandidate : List Char → Except SpanError Span
  | '-' :: '-' :: rest | '-' :: ':' :: rest | ':' :: '-' :: rest => .ok ⟨0, leadingOffset rest⟩
  | text => spanOfParts text

/-- Reads a span: `START-STOP`, `START-`, `--STOP` or `START:SIZE`. -/
def Span.ofArgument (text : String) : Except SpanError Span :=
  match text.toList with
  | [] | '/' :: _ => .error .notASpan
  | chars => do
    let span ← spanCandidate (chars.take spanLength)
    if span.stop ≠ 0 ∧ span.stop < span.start then
      throw (.stopBeforeStart span.start span.stop)
    return span

/-! ## Modes -/

/-- Why a text is not a mode. -/
inductive ModeError
  | length
  | noSlash
  | unknown
  deriving DecidableEq, Repr

namespace ModeError

def message : ModeError → String
  | length => "invalid mode length"
  | noSlash => "mode must start with '/'"
  | unknown => "unknown mode"

end ModeError

/-- The target with the given name. -/
def Target.ofName? : List Char → Option Target
  | ['a'] | ['a', '5'] => some ⟨.arm, .v5te⟩
  | ['a', '4'] => some ⟨.arm, .v4t⟩
  | ['t', '4'] | ['4'] => some ⟨.thumb, .v4t⟩
  | ['t'] | ['t', '5'] | ['5'] => some ⟨.thumb, .v5te⟩
  | _ => none

/-- Reads a mode: a slash and the name of a target. -/
def Target.ofArgument (text : String) : Except ModeError Target :=
  if text.utf8ByteSize < 2 ∨ 3 < text.utf8ByteSize then .error .length
  else
    match text.toList with
    | '/' :: name =>
      match Target.ofName? name with
      | some target => .ok target
      | none => .error .unknown
    | _ => .error .noSlash

/-! ## Codes and paths -/

/-- Why a text is not a code. -/
inductive CodeError
  | length
  | notHexadecimal
  deriving DecidableEq, Repr

namespace CodeError

def message : CodeError → String
  | length => "code must have 1 to 8 hex digits"
  | notHexadecimal => "code must be hexadecimal"

end CodeError

/-- Reads a single word of code. -/
def Word.ofArgument (text : String) : Except CodeError Word :=
  if text.utf8ByteSize = 0 ∨ 8 < text.utf8ByteSize then .error .length
  else if text.toList.all Hex.isDigit then .ok (BitVec.ofNat 32 (Hex.value text.toList))
  else .error .notHexadecimal

/-- The number of bytes that a path is shorter than. -/
def pathLength : Nat := 260

/-- Whether a text looks like a path: not too long, and with a dot behind its first character. The
file system is not asked. -/
def isPath (text : String) : Bool :=
  text.utf8ByteSize < pathLength && text.toList.tail.contains '.'

end ArmListing
