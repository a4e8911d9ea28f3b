import ArmListing.Number.Rounding
import ArmListing.Text.Blank
import ArmListing.Text.Hex
import ArmListing.Text.Lines

/-!
# ArmListing.Statistics

**How often each mnemonic occurs** in a listing.

A line counts if it looks like the line of an instruction: an address of eight
digits, an encoding, and a mnemonic of letters. Its key is the mnemonic, with a
mark if the last operand is an immediate.

The counts are kept in ascending order of the keys, so that two statistics of
the same lines are the same value, in whatever order the lines came. The number
of all lines that have been counted is kept beside them.
-/

namespace ArmListing

/-! ## Keys -/

/-- Whether `c` is a letter of the ASCII alphabet. -/
def isLetter (c : Char) : Bool := c.isAlpha

/-- What is added to the key of an instruction with an immediate. -/
def immediateMark : String := "_i"

/-- The key of what stands behind the address of a line. -/
def keyOfFields? : List (List Char) → Option String
  | encoding :: mnemonic :: operands =>
    if encoding.all Hex.isDigit && mnemonic.all isLetter then
      let key := String.ofList mnemonic
      some (if (operands.getLast?.bind List.head?) == some '#' then key ++ immediateMark else key)
    else none
  | _ => none

/-- The key of a line, if it is the line of a known instruction. -/
def keyOfLine? (line : List Char) : Option String := do
  let (address, rest) ← Text.splitOnce ": ".toList line
  guard (address.length = 8 ∧ address.all Hex.isDigit)
  keyOfFields? (Text.words rest)

/-! ## Counts -/

/-- The numbers of occurrences, in ascending order of their keys. -/
structure Statistics where
  counts : List (String × Nat) := []
  /-- The number of lines that have been counted. -/
  total : Nat := 0
  deriving DecidableEq, Repr, Inhabited

namespace Statistics

/-- `counts`, with `key` counted once more. -/
def bump (key : String) : List (String × Nat) → List (String × Nat)
  | [] => [(key, 1)]
  | (k, n) :: rest =>
    if key < k then (key, 1) :: (k, n) :: rest
    else if key = k then (k, n + 1) :: rest
    else (k, n) :: bump key rest

/-- Counts `line`, and says whether it is the line of a known instruction. -/
def addLine (s : Statistics) (line : List Char) : Bool × Statistics :=
  match keyOfLine? line with
  | some key => (true, ⟨bump key s.counts, s.total + 1⟩)
  | none => (false, s)

/-- Counts lines one after the other. -/
def ofLines (lines : List (List Char)) : Statistics :=
  lines.foldl (fun s line => (s.addLine line).2) {}

/-- Counts all lines of `text`. -/
def ofListing (text : String) : Statistics := ofLines (Text.lines text.toList)

def isEmpty (s : Statistics) : Bool := s.total == 0

/-- The number that `key` has in `counts`, and zero if it has none. -/
def countIn (counts : List (String × Nat)) (key : String) : Nat := (counts.lookup key).getD 0

/-- How often `key` has been counted. -/
def get (s : Statistics) (key : String) : Nat := countIn s.counts key

/-- The order of a report: higher counts first, and equal counts in the order of their keys. -/
def precedes (a b : String × Nat) : Bool := b.2 < a.2 || (a.2 == b.2 && a.1 ≤ b.1)

/-- The keys with their counts, the most frequent first. -/
def ranking (s : Statistics) : List (String × Nat) := s.counts.mergeSort precedes

/-! ## Reports -/

/-- The share of `count` in `total` in hundredths of a percent: a quotient and its hundredfold in
double precision, rounded to two places. -/
def hundredthsOfPercent (count total : Nat) : Nat :=
  let share := Binary.nearest count total
  let percent := Binary.nearest (share.num * 100) share.den
  roundHalfEven (percent.num * 100) percent.den

/-- A number of hundredths with a point and two places. -/
def twoPlaces (hundredths : Nat) : String :=
  toString (hundredths / 100) ++ "." ++
    String.ofList ((Nat.toDigits 10 (hundredths % 100)).leftpad 2 '0')

/-- The line of a report. -/
def reportLine (total : Nat) (entry : String × Nat) : String :=
  entry.1 ++ ": " ++ toString entry.2 ++ " (" ++ twoPlaces (hundredthsOfPercent entry.2 total) ++
    "%)\n"

/-- All counts with their shares, one line for each. -/
def report (s : Statistics) : String :=
  if s.isEmpty then "No ARM instructions found in file\n"
  else "Instruction statistics:\n\n" ++ String.join (s.ranking.map (reportLine s.total))

end Statistics

end ArmListing
