import ArmListing.Decoder.Standard
import ArmListing.Suite.Reader
import ArmListing.Suite.Report

/-!
# ArmListing.Suite.Run

**Running a test file**: each case is decoded, and width and text are compared
with what it asks for.

The default revision is ARMv5TE; the flags of a comment choose another. A flag
that is not known breaks the run off, and so does a line that is refused.
Whatever has been reported until then stays reported.
-/

namespace ArmListing.Suite

open Text (LineDiff)

/-- What a run comes to. -/
inductive Verdict
  | passed
  /-- A number of cases failed. -/
  | failed (count : Nat)
  /-- A line was refused, with the message. -/
  | refused (message : String)
  /-- The run broke off, with a message if it is the run's own. -/
  | brokenOff (message? : Option String)
  deriving DecidableEq, Repr

namespace Verdict

/-- The verdict on all cases of a file. -/
def ofFailures : Nat → Verdict
  | 0 => passed
  | count => failed count

/-- What a run with failures says in the end. -/
def failedMessage (count : Nat) : String := "failed " ++ toString count ++ " tests"

end Verdict

/-- The revision that flags choose, the last one deciding; or the name of one that is not known. -/
def revisionOfFlags : List (String × Bool) → Revision → Except String Revision
  | [], revision => .ok revision
  | ("v4t", true) :: rest, _ => revisionOfFlags rest .v4t
  | ("v5te", true) :: rest, _ => revisionOfFlags rest .v5te
  | (name, _) :: _, _ => .error name

/-- What is wrong with a case, as a report, if anything is. -/
def caseReport? (diff : LineDiff) (file : String) (c : Case) (decoded : Decoded) :
    Option String :=
  let expected := singleSpaced c.assembly
  let actual := singleSpaced decoded.text
  let place := ", " ++ file ++ ":" ++ toString c.line ++ "\n"
  let lengthReport :=
    if decoded.width.bytes = c.bytes.length then ""
    else
      "error: invalid length" ++ place ++ "  expect: " ++ toString c.bytes.length ++
        "\n  result: " ++ toString decoded.width.bytes ++ "\n"
  let outputReport := if actual = expected then "" else "error: invalid output" ++ place
  if decoded.width.bytes = c.bytes.length ∧ actual = expected then none
  else some (lengthReport ++ outputReport ++ diffReport diff file c.line c.bytes expected actual)

/-- Judges what a reader found, with the failures and reports of the cases before. -/
def judge (diff : LineDiff) (mode : Mode) (file : String) :
    List (Reading × Case) → Nat → String → Verdict × String
  | [], failures, reports => (.ofFailures failures, reports)
  | (.finished, _) :: _, failures, reports => (.ofFailures failures, reports)
  | (.fault line f, _) :: _, _, reports => (.refused (f.message file line), reports)
  | (.overrun, _) :: _, _, reports => (.brokenOff none, reports)
  | (.found, c) :: rest, failures, reports =>
    match revisionOfFlags (flags c.comment) .v5te with
    | .error name => (.brokenOff (some ("unexpected flag " ++ name)), reports)
    | .ok revision =>
      match caseReport? diff file c (Decoder.standard.decode ⟨mode, revision⟩ c.word) with
      | none => judge diff mode file rest failures reports
      | some report => judge diff mode file rest (failures + 1) (reports ++ report)

/-- Runs a test file: the verdict and all that is reported. -/
def run (diff : LineDiff) (mode : Mode) (file text : String) : Verdict × String :=
  judge diff mode file ((Reader.ofText text).readAll {}) 0 ""

end ArmListing.Suite
