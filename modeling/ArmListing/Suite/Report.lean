import ArmListing.Text.Blank
import ArmListing.Text.Edit
import ArmListing.Text.Hex

/-!
# ArmListing.Suite.Report

**Reports of texts that should be equal** and are not.

A report names the place, shows the bytes, and lists the lines of both texts
with a mark for those that only one of them has, as the comparison of lines that it
is given finds them (`Text.LineDiff`). Tabs, and blanks at the end of a line, are
made visible.
-/

namespace ArmListing.Suite

open Text (Edit LineDiff)

/-! ## Writing -/

/-- A line with an arrow for each tab and a dot for each blank at its end. -/
def visible (line : String) : String :=
  let body := Text.trimEnd line.toList
  String.ofList (body.map fun c => if c = '\t' then '→' else c) ++
    String.ofList (List.replicate (line.toList.length - body.length) '•')

/-- A place in a difference, behind its mark. -/
def editLine : Edit String → String
  | .left line => "      - " ++ visible line ++ "\n"
  | .both line _ => "      | " ++ visible line ++ "\n"
  | .right line => "      + " ++ visible line ++ "\n"

/-- Bytes in hexadecimal, with spaces between them. -/
def bytesText (bytes : List UInt8) : String :=
  " ".intercalate (bytes.map fun b => Hex.lowerPadded 2 b.toNat)

/-- The line that names the place of a report, if its file has a name. -/
def placeLine (file : String) (line : Nat) : String :=
  if file.isEmpty then "" else "     --> " ++ file ++ ":" ++ toString line ++ "\n"

/-- The line with the bytes, above a rule, if there are any. -/
def bytesLines (bytes : List UInt8) : String :=
  if bytes.isEmpty then ""
  else "  raw | " ++ bytesText bytes ++ "\n        " ++ String.ofList (List.replicate 23 '-') ++ "\n"

/-- The report of a difference, with an empty line behind it. -/
def diffReport (diff : LineDiff) (file : String) (line : Nat) (bytes : List UInt8)
    (expected actual : String) : String :=
  placeLine file line ++ bytesLines bytes ++
    String.join ((diff expected actual).map editLine) ++ "\n"

/-! ## Comparing -/

/-- What a failed comparison is called. -/
def mismatch : String := "invalid result"

/-- Compares two texts; the report if they differ. -/
def compare (diff : LineDiff) (file : String) (line : Nat) (expected actual : String) :
    Option String :=
  if expected = actual then none
  else some ("error: " ++ mismatch ++ "\n" ++ diffReport diff file line [] expected actual)

end ArmListing.Suite
