import ArmListing.Cursor
import ArmListing.Text.Blank

/-!
# ArmListing.Suite.Case

One **case of a test file**: the bytes of an instruction and the text that it
should have, with the flags that its comment sets.
-/

namespace ArmListing.Suite

/-- A case, as a line of a test file gives it. -/
structure Case where
  /-- The number of the line, counted from one. -/
  line : Nat := 0
  comment : String := ""
  address : Nat := 0
  bytes : List UInt8 := []
  /-- The text that the instruction should have. -/
  assembly : String := ""
  deriving DecidableEq, Repr, Inhabited

namespace Case

/-- The first four bytes as a word, the lowest byte first, with zeroes for what is missing. -/
def word (c : Case) : Word :=
  BitVec.ofNat 32 (Cursor.littleEndian (c.bytes.take 4))

end Case

/-- The flag that a word of a comment is: a name behind a plus or a minus. -/
def flagOfWord? : List Char → Option (String × Bool)
  | '+' :: name => some (String.ofList name, true)
  | '-' :: name => some (String.ofList name, false)
  | _ => none

/-- The flags in a comment, in order. All other words are skipped. -/
def flags (comment : String) : List (String × Bool) :=
  (Text.words comment.toList).filterMap flagOfWord?

/-- A text with a single space between its words. -/
def singleSpaced (text : String) : String :=
  " ".intercalate ((Text.words text.toList).map String.ofList)

end ArmListing.Suite
