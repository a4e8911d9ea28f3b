/-!
# ArmListing.Word

Machine words and their **bit fields**.

Every rule of the instruction tables reads a word through a field: `len` bits
from bit `pos` upward. A field is cut out by two shifts. The left shift drops
the bits above the field, the right shift drops those below it, and the kind
of the right shift decides whether the field is read as a number
(`Word.unsignedField`) or in two's complement (`Word.signedField`). `Word.field`
is the first of these as a natural number, the form in which the instruction
tables match.
-/

namespace ArmListing

/-- A 32-bit machine word. -/
abbrev Word := BitVec 32

namespace Word

/-- The distance that moves the top bit of the field to the top of the word. -/
def leftShift (pos len : Nat) : Nat := 32 - pos - len

/-- The distance that moves the bottom bit of the moved field to bit 0. -/
def rightShift (len : Nat) : Nat := 32 - len

/-- The `len` bits of `w` from bit `pos` upward, with zeroes above them. -/
def unsignedField (w : Word) (pos len : Nat) : Word :=
  (w <<< leftShift pos len) >>> rightShift len

/-- The `len` bits of `w` from bit `pos` upward, read in two's complement. -/
def signedField (w : Word) (pos len : Nat) : Int :=
  ((w <<< leftShift pos len).sshiftRight (rightShift len)).toInt

/-- Bit `pos` of `w`. -/
def bit (w : Word) (pos : Nat) : Bool :=
  ((w >>> pos) &&& 1#32) != 0#32

/-- The unsigned field as a number. -/
def field (w : Word) (pos len : Nat) : Nat :=
  (w.unsignedField pos len).toNat

end Word

end ArmListing
