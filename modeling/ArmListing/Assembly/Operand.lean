import ArmListing.Text.Hex
import ArmListing.Assembly.Register

/-!
# ArmListing.Assembly.Operand

**Operands**: what stands behind the mnemonic, and how it is written.

Design points:

* Small numbers are written in decimal and larger ones in hexadecimal
  (`numeral`); shift amounts are always decimal.
* A branch target is a distance from the branch itself (`displacement`).
* A shift by nothing is written by leaving it out, so a register operand has
  four forms (`ShiftedRegister`) and not a register with an optional suffix.
* The offset of an `Address` may be left out only if it is applied before the
  access. The type says so: a post-indexed address always has one.
-/

namespace ArmListing

/-! ## Numbers -/

/-- A number below ten in decimal, any other in hexadecimal. -/
def numeral (n : Nat) : String :=
  if n < 10 then toString n else "0x" ++ Hex.lower n

/-- An immediate operand. -/
def immediate (n : Nat) : String := "#" ++ numeral n

/-- The sign of an offset; *up* is written by leaving it out. -/
def sign (up : Bool) : String := if up then "" else "-"

/-- A branch target at the distance `d` from the branch. -/
def displacement (d : Int) : String :=
  if d < 0 then ".-0x" ++ Hex.lower d.natAbs else ".+0x" ++ Hex.lower d.natAbs

/-! ## Shifted registers -/

/-- The four ways to shift. -/
inductive Shift
  | logicalLeft
  | logicalRight
  | arithmeticRight
  | rotateRight
  deriving DecidableEq, Repr, Inhabited

namespace Shift

/-- The shift with the code `n`. -/
def ofCode : Nat → Shift
  | 0 => logicalLeft
  | 1 => logicalRight
  | 2 => arithmeticRight
  | _ => rotateRight

def name : Shift → String
  | logicalLeft => "lsl"
  | logicalRight => "lsr"
  | arithmeticRight => "asr"
  | rotateRight => "ror"

end Shift

/-- A register, shifted on its way to the arithmetic unit. -/
inductive ShiftedRegister
  /-- The register as it is. -/
  | plain (rm : Register)
  /-- Shifted by a fixed amount. -/
  | byAmount (rm : Register) (shift : Shift) (amount : Nat)
  /-- Shifted by what another register holds. -/
  | byRegister (rm : Register) (shift : Shift) (rs : Register)
  /-- Rotated by one place through the carry. -/
  | throughCarry (rm : Register)
  deriving DecidableEq, Repr

namespace ShiftedRegister

/-- A register with a shift field. An amount of nothing is the plain register for a left shift,
32 for the other shifts and a rotation through the carry in place of a rotation. -/
def ofAmount (rm : Register) : Shift → Nat → ShiftedRegister
  | .logicalLeft, 0 => plain rm
  | .rotateRight, 0 => throughCarry rm
  | shift, 0 => byAmount rm shift 32
  | shift, amount => byAmount rm shift amount

def text : ShiftedRegister → String
  | plain rm => rm.name
  | byAmount rm shift amount => rm.name ++ ", " ++ shift.name ++ " #" ++ toString amount
  | byRegister rm shift rs => rm.name ++ ", " ++ shift.name ++ " " ++ rs.name
  | throughCarry rm => rm.name ++ ", rrx"

end ShiftedRegister

/-- The last operand of a data processing instruction. -/
inductive FlexibleOperand
  | value (n : Nat)
  | register (r : ShiftedRegister)
  deriving DecidableEq, Repr

namespace FlexibleOperand

def text : FlexibleOperand → String
  | value n => immediate n
  | register r => r.text

end FlexibleOperand

/-! ## Addresses -/

/-- What is added to a base register, or taken from it. -/
inductive Offset
  | value (up : Bool) (n : Nat)
  | register (up : Bool) (r : ShiftedRegister)
  deriving DecidableEq, Repr

namespace Offset

def text : Offset → String
  | value up n => "#" ++ sign up ++ numeral n
  | register up r => sign up ++ r.text

end Offset

/-- Where a transfer goes to or comes from. -/
inductive Address
  /-- At the base plus the offset; `writeback` keeps the sum in the base register. -/
  | preIndexed (base : Register) (offset? : Option Offset) (writeback : Bool)
  /-- At the base, to which the offset is added afterwards. -/
  | postIndexed (base : Register) (offset : Offset)
  /-- At the base, with a number for the coprocessor. -/
  | unindexed (base : Register) (option : Nat)
  deriving DecidableEq, Repr

namespace Address

/-- The mark of an address that changes its base register. -/
def writebackMark (writeback : Bool) : String := if writeback then "!" else ""

def text : Address → String
  | preIndexed base none writeback => "[" ++ base.name ++ "]" ++ writebackMark writeback
  | preIndexed base (some offset) writeback =>
    "[" ++ base.name ++ ", " ++ offset.text ++ "]" ++ writebackMark writeback
  | postIndexed base offset => "[" ++ base.name ++ "], " ++ offset.text
  | unindexed base option => "[" ++ base.name ++ "], \x7b" ++ toString option ++ "\x7d"

end Address

end ArmListing
