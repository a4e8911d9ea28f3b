import ArmListing.Decoder
import ArmListing.Assembly.Condition
import ArmListing.Assembly.Operand

/-!
# ArmListing.Thumb.Instruction

The **instructions of Thumb state** for ARMv4T and ARMv5TE, as values.

All of them are one halfword long but `branchLink`, which is made of a pair of
halfwords (`Instruction.width`). Constructors and fields follow the conventions
of `ArmListing.Arm.Instruction`.
-/

namespace ArmListing.Thumb

/-- Operations of a register with an eight-bit number. -/
inductive ImmediateOperation
  | mov | cmp | add | sub
  deriving DecidableEq, Repr, Inhabited

/-- Operations of two low registers. -/
inductive RegisterOperation
  | and | eor | lsl | lsr | asr | adc | sbc | ror | tst | neg | cmp | cmn | orr | mul | bic | mvn
  deriving DecidableEq, Repr, Inhabited

/-- Operations that reach the high registers. -/
inductive HighOperation
  | add | cmp | mov
  deriving DecidableEq, Repr, Inhabited

/-- Loads and stores by their size; signed loads fill the register with the sign. -/
inductive Transfer
  | str | strh | strb | ldrsb | ldr | ldrh | ldrb | ldrsh
  deriving DecidableEq, Repr, Inhabited

/-- The last operand of a three-operand addition or subtraction. -/
inductive Addend
  | value (n : Nat)
  | register (rm : Register)
  deriving DecidableEq, Repr

/-- An instruction of Thumb state. -/
inductive Instruction
  | addSubtract (subtract : Bool) (rd rn : Register) (addend : Addend)
  | shift (kind : Shift) (rd rm : Register) (amount : Nat)
  | withImmediate (op : ImmediateOperation) (rd : Register) (n : Nat)
  | withRegister (op : RegisterOperation) (rd rm : Register)
  | highRegister (op : HighOperation) (rd rm : Register)
  /-- A jump or call to an address in a register, into either state. -/
  | branchExchange (link : Bool) (rm : Register)
  /-- A transfer at the base register plus a number. -/
  | transferAt (op : Transfer) (rd base : Register) (offset : Nat)
  /-- A transfer at the sum of two registers. -/
  | transferIndexed (op : Transfer) (rd rn rm : Register)
  /-- The address at a distance from the stack pointer or the program counter. -/
  | addressOf (rd base : Register) (offset : Nat)
  /-- Moves the stack pointer. -/
  | adjustStack (subtract : Bool) (n : Nat)
  | push (registers : RegisterList)
  | pop (registers : RegisterList)
  /-- A load or store of a set of registers, with write-back. -/
  | blockTransfer (load : Bool) (rn : Register) (registers : RegisterList)
  | branch (condition : Condition) (distance : Int)
  /-- A call, or with `exchange` a call into ARM code. -/
  | branchLink (exchange : Bool) (distance : Int)
  | breakpoint (number : Nat)
  | softwareInterrupt (number : Nat)
  deriving DecidableEq, Repr

namespace Instruction

/-- Calls take two halfwords. -/
def width : Instruction → Width
  | branchLink .. => .wide
  | _ => .narrow

end Instruction

end ArmListing.Thumb
