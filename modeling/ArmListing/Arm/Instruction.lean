import ArmListing.Assembly.Condition
import ArmListing.Assembly.Operand

/-!
# ArmListing.Arm.Instruction

The **instructions of ARM state** for ARMv4T and ARMv5TE, as values.

Design points:

* A constructor stands for a class of instructions that take the same operands;
  what the class leaves open (the operation, a load or a store, a size) is a
  field with a type of its own. `ArmListing.Arm.Decode` reads instructions off
  words, `ArmListing.Arm.Text` writes them.
* Fields are named as in assembler manuals: `rd` is written, `rn`, `rm` and `rs`
  are read, `crn`, `crm` and `crd` are registers of a coprocessor.
* Coprocessor instructions exist twice, with a condition and in a second set
  without one (`CoprocessorSet`).
-/

namespace ArmListing.Arm

/-! ## Data processing -/

/-- Operations that combine a register with the last operand. -/
inductive Arithmetic
  | and | eor | sub | rsb | add | adc | sbc | rsc | orr | bic
  deriving DecidableEq, Repr, Inhabited

/-- Operations that only set the flags. -/
inductive Comparison
  | tst | teq | cmp | cmn
  deriving DecidableEq, Repr, Inhabited

/-- Operations on the last operand alone. -/
inductive Move
  | mov | mvn
  deriving DecidableEq, Repr, Inhabited

/-! ## Multiplication -/

/-- Products of 64 bits. -/
inductive LongMultiply
  | umull | umlal | smull | smlal
  deriving DecidableEq, Repr, Inhabited

/-- The half of a register that a signed 16-bit product takes. -/
inductive Half
  | bottom | top
  deriving DecidableEq, Repr, Inhabited

/-- Sums and differences that stop at the ends of the number range. -/
inductive Saturating
  | qadd | qsub | qdadd | qdsub
  deriving DecidableEq, Repr, Inhabited

/-! ## Memory and status -/

/-- Transfers of halfwords, signed bytes and pairs of words. -/
inductive ExtraTransfer
  | loadHalf | loadSignedByte | loadSignedHalf | storeHalf | loadPair | storePair
  deriving DecidableEq, Repr, Inhabited

/-- Where a block of registers lies beside the base, and on which side of it the base ends up. -/
inductive BlockMode
  | decrementAfter | incrementAfter | decrementBefore | incrementBefore
  deriving DecidableEq, Repr, Inhabited

/-- A program status register. -/
inductive StatusRegister
  /-- The one in force. -/
  | current
  /-- The one that an exception has put aside. -/
  | saved
  deriving DecidableEq, Repr, Inhabited

/-- The fields of a status register that a write goes to. -/
structure StatusFields where
  flags : Bool
  status : Bool
  extension : Bool
  control : Bool
  deriving DecidableEq, Repr, Inhabited

/-! ## Coprocessors -/

/-- Which of the two sets a coprocessor instruction belongs to. -/
inductive CoprocessorSet
  /-- The set with a condition. -/
  | conditional (condition : Condition)
  /-- The second set, which is always executed. -/
  | second
  deriving DecidableEq, Repr

/-! ## Instructions -/

/-- An instruction of ARM state. -/
inductive Instruction
  | arithmetic (op : Arithmetic) (condition : Condition) (setFlags : Bool) (rd rn : Register)
    (operand : FlexibleOperand)
  | compare (op : Comparison) (condition : Condition) (rn : Register) (operand : FlexibleOperand)
  | move (op : Move) (condition : Condition) (setFlags : Bool) (rd : Register)
    (operand : FlexibleOperand)
  | multiply (condition : Condition) (setFlags : Bool) (rd rm rs : Register)
  | multiplyAdd (condition : Condition) (setFlags : Bool) (rd rm rs rn : Register)
  | multiplyLong (op : LongMultiply) (condition : Condition) (setFlags : Bool)
    (rdLow rdHigh rm rs : Register)
  /-- The product of two halves, added to `rn`. -/
  | halfMultiplyAdd (x y : Half) (condition : Condition) (rd rm rs rn : Register)
  /-- The product of a word and a half, added to `rn`. -/
  | wordHalfMultiplyAdd (y : Half) (condition : Condition) (rd rm rs rn : Register)
  /-- The product of a word and a half. -/
  | wordHalfMultiply (y : Half) (condition : Condition) (rd rm rs : Register)
  /-- The product of two halves, added to a register pair. -/
  | halfMultiplyLong (x y : Half) (condition : Condition) (rdLow rdHigh rm rs : Register)
  /-- The product of two halves. -/
  | halfMultiply (x y : Half) (condition : Condition) (rd rm rs : Register)
  | saturating (op : Saturating) (condition : Condition) (rd rm rn : Register)
  | countLeadingZeros (condition : Condition) (rd rm : Register)
  /-- Exchanges a register with memory in one step. -/
  | swap (condition : Condition) (byte : Bool) (rd rm rn : Register)
  /-- A load or store of a word or byte; `asUser` checks the access as in user mode. -/
  | transfer (load byte asUser : Bool) (condition : Condition) (rd : Register) (address : Address)
  | extraTransfer (op : ExtraTransfer) (condition : Condition) (rd : Register) (address : Address)
  /-- A load or store of a set of registers; `userBank` takes them from the bank of user mode. -/
  | blockTransfer (load : Bool) (mode : BlockMode) (condition : Condition) (rn : Register)
    (writeback : Bool) (registers : RegisterList) (userBank : Bool)
  /-- A hint that data will be read. -/
  | preload (address : Address)
  | readStatus (condition : Condition) (rd : Register) (source : StatusRegister)
  | writeStatus (condition : Condition) (target : StatusRegister) (fields : StatusFields)
    (operand : FlexibleOperand)
  | branch (link : Bool) (condition : Condition) (distance : Int)
  /-- A call into Thumb code. -/
  | branchToThumb (distance : Int)
  /-- A jump or call to an address in a register, into either state. -/
  | branchExchange (link : Bool) (condition : Condition) (rm : Register)
  | breakpoint (number : Nat)
  | softwareInterrupt (condition : Condition) (number : Nat)
  | coprocessorOperation (set : CoprocessorSet) (cp op1 crd crn crm op2 : Nat)
  | coprocessorMove (fromCoprocessor : Bool) (set : CoprocessorSet) (cp op1 : Nat) (rd : Register)
    (crn crm op2 : Nat)
  | coprocessorMovePair (fromCoprocessor : Bool) (condition : Condition) (cp op : Nat)
    (rd rn : Register) (crm : Nat)
  | coprocessorTransfer (load : Bool) (set : CoprocessorSet) (long : Bool) (cp crd : Nat)
    (address : Address)
  deriving DecidableEq, Repr

end ArmListing.Arm
