import ArmListing.Thumb.Instruction

/-!
# ArmListing.Thumb.Text

How instructions of Thumb state are **written**: a mnemonic, a tab, and the
operands with commas between them, as in ARM state.
-/

namespace ArmListing.Thumb

namespace ImmediateOperation

def name : ImmediateOperation → String
  | mov => "mov"
  | cmp => "cmp"
  | add => "add"
  | sub => "sub"

end ImmediateOperation

namespace RegisterOperation

def name : RegisterOperation → String
  | and => "and"
  | eor => "eor"
  | lsl => "lsl"
  | lsr => "lsr"
  | asr => "asr"
  | adc => "adc"
  | sbc => "sbc"
  | ror => "ror"
  | tst => "tst"
  | neg => "neg"
  | cmp => "cmp"
  | cmn => "cmn"
  | orr => "orr"
  | mul => "mul"
  | bic => "bic"
  | mvn => "mvn"

end RegisterOperation

namespace HighOperation

def name : HighOperation → String
  | add => "add"
  | cmp => "cmp"
  | mov => "mov"

end HighOperation

namespace Transfer

def name : Transfer → String
  | str => "str"
  | strh => "strh"
  | strb => "strb"
  | ldrsb => "ldrsb"
  | ldr => "ldr"
  | ldrh => "ldrh"
  | ldrb => "ldrb"
  | ldrsh => "ldrsh"

end Transfer

namespace Addend

def text : Addend → String
  | value n => immediate n
  | register rm => rm.name

end Addend

namespace Instruction

/-- What stands before the tab. -/
def mnemonic : Instruction → String
  | addSubtract subtract .. => if subtract then "sub" else "add"
  | shift kind .. => kind.name
  | withImmediate op .. => op.name
  | withRegister op .. => op.name
  | highRegister op .. => op.name
  | branchExchange link _ => if link then "blx" else "bx"
  | transferAt op .. => op.name
  | transferIndexed op .. => op.name
  | addressOf .. => "add"
  | adjustStack subtract _ => if subtract then "sub" else "add"
  | push _ => "push"
  | pop _ => "pop"
  | blockTransfer load .. => if load then "ldmia" else "stmia"
  | branch condition _ => "b" ++ condition.suffix
  | branchLink exchange _ => if exchange then "blx" else "bl"
  | breakpoint _ => "bkpt"
  | softwareInterrupt _ => "swi"

/-- What stands behind the tab, one text for each operand. -/
def operands : Instruction → List String
  | addSubtract _ rd rn addend => [rd.name, rn.name, addend.text]
  | shift _ rd rm amount => [rd.name, rm.name, "#" ++ toString amount]
  | withImmediate _ rd n => [rd.name, immediate n]
  | withRegister _ rd rm => [rd.name, rm.name]
  | highRegister _ rd rm => [rd.name, rm.name]
  | branchExchange _ rm => [rm.name]
  | transferAt _ rd base offset => [rd.name, "[" ++ base.name ++ ", " ++ immediate offset ++ "]"]
  | transferIndexed _ rd rn rm => [rd.name, "[" ++ rn.name ++ ", " ++ rm.name ++ "]"]
  | addressOf rd base offset => [rd.name, base.name, immediate offset]
  | adjustStack _ n => [Register.sp.name, immediate n]
  | push registers => [registers.text]
  | pop registers => [registers.text]
  | blockTransfer _ rn registers => [rn.name ++ "!", registers.text]
  | branch _ distance => [displacement distance]
  | branchLink _ distance => [displacement distance]
  | breakpoint number => ["0x" ++ Hex.lowerPadded 2 number]
  | softwareInterrupt number => [numeral number]

/-- The instruction as assembler text. -/
def text (i : Instruction) : String := i.mnemonic ++ "\t" ++ ", ".intercalate i.operands

end Instruction

end ArmListing.Thumb
