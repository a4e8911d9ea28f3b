import ArmListing.Arm.Instruction

/-!
# ArmListing.Arm.Text

How instructions of ARM state are **written**: a mnemonic, a tab, and the
operands with commas between them.

The suffixes follow the older order of assembler text: the condition stands
before the marks for flags, size and mode (`addeqs`, `ldrneb`, `stmlsdb`).
-/

namespace ArmListing.Arm

/-- `text` if the condition holds, else nothing. -/
def mark (shown : Bool) (text : String) : String := if shown then text else ""

namespace Arithmetic

def name : Arithmetic → String
  | and => "and"
  | eor => "eor"
  | sub => "sub"
  | rsb => "rsb"
  | add => "add"
  | adc => "adc"
  | sbc => "sbc"
  | rsc => "rsc"
  | orr => "orr"
  | bic => "bic"

end Arithmetic

namespace Comparison

def name : Comparison → String
  | tst => "tst"
  | teq => "teq"
  | cmp => "cmp"
  | cmn => "cmn"

end Comparison

namespace Move

def name : Move → String
  | mov => "mov"
  | mvn => "mvn"

end Move

namespace LongMultiply

def name : LongMultiply → String
  | umull => "umull"
  | umlal => "umlal"
  | smull => "smull"
  | smlal => "smlal"

end LongMultiply

namespace Half

def letter : Half → String
  | bottom => "b"
  | top => "t"

end Half

namespace Saturating

def name : Saturating → String
  | qadd => "qadd"
  | qsub => "qsub"
  | qdadd => "qdadd"
  | qdsub => "qdsub"

end Saturating

namespace ExtraTransfer

/-- The part of the mnemonic before the condition. -/
def stem : ExtraTransfer → String
  | loadHalf | loadSignedByte | loadSignedHalf | loadPair => "ldr"
  | storeHalf | storePair => "str"

/-- The part of the mnemonic behind the condition. -/
def size : ExtraTransfer → String
  | loadHalf | storeHalf => "h"
  | loadSignedByte => "sb"
  | loadSignedHalf => "sh"
  | loadPair | storePair => "d"

end ExtraTransfer

namespace BlockMode

def name : BlockMode → String
  | decrementAfter => "da"
  | incrementAfter => "ia"
  | decrementBefore => "db"
  | incrementBefore => "ib"

end BlockMode

namespace StatusRegister

def name : StatusRegister → String
  | current => "cpsr"
  | saved => "spsr"

end StatusRegister

namespace StatusFields

/-- The letters of the fields, behind an underscore unless there are none. -/
def suffix (fields : StatusFields) : String :=
  let letters := mark fields.flags "f" ++ mark fields.status "s" ++
    mark fields.extension "x" ++ mark fields.control "c"
  if letters.isEmpty then "" else "_" ++ letters

end StatusFields

namespace CoprocessorSet

def suffix : CoprocessorSet → String
  | conditional condition => condition.suffix
  | second => "2"

end CoprocessorSet

namespace Instruction

/-- The coprocessor with the number `n`. -/
def coprocessor (n : Nat) : String := "p" ++ toString n

/-- The coprocessor's register with the number `n`. -/
def coprocessorRegister (n : Nat) : String := "c" ++ toString n

/-- What stands before the tab. -/
def mnemonic : Instruction → String
  | arithmetic op condition setFlags .. => op.name ++ condition.suffix ++ mark setFlags "s"
  | compare op condition .. => op.name ++ condition.suffix
  | move op condition setFlags .. => op.name ++ condition.suffix ++ mark setFlags "s"
  | multiply condition setFlags .. => "mul" ++ condition.suffix ++ mark setFlags "s"
  | multiplyAdd condition setFlags .. => "mla" ++ condition.suffix ++ mark setFlags "s"
  | multiplyLong op condition setFlags .. => op.name ++ condition.suffix ++ mark setFlags "s"
  | halfMultiplyAdd x y condition .. => "smla" ++ x.letter ++ y.letter ++ condition.suffix
  | wordHalfMultiplyAdd y condition .. => "smlaw" ++ y.letter ++ condition.suffix
  | wordHalfMultiply y condition .. => "smulw" ++ y.letter ++ condition.suffix
  | halfMultiplyLong x y condition .. => "smlal" ++ x.letter ++ y.letter ++ condition.suffix
  | halfMultiply x y condition .. => "smul" ++ x.letter ++ y.letter ++ condition.suffix
  | saturating op condition .. => op.name ++ condition.suffix
  | countLeadingZeros condition .. => "clz" ++ condition.suffix
  | swap condition byte .. => "swp" ++ condition.suffix ++ mark byte "b"
  | transfer load byte asUser condition .. =>
    (if load then "ldr" else "str") ++ condition.suffix ++ mark byte "b" ++ mark asUser "t"
  | extraTransfer op condition .. => op.stem ++ condition.suffix ++ op.size
  | blockTransfer load mode condition .. =>
    (if load then "ldm" else "stm") ++ condition.suffix ++ mode.name
  | preload .. => "pld"
  | readStatus condition .. => "mrs" ++ condition.suffix
  | writeStatus condition .. => "msr" ++ condition.suffix
  | branch link condition .. => "b" ++ mark link "l" ++ condition.suffix
  | branchToThumb .. => "blx"
  | branchExchange link condition .. => (if link then "blx" else "bx") ++ condition.suffix
  | breakpoint .. => "bkpt"
  | softwareInterrupt condition .. => "swi" ++ condition.suffix
  | coprocessorOperation set .. => "cdp" ++ set.suffix
  | coprocessorMove fromCoprocessor set .. =>
    (if fromCoprocessor then "mrc" else "mcr") ++ set.suffix
  | coprocessorMovePair fromCoprocessor condition .. =>
    (if fromCoprocessor then "mrrc" else "mcrr") ++ condition.suffix
  | coprocessorTransfer load set long .. =>
    (if load then "ldc" else "stc") ++ set.suffix ++ mark long "l"

/-- What stands behind the tab, one text for each operand. -/
def operands : Instruction → List String
  | arithmetic _ _ _ rd rn operand => [rd.name, rn.name, operand.text]
  | compare _ _ rn operand => [rn.name, operand.text]
  | move _ _ _ rd operand => [rd.name, operand.text]
  | multiply _ _ rd rm rs => [rd.name, rm.name, rs.name]
  | multiplyAdd _ _ rd rm rs rn => [rd.name, rm.name, rs.name, rn.name]
  | multiplyLong _ _ _ rdLow rdHigh rm rs => [rdLow.name, rdHigh.name, rm.name, rs.name]
  | halfMultiplyAdd _ _ _ rd rm rs rn => [rd.name, rm.name, rs.name, rn.name]
  | wordHalfMultiplyAdd _ _ rd rm rs rn => [rd.name, rm.name, rs.name, rn.name]
  | wordHalfMultiply _ _ rd rm rs => [rd.name, rm.name, rs.name]
  | halfMultiplyLong _ _ _ rdLow rdHigh rm rs => [rdLow.name, rdHigh.name, rm.name, rs.name]
  | halfMultiply _ _ _ rd rm rs => [rd.name, rm.name, rs.name]
  | saturating _ _ rd rm rn => [rd.name, rm.name, rn.name]
  | countLeadingZeros _ rd rm => [rd.name, rm.name]
  | swap _ _ rd rm rn => [rd.name, rm.name, "[" ++ rn.name ++ "]"]
  | transfer _ _ _ _ rd address => [rd.name, address.text]
  | extraTransfer _ _ rd address => [rd.name, address.text]
  | blockTransfer _ _ _ rn writeback registers userBank =>
    [rn.name ++ mark writeback "!", registers.text ++ mark userBank "^"]
  | preload address => [address.text]
  | readStatus _ rd source => [rd.name, source.name]
  | writeStatus _ target fields operand => [target.name ++ fields.suffix, operand.text]
  | branch _ _ distance => [displacement distance]
  | branchToThumb distance => [displacement distance]
  | branchExchange _ _ rm => [rm.name]
  | breakpoint number => ["0x" ++ Hex.lowerPadded 4 number]
  | softwareInterrupt _ number => ["0x" ++ Hex.lower number]
  | coprocessorOperation _ cp op1 crd crn crm op2 =>
    [coprocessor cp, toString op1, coprocessorRegister crd, coprocessorRegister crn,
      coprocessorRegister crm, toString op2]
  | coprocessorMove _ _ cp op1 rd crn crm op2 =>
    [coprocessor cp, toString op1, rd.name, coprocessorRegister crn, coprocessorRegister crm,
      toString op2]
  | coprocessorMovePair _ _ cp op rd rn crm =>
    [coprocessor cp, toString op, rd.name, rn.name, coprocessorRegister crm]
  | coprocessorTransfer _ _ _ cp crd address =>
    [coprocessor cp, coprocessorRegister crd, address.text]

/-- The instruction as assembler text. -/
def text (i : Instruction) : String := i.mnemonic ++ "\t" ++ ", ".intercalate i.operands

end Instruction

end ArmListing.Arm
