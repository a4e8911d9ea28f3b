import ArmListing.Proofs.Assembly.Grammar
import ArmListing.Thumb.Text

/-!
# ArmListing.Proofs.Thumb.Spelling

How instructions of Thumb state are **spelled**: mnemonics in lower-case letters
without exception (`spelled_mnemonic`), operands by the grammar of operands
(`operandText_operands`).
-/

namespace ArmListing.Thumb

@[simp] theorem ImmediateOperation.spelled_name (op : ImmediateOperation) :
    spelled Char.isLower op.name = true := by
  cases op <;> rfl

@[simp] theorem RegisterOperation.spelled_name (op : RegisterOperation) :
    spelled Char.isLower op.name = true := by
  cases op <;> rfl

@[simp] theorem HighOperation.spelled_name (op : HighOperation) :
    spelled Char.isLower op.name = true := by
  cases op <;> rfl

@[simp] theorem Transfer.spelled_name (op : Transfer) : spelled Char.isLower op.name = true := by
  cases op <;> rfl

@[simp] theorem Addend.operandText_text (addend : Addend) : OperandText addend.text := by
  cases addend <;> simp [Addend.text]

namespace Instruction

theorem spelled_mnemonic (i : Instruction) : spelled Char.isLower i.mnemonic = true := by
  cases i <;> simp +decide [mnemonic]

theorem spelled_isAlpha_mnemonic (i : Instruction) : spelled Char.isAlpha i.mnemonic = true :=
  spelled_mono (fun _ => isAlpha_of_isLower) i.spelled_mnemonic

theorem mnemonic_ne_empty (i : Instruction) : i.mnemonic ≠ "" := by
  cases i with
  | shift kind => cases kind <;> simp [mnemonic, Shift.name]
  | withImmediate op => cases op <;> simp [mnemonic, ImmediateOperation.name]
  | withRegister op => cases op <;> simp [mnemonic, RegisterOperation.name]
  | highRegister op => cases op <;> simp [mnemonic, HighOperation.name]
  | transferAt op => cases op <;> simp [mnemonic, Transfer.name]
  | transferIndexed op => cases op <;> simp [mnemonic, Transfer.name]
  | addSubtract choice => cases choice <;> simp [mnemonic]
  | adjustStack choice => cases choice <;> simp [mnemonic]
  | branchExchange choice => cases choice <;> simp [mnemonic]
  | branchLink choice => cases choice <;> simp [mnemonic]
  | blockTransfer choice => cases choice <;> simp [mnemonic]
  | _ => simp [mnemonic]

theorem operandText_operands (i : Instruction) :
    ∀ operand ∈ i.operands, OperandText operand := by
  cases i with
  | shift kind rd rm amount =>
    have hamount : OperandText ("#" ++ amount.repr) := .ofAppend (by decide) (by simp +decide)
    simp [operands, hamount]
  | transferAt op rd base offset =>
    simp [operands, base.operandText_name.pair (operandText_immediate offset)]
  | transferIndexed op rd rn rm =>
    simp [operands, rn.operandText_name.pair rm.operandText_name]
  | blockTransfer load rn registers =>
    simp [operands, rn.operandText_name.append operandText_writeback]
  | breakpoint number =>
    have hnumber : OperandText ("0x" ++ Hex.lowerPadded 2 number) :=
      .ofAppend (by decide) (by simp +decide)
    simp [operands, hnumber]
  | _ => simp [operands]

theorem operands_ne_nil (i : Instruction) : i.operands ≠ [] := by
  cases i <;> exact List.cons_ne_nil _ _

end Instruction

end ArmListing.Thumb
