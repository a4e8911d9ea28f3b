import ArmListing.Arm.Text
import ArmListing.Proofs.Assembly.Grammar

/-!
# ArmListing.Proofs.Arm.Spelling

How instructions of ARM state are **spelled**: mnemonics in lower-case letters
(`spelled_mnemonic`), operands by the grammar of operands (`operandText_operands`).

The second set of coprocessor instructions is the exception. Its mnemonics carry
the digit `2`, and no other ones do.
-/

namespace ArmListing.Arm

@[simp] theorem Arithmetic.spelled_name (op : Arithmetic) :
    spelled Char.isLower op.name = true := by
  cases op <;> rfl

@[simp] theorem Comparison.spelled_name (op : Comparison) :
    spelled Char.isLower op.name = true := by
  cases op <;> rfl

@[simp] theorem Move.spelled_name (op : Move) : spelled Char.isLower op.name = true := by
  cases op <;> rfl

@[simp] theorem LongMultiply.spelled_name (op : LongMultiply) :
    spelled Char.isLower op.name = true := by
  cases op <;> rfl

@[simp] theorem Half.spelled_letter (x : Half) : spelled Char.isLower x.letter = true := by
  cases x <;> rfl

@[simp] theorem Saturating.spelled_name (op : Saturating) :
    spelled Char.isLower op.name = true := by
  cases op <;> rfl

@[simp] theorem ExtraTransfer.spelled_stem (op : ExtraTransfer) :
    spelled Char.isLower op.stem = true := by
  cases op <;> rfl

@[simp] theorem ExtraTransfer.spelled_size (op : ExtraTransfer) :
    spelled Char.isLower op.size = true := by
  cases op <;> rfl

@[simp] theorem BlockMode.spelled_name (mode : BlockMode) :
    spelled Char.isLower mode.name = true := by
  cases mode <;> rfl

@[simp] theorem StatusRegister.spelled_name (r : StatusRegister) :
    spelled isSymbolChar r.name = true := by
  cases r <;> rfl

@[simp] theorem StatusRegister.operandText_name (r : StatusRegister) : OperandText r.name :=
  .symbol (by cases r <;> decide) r.spelled_name

@[simp] theorem StatusFields.spelled_suffix (fields : StatusFields) :
    spelled isSymbolChar fields.suffix = true := by
  obtain ⟨flags, status, extension, control⟩ := fields
  cases flags <;> cases status <;> cases extension <;> cases control <;> rfl

@[simp] theorem spelled_mark {alphabet : Char → Bool} (shown : Bool) (text : String) :
    spelled alphabet (mark shown text) = (!shown || spelled alphabet text) := by
  cases shown <;> rfl

/-- Whether a coprocessor instruction is one without a condition. -/
def CoprocessorSet.isSecond : CoprocessorSet → Bool
  | conditional _ => false
  | second => true

@[simp] theorem CoprocessorSet.spelled_suffix (set : CoprocessorSet) :
    spelled Char.isLower set.suffix = !set.isSecond := by
  cases set with
  | conditional condition => exact ArmListing.spelled_suffix condition
  | second => rfl

namespace Instruction

/-- Whether an instruction belongs to the second set of coprocessor instructions. -/
def isSecondSet : Instruction → Bool
  | coprocessorOperation set .. => set.isSecond
  | coprocessorMove _ set .. => set.isSecond
  | coprocessorTransfer _ set .. => set.isSecond
  | _ => false

/-- Mnemonics are spelled in lower-case letters, except in the second coprocessor set. -/
theorem spelled_mnemonic (i : Instruction) :
    spelled Char.isLower i.mnemonic = !i.isSecondSet := by
  cases i with
  | coprocessorTransfer load set long cp crd address =>
    cases load <;> cases long <;> cases set <;>
      simp +decide [mnemonic, isSecondSet, CoprocessorSet.isSecond]
  | _ => simp +decide [mnemonic, isSecondSet]

/-- The mnemonics of the second coprocessor set. -/
def secondSetMnemonics : List String :=
  ["cdp2", "mcr2", "mrc2", "ldc2", "ldc2l", "stc2", "stc2l"]

theorem mnemonic_of_isSecondSet {i : Instruction} (h : i.isSecondSet = true) :
    i.mnemonic ∈ secondSetMnemonics := by
  cases i with
  | coprocessorOperation set =>
    cases set with
    | conditional _ => contradiction
    | second => exact List.mem_cons_self
  | coprocessorMove fromCoprocessor set =>
    cases set with
    | conditional _ => contradiction
    | second =>
      cases fromCoprocessor <;>
        simp +decide [mnemonic, CoprocessorSet.suffix, secondSetMnemonics]
  | coprocessorTransfer load set long =>
    cases set with
    | conditional _ => contradiction
    | second =>
      cases load <;> cases long <;>
        simp +decide [mnemonic, CoprocessorSet.suffix, mark, secondSetMnemonics]
  | _ => contradiction

theorem spelled_isAlpha_mnemonic (i : Instruction) :
    spelled Char.isAlpha i.mnemonic = !i.isSecondSet := by
  cases h : i.isSecondSet with
  | false =>
    have hlower : spelled Char.isLower i.mnemonic = true := by rw [spelled_mnemonic, h]; rfl
    exact spelled_mono (fun _ => isAlpha_of_isLower) hlower
  | true =>
    have hall : ∀ m ∈ secondSetMnemonics, spelled Char.isAlpha m = false := by decide
    exact hall _ (mnemonic_of_isSecondSet h)

theorem spelled_isAlphanum_mnemonic (i : Instruction) :
    spelled Char.isAlphanum i.mnemonic = true := by
  cases h : i.isSecondSet with
  | false =>
    have halpha : spelled Char.isAlpha i.mnemonic = true := by
      rw [spelled_isAlpha_mnemonic, h]; rfl
    exact spelled_mono (fun _ => isAlphanum_of_isAlpha) halpha
  | true =>
    have hall : ∀ m ∈ secondSetMnemonics, spelled Char.isAlphanum m = true := by decide
    exact hall _ (mnemonic_of_isSecondSet h)

theorem mnemonic_ne_empty (i : Instruction) : i.mnemonic ≠ "" := by
  cases i with
  | arithmetic op => cases op <;> simp [mnemonic, Arithmetic.name]
  | compare op => cases op <;> simp [mnemonic, Comparison.name]
  | move op => cases op <;> simp [mnemonic, Move.name]
  | multiplyLong op => cases op <;> simp [mnemonic, LongMultiply.name]
  | saturating op => cases op <;> simp [mnemonic, Saturating.name]
  | extraTransfer op => cases op <;> simp [mnemonic, ExtraTransfer.stem]
  | transfer choice => cases choice <;> simp [mnemonic]
  | blockTransfer choice => cases choice <;> simp [mnemonic]
  | branchExchange choice => cases choice <;> simp [mnemonic]
  | coprocessorMove choice => cases choice <;> simp [mnemonic]
  | coprocessorMovePair choice => cases choice <;> simp [mnemonic]
  | coprocessorTransfer choice => cases choice <;> simp [mnemonic]
  | _ => simp [mnemonic]

@[simp] theorem operandText_coprocessor (n : Nat) : OperandText (coprocessor n) :=
  .ofAppend (by decide) (by simp +decide)

@[simp] theorem operandText_coprocessorRegister (n : Nat) :
    OperandText (coprocessorRegister n) :=
  .ofAppend (by decide) (by simp +decide)

theorem operandText_operands (i : Instruction) :
    ∀ operand ∈ i.operands, OperandText operand := by
  cases i with
  | swap condition byte rd rm rn => simp [operands, rn.operandText_name.brackets]
  | blockTransfer load mode condition rn writeback registers userBank =>
    have huser : OperandText "^" := .symbol (by decide) (by decide)
    have hbase := rn.operandText_name.marked operandText_writeback writeback
    have hlist := registers.operandText_text.marked huser userBank
    simpa [operands] using ⟨hbase, hlist⟩
  | writeStatus condition target fields operand =>
    have htarget : OperandText (target.name ++ fields.suffix) :=
      .ofAppend target.operandText_name.ne_empty (by simp)
    simp [operands, htarget]
  | breakpoint number =>
    have hnumber : OperandText ("0x" ++ Hex.lowerPadded 4 number) :=
      .ofAppend (by decide) (by simp +decide)
    simp [operands, hnumber]
  | softwareInterrupt condition number =>
    have hnumber : OperandText ("0x" ++ Hex.lower number) :=
      .ofAppend (by decide) (by simp +decide)
    simp [operands, hnumber]
  | _ => simp [operands]

theorem operands_ne_nil (i : Instruction) : i.operands ≠ [] := by
  cases i <;> exact List.cons_ne_nil _ _

end Instruction

end ArmListing.Arm
