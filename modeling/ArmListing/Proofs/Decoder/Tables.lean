import Mathlib.Tactic.IntervalCases
import ArmListing.Arm.Decode
import ArmListing.Arm.Text
import ArmListing.Proofs.Word.Field
import ArmListing.Thumb.Decode
import ArmListing.Thumb.Text

/-!
# ArmListing.Proofs.Decoder.Tables

The **tables of names**. Names that a field selects can be kept in a table with
one place for each value that the field may have. Two tables are shorter than
that, because one value of the field means something else.

`Arm.TablesCover` and `Thumb.TablesCover` say of each look-up that its index lies
inside the table and that the name there is the one that is written. This is so
for all words, whether they are defined or not (`Arm.tablesCover`,
`Thumb.tablesCover`).
-/

namespace ArmListing

/-! ## Names of both states -/

/-- The suffixes of the sixteen condition fields. The last two add nothing. -/
def Condition.suffixes : List String :=
  ["eq", "ne", "cs", "cc", "mi", "pl", "vs", "vc", "hi", "ls", "ge", "lt", "gt", "le", "", ""]

/-- The names of the four shifts. -/
def Shift.names : List String := ["lsl", "lsr", "asr", "ror"]

theorem Condition.getElem?_suffixes :
    ∀ n < 16, Condition.suffixes[n]? = some (Condition.ofCode n).suffix := by
  decide

theorem Shift.getElem?_names : ∀ n < 4, Shift.names[n]? = some (Shift.ofCode n).name := by
  decide

/-- A register goes by the low four bits of its number. -/
theorem Register.getElem?_names (n : Nat) :
    Register.names.toList[n % 16]? = some (Register.ofNat n).name := by
  have hlt : n % 16 < Register.names.toList.length := Nat.mod_lt _ (by decide)
  rw [List.getElem?_eq_getElem hlt]
  rfl

/-! ## ARM state -/

namespace Arm

/-- The names of the sixteen operations of data processing. -/
def operationNames : List String :=
  ["and", "eor", "sub", "rsb", "add", "adc", "sbc", "rsc",
    "tst", "teq", "cmp", "cmn", "orr", "mov", "bic", "mvn"]

/-- The names of the saturating operations. -/
def saturatingNames : List String := ["qadd", "qsub", "qdadd", "qdsub"]

/-- The names of the block modes. -/
def blockModeNames : List String := ["da", "ia", "db", "ib"]

/-- Each table has a place for what a word looks up in it, and there stands what is written. -/
structure TablesCover (w : Word) : Prop where
  condition : Condition.suffixes[w.field 28 4]? = some (Condition.ofCode (w.field 28 4)).suffix
  register : ∀ n, Register.names.toList[n % 16]? = some (Register.ofNat n).name
  shift : Shift.names[w.field 5 2]? = some (Shift.ofCode (w.field 5 2)).name
  /-- Operations other than comparisons go on with the mark of bit 20. -/
  operation : ∀ c operand, ∃ name, operationNames[w.field 21 4]? = some name ∧
    (dataProcessing w c operand).mnemonic =
      name ++ c.suffix ++ mark (w.field 23 2 ≠ 2 && w.bit 20) "s"
  saturating : saturatingNames[w.field 21 2]? = some (saturating (w.field 21 2)).name
  blockMode : blockModeNames[w.field 23 2]? = some (blockMode (w.field 23 2)).name

theorem exists_operationName (w : Word) (c : Condition) (operand : FlexibleOperand) :
    ∃ name, operationNames[w.field 21 4]? = some name ∧
      (dataProcessing w c operand).mnemonic =
        name ++ c.suffix ++ mark (w.field 23 2 ≠ 2 && w.bit 20) "s" := by
  have hlt := w.field_lt (show 21 + 4 ≤ 32 by decide)
  have hlow := w.field_lt (show 21 + 2 ≤ 32 by decide)
  have hparts : w.field 21 4 = w.field 21 2 + 4 * w.field 23 2 := w.field_add 21 2 2 (by decide)
  -- the two upper bits of the operation tell the comparisons from the rest
  have hhigh : w.field 23 2 = w.field 21 4 / 4 := by omega
  rw [hhigh]
  interval_cases hop : w.field 21 4 <;>
    simp [operationNames, dataProcessing, hop, Instruction.mnemonic, Arithmetic.name,
      Comparison.name, Move.name, mark]

theorem tablesCover (w : Word) : TablesCover w where
  condition := Condition.getElem?_suffixes _ (w.field_lt (by decide))
  register := Register.getElem?_names
  shift := Shift.getElem?_names _ (w.field_lt (by decide))
  operation := exists_operationName w
  saturating := by
    have hall : ∀ n < 4, saturatingNames[n]? = some (Arm.saturating n).name := by decide
    exact hall _ (w.field_lt (by decide))
  blockMode := by
    have hall : ∀ n < 4, blockModeNames[n]? = some (Arm.blockMode n).name := by decide
    exact hall _ (w.field_lt (by decide))

end Arm

/-! ## Thumb state -/

namespace Thumb

/-- The names of shifts by an amount. The fourth value of the field means additions. -/
def amountShiftNames : List String := ["lsl", "lsr", "asr"]

/-- The names of the operations with a number. -/
def immediateOperationNames : List String := ["mov", "cmp", "add", "sub"]

/-- The names of the operations of two low registers. -/
def registerOperationNames : List String :=
  ["and", "eor", "lsl", "lsr", "asr", "adc", "sbc", "ror",
    "tst", "neg", "cmp", "cmn", "orr", "mul", "bic", "mvn"]

/-- The names of the operations on high registers. The fourth value of the field means jumps. -/
def highOperationNames : List String := ["add", "cmp", "mov"]

/-- The names of the transfers at the sum of two registers. -/
def transferNames : List String :=
  ["str", "strh", "strb", "ldrsb", "ldr", "ldrh", "ldrb", "ldrsh"]

/-- Each table has a place for what a halfword looks up in it, and there stands what is written. -/
structure TablesCover (h : Word) : Prop where
  condition : Condition.suffixes[h.field 8 4]? = some (Condition.ofCode (h.field 8 4)).suffix
  register : ∀ n, Register.names.toList[n % 16]? = some (Register.ofNat n).name
  amountShift : h.field 11 2 ≠ 3 →
    amountShiftNames[h.field 11 2]? = some (shiftAddSubtract h).mnemonic
  immediateOperation : immediateOperationNames[h.field 11 2]? =
    some (immediateOperation (h.field 11 2)).name
  registerOperation : registerOperationNames[h.field 6 4]? =
    some (registerOperation (h.field 6 4)).name
  highOperation : ∀ revision, h.field 8 2 ≠ 3 →
    ∃ i, highRegister h revision = some i ∧ highOperationNames[h.field 8 2]? = some i.mnemonic
  transfer : transferNames[h.field 9 3]? = some (indexedTransfer (h.field 9 3)).name

theorem mnemonic_shiftAddSubtract {h : Word} (hne : h.field 11 2 ≠ 3) :
    (shiftAddSubtract h).mnemonic = (Shift.ofCode (h.field 11 2)).name := by
  unfold shiftAddSubtract
  dsimp only
  split
  case h_1 hkind => exact absurd hkind hne
  case h_2 hkind =>
    rw [hkind]
    rfl
  case h_3 => rfl

theorem getElem?_amountShiftNames {h : Word} (hne : h.field 11 2 ≠ 3) :
    amountShiftNames[h.field 11 2]? = some (shiftAddSubtract h).mnemonic := by
  have hall : ∀ n < 3, amountShiftNames[n]? = some (Shift.ofCode n).name := by decide
  have hlt := h.field_lt (show 11 + 2 ≤ 32 by decide)
  rw [mnemonic_shiftAddSubtract hne]
  exact hall _ (by omega)

theorem exists_highOperationName {h : Word} (revision : Revision) (hne : h.field 8 2 ≠ 3) :
    ∃ i, highRegister h revision = some i ∧
      highOperationNames[h.field 8 2]? = some i.mnemonic := by
  have hlt := h.field_lt (show 8 + 2 ≤ 32 by decide)
  interval_cases hop : h.field 8 2
  · simp [highOperationNames, highRegister, hop, Instruction.mnemonic, HighOperation.name]
  · simp [highOperationNames, highRegister, hop, Instruction.mnemonic, HighOperation.name]
  · simp [highOperationNames, highRegister, hop, Instruction.mnemonic, HighOperation.name]
  · contradiction

theorem tablesCover (h : Word) : TablesCover h where
  condition := Condition.getElem?_suffixes _ (h.field_lt (by decide))
  register := Register.getElem?_names
  amountShift := getElem?_amountShiftNames
  immediateOperation := by
    have hall : ∀ n < 4, immediateOperationNames[n]? = some (Thumb.immediateOperation n).name := by
      decide
    exact hall _ (h.field_lt (by decide))
  registerOperation := by
    have hall : ∀ n < 16, registerOperationNames[n]? = some (Thumb.registerOperation n).name := by
      decide
    exact hall _ (h.field_lt (by decide))
  highOperation := exists_highOperationName
  transfer := by
    have hall : ∀ n < 8, transferNames[n]? = some (indexedTransfer n).name := by decide
    exact hall _ (h.field_lt (by decide))

end Thumb

end ArmListing
