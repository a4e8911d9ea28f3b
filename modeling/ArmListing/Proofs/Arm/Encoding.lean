import ArmListing.Proofs.Arm.Branch

/-!
# ArmListing.Proofs.Arm.Encoding

**Encoding** the instructions that have every field of their word, and what
encoding makes of a word that has been read.

`Instruction.encode?` lays out the parts of an instruction as manuals draw them.
On the words whose fields all belong to the instruction (`ShowsAllFields`) it undoes
reading (`encode?_of_decode`), with one exception: the direction of a transfer
whose offset is zero and left out. There it gives the direction upward
(`canonical`).
-/

namespace ArmListing

/-! ## Codes -/

theorem Condition.code_ofCode {n : Nat} (h : n < 15) : (ofCode n).code = n := by
  have hall : ∀ n < 15, (ofCode n).code = n := by decide
  exact hall n h

/-- The code of a shift. -/
def Shift.code : Shift → Nat
  | logicalLeft => 0
  | logicalRight => 1
  | arithmeticRight => 2
  | rotateRight => 3

theorem Shift.code_ofCode {n : Nat} (h : n < 4) : (ofCode n).code = n := by
  have hall : ∀ n < 4, (ofCode n).code = n := by decide
  exact hall n h

/-- The twelve bits of a register operand. A shift by 32 has the code of a shift by nothing. -/
def ShiftedRegister.code : ShiftedRegister → Nat
  | plain rm => Word.numberOfParts [(4, rm.number), (1, 0), (2, 0), (5, 0)]
  | byAmount rm shift amount =>
    Word.numberOfParts [(4, rm.number), (1, 0), (2, shift.code), (5, amount)]
  | byRegister rm shift rs =>
    Word.numberOfParts [(4, rm.number), (1, 1), (2, shift.code), (1, 0), (4, rs.number)]
  | throughCarry rm => Word.numberOfParts [(4, rm.number), (1, 0), (2, 3), (5, 0)]

theorem ShiftedRegister.code_ofAmount (rm : Register) (shift : Shift) (amount : Nat) :
    (ofAmount rm shift amount).code =
      Word.numberOfParts [(4, rm.number), (1, 0), (2, shift.code), (5, amount)] := by
  cases shift <;> cases amount <;> rfl

namespace Offset

/-- Whether an offset is added. -/
def up : Offset → Bool
  | value up _ | register up _ => up

/-- Whether an offset is in a register. -/
def isRegister : Offset → Bool
  | value _ _ => false
  | register _ _ => true

/-- The twelve bits of an offset. -/
def code : Offset → Nat
  | value _ n => n
  | register _ r => r.code

end Offset

namespace Arm

/-- The code of an operation that combines two values. -/
def Arithmetic.code : Arithmetic → Nat
  | and => 0
  | eor => 1
  | sub => 2
  | rsb => 3
  | add => 4
  | adc => 5
  | sbc => 6
  | rsc => 7
  | orr => 12
  | bic => 14

theorem mem_arithmeticCodes {n : Nat} :
    n ∈ [0, 1, 2, 3, 4, 5, 6, 7, 12, 14] ↔ ∃ op : Arithmetic, n = op.code := by
  constructor
  · intro h
    simp only [List.mem_cons, List.not_mem_nil, or_false] at h
    rcases h with h | h | h | h | h | h | h | h | h | h
    · exact ⟨.and, h⟩
    · exact ⟨.eor, h⟩
    · exact ⟨.sub, h⟩
    · exact ⟨.rsb, h⟩
    · exact ⟨.add, h⟩
    · exact ⟨.adc, h⟩
    · exact ⟨.sbc, h⟩
    · exact ⟨.rsc, h⟩
    · exact ⟨.orr, h⟩
    · exact ⟨.bic, h⟩
  · rintro ⟨op, rfl⟩
    cases op <;> decide

/-- The code of a block mode. -/
def BlockMode.code : BlockMode → Nat
  | decrementAfter => 0
  | incrementAfter => 1
  | decrementBefore => 2
  | incrementBefore => 3

theorem BlockMode.code_blockMode {n : Nat} (h : n < 4) : (blockMode n).code = n := by
  have hall : ∀ n < 4, (blockMode n).code = n := by decide
  exact hall n h

/-! ## Instructions -/

/-- The word of a transfer. -/
def transferWord (c : Condition) (load byte preIndexed writeback : Bool) (rd base : Register)
    (offset : Offset) : Word :=
  .ofParts [(12, offset.code), (4, rd.number), (4, base.number), (1, load.toNat),
    (1, writeback.toNat), (1, byte.toNat), (1, offset.up.toNat), (1, preIndexed.toNat),
    (1, offset.isRegister.toNat), (2, 0b01), (4, c.code)]

/-- The word of an instruction, if all its parts are parts of the instruction. An offset that is
left out is written as zero, to be added. -/
def Instruction.encode? : Instruction → Option Word
  | arithmetic op c s rd rn (.register operand) =>
    some <| .ofParts [(12, operand.code), (4, rd.number), (4, rn.number), (1, s.toNat),
      (4, op.code), (3, 0b000), (4, c.code)]
  | transfer load byte false c rd (.preIndexed base offset? writeback) =>
    some <| transferWord c load byte true writeback rd base (offset?.getD (.value true 0))
  | transfer load byte asUser c rd (.postIndexed base offset) =>
    some <| transferWord c load byte false asUser rd base offset
  | blockTransfer load mode c rn writeback registers userBank =>
    some <| .ofParts [(16, registers.mask.toNat), (4, rn.number), (1, load.toNat),
      (1, writeback.toNat), (1, userBank.toNat), (2, mode.code), (3, 0b100), (4, c.code)]
  | branch link c d => some <| branchWord link c d
  | softwareInterrupt c n => some <| .ofParts [(24, n), (4, 0b1111), (4, c.code)]
  | coprocessorOperation (.conditional c) cp op1 crd crn crm op2 =>
    some <| .ofParts [(4, crm), (1, 0), (3, op2), (4, cp), (4, crd), (4, crn), (4, op1),
      (4, 0b1110), (4, c.code)]
  | coprocessorMove fromCoprocessor (.conditional c) cp op1 rd crn crm op2 =>
    some <| .ofParts [(4, crm), (1, 1), (3, op2), (4, cp), (4, rd.number), (4, crn),
      (1, fromCoprocessor.toNat), (3, op1), (4, 0b1110), (4, c.code)]
  | _ => none

theorem Instruction.encode?_postIndexed {load byte asUser : Bool} {c : Condition}
    {rd base : Register} {offset : Offset} :
    (transfer load byte asUser c rd (.postIndexed base offset)).encode? =
      some (transferWord c load byte false asUser rd base offset) := by
  cases asUser <;> rfl

/-! ## Words -/

variable {v w : Word} {c : Condition}

theorem toNat_bit (w : Word) {pos : Nat} (h : pos < 32) : (w.bit pos).toNat = w.field pos 1 :=
  (w.field_one pos h).symm

theorem number_register (w : Word) {pos : Nat} (h : pos + 4 ≤ 32) :
    ((register w pos).number : Nat) = w.field pos 4 :=
  Nat.mod_eq_of_lt (w.field_lt h)

theorem toNat_mask (w : Word) : (RegisterList.ofNat (w.field 0 16)).mask.toNat = w.field 0 16 :=
  Nat.mod_eq_of_lt (w.field_lt (by decide))

/-- Bits 4 and 7 tell a shift by a register from one by an amount. -/
theorem code_shiftedRegister (h : ¬(w.bit 7 = true ∧ w.bit 4 = true)) :
    (shiftedRegister w).code = w.field 0 12 := by
  have hshift := Shift.code_ofCode (w.field_lt (show 5 + 2 ≤ 32 by decide))
  have hbit := toNat_bit w (show 4 < 32 by decide)
  cases hregister : w.bit 4 with
  | false =>
    have hparts : Word.numberOfParts (w.parts 0 [4, 1, 2, 5]) = w.field 0 12 :=
      Word.numberOfParts_parts (by decide)
    rw [hregister] at hbit
    rw [shiftedRegister, hregister, if_neg Bool.false_ne_true, ShiftedRegister.code_ofAmount,
      hshift, ← hparts]
    simp (disch := omega) only [Word.parts, Nat.reduceAdd, number_register, ← hbit,
      Bool.toNat_false]
  | true =>
    have hparts : Word.numberOfParts (w.parts 0 [4, 1, 2, 1, 4]) = w.field 0 12 :=
      Word.numberOfParts_parts (by decide)
    have hzero := toNat_bit w (show 7 < 32 by decide)
    rw [Bool.eq_false_iff.mpr fun hseven => h ⟨hseven, hregister⟩] at hzero
    rw [hregister] at hbit
    rw [shiftedRegister, hregister, if_pos rfl, ShiftedRegister.code, hshift, ← hparts]
    simp (disch := omega) only [Word.parts, Nat.reduceAdd, number_register, ← hbit, ← hzero,
      Bool.toNat_false, Bool.toNat_true]

theorem dataProcessing_of_code {op : Arithmetic} (hop : w.field 21 4 = op.code)
    (operand : FlexibleOperand) :
    dataProcessing w c operand =
      .arithmetic op c (w.bit 20) (register w 12) (register w 16) operand := by
  rw [dataProcessing, hop]
  cases op <;> rfl

theorem encode?_dataProcessing {op : Arithmetic} (hclass : w.field 25 3 = 0)
    (hshift : ¬(w.bit 7 = true ∧ w.bit 4 = true)) (hop : w.field 21 4 = op.code)
    (hc : w.field 28 4 = c.code) :
    (dataProcessing w c (.register (shiftedRegister w))).encode? = some w := by
  have hw : Word.ofParts (w.parts 0 [12, 4, 4, 1, 4, 3, 4]) = w := w.ofParts_parts rfl
  simp only [Word.parts, Nat.reduceAdd, hclass, hop, hc] at hw
  rw [dataProcessing_of_code hop, Instruction.encode?, code_shiftedRegister hshift]
  simp (disch := omega) only [number_register, toNat_bit, hw]

theorem encode?_blockTransfer (hclass : w.field 25 3 = 4) (hc : w.field 28 4 = c.code) :
    (blockTransfer w c).encode? = some w := by
  have hw : Word.ofParts (w.parts 0 [16, 4, 1, 1, 1, 2, 3, 4]) = w := w.ofParts_parts rfl
  have hmode := BlockMode.code_blockMode (w.field_lt (show 23 + 2 ≤ 32 by decide))
  simp only [Word.parts, Nat.reduceAdd, hclass, hc] at hw
  rw [blockTransfer, Instruction.encode?, toNat_mask, hmode]
  simp (disch := omega) only [number_register, toNat_bit, hw]

theorem encode?_branch (hclass : w.field 25 3 = 5) (hc : w.field 28 4 = c.code) :
    (branch w c).encode? = some w := by
  have hw : Word.ofParts (w.parts 0 [24, 1, 3, 4]) = w := w.ofParts_parts rfl
  have hfield := w.toNat_signedField_emod (show 0 < 24 by decide) (show 0 + 24 ≤ 32 by decide)
  have hwords : (branchDistance w - 8) / 4 = w.signedField 0 24 := by
    rw [branchDistance]
    omega
  simp only [Word.parts, Nat.reduceAdd, hclass, hc] at hw
  rw [branch, Instruction.encode?, branchWord, branchClassWord, hwords, hfield]
  simp (disch := omega) only [toNat_bit, hw]

theorem encode?_softwareInterrupt (hclass : w.field 24 4 = 15) (hc : w.field 28 4 = c.code) :
    (Instruction.softwareInterrupt c (w.field 0 24)).encode? = some w := by
  have hw : Word.ofParts (w.parts 0 [24, 4, 4]) = w := w.ofParts_parts rfl
  simp only [Word.parts, Nat.reduceAdd, hclass, hc] at hw
  rw [Instruction.encode?, hw]

theorem encode?_coprocessor (hclass : w.field 24 4 = 14) (hc : w.field 28 4 = c.code) :
    (coprocessor w (.conditional c)).encode? = some w := by
  have hbit := toNat_bit w (show 4 < 32 by decide)
  unfold coprocessor
  cases hmove : w.bit 4 with
  | false =>
    have hw : Word.ofParts (w.parts 0 [4, 1, 3, 4, 4, 4, 4, 4, 4]) = w := w.ofParts_parts rfl
    rw [hmove] at hbit
    simp only [Word.parts, Nat.reduceAdd, hclass, hc, ← hbit, Bool.toNat_false] at hw
    exact congrArg some hw
  | true =>
    have hw : Word.ofParts (w.parts 0 [4, 1, 3, 4, 4, 4, 1, 3, 4, 4]) = w := w.ofParts_parts rfl
    rw [hmove] at hbit
    simp only [Word.parts, Nat.reduceAdd, hclass, hc, ← hbit, Bool.toNat_true] at hw
    simp (disch := omega) only [↓reduceIte, Instruction.encode?, number_register, toNat_bit, hw]

/-! ### Transfers -/

/-- The offset of a transfer, which is in its word even if it is zero. -/
def transferOffset (w : Word) : Offset :=
  if w.bit 25 then .register (w.bit 23) (shiftedRegister w) else .value (w.bit 23) (w.field 0 12)

theorem transferWord_transferOffset (hclass : w.field 26 2 = 1)
    (hshift : ¬(w.bit 25 = true ∧ w.bit 4 = true)) (hc : w.field 28 4 = c.code) :
    transferWord c (w.bit 20) (w.bit 22) (w.bit 24) (w.bit 21) (register w 12) (register w 16)
      (transferOffset w) = w := by
  have hw : Word.ofParts (w.parts 0 [12, 4, 4, 1, 1, 1, 1, 1, 1, 2, 4]) = w := w.ofParts_parts rfl
  simp only [Word.parts, Nat.reduceAdd, hclass, hc] at hw
  have hoffset : (transferOffset w).code = w.field 0 12 ∧ (transferOffset w).up = w.bit 23 ∧
      (transferOffset w).isRegister = w.bit 25 := by
    unfold transferOffset
    cases hregister : w.bit 25 with
    | false => exact ⟨rfl, rfl, rfl⟩
    | true => exact ⟨code_shiftedRegister fun h => hshift ⟨hregister, h.2⟩, rfl, rfl⟩
  obtain ⟨hcode, hup, hregister⟩ := hoffset
  rw [transferWord, hcode, hup, hregister]
  simp (disch := omega) only [number_register, toNat_bit, hw]

/-- The class of transfers is made of the two bits that all transfers share and the one that tells
their offsets apart. -/
theorem class_transfer (w : Word) : w.field 25 3 = (w.bit 25).toNat + 2 * w.field 26 2 :=
  w.field_succ 25 2 (by decide)

/-- Whether a word is a transfer whose offset is left out. -/
def LeavesOutOffset (w : Word) : Prop :=
  w.extractLsb 27 25 = 0b010#3 ∧ w.getLsbD 24 ∧ w.extractLsb 11 0 = 0#12

instance (w : Word) : Decidable (LeavesOutOffset w) := inferInstanceAs (Decidable (_ ∧ _ ∧ _))

theorem leavesOutOffset_iff :
    LeavesOutOffset w ↔
      w.field 26 2 = 1 ∧ w.bit 25 = false ∧ w.bit 24 = true ∧ w.field 0 12 = 0 := by
  have hclass : w.field 25 3 = 2 ↔ w.field 26 2 = 1 ∧ w.bit 25 = false := by
    rw [class_transfer]
    cases w.bit 25 with
    | false =>
      rw [Bool.toNat_false, and_iff_left rfl]
      omega
    | true =>
      rw [Bool.toNat_true, iff_false_right (by simp)]
      omega
  simp [LeavesOutOffset, Word.extractLsb_eq_iff, ← Word.bit_eq_getElem, hclass, and_assoc]

/-! ### Directions -/

/-- Bit 23, which is set in transfers that add their offset. -/
def directionBit : Word := 0x00800000#32

theorem getLsbD_directionBit (i : Nat) : directionBit.getLsbD i = decide (23 = i) := by
  have htwoPow : directionBit = BitVec.twoPow 32 23 := by decide
  rw [htwoPow, BitVec.getLsbD_twoPow]
  rfl

theorem bit_or_directionBit (w : Word) {pos : Nat} (h : pos ≠ 23) :
    (w ||| directionBit).bit pos = w.bit pos := by
  rw [Word.bit_or, directionBit.bit_eq_getLsbD, getLsbD_directionBit, decide_eq_false h.symm,
    Bool.or_false]

theorem field_or_directionBit (w : Word) {pos len : Nat} (h : directionBit.field pos len = 0) :
    (w ||| directionBit).field pos len = w.field pos len := by
  rw [Word.field_or, h, Nat.or_zero]

theorem register_or_directionBit (w : Word) {pos : Nat} (h : directionBit.field pos 4 = 0) :
    register (w ||| directionBit) pos = register w pos := by
  rw [register, register, field_or_directionBit w h]

theorem leavesOutOffset_or_directionBit :
    LeavesOutOffset (w ||| directionBit) ↔ LeavesOutOffset w := by
  simp (disch := decide) only [leavesOutOffset_iff, field_or_directionBit, bit_or_directionBit]

theorem or_directionBit_eq_iff_getLsbD :
    v ||| directionBit = w ||| directionBit ↔ ∀ i, i ≠ 23 → v.getLsbD i = w.getLsbD i := by
  constructor
  · intro h i hi
    have hbit := congrArg (·.getLsbD i) h
    simpa [getLsbD_directionBit, hi.symm] using hbit
  · intro h
    apply BitVec.eq_of_getLsbD_eq
    intro i _
    by_cases hi : 23 = i
    · simp [getLsbD_directionBit, hi]
    · simp [getLsbD_directionBit, hi, h i (Ne.symm hi)]

/-- Words that agree up to their direction differ in it or are the same. -/
theorem or_directionBit_eq_iff :
    v ||| directionBit = w ||| directionBit ↔ v = w ∨ v ^^^ w = directionBit := by
  rw [or_directionBit_eq_iff_getLsbD]
  constructor
  · intro h
    by_cases hdirection : v.getLsbD 23 = w.getLsbD 23
    · left
      apply BitVec.eq_of_getLsbD_eq
      intro i _
      by_cases hi : i = 23
      · rw [hi, hdirection]
      · exact h i hi
    · right
      apply BitVec.eq_of_getLsbD_eq
      intro i _
      rw [BitVec.getLsbD_xor, getLsbD_directionBit]
      by_cases hi : 23 = i
      · subst hi
        simpa using hdirection
      · simp [hi, h i (Ne.symm hi)]
  · rintro (rfl | h) i hi
    · rfl
    · have hbit := congrArg (·.getLsbD i) h
      simpa [getLsbD_directionBit, hi.symm] using hbit

/-- The word itself, or the one with the direction upward if the offset is left out. -/
def canonical (w : Word) : Word := if LeavesOutOffset w then w ||| directionBit else w

theorem transferWord_of_leavesOutOffset (h : LeavesOutOffset w) (hc : w.field 28 4 = c.code) :
    transferWord c (w.bit 20) (w.bit 22) true (w.bit 21) (register w 12) (register w 16)
      (.value true 0) = w ||| directionBit := by
  obtain ⟨hclass, hregister, hpre, hzero⟩ := leavesOutOffset_iff.mp h
  have hup : (w ||| directionBit).bit 23 = true := by
    have hdirection : directionBit.bit 23 = true := by decide
    rw [Word.bit_or, hdirection, Bool.or_true]
  have hoffset : transferOffset (w ||| directionBit) = .value true 0 := by
    simp (disch := decide) [transferOffset, bit_or_directionBit, field_or_directionBit, hregister,
      hup, hzero]
  have hclass' : (w ||| directionBit).field 26 2 = 1 := by
    rw [field_or_directionBit w (by decide), hclass]
  have hregister' : (w ||| directionBit).bit 25 = false := by
    rw [bit_or_directionBit w (by decide), hregister]
  have hc' : (w ||| directionBit).field 28 4 = c.code := by
    rw [field_or_directionBit w (by decide), hc]
  -- all parts but the direction are those of the word
  have hword := transferWord_transferOffset hclass' (by simp [hregister']) hc'
  simpa (disch := decide) only [hoffset, bit_or_directionBit, register_or_directionBit, hpre]
    using hword

/-- The address of a transfer. -/
theorem transfer_eq (hclass : w.field 26 2 = 1) :
    transfer w c = .transfer (w.bit 20) (w.bit 22) (!w.bit 24 && w.bit 21) c (register w 12)
      (if w.bit 24 then
        .preIndexed (register w 16) (if LeavesOutOffset w then none else some (transferOffset w))
          (w.bit 21)
      else .postIndexed (register w 16) (transferOffset w)) := by
  have hleaves : LeavesOutOffset w ↔ w.bit 25 = false ∧ w.bit 24 = true ∧ w.field 0 12 = 0 := by
    rw [leavesOutOffset_iff, and_iff_right hclass]
  rw [transfer, indexed]
  cases hpre : w.bit 24 with
  | false => rfl
  | true =>
    cases hregister : w.bit 25 with
    | true => simp [hleaves, hregister, transferOffset]
    | false =>
      cases hzero : w.field 0 12 <;> simp [hleaves, hpre, hregister, hzero, transferOffset]

theorem encode?_transfer (hclass : w.field 26 2 = 1) (hshift : ¬(w.bit 25 = true ∧ w.bit 4 = true))
    (hc : w.field 28 4 = c.code) : (transfer w c).encode? = some (canonical w) := by
  have hword := transferWord_transferOffset hclass hshift hc
  rw [transfer_eq hclass, canonical]
  cases hpre : w.bit 24 with
  | false =>
    have hnot : ¬LeavesOutOffset w := by simp [leavesOutOffset_iff, hpre]
    rw [hpre] at hword
    rw [if_neg hnot, if_neg hnot]
    exact Instruction.encode?_postIndexed.trans (congrArg some hword)
  | true =>
    rw [hpre] at hword
    by_cases h : LeavesOutOffset w
    · rw [if_pos h, if_pos h]
      exact congrArg some (transferWord_of_leavesOutOffset h hc)
    · rw [if_neg h, if_neg h]
      exact congrArg some hword

/-! ### All words -/

/-- The words all of whose fields are shown: three-operand data processing with a register operand,
transfers of words, bytes and blocks, branches, software interrupts, and operations and moves of
coprocessors, under any condition. -/
def ShowsAllFields (w : Word) : Prop :=
  w.extractLsb 31 28 ≠ 0b1111#4 ∧
    ((w.extractLsb 27 25 = 0b000#3 ∧ ¬(w.getLsbD 7 ∧ w.getLsbD 4) ∧
        (w.extractLsb 24 21).toNat ∈ [0, 1, 2, 3, 4, 5, 6, 7, 12, 14]) ∨
      (w.extractLsb 27 26 = 0b01#2 ∧ ¬(w.getLsbD 25 ∧ w.getLsbD 4)) ∨
      w.extractLsb 27 25 = 0b100#3 ∨ w.extractLsb 27 25 = 0b101#3 ∨
      w.extractLsb 27 24 = 0b1111#4 ∨ w.extractLsb 27 24 = 0b1110#4)

instance (w : Word) : Decidable (ShowsAllFields w) := inferInstanceAs (Decidable (_ ∧ _))

theorem showsAllFields_iff :
    ShowsAllFields w ↔ w.field 28 4 ≠ 15 ∧
      ((w.field 25 3 = 0 ∧ ¬(w.bit 7 = true ∧ w.bit 4 = true) ∧
          ∃ op : Arithmetic, w.field 21 4 = op.code) ∨
        (w.field 26 2 = 1 ∧ ¬(w.bit 25 = true ∧ w.bit 4 = true)) ∨
        w.field 25 3 = 4 ∨ w.field 25 3 = 5 ∨ w.field 24 4 = 15 ∨ w.field 24 4 = 14) := by
  have hop : (w.extractLsb 24 21).toNat = w.field 21 4 :=
    ((Word.extractLsb_eq_iff w (by decide) (by decide) _).mp rfl).symm
  rw [ShowsAllFields, hop, mem_arithmeticCodes]
  simp [Word.extractLsb_eq_iff, ← Word.bit_eq_getElem]

/-! ### Reading -/

theorem conditional_of_arithmetic {op : Arithmetic} {revision : Revision}
    (hclass : w.field 25 3 = 0) (hshift : ¬(w.bit 7 = true ∧ w.bit 4 = true))
    (hop : w.field 21 4 = op.code) :
    conditional w c revision = some (dataProcessing w c (.register (shiftedRegister w))) := by
  have hparts : w.field 21 4 = w.field 21 2 + 4 * w.field 23 2 := w.field_add 21 2 2 (by decide)
  have hlow := w.field_lt (show 21 + 2 ≤ 32 by decide)
  have hnot : w.field 23 2 ≠ 2 := by
    rw [hop] at hparts
    cases op <;> simp only [Arithmetic.code] at hparts <;> omega
  rw [conditional, hclass]
  simp [registerClass, hshift, hnot]

theorem conditional_of_transfer {revision : Revision} (hclass : w.field 26 2 = 1)
    (hshift : ¬(w.bit 25 = true ∧ w.bit 4 = true)) :
    conditional w c revision = some (transfer w c) := by
  rw [conditional, class_transfer w, hclass]
  cases hregister : w.bit 25 with
  | false => rfl
  | true =>
    have hbit : w.bit 4 = false := Bool.eq_false_iff.mpr fun h => hshift ⟨hregister, h⟩
    simp [hbit]

theorem conditional_of_softwareInterrupt {revision : Revision} (hclass : w.field 24 4 = 15) :
    conditional w c revision = some (.softwareInterrupt c (w.field 0 24)) := by
  have htop := w.field_succ 24 3 (by decide)
  cases hbit : w.bit 24 <;> simp [hbit, hclass] at htop
  · omega
  · simp [conditional, show w.field 25 3 = 7 by omega, hbit]

theorem conditional_of_coprocessor {revision : Revision} (hclass : w.field 24 4 = 14) :
    conditional w c revision = some (coprocessor w (.conditional c)) := by
  have htop := w.field_succ 24 3 (by decide)
  cases hbit : w.bit 24 <;> simp [hbit, hclass] at htop
  · simp [conditional, show w.field 25 3 = 7 by omega, hbit]
  · omega

/-- **Reading is undone by encoding** on the words all of whose fields are shown, up to the direction
of an offset that is left out. -/
theorem encode?_of_decode (h : ShowsAllFields w) (revision : Revision) :
    ∃ i, decode w revision = some i ∧ i.encode? = some (canonical w) := by
  obtain ⟨hcondition, hclasses⟩ := showsAllFields_iff.mp h
  have hc : w.field 28 4 = (Condition.ofCode (w.field 28 4)).code := by
    have hlt := w.field_lt (show 28 + 4 ≤ 32 by decide)
    exact (Condition.code_ofCode (by omega)).symm
  have hcanonical (hclass : w.field 25 3 ≠ 2) : canonical w = w := by
    refine if_neg fun hleaves => hclass ?_
    obtain ⟨htransfer, hregister, -⟩ := leavesOutOffset_iff.mp hleaves
    rw [class_transfer, htransfer, hregister, Bool.toNat_false]
  generalize hcode : Condition.ofCode (w.field 28 4) = c at hc
  rw [decode, if_neg hcondition, hcode]
  have htop : w.field 24 4 = (w.bit 24).toNat + 2 * w.field 25 3 := w.field_succ 24 3 (by decide)
  have hbit := toNat_bit w (show 24 < 32 by decide)
  have hlt := w.field_lt (show 24 + 1 ≤ 32 by decide)
  rcases hclasses with ⟨hclass, hshift, op, hop⟩ | ⟨hclass, hshift⟩ | hclass | hclass | hclass |
    hclass
  · rw [conditional_of_arithmetic hclass hshift hop, hcanonical (by omega)]
    exact ⟨_, rfl, encode?_dataProcessing hclass hshift hop hc⟩
  · rw [conditional_of_transfer hclass hshift]
    exact ⟨_, rfl, encode?_transfer hclass hshift hc⟩
  · rw [conditional, hclass, hcanonical (by omega)]
    exact ⟨_, rfl, encode?_blockTransfer hclass hc⟩
  · rw [conditional, hclass, hcanonical (by omega)]
    exact ⟨_, rfl, encode?_branch hclass hc⟩
  · rw [conditional_of_softwareInterrupt hclass, hcanonical (by omega)]
    exact ⟨_, rfl, encode?_softwareInterrupt hclass hc⟩
  · rw [conditional_of_coprocessor hclass, hcanonical (by omega)]
    exact ⟨_, rfl, encode?_coprocessor hclass hc⟩

/-- The direction of an offset that is left out does not matter. -/
theorem decode_or_directionBit (h : LeavesOutOffset w) (hcondition : w.field 28 4 ≠ 15)
    (revision : Revision) : decode (w ||| directionBit) revision = decode w revision := by
  have h' := leavesOutOffset_or_directionBit.mpr h
  obtain ⟨hclass, hregister, hpre, -⟩ := leavesOutOffset_iff.mp h
  obtain ⟨hclass', hregister', hpre', -⟩ := leavesOutOffset_iff.mp h'
  rw [decode, decode, field_or_directionBit w (by decide), if_neg hcondition, if_neg hcondition,
    conditional_of_transfer hclass (by simp [hregister]),
    conditional_of_transfer hclass' (by simp [hregister']), transfer_eq hclass, transfer_eq hclass']
  simp (disch := decide) only [h, h', hpre, hpre', ↓reduceIte, bit_or_directionBit,
    register_or_directionBit]

end Arm

end ArmListing
