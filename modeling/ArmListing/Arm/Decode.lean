import ArmListing.Word
import ArmListing.Target
import ArmListing.Arm.Instruction

/-!
# ArmListing.Arm.Decode

Reading **instructions of ARM state** off words.

A word is sorted by its condition field first: the code 15 is no condition but
the mark of a space of its own, which ARMv4T does not define. All other words
are sorted by bits 25 to 27, and each class by further fields. A word that no
rule takes is undefined, and `decode` answers `none`.
-/

namespace ArmListing.Arm

/-! ## Fields with a meaning of their own -/

/-- The register whose number stands in the four bits from `pos` upward. -/
def register (w : Word) (pos : Nat) : Register := Register.ofNat (w.field pos 4)

/-- The half that bit `pos` selects. -/
def half (w : Word) (pos : Nat) : Half := if w.bit pos then .top else .bottom

/-- The status register that bit 22 selects. -/
def statusRegister (w : Word) : StatusRegister := if w.bit 22 then .saved else .current

/-- The four bits that select the fields of a status register. -/
def statusFields (w : Word) : StatusFields where
  flags := w.bit 19
  status := w.bit 18
  extension := w.bit 17
  control := w.bit 16

/-- Eight bits, rotated to the right by an even distance. -/
def rotatedImmediate (w : Word) : Nat :=
  ((w.unsignedField 0 8).rotateRight (2 * w.field 8 4)).toNat

/-- The register operand; bit 4 tells a shift by a register from one by an amount. -/
def shiftedRegister (w : Word) : ShiftedRegister :=
  let rm := register w 0
  let shift := Shift.ofCode (w.field 5 2)
  if w.bit 4 then .byRegister rm shift (register w 8)
  else .ofAmount rm shift (w.field 7 5)

/-- The address that bits 21 (write-back), 23 (direction) and 24 (pre-indexed) make of a base and
an offset. A pre-indexed offset of zero is left out. -/
def indexed (w : Word) (offset : Bool → Offset) : Address :=
  let base := register w 16
  let offset := offset (w.bit 23)
  if w.bit 24 then
    match offset with
    | .value _ 0 => .preIndexed base none (w.bit 21)
    | offset => .preIndexed base (some offset) (w.bit 21)
  else .postIndexed base offset

/-! ## Data processing, multiplication and status -/

/-- The sixteen operations of bits 21 to 24. Only the four comparisons write no register. -/
def dataProcessing (w : Word) (c : Condition) (operand : FlexibleOperand) : Instruction :=
  let s := w.bit 20
  let rd := register w 12
  let rn := register w 16
  match w.field 21 4 with
  | 0 => .arithmetic .and c s rd rn operand
  | 1 => .arithmetic .eor c s rd rn operand
  | 2 => .arithmetic .sub c s rd rn operand
  | 3 => .arithmetic .rsb c s rd rn operand
  | 4 => .arithmetic .add c s rd rn operand
  | 5 => .arithmetic .adc c s rd rn operand
  | 6 => .arithmetic .sbc c s rd rn operand
  | 7 => .arithmetic .rsc c s rd rn operand
  | 8 => .compare .tst c rn operand
  | 9 => .compare .teq c rn operand
  | 10 => .compare .cmp c rn operand
  | 11 => .compare .cmn c rn operand
  | 12 => .arithmetic .orr c s rd rn operand
  | 13 => .move .mov c s rd operand
  | 14 => .arithmetic .bic c s rd rn operand
  | _ => .move .mvn c s rd operand

/-- Products of 32 bits have bit 23 clear, products of 64 bits have it set. -/
def multiply (w : Word) (c : Condition) : Option Instruction :=
  let s := w.bit 20
  let rm := register w 0
  let rs := register w 8
  let long op := some (.multiplyLong op c s (register w 12) (register w 16) rm rs)
  match w.bit 23, w.field 21 2 with
  | false, 0 => some (.multiply c s (register w 16) rm rs)
  | false, 1 => some (.multiplyAdd c s (register w 16) rm rs (register w 12))
  | false, _ => none
  | true, 0 => long .umull
  | true, 1 => long .umlal
  | true, 2 => long .smull
  | true, _ => long .smlal

/-- The signed products of halves, which bits 5 and 6 select. -/
def halfProduct (w : Word) (c : Condition) : Instruction :=
  let rd := register w 12
  let rm := register w 0
  let rn := register w 16
  let rs := register w 8
  let x := half w 5
  let y := half w 6
  match w.field 21 2 with
  | 0 => .halfMultiplyAdd x y c rn rm rs rd
  | 1 =>
    if w.bit 5 then .wordHalfMultiply y c rn rm rs else .wordHalfMultiplyAdd y c rn rm rs rd
  | 2 => .halfMultiplyLong x y c rd rn rm rs
  | _ => .halfMultiply x y c rn rm rs

/-- The saturating operation with the code `n`. -/
def saturating : Nat → Saturating
  | 0 => .qadd
  | 1 => .qsub
  | 2 => .qdadd
  | _ => .qdsub

/-- The comparisons that would not set the flags: their place is taken by the status registers,
the jumps to registers and most of what ARMv5TE adds. -/
def miscellaneous (w : Word) (c : Condition) (revision : Revision) : Option Instruction :=
  let rd := register w 12
  let rm := register w 0
  let op := w.field 21 2
  match w.field 4 4, revision.isV5te with
  | 0, _ =>
    if w.bit 21 then
      some (.writeStatus c (statusRegister w) (statusFields w) (.register (.plain rm)))
    else some (.readStatus c rd (statusRegister w))
  | 1, v5te =>
    if op = 1 then some (.branchExchange false c rm)
    else if op = 3 ∧ v5te then some (.countLeadingZeros c rd rm)
    else none
  | 3, true => if op = 1 then some (.branchExchange true c rm) else none
  | 5, true => some (.saturating (saturating op) c rd rm (register w 16))
  | 7, true => if op = 1 then some (.breakpoint (w.field 8 12 * 16 + w.field 0 4)) else none
  | _, true => if w.bit 7 && !w.bit 4 then some (halfProduct w c) else none
  | _, false => none

/-! ## Transfers -/

/-- Words and bytes. Bit 25 tells a register offset from an immediate one. Post-indexed addresses
need no write-back bit, so there it asks for the access of user mode. -/
def transfer (w : Word) (c : Condition) : Instruction :=
  let address := indexed w fun up =>
    if w.bit 25 then .register up (shiftedRegister w) else .value up (w.field 0 12)
  .transfer (w.bit 20) (w.bit 22) (!w.bit 24 && w.bit 21) c (register w 12) address

/-- The transfer that the load bit and bits 5 and 6 select. -/
def extraTransferKind (w : Word) (revision : Revision) : Option ExtraTransfer :=
  match w.bit 20, w.field 5 2 with
  | true, 1 => some .loadHalf
  | true, 2 => some .loadSignedByte
  | true, _ => some .loadSignedHalf
  | false, 1 => some .storeHalf
  | false, 2 => if revision.isV5te then some .loadPair else none
  | false, 3 => if revision.isV5te then some .storePair else none
  | false, _ => none

/-- Halfwords, signed bytes and pairs. Bit 22 tells an immediate offset, in two parts, from a
register. -/
def extraTransfer (w : Word) (c : Condition) (revision : Revision) : Option Instruction := do
  let op ← extraTransferKind w revision
  if !w.bit 24 && w.bit 21 then none
  let address := indexed w fun up =>
    if w.bit 22 then .value up (w.field 8 4 * 16 + w.field 0 4)
    else .register up (.plain (register w 0))
  return .extraTransfer op c (register w 12) address

/-- The block mode with the code `n`. -/
def blockMode : Nat → BlockMode
  | 0 => .decrementAfter
  | 1 => .incrementAfter
  | 2 => .decrementBefore
  | _ => .incrementBefore

/-- Sets of registers. -/
def blockTransfer (w : Word) (c : Condition) : Instruction :=
  .blockTransfer (w.bit 20) (blockMode (w.field 23 2)) c (register w 16) (w.bit 21)
    (.ofNat (w.field 0 16)) (w.bit 22)

/-! ## Branches -/

/-- The distance in words, counted from two instructions ahead. -/
def branchDistance (w : Word) : Int := w.signedField 0 24 * 4 + 8

/-- Jumps and calls. -/
def branch (w : Word) (c : Condition) : Instruction := .branch (w.bit 24) c (branchDistance w)

/-- Calls into Thumb code, which lies at even addresses: bit 24 is the halfword. -/
def branchToThumb (w : Word) : Instruction :=
  .branchToThumb (branchDistance w + 2 * w.field 24 1)

/-! ## Coprocessors -/

/-- Operations and moves, which bit 4 tells apart. -/
def coprocessor (w : Word) (set : CoprocessorSet) : Instruction :=
  let cp := w.field 8 4
  let crn := w.field 16 4
  let crm := w.field 0 4
  let op2 := w.field 5 3
  if w.bit 4 then
    .coprocessorMove (w.bit 20) set cp (w.field 21 3) (register w 12) crn crm op2
  else .coprocessorOperation set cp (w.field 20 4) (w.field 12 4) crn crm op2

/-- Transfers between coprocessor and memory. An address with neither direction nor write-back
does not exist. -/
def coprocessorTransfer (w : Word) (set : CoprocessorSet) : Option Instruction :=
  let transfer := some ∘
    Instruction.coprocessorTransfer (w.bit 20) set (w.bit 22) (w.field 8 4) (w.field 12 4)
  if w.bit 24 || w.bit 21 then transfer (indexed w fun up => .value up (w.field 0 8 * 4))
  else if w.bit 23 then transfer (.unindexed (register w 16) (w.field 0 8))
  else none

/-- The place of the missing transfers is taken by moves of register pairs. -/
def coprocessorMovePair (w : Word) (c : Condition) (revision : Revision) : Option Instruction :=
  if w.bit 22 && revision.isV5te then
    some (.coprocessorMovePair (w.bit 20) c (w.field 8 4) (w.field 4 4) (register w 12)
      (register w 16) (w.field 0 4))
  else none

/-! ## Classes -/

/-- Words with bits 25 to 27 clear: data processing with a register operand. Bits 4 and 7 together
mark multiplications and extra transfers. -/
def registerClass (w : Word) (c : Condition) (revision : Revision) : Option Instruction :=
  if w.bit 7 && w.bit 4 then
    if w.field 5 2 ≠ 0 then extraTransfer w c revision
    else if w.field 24 4 = 0 then multiply w c
    else if w.field 23 5 = 2 ∧ w.field 20 2 = 0 then
      some (.swap c (w.bit 22) (register w 12) (register w 0) (register w 16))
    else none
  else if w.field 23 2 = 2 && !w.bit 20 then miscellaneous w c revision
  else some (dataProcessing w c (.register (shiftedRegister w)))

/-- Data processing with an immediate operand. -/
def immediateClass (w : Word) (c : Condition) : Option Instruction :=
  let operand := FlexibleOperand.value (rotatedImmediate w)
  if w.field 23 2 = 2 && !w.bit 20 then
    if w.bit 21 then some (.writeStatus c (statusRegister w) (statusFields w) operand) else none
  else some (dataProcessing w c operand)

/-- Words with a condition. -/
def conditional (w : Word) (c : Condition) (revision : Revision) : Option Instruction :=
  match w.field 25 3 with
  | 0 => registerClass w c revision
  | 1 => immediateClass w c
  | 2 => some (transfer w c)
  | 3 => if w.bit 4 then none else some (transfer w c)
  | 4 => some (blockTransfer w c)
  | 5 => some (branch w c)
  | 6 =>
    (coprocessorTransfer w (.conditional c)).or (coprocessorMovePair w c revision)
  | _ =>
    if w.bit 24 then some (.softwareInterrupt c (w.field 0 24))
    else some (coprocessor w (.conditional c))

/-- The address of a preload, which is always pre-indexed. -/
def preload (w : Word) : Option Instruction :=
  if w.bit 25 && w.bit 4 then none
  else some <| .preload <| indexed w fun up =>
    if w.bit 25 then .register up (shiftedRegister w) else .value up (w.field 0 12)

/-- Words whose condition field is 15, on ARMv5TE. -/
def unconditional (w : Word) : Option Instruction :=
  if w &&& 0xfd70f000#32 = 0xf550f000#32 then preload w
  else
    match w.field 25 3 with
    | 5 => some (branchToThumb w)
    | 6 => coprocessorTransfer w .second
    | 7 => if w.bit 24 then none else some (coprocessor w .second)
    | _ => none

/-- The instruction that a word holds, if the revision defines one. -/
def decode (w : Word) (revision : Revision) : Option Instruction :=
  if w.field 28 4 = 15 then
    if revision.isV5te then unconditional w else none
  else conditional w (Condition.ofCode (w.field 28 4)) revision

end ArmListing.Arm
