import ArmListing.Word
import ArmListing.Target
import ArmListing.Thumb.Instruction

/-!
# ArmListing.Thumb.Decode

Reading **instructions of Thumb state** off prefetched words.

The low halfword comes first. It holds a whole instruction unless its top five
bits mark the first half of a call; then the high halfword has to be a second
half. A half without its partner is undefined and one halfword wide, so the next
instruction is looked for right behind it.

The answer is a width and, if the encoding is defined, an instruction of that
width (`width_of_decode`).
-/

namespace ArmListing.Thumb

/-- The register whose number stands in the three bits from `pos` upward. -/
def lowRegister (h : Word) (pos : Nat) : Register := Register.ofNat (h.field pos 3)

/-- Shifts by an amount, additions and subtractions. A right shift by nothing means 32. -/
def shiftAddSubtract (h : Word) : Instruction :=
  let rd := lowRegister h 0
  let rm := lowRegister h 3
  match h.field 11 2 with
  | 3 =>
    .addSubtract (h.bit 9) rd rm
      (if h.bit 10 then .value (h.field 6 3) else .register (lowRegister h 6))
  | 0 => .shift .logicalLeft rd rm (h.field 6 5)
  | kind =>
    .shift (Shift.ofCode kind) rd rm (if h.field 6 5 = 0 then 32 else h.field 6 5)

/-- The operation with a number that has the code `n`. -/
def immediateOperation : Nat → ImmediateOperation
  | 0 => .mov
  | 1 => .cmp
  | 2 => .add
  | _ => .sub

/-- The operation of two registers with the code `n`. -/
def registerOperation : Nat → RegisterOperation
  | 0 => .and
  | 1 => .eor
  | 2 => .lsl
  | 3 => .lsr
  | 4 => .asr
  | 5 => .adc
  | 6 => .sbc
  | 7 => .ror
  | 8 => .tst
  | 9 => .neg
  | 10 => .cmp
  | 11 => .cmn
  | 12 => .orr
  | 13 => .mul
  | 14 => .bic
  | _ => .mvn

/-- Operations on all sixteen registers, and jumps to registers. The number of the first register
is in two parts. -/
def highRegister (h : Word) (revision : Revision) : Option Instruction :=
  let rd := Register.ofNat (h.field 0 3 + 8 * h.field 7 1)
  let rm := Register.ofNat (h.field 3 4)
  match h.field 8 2 with
  | 0 => some (.highRegister .add rd rm)
  | 1 => some (.highRegister .cmp rd rm)
  | 2 => some (.highRegister .mov rd rm)
  | _ =>
    if !h.bit 7 then some (.branchExchange false rm)
    else if revision.isV5te then some (.branchExchange true rm)
    else none

/-- The transfer with the code `n`. -/
def indexedTransfer : Nat → Transfer
  | 0 => .str
  | 1 => .strh
  | 2 => .strb
  | 3 => .ldrsb
  | 4 => .ldr
  | 5 => .ldrh
  | 6 => .ldrb
  | _ => .ldrsh

/-- Operations of registers, loads of constants and transfers at the sum of two registers. -/
def registerClass (h : Word) (revision : Revision) : Option Instruction :=
  match h.field 10 3 with
  | 0 =>
    some (.withRegister (registerOperation (h.field 6 4)) (lowRegister h 0) (lowRegister h 3))
  | 1 => highRegister h revision
  | 2 | 3 => some (.transferAt .ldr (lowRegister h 8) .pc (h.field 0 8 * 4))
  | _ =>
    some (.transferIndexed (indexedTransfer (h.field 9 3)) (lowRegister h 0) (lowRegister h 3)
      (lowRegister h 6))

/-- Words and bytes at a number from a register; the number counts in units of the size. -/
def wordByteTransfer (h : Word) : Instruction :=
  let op : Transfer :=
    if h.bit 12 then (if h.bit 11 then .ldrb else .strb) else (if h.bit 11 then .ldr else .str)
  .transferAt op (lowRegister h 0) (lowRegister h 3) (h.field 6 5 * (if h.bit 12 then 1 else 4))

/-- Words on the stack, and halfwords. -/
def stackHalfTransfer (h : Word) : Instruction :=
  if h.bit 12 then
    .transferAt (if h.bit 11 then .ldr else .str) (lowRegister h 8) .sp (h.field 0 8 * 4)
  else
    .transferAt (if h.bit 11 then .ldrh else .strh) (lowRegister h 0) (lowRegister h 3)
      (h.field 6 5 * 2)

/-- Moves of the stack pointer, `push`, `pop` and breakpoints. Bit 8 adds the link register to what
is pushed and the program counter to what is popped. -/
def miscellaneous (h : Word) (revision : Revision) : Option Instruction :=
  let registers := RegisterList.ofNat (h.field 0 8)
  match h.field 8 4 with
  | 0 => some (.adjustStack (h.bit 7) (h.field 0 7 * 4))
  | 4 => some (.push registers)
  | 5 => some (.push (registers.insert .lr))
  | 12 => some (.pop registers)
  | 13 => some (.pop (registers.insert .pc))
  | 14 => if revision.isV5te then some (.breakpoint (h.field 0 8)) else none
  | _ => none

/-- Short branches; the conditions that these do not need stand for other things. -/
def conditionalBranch (h : Word) : Option Instruction :=
  match h.field 8 4 with
  | 14 => none
  | 15 => some (.softwareInterrupt (h.field 0 8))
  | code => some (.branch (Condition.ofCode code) (h.signedField 0 8 * 2 + 4))

/-- The instruction that one halfword holds, if the revision defines one. -/
def decodeHalfword (h : Word) (revision : Revision) : Option Instruction :=
  match h.field 13 3 with
  | 0 => some (shiftAddSubtract h)
  | 1 =>
    some (.withImmediate (immediateOperation (h.field 11 2)) (lowRegister h 8) (h.field 0 8))
  | 2 => registerClass h revision
  | 3 => some (wordByteTransfer h)
  | 4 => some (stackHalfTransfer h)
  | 5 =>
    if h.bit 12 then miscellaneous h revision
    else some (.addressOf (lowRegister h 8) (if h.bit 11 then .sp else .pc) (h.field 0 8 * 4))
  | 6 =>
    if h.bit 12 then conditionalBranch h
    else some (.blockTransfer (h.bit 11) (lowRegister h 8) (.ofNat (h.field 0 8)))
  | _ =>
    if h.field 11 2 = 0 then some (.branch .always (h.signedField 0 11 * 2 + 4)) else none

/-- The distance of a call: the first half holds the signed upper part, the second half the lower
part in halfwords. -/
def callDistance (first second : Word) : Int :=
  first.signedField 0 11 * 4096 + 2 * second.field 0 11 + 4

/-- What a prefetched word starts with: a width and, if it is defined, an instruction. -/
def decode (prefetch : Word) (revision : Revision) : Width × Option Instruction :=
  let first := prefetch.unsignedField 0 16
  let second := prefetch.unsignedField 16 16
  if first.field 11 5 = 0b11110 then
    match second.field 11 5, revision.isV5te with
    | 0b11111, _ => (.wide, some (.branchLink false (callDistance first second)))
    | 0b11101, true =>
      if second.bit 0 then (.wide, none)
      else (.wide, some (.branchLink true (callDistance first second)))
    | _, _ => (.narrow, none)
  else (.narrow, decodeHalfword first revision)

/-! ## Widths -/

theorem width_shiftAddSubtract (h : Word) : (shiftAddSubtract h).width = .narrow := by
  unfold shiftAddSubtract
  dsimp only
  split <;> rfl

theorem width_highRegister {h : Word} {revision : Revision} {i : Instruction}
    (hi : highRegister h revision = some i) : i.width = .narrow := by
  unfold highRegister at hi
  dsimp only at hi
  (repeat' split at hi) <;> simp only [Option.some.injEq, reduceCtorEq] at hi <;> rw [← hi] <;> rfl

theorem width_registerClass {h : Word} {revision : Revision} {i : Instruction}
    (hi : registerClass h revision = some i) : i.width = .narrow := by
  unfold registerClass at hi
  split at hi
  case h_2 => exact width_highRegister hi
  all_goals simp only [Option.some.injEq] at hi; rw [← hi]; rfl

theorem width_miscellaneous {h : Word} {revision : Revision} {i : Instruction}
    (hi : miscellaneous h revision = some i) : i.width = .narrow := by
  unfold miscellaneous at hi
  dsimp only at hi
  (repeat' split at hi) <;> simp only [Option.some.injEq, reduceCtorEq] at hi <;> rw [← hi] <;> rfl

theorem width_conditionalBranch {h : Word} {i : Instruction}
    (hi : conditionalBranch h = some i) : i.width = .narrow := by
  unfold conditionalBranch at hi
  split at hi <;> simp only [Option.some.injEq, reduceCtorEq] at hi <;> rw [← hi] <;> rfl

theorem width_stackHalfTransfer (h : Word) : (stackHalfTransfer h).width = .narrow := by
  unfold stackHalfTransfer
  split <;> rfl

/-- One halfword holds instructions of one halfword only. -/
theorem width_of_decodeHalfword {h : Word} {revision : Revision} {i : Instruction}
    (hi : decodeHalfword h revision = some i) : i.width = .narrow := by
  unfold decodeHalfword at hi
  split at hi
  case h_3 => exact width_registerClass hi
  case h_1 => exact Option.some.inj hi ▸ width_shiftAddSubtract h
  case h_5 => exact Option.some.inj hi ▸ width_stackHalfTransfer h
  case h_6 =>
    split at hi
    · exact width_miscellaneous hi
    · exact Option.some.inj hi ▸ rfl
  case h_7 =>
    split at hi
    · exact width_conditionalBranch hi
    · exact Option.some.inj hi ▸ rfl
  case h_8 =>
    split at hi
    · exact Option.some.inj hi ▸ rfl
    · exact absurd hi (by simp)
  all_goals exact Option.some.inj hi ▸ rfl

/-- An instruction takes the width that comes with it. -/
theorem width_of_decode {prefetch : Word} {revision : Revision} {i : Instruction}
    (hi : (decode prefetch revision).2 = some i) : i.width = (decode prefetch revision).1 := by
  revert hi
  unfold decode
  dsimp only
  split
  · split
    · intro hi; exact Option.some.inj hi ▸ rfl
    · split
      · intro hi; exact absurd hi (by simp)
      · intro hi; exact Option.some.inj hi ▸ rfl
    · intro hi; exact absurd hi (by simp)
  · exact width_of_decodeHalfword

end ArmListing.Thumb
