import ArmListing.Arm.Decode
import ArmListing.Proofs.Word.Field

/-!
# ArmListing.Proofs.Arm.Undefined

**Which words are undefined** in ARM state, in terms of the bits of the word.

Each reader has one lemma that says what it refuses. The words of a class that
are refused make up a predicate of their own, which mentions nothing but bits,
and `decode_eq_none_iff` puts the classes together.
-/

namespace ArmListing.Arm

variable {w : Word} {c : Condition} {revision : Revision}

/-! ### What readers refuse -/

theorem multiply_eq_none_iff :
    multiply w c = none ↔ w.bit 23 = false ∧ w.bit 22 = true := by
  have hop := w.field_two 21 (by decide)
  cases hlow : w.bit 21 <;> cases hhigh : w.bit 22 <;> cases hlong : w.bit 23 <;>
    simp [multiply, hop, hlow, hhigh, hlong]

/-- Stores of these kinds came with ARMv5TE. -/
theorem extraTransferKind_eq_none_iff (hkind : w.field 5 2 ≠ 0) :
    extraTransferKind w revision = none ↔
      revision = .v4t ∧ w.bit 20 = false ∧ w.bit 6 = true := by
  have hfield := w.field_two 5 (by decide)
  rw [hfield] at hkind
  cases hlow : w.bit 5 <;> cases hhigh : w.bit 6 <;> cases hload : w.bit 20 <;>
    cases revision <;> simp [extraTransferKind, hfield, hlow, hhigh, hload] at hkind ⊢

/-- A post-indexed address needs no write-back bit. -/
theorem extraTransfer_eq_none_iff (hkind : w.field 5 2 ≠ 0) :
    extraTransfer w c revision = none ↔
      (w.bit 24 = false ∧ w.bit 21 = true) ∨
        (revision = .v4t ∧ w.bit 20 = false ∧ w.bit 6 = true) := by
  rw [← extraTransferKind_eq_none_iff hkind]
  cases hop : extraTransferKind w revision <;> cases hpre : w.bit 24 <;>
    cases hwriteback : w.bit 21 <;> simp [extraTransfer, hop, hpre, hwriteback]

theorem immediateClass_eq_none_iff :
    immediateClass w c = none ↔ w.field 23 2 = 2 ∧ w.bit 20 = false ∧ w.bit 21 = false := by
  unfold immediateClass
  by_cases hclass : w.field 23 2 = 2 <;> cases hflags : w.bit 20 <;> cases hwrite : w.bit 21 <;>
    simp [hclass]

theorem coprocessorTransfer_eq_none_iff {set : CoprocessorSet} :
    coprocessorTransfer w set = none ↔
      w.bit 24 = false ∧ w.bit 23 = false ∧ w.bit 21 = false := by
  unfold coprocessorTransfer
  cases hpre : w.bit 24 <;> cases hup : w.bit 23 <;> cases hwriteback : w.bit 21 <;> simp

theorem coprocessorMovePair_eq_none_iff :
    coprocessorMovePair w c revision = none ↔ ¬(revision = .v5te ∧ w.bit 22 = true) := by
  unfold coprocessorMovePair
  cases hpair : w.bit 22 <;> cases revision <;> simp

theorem preload_eq_none_iff : preload w = none ↔ w.bit 25 = true ∧ w.bit 4 = true := by
  unfold preload
  cases hregister : w.bit 25 <;> cases hshift : w.bit 4 <;> simp

/-- The products of halves are told by two bits, which are the highest and the lowest of four. -/
theorem halfProduct_iff :
    (w.bit 7 = true ∧ w.bit 4 = false) ↔ 8 ≤ w.field 4 4 ∧ w.field 4 4 % 2 = 0 := by
  rw [w.bit_eq_true_iff, w.bit_eq 4, decide_eq_false_iff_not, w.field_eq (by decide)]
  omega

/-- The operations in the place of the comparisons. -/
theorem miscellaneous_eq_none_iff :
    miscellaneous w c revision = none ↔
      ¬(w.field 4 4 = 0 ∨ (w.field 4 4 = 1 ∧ w.field 21 2 = 1) ∨
        (revision = .v5te ∧
          ((w.field 4 4 = 1 ∧ w.field 21 2 = 3) ∨ (w.field 4 4 = 3 ∧ w.field 21 2 = 1) ∨
            w.field 4 4 = 5 ∨ (w.field 4 4 = 7 ∧ w.field 21 2 = 1) ∨
            (w.bit 7 = true ∧ w.bit 4 = false)))) := by
  rw [halfProduct_iff]
  unfold miscellaneous
  dsimp only
  split
  case h_1 hx => split <;> simp [hx]
  case h_2 hx =>
    by_cases hexchange : w.field 21 2 = 1 <;> by_cases hcount : w.field 21 2 = 3 <;>
      cases revision <;> simp [hx, hexchange, hcount]
  case h_3 hx hrevision =>
    obtain rfl := Revision.isV5te_iff.mp hrevision
    by_cases hexchange : w.field 21 2 = 1 <;> simp [hx, hexchange]
  case h_4 hx hrevision =>
    obtain rfl := Revision.isV5te_iff.mp hrevision
    simp [hx]
  case h_5 hx hrevision =>
    obtain rfl := Revision.isV5te_iff.mp hrevision
    by_cases hbreak : w.field 21 2 = 1 <;> simp [hx, hbreak]
  case h_6 hrevision hzero hone hthree hfive hseven =>
    obtain rfl := Revision.isV5te_iff.mp hrevision
    have hproduct : (w.bit 7 && !w.bit 4) = true ↔ 8 ≤ w.field 4 4 ∧ w.field 4 4 % 2 = 0 := by
      rw [← halfProduct_iff, Bool.and_eq_true, Bool.not_eq_true']
    by_cases htest : (w.bit 7 && !w.bit 4) = true
    · simp [htest, hproduct.mp htest]
    · have hnot := mt hproduct.mpr htest
      simp only [if_neg htest, true_iff]
      rintro (hx | ⟨hx, -⟩ | ⟨-, ⟨hx, -⟩ | ⟨hx, -⟩ | hx | ⟨hx, -⟩ | hx⟩)
      · exact hzero hx
      · exact hone hx
      · exact hone hx
      · exact hthree hx
      · exact hfive hx
      · exact hseven hx
      · exact hnot hx
  case h_7 hrevision hzero hone =>
    have hold : revision ≠ .v5te := by
      rw [ne_eq, ← Revision.isV5te_iff, hrevision]
      exact Bool.false_ne_true
    refine iff_of_true rfl ?_
    rintro (hx | ⟨hx, -⟩ | ⟨hv5te, -⟩)
    · exact hzero hx
    · exact hone hx
    · exact hold hv5te

/-! ### Classes -/

theorem registerClass_eq_none_iff :
    registerClass w c revision = none ↔
      ((w.bit 7 = true ∧ w.bit 4 = true) ∧ w.field 5 2 = 0 ∧
        ((w.field 24 4 = 0 ∧ multiply w c = none) ∨
          (w.field 24 4 ≠ 0 ∧ ¬(w.field 23 5 = 2 ∧ w.field 20 2 = 0)))) ∨
      ((w.bit 7 = true ∧ w.bit 4 = true) ∧ w.field 5 2 ≠ 0 ∧
        extraTransfer w c revision = none) ∨
      (¬(w.bit 7 = true ∧ w.bit 4 = true) ∧ w.field 23 2 = 2 ∧ w.bit 20 = false ∧
        miscellaneous w c revision = none) := by
  unfold registerClass
  by_cases hextra : w.bit 7 = true ∧ w.bit 4 = true
  · by_cases hkind : w.field 5 2 = 0 <;> by_cases hmultiply : w.field 24 4 = 0 <;>
      simp [hextra, hkind, hmultiply]
  · by_cases hcomparison : w.field 23 2 = 2 <;> cases hset : w.bit 20 <;>
      simp [hextra, hcomparison]

/-- The eight classes. -/
theorem class_cases (w : Word) :
    w.field 25 3 = 0 ∨ w.field 25 3 = 1 ∨ w.field 25 3 = 2 ∨ w.field 25 3 = 3 ∨
      w.field 25 3 = 4 ∨ w.field 25 3 = 5 ∨ w.field 25 3 = 6 ∨ w.field 25 3 = 7 := by
  have hrange : w.field 25 3 < 8 := w.field_lt (by decide)
  omega

theorem conditional_eq_none_iff :
    conditional w c revision = none ↔
      (w.field 25 3 = 0 ∧ registerClass w c revision = none) ∨
        (w.field 25 3 = 1 ∧ immediateClass w c = none) ∨
        (w.field 25 3 = 3 ∧ w.bit 4 = true) ∨
        (w.field 25 3 = 6 ∧ coprocessorTransfer w (.conditional c) = none ∧
          coprocessorMovePair w c revision = none) := by
  cases hswi : w.bit 24 <;> rcases class_cases w with hclass | hclass | hclass | hclass |
    hclass | hclass | hclass | hclass <;> simp [conditional, hclass, hswi]

/-! ### Undefined words -/

/-- Multiplications and swaps whose operation does not exist. -/
def IsUndefinedMultiply (w : Word) : Prop :=
  w.extractLsb 27 25 = 0b000#3 ∧ w[7] ∧ w[4] ∧ w.extractLsb 6 5 = 0b00#2 ∧
    ¬((¬w[24] ∧ (w[23] ∨ ¬w[22])) ∨ (w[24] ∧ ¬w[23] ∧ w.extractLsb 21 20 = 0b00#2))

/-- Transfers of halfwords, signed bytes and pairs with write-back behind a post-indexed address, or
that came with ARMv5TE. -/
def IsUndefinedExtraTransfer (revision : Revision) (w : Word) : Prop :=
  w.extractLsb 27 25 = 0b000#3 ∧ w[7] ∧ w[4] ∧ w.extractLsb 6 5 ≠ 0b00#2 ∧
    ((¬w[24] ∧ w[21]) ∨ (revision = .v4t ∧ ¬w[20] ∧ w[6]))

/-- Operations in the place of the comparisons that do not exist. -/
def IsUndefinedMiscellaneous (revision : Revision) (w : Word) : Prop :=
  w.extractLsb 27 25 = 0b000#3 ∧ ¬(w[7] ∧ w[4]) ∧ w.extractLsb 24 23 = 0b10#2 ∧ ¬w[20] ∧
    ¬(w.extractLsb 7 4 = 0b0000#4 ∨
      (w.extractLsb 7 4 = 0b0001#4 ∧ w.extractLsb 22 21 = 0b01#2) ∨
      (revision = .v5te ∧
        ((w.extractLsb 7 4 = 0b0001#4 ∧ w.extractLsb 22 21 = 0b11#2) ∨
          (w.extractLsb 7 4 = 0b0011#4 ∧ w.extractLsb 22 21 = 0b01#2) ∨
          w.extractLsb 7 4 = 0b0101#4 ∨
          (w.extractLsb 7 4 = 0b0111#4 ∧ w.extractLsb 22 21 = 0b01#2) ∨
          (w[7] ∧ ¬w[4]))))

/-- The comparisons with an immediate operand that would not set the flags, except for the two in
whose place a status register is written. -/
def IsUndefinedImmediate (w : Word) : Prop :=
  w.extractLsb 27 25 = 0b001#3 ∧ w.extractLsb 24 23 = 0b10#2 ∧ w.extractLsb 21 20 = 0b00#2

/-- Transfers with an offset that would be shifted by a register. -/
def IsUndefinedTransfer (w : Word) : Prop := w.extractLsb 27 25 = 0b011#3 ∧ w[4]

/-- Transfers of coprocessors without an address, and in their place the moves of register pairs
before ARMv5TE. -/
def IsUndefinedCoprocessorTransfer (revision : Revision) (w : Word) : Prop :=
  w.extractLsb 27 25 = 0b110#3 ∧ ¬w[24] ∧ ¬w[23] ∧ ¬w[21] ∧ ¬(revision = .v5te ∧ w[22])

/-! ### Classes in bits -/

theorem isUndefinedMultiply_iff :
    (w.field 25 3 = 0 ∧ (w.bit 7 = true ∧ w.bit 4 = true) ∧ w.field 5 2 = 0 ∧
      ((w.field 24 4 = 0 ∧ multiply w c = none) ∨
        (w.field 24 4 ≠ 0 ∧ ¬(w.field 23 5 = 2 ∧ w.field 20 2 = 0)))) ↔
      IsUndefinedMultiply w := by
  have hlong := w.field_succ 24 3 (by decide)
  have hswap := w.field_succ 23 4 (by decide)
  rw [hlong] at hswap
  by_cases hclass : w.field 25 3 = 0
  · cases hword : w.bit 22 <;> cases hup : w.bit 23 <;> cases hpre : w.bit 24 <;>
      simp [IsUndefinedMultiply, Word.extractLsb_eq_iff, ← Word.bit_eq_getElem,
        multiply_eq_none_iff, and_assoc, *]
  · simp [IsUndefinedMultiply, Word.extractLsb_eq_iff, hclass]

theorem isUndefinedExtraTransfer_iff :
    (w.field 25 3 = 0 ∧ (w.bit 7 = true ∧ w.bit 4 = true) ∧ w.field 5 2 ≠ 0 ∧
      extraTransfer w c revision = none) ↔ IsUndefinedExtraTransfer revision w := by
  by_cases hkind : w.field 5 2 = 0
  · simp [IsUndefinedExtraTransfer, Word.extractLsb_eq_iff, hkind]
  · rw [extraTransfer_eq_none_iff hkind]
    simp [IsUndefinedExtraTransfer, Word.extractLsb_eq_iff, ← Word.bit_eq_getElem, and_assoc]

theorem isUndefinedMiscellaneous_iff :
    (w.field 25 3 = 0 ∧ ¬(w.bit 7 = true ∧ w.bit 4 = true) ∧ w.field 23 2 = 2 ∧
      w.bit 20 = false ∧ miscellaneous w c revision = none) ↔
      IsUndefinedMiscellaneous revision w := by
  rw [miscellaneous_eq_none_iff]
  simp [IsUndefinedMiscellaneous, Word.extractLsb_eq_iff, ← Word.bit_eq_getElem]

theorem isUndefinedImmediate_iff :
    (w.field 25 3 = 1 ∧ immediateClass w c = none) ↔ IsUndefinedImmediate w := by
  have hflags := w.field_two 20 (by decide)
  rw [immediateClass_eq_none_iff]
  cases hwrite : w.bit 21 <;> cases hset : w.bit 20 <;>
    simp [IsUndefinedImmediate, Word.extractLsb_eq_iff, *]

theorem isUndefinedTransfer_iff :
    (w.field 25 3 = 3 ∧ w.bit 4 = true) ↔ IsUndefinedTransfer w := by
  simp [IsUndefinedTransfer, Word.extractLsb_eq_iff, ← Word.bit_eq_getElem]

theorem isUndefinedCoprocessorTransfer_iff {set : CoprocessorSet} :
    (w.field 25 3 = 6 ∧ coprocessorTransfer w set = none ∧
      coprocessorMovePair w c revision = none) ↔ IsUndefinedCoprocessorTransfer revision w := by
  rw [coprocessorTransfer_eq_none_iff, coprocessorMovePair_eq_none_iff]
  simp [IsUndefinedCoprocessorTransfer, Word.extractLsb_eq_iff, ← Word.bit_eq_getElem, and_assoc]

theorem registerClass_refuses_iff :
    (w.field 25 3 = 0 ∧ registerClass w c revision = none) ↔
      IsUndefinedMultiply w ∨ IsUndefinedExtraTransfer revision w ∨
        IsUndefinedMiscellaneous revision w := by
  have hdistrib {p q r s : Prop} : (p ∧ (q ∨ r ∨ s)) ↔ (p ∧ q) ∨ (p ∧ r) ∨ (p ∧ s) := by
    rw [and_or_left, and_or_left]
  rw [registerClass_eq_none_iff, hdistrib, isUndefinedMultiply_iff, isUndefinedExtraTransfer_iff,
    isUndefinedMiscellaneous_iff]

/-- The words with a condition that are refused. -/
theorem conditional_refuses_iff :
    conditional w c revision = none ↔
      IsUndefinedMultiply w ∨ IsUndefinedExtraTransfer revision w ∨
        IsUndefinedMiscellaneous revision w ∨ IsUndefinedImmediate w ∨ IsUndefinedTransfer w ∨
        IsUndefinedCoprocessorTransfer revision w := by
  rw [conditional_eq_none_iff, registerClass_refuses_iff, isUndefinedImmediate_iff,
    isUndefinedTransfer_iff, isUndefinedCoprocessorTransfer_iff, or_assoc, or_assoc]

/-! ### Words without a condition -/

/-- The words without a condition that ARMv5TE defines: preloads, calls into Thumb code, and the
second set of coprocessor instructions. -/
def IsUnconditional (w : Word) : Prop :=
  (w &&& 0xfd70f000#32 = 0xf550f000#32 ∧ ¬(w[25] ∧ w[4])) ∨
    w.extractLsb 27 25 = 0b101#3 ∨
    (w.extractLsb 27 25 = 0b110#3 ∧ ¬(¬w[24] ∧ ¬w[23] ∧ ¬w[21])) ∨
    w.extractLsb 27 24 = 0b1110#4

/-- The words of the preloads lie in classes 2 and 3. -/
theorem field_of_preload (h : w &&& 0xfd70f000#32 = 0xf550f000#32) :
    w.field 25 3 = 2 ∨ w.field 25 3 = 3 := by
  -- the mask keeps bits 26 and 27, and the pattern has the lower one set
  have hand : w.extractLsb 27 26 &&& BitVec.allOnes 2 = 0b01#2 := by
    simpa [BitVec.extractLsb_and] using congrArg (BitVec.extractLsb 27 26) h
  rw [BitVec.and_allOnes, Word.extractLsb_eq_iff w (by decide) (by decide)] at hand
  have hclass := w.field_succ 25 2 (by decide)
  rw [hand] at hclass
  cases hregister : w.bit 25 <;> simp [hclass, hregister]

theorem unconditional_eq_none_iff : unconditional w = none ↔ ¬IsUnconditional w := by
  have hfour := w.field_succ 24 3 (by decide)
  by_cases hpreload : w &&& 0xfd70f000#32 = 0xf550f000#32
  · rw [unconditional, if_pos hpreload, preload_eq_none_iff]
    cases hlong : w.bit 24 <;> rcases field_of_preload hpreload with hclass | hclass <;>
      simp [IsUnconditional, Word.extractLsb_eq_iff, ← Word.bit_eq_getElem, *]
  · cases hlong : w.bit 24 <;> rcases class_cases w with hclass | hclass | hclass | hclass |
      hclass | hclass | hclass | hclass <;>
      simp [unconditional, IsUnconditional, Word.extractLsb_eq_iff, ← Word.bit_eq_getElem,
        coprocessorTransfer_eq_none_iff, *]

/-! ### All words -/

/-- **The undefined words** of ARM state. -/
theorem decode_eq_none_iff (w : Word) (revision : Revision) :
    decode w revision = none ↔
      (w.extractLsb 31 28 = 0b1111#4 ∧ ¬(revision = .v5te ∧ IsUnconditional w)) ∨
        (w.extractLsb 31 28 ≠ 0b1111#4 ∧
          (IsUndefinedMultiply w ∨ IsUndefinedExtraTransfer revision w ∨
            IsUndefinedMiscellaneous revision w ∨ IsUndefinedImmediate w ∨
            IsUndefinedTransfer w ∨ IsUndefinedCoprocessorTransfer revision w)) := by
  rw [ne_eq, Word.extractLsb_eq_iff w (by decide) (by decide)]
  show _ ↔ (w.field 28 4 = 15 ∧ _) ∨ (¬w.field 28 4 = 15 ∧ _)
  by_cases hcondition : w.field 28 4 = 15
  · cases revision with
    | v4t => simp [decode, hcondition]
    | v5te => simp [decode, hcondition, unconditional_eq_none_iff]
  · simp only [decode, hcondition, ↓reduceIte, conditional_refuses_iff, false_and, false_or,
      not_false_eq_true, true_and]

end ArmListing.Arm
