import ArmListing.Proofs.Arm.Spelling
import ArmListing.Proofs.Arm.Undefined

/-!
# ArmListing.Proofs.Arm.SecondSet

**Which words hold instructions of the second coprocessor set**: those without a
condition whose class is one of the two for coprocessors (`InSecondSet`).

Each reader of an instruction has one lemma here; `isSecondSet_of_decode` puts
them together.
-/

namespace ArmListing.Arm

/-- The words of the second coprocessor set: no condition, and one of the classes 6 and 7. -/
def InSecondSet (w : Word) : Prop := w.field 28 4 = 15 ∧ 6 ≤ w.field 25 3

instance (w : Word) : Decidable (InSecondSet w) := inferInstanceAs (Decidable (_ ∧ _))

variable {w : Word} {c : Condition} {revision : Revision} {i : Instruction}

theorem isSecondSet_dataProcessing (operand : FlexibleOperand) :
    (dataProcessing w c operand).isSecondSet = false := by
  unfold dataProcessing
  dsimp only
  split <;> rfl

theorem isSecondSet_multiply (h : multiply w c = some i) : i.isSecondSet = false := by
  unfold multiply at h
  dsimp only at h
  split at h <;> first | exact Option.some.inj h ▸ rfl | exact nomatch h

theorem isSecondSet_halfProduct : (halfProduct w c).isSecondSet = false := by
  unfold halfProduct
  dsimp only
  split
  case h_2 => split <;> rfl
  all_goals rfl

theorem isSecondSet_miscellaneous (h : miscellaneous w c revision = some i) :
    i.isSecondSet = false := by
  unfold miscellaneous at h
  dsimp only at h
  split at h
  case h_6 =>
    split at h
    case isTrue => exact Option.some.inj h ▸ isSecondSet_halfProduct
    case isFalse => exact nomatch h
  all_goals repeat' split at h
  all_goals first | exact Option.some.inj h ▸ rfl | exact nomatch h

theorem isSecondSet_extraTransfer (h : extraTransfer w c revision = some i) :
    i.isSecondSet = false := by
  unfold extraTransfer at h
  obtain ⟨op, -, h⟩ := Option.bind_eq_some_iff.mp h
  dsimp only at h
  repeat' split at h
  all_goals first | exact Option.some.inj h ▸ rfl | exact nomatch h

theorem isSecondSet_registerClass (h : registerClass w c revision = some i) :
    i.isSecondSet = false := by
  unfold registerClass at h
  repeat' split at h
  · exact isSecondSet_extraTransfer h
  · exact isSecondSet_multiply h
  · exact Option.some.inj h ▸ rfl
  · exact nomatch h
  · exact isSecondSet_miscellaneous h
  · exact Option.some.inj h ▸ isSecondSet_dataProcessing _

theorem isSecondSet_immediateClass (h : immediateClass w c = some i) : i.isSecondSet = false := by
  unfold immediateClass at h
  dsimp only at h
  repeat' split at h
  · exact Option.some.inj h ▸ rfl
  · exact nomatch h
  · exact Option.some.inj h ▸ isSecondSet_dataProcessing _

theorem isSecondSet_coprocessor (set : CoprocessorSet) :
    (coprocessor w set).isSecondSet = set.isSecond := by
  unfold coprocessor
  dsimp only
  split <;> rfl

theorem isSecondSet_coprocessorTransfer {set : CoprocessorSet}
    (h : coprocessorTransfer w set = some i) : i.isSecondSet = set.isSecond := by
  unfold coprocessorTransfer at h
  dsimp only at h
  repeat' split at h
  · exact Option.some.inj h ▸ rfl
  · exact Option.some.inj h ▸ rfl
  · exact nomatch h

theorem isSecondSet_coprocessorMovePair (h : coprocessorMovePair w c revision = some i) :
    i.isSecondSet = false := by
  unfold coprocessorMovePair at h
  split at h
  · exact Option.some.inj h ▸ rfl
  · exact nomatch h

/-- No instruction with a condition belongs to the second set. -/
theorem isSecondSet_conditional (h : conditional w c revision = some i) :
    i.isSecondSet = false := by
  unfold conditional at h
  split at h
  · exact isSecondSet_registerClass h
  · exact isSecondSet_immediateClass h
  · exact Option.some.inj h ▸ rfl
  · split at h
    · exact nomatch h
    · exact Option.some.inj h ▸ rfl
  · exact Option.some.inj h ▸ rfl
  · exact Option.some.inj h ▸ rfl
  · rcases Option.or_eq_some_iff.mp h with htransfer | ⟨-, hpair⟩
    · exact isSecondSet_coprocessorTransfer htransfer
    · exact isSecondSet_coprocessorMovePair hpair
  · split at h
    · exact Option.some.inj h ▸ rfl
    · exact Option.some.inj h ▸ isSecondSet_coprocessor _

theorem isSecondSet_unconditional (h : unconditional w = some i) :
    i.isSecondSet = decide (6 ≤ w.field 25 3) := by
  unfold unconditional at h
  split at h
  case isTrue hpreload =>
    have hclass : ¬6 ≤ w.field 25 3 := by
      have hpreload := field_of_preload hpreload
      omega
    rw [decide_eq_false hclass]
    unfold preload at h
    split at h
    · exact nomatch h
    · exact Option.some.inj h ▸ rfl
  case isFalse =>
    split at h
    case h_1 hclass =>
      rw [hclass]
      exact Option.some.inj h ▸ rfl
    case h_2 hclass =>
      rw [hclass]
      exact isSecondSet_coprocessorTransfer h
    case h_3 hclass =>
      rw [hclass]
      split at h
      · exact nomatch h
      · exact Option.some.inj h ▸ isSecondSet_coprocessor _
    case h_4 => exact nomatch h

/-- **The second set stands in its own words.** -/
theorem isSecondSet_of_decode (h : decode w revision = some i) :
    i.isSecondSet = decide (InSecondSet w) := by
  unfold decode at h
  split at h
  case isTrue hcond =>
    split at h
    case isTrue =>
      rw [isSecondSet_unconditional h, decide_eq_decide]
      exact ⟨fun hclass => ⟨hcond, hclass⟩, And.right⟩
    case isFalse => exact nomatch h
  case isFalse hcond =>
    rw [isSecondSet_conditional h, eq_comm, decide_eq_false_iff_not]
    exact fun hsecond => hcond hsecond.1

end ArmListing.Arm
