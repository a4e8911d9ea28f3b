import ArmListing.Arm.Decode

/-!
# ArmListing.Proofs.Arm.Revision

ARMv5TE **only adds** instructions of ARM state: what ARMv4T defines keeps its
meaning (`decode_v5te`).

The revision is asked in four places, one lemma each: the extra transfers, the
miscellaneous instructions, the moves of register pairs to coprocessors, and the
words without a condition.
-/

namespace ArmListing.Arm

variable {w : Word} {c : Condition} {i : Instruction}

theorem extraTransferKind_v5te {op : ExtraTransfer} (h : extraTransferKind w .v4t = some op) :
    extraTransferKind w .v5te = some op := by
  unfold extraTransferKind at h ⊢
  split at h <;> first | exact h | contradiction

theorem extraTransfer_v5te (h : extraTransfer w c .v4t = some i) :
    extraTransfer w c .v5te = some i := by
  unfold extraTransfer at h ⊢
  obtain ⟨op, hop, hi⟩ := Option.bind_eq_some_iff.mp h
  rw [extraTransferKind_v5te hop]
  exact hi

theorem miscellaneous_v5te (h : miscellaneous w c .v4t = some i) :
    miscellaneous w c .v5te = some i := by
  unfold miscellaneous at h ⊢
  dsimp only at h ⊢
  split at h
  case h_1 hcode =>
    rw [hcode]
    exact h
  case h_2 hcode =>
    rw [hcode]
    show (if _ then _ else _) = _
    have hcount : ¬ (w.field 21 2 = 3 ∧ Revision.v4t.isV5te = true) := fun hv5 => nomatch hv5.2
    rw [if_neg hcount] at h
    split at h
    case isTrue hop => rwa [if_pos hop]
    case isFalse => exact nomatch h
  all_goals contradiction

/-- The space of the moves of register pairs is empty before ARMv5TE. -/
theorem coprocessorMovePair_v4t : coprocessorMovePair w c .v4t = none := by
  unfold coprocessorMovePair
  rw [Revision.isV5te_v4t, Bool.and_false]
  rfl

theorem registerClass_v5te (h : registerClass w c .v4t = some i) :
    registerClass w c .v5te = some i := by
  unfold registerClass at h ⊢
  split at h
  case isTrue hextra =>
    rw [if_pos hextra]
    split at h
    case isTrue hkind => rw [if_pos hkind, extraTransfer_v5te h]
    case isFalse hkind => rwa [if_neg hkind]
  case isFalse hextra =>
    rw [if_neg hextra]
    split at h
    case isTrue hmisc => rw [if_pos hmisc, miscellaneous_v5te h]
    case isFalse hmisc => rwa [if_neg hmisc]

theorem conditional_v5te (h : conditional w c .v4t = some i) :
    conditional w c .v5te = some i := by
  unfold conditional at h ⊢
  split at h
  case h_1 => exact registerClass_v5te h
  case h_7 =>
    rw [coprocessorMovePair_v4t, Option.or_none] at h
    rw [h]
    rfl
  all_goals exact h

/-- **ARMv5TE only adds**: it decodes what ARMv4T decodes, and to the same instruction. -/
theorem decode_v5te (h : decode w .v4t = some i) : decode w .v5te = some i := by
  unfold decode at h ⊢
  split at h
  case isTrue => contradiction
  case isFalse hcond => rw [if_neg hcond, conditional_v5te h]

end ArmListing.Arm
