import ArmListing.Proofs.Thumb.Call

/-!
# ArmListing.Proofs.Thumb.Revision

What changes in Thumb state **from ARMv4T to ARMv5TE**.

A single halfword keeps the meaning that it has (`decodeHalfword_v5te`). Calls
into ARM code are new, and with them a width changes: what was two undefined
halfwords is one word (`decode_v5te`).
-/

namespace ArmListing.Thumb

variable {h : Word} {i : Instruction}

theorem highRegister_v5te (hi : highRegister h .v4t = some i) : highRegister h .v5te = some i := by
  unfold highRegister at hi ⊢
  dsimp only at hi ⊢
  split at hi
  case h_4 =>
    split at hi
    case isTrue hexchange => rwa [if_pos hexchange]
    case isFalse => exact nomatch hi
  all_goals exact hi

theorem registerClass_v5te (hi : registerClass h .v4t = some i) :
    registerClass h .v5te = some i := by
  unfold registerClass at hi ⊢
  split at hi
  case h_2 => exact highRegister_v5te hi
  all_goals exact hi

theorem miscellaneous_v5te (hi : miscellaneous h .v4t = some i) :
    miscellaneous h .v5te = some i := by
  unfold miscellaneous at hi ⊢
  dsimp only at hi ⊢
  split at hi
  case h_6 => exact nomatch hi
  all_goals exact hi

/-- ARMv5TE decodes the halfwords that ARMv4T decodes, and to the same instructions. -/
theorem decodeHalfword_v5te (hi : decodeHalfword h .v4t = some i) :
    decodeHalfword h .v5te = some i := by
  unfold decodeHalfword at hi ⊢
  split at hi
  case h_3 => exact registerClass_v5te hi
  case h_6 =>
    split at hi
    case isTrue hmisc => rw [if_pos hmisc, miscellaneous_v5te hi]
    case isFalse hmisc => rwa [if_neg hmisc]
  all_goals exact hi

/-- **What ARMv5TE changes**: either the width stays, and what was defined stays what it was; or
there are two halfwords without a meaning, whatever comes behind them, which become one call. -/
theorem decode_v5te (prefetch : Word) :
    ((decode prefetch .v5te).1 = (decode prefetch .v4t).1 ∧
        ∀ i, (decode prefetch .v4t).2 = some i → (decode prefetch .v5te).2 = some i) ∨
      (decode prefetch .v4t = (.narrow, none) ∧ (decode prefetch .v5te).1 = .wide ∧
        ∀ next : Word, next.unsignedField 0 16 = prefetch.unsignedField 16 16 →
          decode next .v4t = (.narrow, none)) := by
  by_cases hstart : StartsCall (prefetch.unsignedField 0 16)
  · by_cases hend : EndsCall .v5te (prefetch.unsignedField 16 16)
    · by_cases hold : EndsCall .v4t (prefetch.unsignedField 16 16)
      · left
        rw [decode_of_call_v4t hstart hold, decode_of_call_v4t hstart hold]
        exact ⟨rfl, fun _ hi => hi⟩
      · right
        refine ⟨decode_of_lone_start hstart hold, width_decode_of_call hstart hend, ?_⟩
        intro next hnext
        rw [← hnext] at hend
        exact decode_of_lone_end .v4t hend
    · left
      rw [decode_of_lone_start hstart hend, decode_of_lone_start hstart (hend ·.v5te)]
      exact ⟨rfl, fun _ hi => hi⟩
  · left
    rw [decode_of_not_startsCall hstart, decode_of_not_startsCall hstart]
    exact ⟨rfl, fun _ => decodeHalfword_v5te⟩

end ArmListing.Thumb
