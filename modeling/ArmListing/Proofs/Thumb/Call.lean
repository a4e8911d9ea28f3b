import ArmListing.Proofs.Word.Field
import ArmListing.Thumb.Decode

/-!
# ArmListing.Proofs.Thumb.Call

**The two halves of a call**, the only instruction of Thumb state that is longer
than a halfword.

A prefetched word starts with a whole call if its low halfword is a first half
and its high halfword a second one (`decode_eq_wide_iff`). No halfword is both
(`not_startsCall_of_endsCall`), so where one instruction ends and the next one
begins can be read off any two neighbouring halfwords. All other answers are
those of the low halfword (`decode_of_narrow`).
-/

namespace ArmListing.Thumb

/-- Whether a halfword is the first half of a call. -/
def StartsCall (h : Word) : Prop := h.field 11 5 = 0b11110

/-- Whether a halfword is the second half of a call; calls into ARM code came with ARMv5TE. -/
def EndsCall (revision : Revision) (h : Word) : Prop :=
  h.field 11 5 = 0b11111 ∨ (h.field 11 5 = 0b11101 ∧ revision.isV5te)

theorem not_startsCall_of_endsCall {revision : Revision} {h : Word} (hend : EndsCall revision h) :
    ¬ StartsCall h := by
  unfold EndsCall at hend
  unfold StartsCall
  omega

/-- What ends a call for ARMv4T does so for ARMv5TE. -/
theorem EndsCall.v5te {revision : Revision} {h : Word} (hend : EndsCall revision h) :
    EndsCall .v5te h := by
  rcases hend with hbl | ⟨hblx, -⟩
  · exact .inl hbl
  · exact .inr ⟨hblx, rfl⟩

variable {prefetch : Word} {revision : Revision}

/-- Both halves together take a word, even if the call is undefined. -/
theorem width_decode_of_call (hstart : StartsCall (prefetch.unsignedField 0 16))
    (hend : EndsCall revision (prefetch.unsignedField 16 16)) :
    (decode prefetch revision).1 = .wide := by
  unfold StartsCall at hstart
  unfold decode
  dsimp only
  rw [if_pos hstart]
  rcases hend with hbl | ⟨hblx, hv5⟩
  · rw [hbl]
    cases revision <;> rfl
  · rw [hblx, hv5]
    show (if _ then (Width.wide, _) else (Width.wide, _)).1 = .wide
    split <;> rfl

/-- A call that ARMv4T knows does not change its meaning. -/
theorem decode_of_call_v4t (hstart : StartsCall (prefetch.unsignedField 0 16))
    (hend : EndsCall .v4t (prefetch.unsignedField 16 16)) :
    decode prefetch revision = (.wide, some (.branchLink false
      (callDistance (prefetch.unsignedField 0 16) (prefetch.unsignedField 16 16)))) := by
  unfold StartsCall at hstart
  rcases hend with hbl | ⟨-, hv5⟩
  · unfold decode
    dsimp only
    rw [if_pos hstart, hbl]
    cases revision <;> rfl
  · contradiction

/-- A first half without a second one is a halfword without a meaning. -/
theorem decode_of_lone_start (hstart : StartsCall (prefetch.unsignedField 0 16))
    (hend : ¬ EndsCall revision (prefetch.unsignedField 16 16)) :
    decode prefetch revision = (.narrow, none) := by
  unfold StartsCall at hstart
  unfold decode
  dsimp only
  rw [if_pos hstart]
  split
  case h_1 hbl => exact absurd (.inl hbl) hend
  case h_2 hblx hv5 => exact absurd (.inr ⟨hblx, hv5⟩) hend
  case h_3 => rfl

/-- All other halfwords are instructions of their own, whatever comes behind them. -/
theorem decode_of_not_startsCall (hstart : ¬ StartsCall (prefetch.unsignedField 0 16)) :
    decode prefetch revision =
      (.narrow, decodeHalfword (prefetch.unsignedField 0 16) revision) :=
  if_neg hstart

/-- Only a whole call takes a word. -/
theorem decode_eq_wide_iff :
    (decode prefetch revision).1 = .wide ↔
      StartsCall (prefetch.unsignedField 0 16) ∧
        EndsCall revision (prefetch.unsignedField 16 16) := by
  by_cases hstart : StartsCall (prefetch.unsignedField 0 16)
  · by_cases hend : EndsCall revision (prefetch.unsignedField 16 16)
    · simp only [width_decode_of_call hstart hend, hstart, hend, and_self]
    · simp only [decode_of_lone_start hstart hend, reduceCtorEq, hend, and_false]
  · simp only [decode_of_not_startsCall hstart, reduceCtorEq, hstart, false_and]

/-! ### Narrow answers -/

/-- Of the last class of halfwords, all but the jumps are halves of calls. -/
theorem decodeHalfword_of_half {h : Word} (hhalf : 0b11101 ≤ h.field 11 5) :
    decodeHalfword h revision = none := by
  -- the top five bits are the three that tell the class and the two that tell `b` from the rest
  have htop : h.field 11 5 = h.field 11 2 + 4 * h.field 13 3 :=
    Word.field_add h 11 2 3 (by decide)
  have hlow : h.field 11 2 < 4 := h.field_lt (by decide)
  have hhigh : h.field 13 3 < 8 := h.field_lt (by decide)
  have hclass : h.field 13 3 = 7 := by omega
  have hrest : h.field 11 2 ≠ 0 := by omega
  unfold decodeHalfword
  rw [hclass]
  exact if_neg hrest

/-- A first half holds no instruction of one halfword. -/
theorem decodeHalfword_of_startsCall {h : Word} (hstart : StartsCall h) :
    decodeHalfword h revision = none := by
  unfold StartsCall at hstart
  exact decodeHalfword_of_half (by omega)

/-- A second half holds no instruction of one halfword. -/
theorem decodeHalfword_of_endsCall {h : Word} (hend : EndsCall .v5te h) :
    decodeHalfword h revision = none := by
  unfold EndsCall at hend
  exact decodeHalfword_of_half (by omega)

/-- A second half on its own is undefined. -/
theorem decode_of_lone_end (revision : Revision)
    (hend : EndsCall .v5te (prefetch.unsignedField 0 16)) :
    decode prefetch revision = (.narrow, none) := by
  rw [decode_of_not_startsCall (not_startsCall_of_endsCall hend), decodeHalfword_of_endsCall hend]

/-- **A narrow answer** is that of the low halfword alone, also for a half without its partner. -/
theorem decode_of_narrow (h : (decode prefetch revision).1 = .narrow) :
    decode prefetch revision =
      (.narrow, decodeHalfword (prefetch.unsignedField 0 16) revision) := by
  by_cases hstart : StartsCall (prefetch.unsignedField 0 16)
  · have hend : ¬EndsCall revision (prefetch.unsignedField 16 16) := by
      intro hend
      rw [width_decode_of_call hstart hend] at h
      contradiction
    rw [decode_of_lone_start hstart hend, decodeHalfword_of_startsCall hstart]
  · exact decode_of_not_startsCall hstart

theorem decode_congr_of_narrow {p q : Word} (hp : (decode p revision).1 = .narrow)
    (hq : (decode q revision).1 = .narrow) (hlow : q.unsignedField 0 16 = p.unsignedField 0 16) :
    decode q revision = decode p revision := by
  rw [decode_of_narrow hp, decode_of_narrow hq, hlow]

end ArmListing.Thumb
