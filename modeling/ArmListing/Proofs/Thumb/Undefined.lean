import ArmListing.Proofs.Thumb.Call

/-!
# ArmListing.Proofs.Thumb.Undefined

**Which prefetched words are undefined** in Thumb state, and how wide they are,
in terms of their two halfwords as numbers.

Each reader has one lemma that says which halfwords it refuses;
`decodeHalfword_eq_none_iff` puts them together. A wide answer is undefined only
if it is a call into ARM code at an odd halfword (`decode_eq_none_iff_of_wide`).
-/

namespace ArmListing.Thumb

variable {p : Word} {revision : Revision}

/-! ### Halfwords in numbers -/

/-- The halfword that comes first. -/
def lowHalf (p : Word) : Nat := p.toNat % 2 ^ 16

/-- The halfword that comes second. -/
def highHalf (p : Word) : Nat := p.toNat / 2 ^ 16

theorem toNat_low (p : Word) : (p.unsignedField 0 16).toNat = lowHalf p := by
  rw [Word.toNat_unsignedField p (by decide), Nat.pow_zero, Nat.div_one, lowHalf]

theorem toNat_high (p : Word) : (p.unsignedField 16 16).toNat = highHalf p := by
  rw [Word.toNat_unsignedField p (by decide), highHalf]
  omega

/-- The halfwords of a pair that is wide: a first half of a call and a second one. -/
def IsCall (revision : Revision) (low high : Nat) : Prop :=
  low >>> 11 = 0b11110 ∧
    (high >>> 11 = 0b11111 ∨ (revision = .v5te ∧ high >>> 11 = 0b11101))

/-- The halves of calls: first halves, and second halves for either state. -/
def IsCallHalf (h : Nat) : Prop :=
  h >>> 11 = 0b11101 ∨ h >>> 11 = 0b11110 ∨ h >>> 11 = 0b11111

/-- The halfwords of the miscellaneous class whose operation does not exist. -/
def IsUndefinedMiscellaneous (revision : Revision) (h : Nat) : Prop :=
  h >>> 12 = 0b1011 ∧
    ¬((h >>> 8) % 16 = 0b0000 ∨ (h >>> 8) % 16 = 0b0100 ∨ (h >>> 8) % 16 = 0b0101 ∨
      (h >>> 8) % 16 = 0b1100 ∨ (h >>> 8) % 16 = 0b1101 ∨
      (revision = .v5te ∧ (h >>> 8) % 16 = 0b1110))

/-- The halfwords that hold no instruction of their own. -/
def IsUndefined (revision : Revision) (h : Nat) : Prop :=
  IsCallHalf h ∨ h >>> 8 = 0b11011110 ∨ IsUndefinedMiscellaneous revision h ∨
    (revision = .v4t ∧ h >>> 7 = 0b010001111)

instance (revision : Revision) (low high : Nat) : Decidable (IsCall revision low high) :=
  inferInstanceAs (Decidable (_ ∧ _))

instance (h : Nat) : Decidable (IsCallHalf h) := inferInstanceAs (Decidable (_ ∨ _))

instance (revision : Revision) (h : Nat) : Decidable (IsUndefinedMiscellaneous revision h) :=
  inferInstanceAs (Decidable (_ ∧ _))

instance (revision : Revision) (h : Nat) : Decidable (IsUndefined revision h) :=
  inferInstanceAs (Decidable (_ ∨ _))

/-! ### Readers of one halfword -/

/-- Of the high registers, only the call through a register is missing from ARMv4T. -/
theorem highRegister_eq_none_iff (h : Word) :
    highRegister h revision = none ↔ h.field 8 2 = 3 ∧ h.bit 7 = true ∧ revision = .v4t := by
  have hrange : h.field 8 2 < 4 := h.field_lt (by decide)
  obtain hop | hop | hop | hop : h.field 8 2 = 0 ∨ h.field 8 2 = 1 ∨ h.field 8 2 = 2 ∨
      h.field 8 2 = 3 := by omega
  case inr.inr.inr =>
    cases hbit : h.bit 7 <;> cases revision <;> simp [highRegister, hop, hbit]
  all_goals simp [highRegister, hop]

theorem registerClass_eq_none_iff (h : Word) :
    registerClass h revision = none ↔ h.field 10 3 = 1 ∧ highRegister h revision = none := by
  unfold registerClass
  split
  case h_2 hclass => simp [hclass]
  case h_5 hone _ _ => exact iff_of_false (by simp) fun h => hone h.1
  all_goals simp [*]

theorem miscellaneous_eq_none_iff (h : Word) :
    miscellaneous h revision = none ↔
      ¬(h.field 8 4 = 0 ∨ h.field 8 4 = 4 ∨ h.field 8 4 = 5 ∨ h.field 8 4 = 12 ∨
        h.field 8 4 = 13 ∨ (revision = .v5te ∧ h.field 8 4 = 14)) := by
  unfold miscellaneous
  dsimp only
  split
  case h_6 hop => cases revision <;> simp [hop]
  case h_7 hzero hfour hfive htwelve hthirteen hfourteen =>
    refine iff_of_true rfl ?_
    rintro (hop | hop | hop | hop | hop | ⟨-, hop⟩)
    · exact hzero hop
    · exact hfour hop
    · exact hfive hop
    · exact htwelve hop
    · exact hthirteen hop
    · exact hfourteen hop
  all_goals simp [*]

theorem conditionalBranch_eq_none_iff (h : Word) :
    conditionalBranch h = none ↔ h.field 8 4 = 14 := by
  unfold conditionalBranch
  split
  case h_3 hop _ => exact iff_of_false (by simp) hop
  all_goals simp [*]

/-- The four classes in which a halfword may be refused. -/
theorem decodeHalfword_eq_none_iff_fields (h : Word) :
    decodeHalfword h revision = none ↔
      (h.field 13 3 = 2 ∧ registerClass h revision = none) ∨
        (h.field 13 3 = 5 ∧ h.bit 12 = true ∧ miscellaneous h revision = none) ∨
        (h.field 13 3 = 6 ∧ h.bit 12 = true ∧ conditionalBranch h = none) ∨
        (h.field 13 3 = 7 ∧ h.field 11 2 ≠ 0) := by
  have hrange : h.field 13 3 < 8 := h.field_lt (by decide)
  obtain hclass | hclass | hclass | hclass | hclass :
      h.field 13 3 = 2 ∨ h.field 13 3 = 5 ∨ h.field 13 3 = 6 ∨ h.field 13 3 = 7 ∨
        (h.field 13 3 = 0 ∨ h.field 13 3 = 1 ∨ h.field 13 3 = 3 ∨ h.field 13 3 = 4) := by omega
  · simp [decodeHalfword, hclass]
  · cases hbit : h.bit 12 <;> simp [decodeHalfword, hclass, hbit]
  · cases hbit : h.bit 12 <;> simp [decodeHalfword, hclass, hbit]
  · simp [decodeHalfword, hclass]
  · rcases hclass with hclass | hclass | hclass | hclass <;> simp [decodeHalfword, hclass]

/-! ### Classes in numbers -/

variable {h : Word}

theorem registerClass_refuses_iff (hlt : h.toNat < 2 ^ 16) :
    (h.field 13 3 = 2 ∧ registerClass h revision = none) ↔
      revision = .v4t ∧ h.toNat >>> 7 = 0b010001111 := by
  have hfields : h.field 13 3 = 2 ∧ h.field 10 3 = 1 ∧ h.field 8 2 = 3 ∧ h.bit 7 = true ↔
      h.toNat >>> 7 = 0b010001111 := by
    rw [Word.bit_eq_true_iff, Word.field_eq h (by decide), Word.field_eq h (by decide),
      Word.field_eq h (by decide)]
    omega
  rw [registerClass_eq_none_iff, highRegister_eq_none_iff, ← hfields]
  simp only [and_assoc, and_comm]

theorem miscellaneous_refuses_iff (hlt : h.toNat < 2 ^ 16) :
    (h.field 13 3 = 5 ∧ h.bit 12 = true ∧ miscellaneous h revision = none) ↔
      IsUndefinedMiscellaneous revision h.toNat := by
  have hfields : h.field 13 3 = 5 ∧ h.bit 12 = true ↔ h.toNat >>> 12 = 0b1011 := by
    rw [Word.bit_eq_true_iff, Word.field_eq h (by decide)]
    omega
  have hop : h.field 8 4 = (h.toNat >>> 8) % 16 := by
    rw [Word.field_eq h (by decide)]
    omega
  rw [← and_assoc, hfields, miscellaneous_eq_none_iff, hop, IsUndefinedMiscellaneous]

theorem conditionalBranch_refuses_iff (hlt : h.toNat < 2 ^ 16) :
    (h.field 13 3 = 6 ∧ h.bit 12 = true ∧ conditionalBranch h = none) ↔
      h.toNat >>> 8 = 0b11011110 := by
  rw [conditionalBranch_eq_none_iff, Word.bit_eq_true_iff, Word.field_eq h (by decide),
    Word.field_eq h (by decide)]
  omega

theorem isCallHalf_iff (hlt : h.toNat < 2 ^ 16) :
    (h.field 13 3 = 7 ∧ h.field 11 2 ≠ 0) ↔ IsCallHalf h.toNat := by
  rw [Word.field_eq h (by decide), Word.field_eq h (by decide), IsCallHalf]
  omega

/-- **The halfwords that are refused**, as numbers. -/
theorem decodeHalfword_eq_none_iff (hlt : h.toNat < 2 ^ 16) :
    decodeHalfword h revision = none ↔ IsUndefined revision h.toNat := by
  rw [decodeHalfword_eq_none_iff_fields, registerClass_refuses_iff hlt,
    miscellaneous_refuses_iff hlt, conditionalBranch_refuses_iff hlt, isCallHalf_iff hlt,
    IsUndefined]
  simp only [or_assoc, or_comm, or_left_comm]

/-! ### Prefetched words -/

theorem lowHalf_lt (p : Word) : lowHalf p < 2 ^ 16 := Nat.mod_lt _ (Nat.two_pow_pos 16)

theorem highHalf_lt (p : Word) : highHalf p < 2 ^ 16 := by
  have hlt := p.isLt
  unfold highHalf
  omega

theorem startsCall_iff : StartsCall (p.unsignedField 0 16) ↔ lowHalf p >>> 11 = 0b11110 := by
  have hlt := lowHalf_lt p
  rw [StartsCall, Word.field_eq _ (by decide), toNat_low]
  omega

theorem endsCall_iff :
    EndsCall revision (p.unsignedField 16 16) ↔
      highHalf p >>> 11 = 0b11111 ∨ (revision = .v5te ∧ highHalf p >>> 11 = 0b11101) := by
  have hlt := highHalf_lt p
  have hfield : (p.unsignedField 16 16).field 11 5 = highHalf p >>> 11 := by
    rw [Word.field_eq _ (by decide), toNat_high]
    omega
  rw [EndsCall, hfield]
  cases revision <;> simp

theorem isCall_iff :
    IsCall revision (lowHalf p) (highHalf p) ↔
      StartsCall (p.unsignedField 0 16) ∧ EndsCall revision (p.unsignedField 16 16) := by
  rw [startsCall_iff, endsCall_iff, IsCall]

/-- The low halfword is refused exactly if its number is. -/
theorem decodeHalfword_low_eq_none_iff :
    decodeHalfword (p.unsignedField 0 16) revision = none ↔ IsUndefined revision (lowHalf p) := by
  have hlt : (p.unsignedField 0 16).toNat < 2 ^ 16 := toNat_low p ▸ lowHalf_lt p
  rw [decodeHalfword_eq_none_iff hlt, toNat_low]

/-- **A wide answer** is undefined if the second half is one for ARM code and lies at an odd
halfword there. -/
theorem decode_eq_none_iff_of_wide (h : (decode p revision).1 = .wide) :
    (decode p revision).2 = none ↔ highHalf p >>> 11 = 0b11101 ∧ highHalf p % 2 = 1 := by
  obtain ⟨hstart, hend⟩ := decode_eq_wide_iff.mp h
  have hodd : (p.unsignedField 16 16).bit 0 = true ↔ highHalf p % 2 = 1 := by
    rw [Word.bit_eq_true_iff, toNat_high, Nat.pow_zero, Nat.div_one]
  have htop : (p.unsignedField 16 16).field 11 5 = highHalf p >>> 11 := by
    have hlt := highHalf_lt p
    rw [Word.field_eq _ (by decide), toNat_high]
    omega
  unfold StartsCall at hstart
  unfold decode
  dsimp only
  rw [if_pos hstart, ← htop, ← hodd]
  rcases hend with hbl | ⟨hblx, hv5te⟩
  · rw [hbl]
    simp
  · rw [hblx, hv5te]
    cases (p.unsignedField 16 16).bit 0 <;> simp

/-! ### All prefetched words -/

/-- **The classes of prefetched words**: what is wide, what of that is undefined, and which of the
narrow ones are. What a narrow instruction is does not depend on the halfword behind it. -/
theorem decode_classes (p : Word) (revision : Revision) :
    ((decode p revision).1 = .wide ↔ IsCall revision (lowHalf p) (highHalf p)) ∧
      (∀ q, lowHalf q = lowHalf p → (decode p revision).1 = .narrow →
        (decode q revision).1 = .narrow → decode q revision = decode p revision) ∧
      ((decode p revision).1 = .wide →
        ((decode p revision).2 = none ↔ highHalf p >>> 11 = 0b11101 ∧ highHalf p % 2 = 1)) ∧
      ((decode p revision).1 = .narrow →
        ((decode p revision).2 = none ↔ IsUndefined revision (lowHalf p))) := by
  refine ⟨decode_eq_wide_iff.trans isCall_iff.symm, ?_, decode_eq_none_iff_of_wide, ?_⟩
  · intro q hlow hp hq
    have hhalf : q.unsignedField 0 16 = p.unsignedField 0 16 := by
      apply BitVec.eq_of_toNat_eq
      rw [toNat_low, toNat_low, hlow]
    exact decode_congr_of_narrow hp hq hhalf
  · intro hp
    rw [decode_of_narrow hp]
    exact decodeHalfword_low_eq_none_iff

/-- The call `E801F000` into ARM code ends at an odd halfword: for ARMv5TE it is a wide instruction
without a meaning. ARMv4T sees two narrow ones, the first of which is the same without the second
half. -/
theorem decode_classes_odd_call :
    ((decode 0xe801f000#32 .v5te).1 = .wide ∧ (decode 0xe801f000#32 .v5te).2 = none) ∧
      (decode 0xe801f000#32 .v4t).1 = .narrow ∧
      decode 0xf000#32 .v4t = decode 0xe801f000#32 .v4t ∧
      (decode 0xe801f000#32 .v4t).2 = none := by
  obtain ⟨hwide, -, hodd, -⟩ := decode_classes 0xe801f000#32 .v5te
  obtain ⟨-, hsame, -, hundefined⟩ := decode_classes 0xe801f000#32 .v4t
  refine ⟨⟨hwide.mpr (by decide), (hodd (by decide)).mpr (by decide)⟩, by decide, ?_, ?_⟩
  · exact hsame 0xf000#32 (by decide) (by decide) (by decide)
  · exact (hundefined (by decide)).mpr (by decide)

end ArmListing.Thumb
