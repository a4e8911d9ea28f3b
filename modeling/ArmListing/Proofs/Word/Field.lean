import Mathlib.Algebra.Group.Int.Defs
import Mathlib.Algebra.Group.Nat.Defs
import ArmListing.Word

/-!
# ArmListing.Proofs.Word.Field

**Fields as quotient and remainder** (`toNat_unsignedField`), and how they fit
together: a field is made of any two that lie side by side in it (`field_add`).

Signed fields are the same numbers, except that those with the highest bit set
lie below zero (`signedField_eq`), so they hold each number that fits
(`signedField_of_field`). Bits are fields of length one (`field_one`).
What is cut out of a word as a shorter word is a field too (`extractLsb_eq_iff`).
-/

namespace ArmListing.Word

/-- Inside the word, the unsigned field is quotient and remainder. -/
theorem toNat_unsignedField (w : Word) {pos len : Nat} (h : pos + len ≤ 32) :
    (w.unsignedField pos len).toNat = w.toNat / 2 ^ pos % 2 ^ len := by
  -- the shift to the left drops what lies above the field, the one to the right what lies below
  have hsplit : 32 = pos + len + leftShift pos len := by unfold leftShift; omega
  have hright : rightShift len = leftShift pos len + pos := by
    unfold rightShift leftShift; omega
  simp only [unsignedField, BitVec.toNat_ushiftRight, BitVec.toNat_shiftLeft,
    Nat.shiftLeft_eq, Nat.shiftRight_eq_div_pow]
  rw [hright, Nat.pow_add, ← Nat.div_div_eq_div_mul]
  have hpow : 2 ^ 32 = 2 ^ (pos + len) * 2 ^ leftShift pos len := by
    rw [← Nat.pow_add, ← hsplit]
  rw [hpow, Nat.mul_mod_mul_right, Nat.mul_div_cancel _ (Nat.two_pow_pos _), Nat.pow_add,
    Nat.mod_mul_right_div_self]

theorem field_eq (w : Word) {pos len : Nat} (h : pos + len ≤ 32) :
    w.field pos len = w.toNat / 2 ^ pos % 2 ^ len :=
  w.toNat_unsignedField h

/-- Fields of words that are laid over each other. -/
theorem field_or (v w : Word) (pos len : Nat) :
    (v ||| w).field pos len = v.field pos len ||| w.field pos len := by
  rw [field, field, field, unsignedField, unsignedField, unsignedField, BitVec.shiftLeft_or_distrib,
    BitVec.ushiftRight_or_distrib, BitVec.toNat_or]

theorem field_lt (w : Word) {pos len : Nat} (h : pos + len ≤ 32) :
    w.field pos len < 2 ^ len := by
  rw [field_eq w h]
  exact Nat.mod_lt _ (Nat.two_pow_pos _)

/-- A field is its low part and, above it, its high part. -/
theorem field_add (w : Word) (pos low high : Nat) (h : pos + low + high ≤ 32) :
    w.field pos (low + high) = w.field pos low + 2 ^ low * w.field (pos + low) high := by
  rw [field_eq w (by omega), field_eq w (by omega), field_eq w (by omega), Nat.pow_add,
    Nat.mod_mul, Nat.pow_add, Nat.div_div_eq_div_mul]

/-- A field of a part is a field of the word. -/
theorem field_unsignedField (w : Word) {pos len start size : Nat} (h : pos + len ≤ 32)
    (hinner : start + size ≤ len) :
    (w.unsignedField pos len).field start size = w.field (pos + start) size := by
  have hdvd : 2 ^ (start + size) ∣ 2 ^ len := Nat.pow_dvd_pow 2 hinner
  rw [field_eq _ (by omega), field_eq _ (by omega), toNat_unsignedField w h, Nat.pow_add 2 pos,
    ← Nat.div_div_eq_div_mul, ← Nat.mod_mul_right_div_self, ← Nat.pow_add,
    Nat.mod_mod_of_dvd _ hdvd, Nat.pow_add, Nat.mod_mul_right_div_self]

/-! ### Signed fields -/

/-- A signed field counts from its number down by a full turn if the highest bit is set. -/
theorem signedField_eq (w : Word) {pos len : Nat} (hlen : 0 < len) (h : pos + len ≤ 32) :
    w.signedField pos len =
      if 2 * w.field pos len < 2 ^ len then (w.field pos len : Int)
      else w.field pos len - 2 ^ len := by
  obtain ⟨len, rfl⟩ : ∃ half, len = half + 1 := ⟨len - 1, by omega⟩
  -- both kinds of fields are cut out of the same word, in which the field ends at the top
  have hsplit : 2 ^ 32 = 2 ^ rightShift (len + 1) * 2 ^ (len + 1) := by
    rw [← Nat.pow_add]
    unfold rightShift
    congr 1
    omega
  have hfield : w.field pos (len + 1) =
      (w <<< leftShift pos (len + 1)).toNat / 2 ^ rightShift (len + 1) := by
    rw [field, unsignedField, BitVec.toNat_ushiftRight, Nat.shiftRight_eq_div_pow]
  rw [signedField, BitVec.toInt_sshiftRight, Int.shiftRight_eq_div_pow, hfield,
    BitVec.toInt_eq_toNat_cond]
  generalize (w <<< leftShift pos (len + 1)).toNat = moved at *
  generalize rightShift (len + 1) = distance at *
  have hpos : 0 < 2 ^ distance := Nat.two_pow_pos _
  have hsign : 2 * moved < 2 ^ 32 ↔ 2 * (moved / 2 ^ distance) < 2 ^ (len + 1) := by
    have hlow := Nat.div_lt_iff_lt_mul (x := moved) (y := 2 ^ len) hpos
    rw [hsplit, Nat.pow_succ, ← Nat.mul_assoc, Nat.mul_comm _ 2, Nat.mul_comm _ 2,
      Nat.mul_lt_mul_left (by decide), Nat.mul_lt_mul_left (by decide), Nat.mul_comm, hlow]
  by_cases hlow : 2 * moved < 2 ^ 32
  · rw [if_pos hlow, if_pos (hsign.mp hlow)]
    norm_cast
  · rw [if_neg hlow, if_neg (mt hsign.mpr hlow), hsplit]
    have hne : (2 ^ distance : Int) ≠ 0 := by exact_mod_cast Nat.ne_of_gt hpos
    push_cast
    exact Int.sub_mul_ediv_left _ _ hne

/-- The range of a signed field. -/
theorem signedField_bounds (w : Word) {pos len : Nat} (hlen : 0 < len) (h : pos + len ≤ 32) :
    -2 ^ len ≤ 2 * w.signedField pos len ∧ 2 * w.signedField pos len < 2 ^ len := by
  have hlt := w.field_lt h
  have hcast : ((2 ^ len : Nat) : Int) = 2 ^ len := by norm_cast
  rw [signedField_eq w hlen h]
  split <;> omega

/-- A signed field holds the number that has been cut to its length, if the number fits. -/
theorem signedField_of_field {w : Word} {pos len : Nat} {x : Int} (hlen : 0 < len)
    (h : pos + len ≤ 32) (hlow : -2 ^ len ≤ 2 * x) (hhigh : 2 * x < 2 ^ len)
    (hfield : w.field pos len = (x % 2 ^ len).toNat) : w.signedField pos len = x := by
  have hcast : ((2 ^ len : Nat) : Int) = 2 ^ len := by norm_cast
  rw [signedField_eq w hlen h, hfield]
  by_cases hneg : 0 ≤ x
  · rw [Int.emod_eq_of_lt hneg (by omega), if_pos (by omega)]
    omega
  · have hturn : x % 2 ^ len = x + 2 ^ len := by
      rw [← Int.add_emod_right, Int.emod_eq_of_lt (by omega) (by omega)]
    rw [hturn, if_neg (by omega)]
    omega

/-- The bits of a signed field are those of the unsigned one. -/
theorem toNat_signedField_emod (w : Word) {pos len : Nat} (hlen : 0 < len) (h : pos + len ≤ 32) :
    (w.signedField pos len % 2 ^ len).toNat = w.field pos len := by
  have hlt := w.field_lt h
  have hcast : ((2 ^ len : Nat) : Int) = 2 ^ len := by norm_cast
  have hmod : w.signedField pos len % 2 ^ len = w.field pos len := by
    rw [signedField_eq w hlen h]
    split
    · exact Int.emod_eq_of_lt (by omega) (by omega)
    · rw [Int.sub_emod_right, Int.emod_eq_of_lt (by omega) (by omega)]
  rw [hmod, Int.toNat_natCast]

/-! ### Bits -/

/-- The test of a bit is the bit. -/
theorem bit_eq_getLsbD (w : Word) (pos : Nat) : w.bit pos = w.getLsbD pos := by
  have hlow : ((w >>> pos) &&& 1#32).toNat = w.toNat / 2 ^ pos % 2 := by
    simp [Nat.shiftRight_eq_div_pow, Nat.and_one_is_mod]
  rw [BitVec.getLsbD, Nat.testBit_eq_decide_div_mod_eq, bit, Bool.eq_iff_iff, bne_iff_ne, ne_eq,
    ← BitVec.toNat_inj, hlow, decide_eq_true_eq]
  show ¬_ = 0 ↔ _
  omega

theorem bit_or (v w : Word) (pos : Nat) : (v ||| w).bit pos = (v.bit pos || w.bit pos) := by
  rw [bit_eq_getLsbD, bit_eq_getLsbD, bit_eq_getLsbD, BitVec.getLsbD_or]

theorem bit_eq_getElem (w : Word) {pos : Nat} (h : pos < 32) : w.bit pos = w[pos] := by
  rw [bit_eq_getLsbD, BitVec.getLsbD_eq_getElem h]

theorem bit_eq (w : Word) (pos : Nat) : w.bit pos = decide (w.toNat / 2 ^ pos % 2 = 1) := by
  rw [bit_eq_getLsbD, BitVec.getLsbD, Nat.testBit_eq_decide_div_mod_eq]

theorem bit_eq_true_iff (w : Word) (pos : Nat) :
    w.bit pos = true ↔ w.toNat / 2 ^ pos % 2 = 1 := by
  rw [bit_eq, decide_eq_true_eq]

/-- A field of one bit. -/
theorem field_one (w : Word) (pos : Nat) (h : pos < 32) : w.field pos 1 = (w.bit pos).toNat := by
  rw [field_eq w h, bit_eq]
  obtain hbit | hbit : w.toNat / 2 ^ pos % 2 = 0 ∨ w.toNat / 2 ^ pos % 2 = 1 := by omega
  all_goals simp [hbit]

/-- A field of two bits. -/
theorem field_two (w : Word) (pos : Nat) (h : pos + 1 < 32) :
    w.field pos 2 = (w.bit pos).toNat + 2 * (w.bit (pos + 1)).toNat := by
  rw [field_add w pos 1 1 h, field_one w pos (by omega), field_one w (pos + 1) h, Nat.pow_one]

/-- A field is its lowest bit and the field above it. -/
theorem field_succ (w : Word) (pos len : Nat) (h : pos + (len + 1) ≤ 32) :
    w.field pos (len + 1) = (w.bit pos).toNat + 2 * w.field (pos + 1) len := by
  rw [Nat.add_comm len 1, field_add w pos 1 len (by omega), field_one w pos (by omega),
    Nat.pow_one]

/-! ### Parts of a word -/

/-- A field is the number that a part of the word stands for. -/
theorem extractLsb_eq_iff (w : Word) {high low : Nat} (h : high < 32) (hle : low ≤ high)
    (part : BitVec (high - low + 1)) :
    w.extractLsb high low = part ↔ w.field low (high - low + 1) = part.toNat := by
  rw [← BitVec.toNat_inj, BitVec.extractLsb_toNat, Nat.shiftRight_eq_div_pow,
    field_eq w (by omega)]

end ArmListing.Word
