import Mathlib.Data.Int.ModEq
import ArmListing.Proofs.Word.Field

/-!
# ArmListing.Proofs.Word.Extraction

**What two shifts cut out of a word**, in numbers.

The distances of the shifts are less than the length of the word, and the
subtractions in them never fall short, for the fields that have a bit and lie
inside the word, and for no others (`shifts_iff`). For these fields the shift
that fills with zeroes gives quotient and remainder, and the one that fills with
copies of the top bit gives the number that is congruent to them and lies around
zero (`eq_signedField_iff`). The bit that it copies is the sign, because it alone
counts downward (`signedField_succ`).
-/

namespace ArmListing.Word

variable {w : Word} {pos len : Nat}

/-- **Which fields can be cut out**: the distances are what their formulas say, without a
subtraction below zero, and move a word by less than its length. -/
theorem shifts_iff :
    (((leftShift pos len : Int) = 32 - pos - len ∧ leftShift pos len ≤ 31) ∧
      (rightShift len : Int) = 32 - len ∧ rightShift len ≤ 31) ↔
    1 ≤ len ∧ pos + len ≤ 32 := by
  unfold leftShift rightShift
  omega

/-! ### The sign -/

/-- **Two's complement**: the highest bit of a signed field counts downward, all others upward. -/
theorem signedField_succ (h : pos + (len + 1) ≤ 32) :
    w.signedField pos (len + 1) = w.field pos len - 2 ^ len * ((w.bit (pos + len)).toNat : Int) := by
  have hsplit : w.field pos (len + 1) = w.field pos len + 2 ^ len * (w.bit (pos + len)).toNat := by
    rw [field_add w pos len 1 h, field_one w (pos + len) h]
  have hlow : w.field pos len < 2 ^ len := w.field_lt (by omega)
  have hcast : ((2 ^ len : Nat) : Int) = 2 ^ len := by norm_cast
  rw [signedField_eq w (Nat.succ_pos len) h, hsplit, Nat.pow_succ, pow_succ]
  cases w.bit (pos + len) with
  | false =>
    rw [Bool.toNat_false, if_pos (by omega)]
    omega
  | true =>
    rw [Bool.toNat_true, if_neg (by omega)]
    omega

/-- The highest bit of a field is the sign. -/
theorem signedField_neg_iff (hlen : 1 ≤ len) (h : pos + len ≤ 32) :
    w.signedField pos len < 0 ↔ w.bit (pos + len - 1) = true := by
  obtain ⟨len, rfl⟩ : ∃ rest, len = rest + 1 := ⟨len - 1, by omega⟩
  have hlow : (w.field pos len : Int) < 2 ^ len := by exact_mod_cast w.field_lt (by omega)
  rw [signedField_succ h, Nat.add_succ_sub_one]
  cases w.bit (pos + len) with
  | false =>
    refine iff_of_false ?_ Bool.false_ne_true
    rw [Bool.toNat_false]
    omega
  | true =>
    refine iff_of_true ?_ rfl
    rw [Bool.toNat_true]
    omega

/-! ### The only number in its range -/

theorem signedField_modEq (hlen : 1 ≤ len) (h : pos + len ≤ 32) :
    w.signedField pos len ≡ w.field pos len [ZMOD 2 ^ len] := by
  rw [signedField_eq w hlen h]
  split
  · rfl
  · exact Int.sub_emod_right ..

/-- **A signed field is the one number around zero** that is congruent to the unsigned field. -/
theorem eq_signedField_iff (hlen : 1 ≤ len) (h : pos + len ≤ 32) {x : Int} :
    x = w.signedField pos len ↔
      -2 ^ (len - 1) ≤ x ∧ x < 2 ^ (len - 1) ∧ x ≡ w.field pos len [ZMOD 2 ^ len] := by
  have hhalf : (2 : Int) ^ len = 2 * 2 ^ (len - 1) := (mul_pow_sub_one (by omega) 2).symm
  constructor
  · rintro rfl
    obtain ⟨hlow, hhigh⟩ := w.signedField_bounds hlen h
    exact ⟨by omega, by omega, signedField_modEq hlen h⟩
  · rintro ⟨hlow, hhigh, hmod⟩
    -- an unsigned field is its own remainder, so it is the one of `x`
    have hlt : (w.field pos len : Int) < 2 ^ len := by exact_mod_cast w.field_lt h
    have hrest : x % 2 ^ len = w.field pos len :=
      Eq.trans hmod (Int.emod_eq_of_lt (Int.natCast_nonneg _) hlt)
    refine (signedField_of_field hlen h (by omega) (by omega) ?_).symm
    rw [hrest, Int.toNat_natCast]

/-! ### Laws -/

/-- **The laws of fields.** For every field that has a bit and lies inside the word, both shifts
move by less than the length of the word. The unsigned field is a quotient and remainder, the
signed field is the only number around zero that is congruent to it, the highest bit of the field
says whether that number is negative, and an unsigned field is put together from any two that lie
side by side in it. -/
theorem field_laws (w : Word) {pos len : Nat} (hlen : 1 ≤ len) (h : pos + len ≤ 32) :
    (w.unsignedField pos len).toNat = w.toNat / 2 ^ pos % 2 ^ len ∧
    (∀ x : Int, x = w.signedField pos len ↔
      -2 ^ (len - 1) ≤ x ∧ x < 2 ^ (len - 1) ∧
        x ≡ (w.unsignedField pos len).toNat [ZMOD 2 ^ len]) ∧
    (((leftShift pos len : Int) = 32 - pos - len ∧ leftShift pos len ≤ 31) ∧
      (rightShift len : Int) = 32 - len ∧ rightShift len ≤ 31) ∧
    (w.bit (pos + len - 1) = true ↔ w.signedField pos len < 0) ∧
    ∀ low high, 1 ≤ low → 1 ≤ high → low + high = len →
      (w.unsignedField pos len).toNat =
        (w.unsignedField pos low).toNat + 2 ^ low * (w.unsignedField (pos + low) high).toNat := by
  refine ⟨w.toNat_unsignedField h, fun x => eq_signedField_iff hlen h, shifts_iff.mpr ⟨hlen, h⟩,
    (signedField_neg_iff hlen h).symm, fun low high _ _ hsplit => ?_⟩
  subst hsplit
  exact w.field_add pos low high (by omega)

/-- A field that ends at the top of the word, and one that is the whole word. -/
theorem field_laws_top :
    let w : Word := 0x80FFFE12#32
    ((1 ≤ 24 ∧ 8 + 24 ≤ 32) ∧ (1 ≤ 12 ∧ 12 + 12 = 24) ∧ 1 ≤ 32 ∧ 0 + 32 ≤ 32) ∧
    (w.unsignedField 8 24).toNat = 0x80FFFE ∧
    w.signedField 8 24 = 0x80FFFE - 2 ^ 24 ∧
    ((leftShift 8 24 : Int) = 32 - 8 - 24 ∧ rightShift 24 ≤ 31) ∧
    w.signedField 8 24 < 0 ∧
    (w.unsignedField 8 24).toNat =
      (w.unsignedField 8 12).toNat + 2 ^ 12 * (w.unsignedField 20 12).toNat ∧
    w.signedField 0 32 = 0x80FFFE12 - 2 ^ 32 := by
  intro w
  obtain ⟨hvalue, hunique, ⟨⟨hleft, -⟩, -, hright⟩, hsign, hsplit⟩ :=
    field_laws w (show 1 ≤ 24 by decide) (show 8 + 24 ≤ 32 by decide)
  obtain ⟨-, hwhole, -⟩ := field_laws w (show 1 ≤ 32 by decide) (show 0 + 32 ≤ 32 by decide)
  refine ⟨by decide, hvalue.trans (by decide), ?_, ⟨hleft, hright⟩, hsign.mp (by decide),
    hsplit 12 12 (by decide) (by decide) rfl, ?_⟩
  · exact ((hunique _).mpr ⟨by decide, by decide, by decide⟩).symm
  · exact ((hwhole _).mpr ⟨by decide, by decide, by decide⟩).symm

end ArmListing.Word
