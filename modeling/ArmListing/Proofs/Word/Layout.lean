import Mathlib.Algebra.GroupWithZero.Nat
import ArmListing.Proofs.Word.Field

/-!
# ArmListing.Proofs.Word.Layout

**Words laid out in parts**, as manuals draw them: each part has a length, and
the parts fill the word from bit 0 upward.

`Word.ofParts` puts a word together and `Word.parts` takes it apart. The two undo
each other (`ofParts_parts`, `parts_ofParts`), so what an encoder writes into a
part is what a decoder reads from the field at its place.
-/

namespace ArmListing.Word

/-- The number whose parts have the given lengths, the lowest one first. A part that is too great
for its length is cut. -/
def numberOfParts : List (Nat × Nat) → Nat
  | [] => 0
  | (len, part) :: rest => part % 2 ^ len + 2 ^ len * numberOfParts rest

/-- The word with the given lengths and parts, the lowest one first. -/
def ofParts (parts : List (Nat × Nat)) : Word := .ofNat 32 (numberOfParts parts)

/-- The fields that follow each other from bit `pos` upward, with their lengths. -/
def parts (w : Word) (pos : Nat) : List Nat → List (Nat × Nat)
  | [] => []
  | len :: rest => (len, w.field pos len) :: w.parts (pos + len) rest

variable {w : Word}

/-! ### From words to parts and back -/

theorem numberOfParts_parts {pos : Nat} {lens : List Nat} (h : pos + lens.sum ≤ 32) :
    numberOfParts (w.parts pos lens) = w.field pos lens.sum := by
  induction lens generalizing pos with
  | nil =>
    rw [List.sum_nil] at h ⊢
    rw [parts, numberOfParts, field_eq _ h, Nat.pow_zero, Nat.mod_one]
  | cons len rest ih =>
    rw [List.sum_cons] at h ⊢
    have hlen : pos + len ≤ 32 := by omega
    rw [parts, numberOfParts, ih (by omega), Nat.mod_eq_of_lt (w.field_lt hlen),
      field_add w pos len rest.sum (by omega)]

/-- A word is put together from its own parts. -/
theorem ofParts_parts (w : Word) {lens : List Nat} (h : lens.sum = 32) :
    ofParts (w.parts 0 lens) = w := by
  have hwhole : w.field 0 32 = w.toNat := by
    rw [field_eq _ (by decide), Nat.pow_zero, Nat.div_one, Nat.mod_eq_of_lt w.isLt]
  rw [ofParts, numberOfParts_parts (by omega), h, hwhole, BitVec.ofNat_toNat, BitVec.setWidth_eq]

/-! ### From parts to words and back -/

theorem numberOfParts_lt (ps : List (Nat × Nat)) :
    numberOfParts ps < 2 ^ (ps.map Prod.fst).sum := by
  induction ps with
  | nil => decide
  | cons p rest ih =>
    obtain ⟨len, part⟩ := p
    have hpart : part % 2 ^ len < 2 ^ len := Nat.mod_lt _ (Nat.two_pow_pos _)
    have hrest := Nat.mul_le_mul_left (2 ^ len) ih
    rw [Nat.mul_succ] at hrest
    simp only [numberOfParts, List.map_cons, List.sum_cons, Nat.pow_add]
    omega

/-- The parts of a word whose bits from `pos` upward have been put together from parts. -/
theorem parts_eq_of_field {pos : Nat} {ps : List (Nat × Nat)}
    (h : pos + (ps.map Prod.fst).sum ≤ 32)
    (hfield : w.field pos (ps.map Prod.fst).sum = numberOfParts ps) :
    w.parts pos (ps.map Prod.fst) = ps.map fun p => (p.1, p.2 % 2 ^ p.1) := by
  induction ps generalizing pos with
  | nil => rfl
  | cons p rest ih =>
    obtain ⟨len, part⟩ := p
    rw [List.map_cons, List.sum_cons] at h hfield
    simp only at h hfield
    rw [field_add w pos len _ (by omega), numberOfParts] at hfield
    -- both sides are numbers of two digits in base `2 ^ len`
    have hlow : w.field pos len < 2 ^ len := w.field_lt (by omega)
    have hpart : part % 2 ^ len < 2 ^ len := Nat.mod_lt _ (Nat.two_pow_pos _)
    have hfirst : w.field pos len = part % 2 ^ len := by
      have hmod := congrArg (· % 2 ^ len) hfield
      simpa [Nat.mod_eq_of_lt hlow] using hmod
    have hrest : w.field (pos + len) (rest.map Prod.fst).sum = numberOfParts rest := by
      rw [hfirst] at hfield
      exact Nat.eq_of_mul_eq_mul_left (Nat.two_pow_pos len) (Nat.add_left_cancel hfield)
    rw [List.map_cons, List.map_cons, parts, hfirst, ih (by omega) hrest]

/-- A word has the parts that it was put together from. -/
theorem parts_ofParts (ps : List (Nat × Nat)) (h : (ps.map Prod.fst).sum = 32) :
    (ofParts ps).parts 0 (ps.map Prod.fst) = ps.map fun p => (p.1, p.2 % 2 ^ p.1) := by
  refine parts_eq_of_field (by omega) ?_
  have hlt := numberOfParts_lt ps
  rw [h] at hlt ⊢
  rw [field_eq _ (by decide), ofParts, BitVec.toNat_ofNat, Nat.pow_zero, Nat.div_one,
    Nat.mod_mod, Nat.mod_eq_of_lt hlt]

end ArmListing.Word
