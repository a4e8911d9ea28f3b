import ArmListing.Arm.Decode
import ArmListing.Proofs.Arm.Undefined
import ArmListing.Proofs.Word.Layout

/-!
# ArmListing.Proofs.Arm.Branch

**Encoding branches** of ARM state, and what is read off the words.

The distance of a branch is counted from two instructions ahead, so that eight is
taken from it before it is cut to 24 bits. Reading undoes that for each distance
that the bits reach (`decode_branchWord`, `decode_branchToThumbWord`). On the way
no number leaves the range of a 32-bit machine (`isInt32_of_mem_branchSteps`).
-/

namespace ArmListing

/-- Whether a number is one of 32 bits in two's complement. -/
def IsInt32 (n : Int) : Prop := -2 ^ 31 ≤ n ∧ n < 2 ^ 31

/-- The code of a condition. -/
def Condition.code : Condition → Nat
  | equal => 0
  | notEqual => 1
  | carrySet => 2
  | carryClear => 3
  | minus => 4
  | plus => 5
  | overflow => 6
  | noOverflow => 7
  | higher => 8
  | lowerOrSame => 9
  | greaterOrEqual => 10
  | less => 11
  | greater => 12
  | lessOrEqual => 13
  | always => 14

theorem Condition.code_lt (c : Condition) : c.code < 15 := by cases c <;> decide

@[simp] theorem Condition.ofCode_code (c : Condition) : ofCode c.code = c := by cases c <;> rfl

namespace Arm

/-! ### Encoding -/

/-- A word of the class of branches: 24 bits for the distance, one bit more, and the code in place
of the condition. -/
def branchClassWord (code bit field : Nat) : Word :=
  .ofParts [(24, field), (1, bit), (3, 5), (4, code)]

/-- The word of a jump or call over the distance `d`. -/
def branchWord (link : Bool) (c : Condition) (d : Int) : Word :=
  branchClassWord c.code link.toNat ((d - 8) / 4 % 2 ^ 24).toNat

/-- The word of a call into Thumb code over the distance `d`, of which bit 24 is the halfword. -/
def branchToThumbWord (d : Int) : Word :=
  branchClassWord 15 ((d - 8) / 2 % 2).toNat ((d - 8) / 4 % 2 ^ 24).toNat

/-! ### Reading -/

theorem fields_branchClassWord (code bit field : Nat) :
    (branchClassWord code bit field).field 0 24 = field % 2 ^ 24 ∧
      (branchClassWord code bit field).field 24 1 = bit % 2 ∧
      (branchClassWord code bit field).field 25 3 = 5 ∧
      (branchClassWord code bit field).field 28 4 = code % 16 := by
  simpa [Word.parts, branchClassWord] using
    Word.parts_ofParts [(24, field), (1, bit), (3, 5), (4, code)] rfl

/-- The signed field of 24 bits holds the number that it was cut from. -/
theorem signedField_branchClassWord (code bit : Nat) {x : Int} (hx : -2 ^ 23 ≤ x ∧ x < 2 ^ 23) :
    (branchClassWord code bit (x % 2 ^ 24).toNat).signedField 0 24 = x := by
  obtain ⟨hfield, -⟩ := fields_branchClassWord code bit (x % 2 ^ 24).toNat
  rw [Nat.mod_eq_of_lt (by omega)] at hfield
  exact Word.signedField_of_field (by decide) (by decide) (by omega) (by omega) hfield

theorem branchDistance_branchWord (link : Bool) (c : Condition) {d : Int} (hdvd : 4 ∣ d)
    (hd : -2 ^ 25 + 8 ≤ d ∧ d ≤ 2 ^ 25 + 4) : branchDistance (branchWord link c d) = d := by
  have hrange : -2 ^ 23 ≤ (d - 8) / 4 ∧ (d - 8) / 4 < 2 ^ 23 := by omega
  rw [branchDistance, branchWord, signedField_branchClassWord _ _ hrange]
  omega

theorem decode_branchWord (revision : Revision) (link : Bool) (c : Condition) {d : Int}
    (hdvd : 4 ∣ d) (hd : -2 ^ 25 + 8 ≤ d ∧ d ≤ 2 ^ 25 + 4) :
    decode (branchWord link c d) revision = some (.branch link c d) := by
  obtain ⟨-, hbit, hclass, hcode⟩ :=
    fields_branchClassWord c.code link.toNat ((d - 8) / 4 % 2 ^ 24).toNat
  rw [← branchWord] at hbit hclass hcode
  have hlink : (branchWord link c d).bit 24 = link := by
    rw [Word.field_one _ _ (by decide)] at hbit
    cases link <;> simpa using hbit
  have hlt := c.code_lt
  rw [Nat.mod_eq_of_lt (by omega)] at hcode
  rw [decode, hcode, if_neg (by omega), Condition.ofCode_code, conditional, hclass]
  simp only [branch, hlink, branchDistance_branchWord link c hdvd hd]

theorem distance_branchToThumbWord {d : Int} (hdvd : 2 ∣ d)
    (hd : -2 ^ 25 + 8 ≤ d ∧ d ≤ 2 ^ 25 + 6) :
    branchDistance (branchToThumbWord d) + 2 * (branchToThumbWord d).field 24 1 = d := by
  have hrange : -2 ^ 23 ≤ (d - 8) / 4 ∧ (d - 8) / 4 < 2 ^ 23 := by omega
  obtain ⟨-, hbit, -, -⟩ :=
    fields_branchClassWord 15 ((d - 8) / 2 % 2).toNat ((d - 8) / 4 % 2 ^ 24).toNat
  rw [branchDistance, branchToThumbWord, signedField_branchClassWord _ _ hrange, hbit]
  omega

theorem decode_branchToThumbWord {d : Int} (hdvd : 2 ∣ d)
    (hd : -2 ^ 25 + 8 ≤ d ∧ d ≤ 2 ^ 25 + 6) :
    decode (branchToThumbWord d) .v5te = some (.branchToThumb d) := by
  obtain ⟨-, -, hclass, hcode⟩ :=
    fields_branchClassWord 15 ((d - 8) / 2 % 2).toNat ((d - 8) / 4 % 2 ^ 24).toNat
  rw [← branchToThumbWord] at hclass hcode
  -- the words of preloads are of other classes
  have hpreload : ¬(branchToThumbWord d) &&& 0xfd70f000#32 = 0xf550f000#32 := by
    intro hpreload
    have hother := field_of_preload hpreload
    omega
  rw [decode, hcode, if_pos rfl, Revision.isV5te_v5te, if_pos rfl, unconditional,
    if_neg hpreload, hclass]
  simp only [branchToThumb, distance_branchToThumbWord hdvd hd]

/-! ### Numbers on the way -/

/-- The numbers that lead to the distance of a jump or call, which is the last of them. -/
def branchSteps (w : Word) : List Int :=
  let words := w.signedField 0 24
  [words, words * 4, words * 4 + 8]

/-- The numbers that lead to the distance of a call into Thumb code. -/
def branchToThumbSteps (w : Word) : List Int :=
  let words := w.signedField 0 24
  let half := w.field 24 1
  [words, words * 4, half, half * 2, words * 4 + half * 2, words * 4 + half * 2 + 8]

theorem getLast?_branchToThumbSteps (w : Word) :
    (branchToThumbSteps w).getLast? = some (branchDistance w + 2 * w.field 24 1) := by
  simp only [branchToThumbSteps, branchDistance, List.getLast?_cons_cons, List.getLast?_singleton,
    Option.some.injEq]
  omega

theorem isInt32_of_mem_branchSteps {w : Word} {n : Int} (h : n ∈ branchSteps w) : IsInt32 n := by
  obtain ⟨hlow, hhigh⟩ := w.signedField_bounds (show 0 < 24 by decide) (show 0 + 24 ≤ 32 by decide)
  simp only [branchSteps, List.mem_cons, List.not_mem_nil, or_false] at h
  unfold IsInt32
  omega

theorem isInt32_of_mem_branchToThumbSteps {w : Word} {n : Int} (h : n ∈ branchToThumbSteps w) :
    IsInt32 n := by
  have hbit := w.field_lt (show 24 + 1 ≤ 32 by decide)
  obtain ⟨hlow, hhigh⟩ := w.signedField_bounds (show 0 < 24 by decide) (show 0 + 24 ≤ 32 by decide)
  simp only [branchToThumbSteps, List.mem_cons, List.not_mem_nil, or_false] at h
  unfold IsInt32
  omega

end Arm

end ArmListing
