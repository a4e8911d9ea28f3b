import Mathlib.Algebra.Group.Nat.Defs
import ArmListing.Text.Blank
import ArmListing.Text.Hex

/-!
# ArmListing.Proofs.Text.Hex

What is **written in hexadecimal** consists of digits (`isDigit_of_mem_upper`,
`isDigit_of_mem_lower`), as many as its column asks for if the number is not too
great (`length_upperPadded`). Decimal numbers consist of decimal digits
(`Text.isDigit_of_mem_repr`).

What is **read** is a number in base sixteen (`value_append`), which is no
greater than its digits allow (`value_lt`), and what is written is read as the
number that it was written for (`value_digits`).
-/

namespace ArmListing

theorem Text.isDigit_of_mem_repr {n : Nat} {c : Char} (h : c ∈ n.repr.toList) :
    c.isDigit = true := by
  rw [Nat.toList_repr] at h
  exact Nat.isDigit_of_mem_toDigits (by decide) (by decide) h

namespace Hex

/-! ### Writing -/

variable {c : Char} {n width : Nat}

/-- The three ranges of digits. -/
theorem toNat_of_isDigit (h : isDigit c = true) :
    (0x30 ≤ c.toNat ∧ c.toNat ≤ 0x39) ∨ (0x61 ≤ c.toNat ∧ c.toNat ≤ 0x66) ∨
      (0x41 ≤ c.toNat ∧ c.toNat ≤ 0x46) := by
  unfold isDigit digit? at h
  split at h
  case isTrue hdecimal => exact .inl hdecimal
  case isFalse =>
    split at h
    case isTrue hlower => exact .inr (.inl hlower)
    case isFalse =>
      split at h
      case isTrue hupper => exact .inr (.inr hupper)
      case isFalse => contradiction

theorem isBlank_of_isDigit (h : isDigit c = true) : Text.isBlank c = false := by
  have hrange := toNat_of_isDigit h
  unfold Text.isBlank
  simp only [Bool.or_eq_false_iff, Bool.and_eq_false_iff, decide_eq_false_iff_not,
    beq_eq_false_iff_ne]
  omega

theorem utf8Size_of_isDigit (h : isDigit c = true) : c.utf8Size = 1 := by
  have hrange := toNat_of_isDigit h
  have hle : c.toNat ≤ 0x7f := by omega
  rw [Char.utf8Size_eq_one_iff]
  exact UInt32.le_iff_toNat_le.mpr hle

theorem utf8ByteSize_ofList {digits : List Char} (h : ∀ c ∈ digits, isDigit c = true) :
    (String.ofList digits).utf8ByteSize = digits.length := by
  induction digits with
  | nil => rfl
  | cons c digits ih =>
    rw [List.forall_mem_cons] at h
    rw [String.ofList_cons, String.utf8ByteSize_append, String.utf8ByteSize_singleton,
      utf8Size_of_isDigit h.1, ih h.2, List.length_cons, Nat.add_comm]

/-- A text of digits has as many bytes as digits. -/
theorem utf8ByteSize_of_isDigit {text : String} (h : ∀ c ∈ text.toList, isDigit c = true) :
    text.utf8ByteSize = text.toList.length := by
  have hsize := utf8ByteSize_ofList h
  rwa [String.ofList_toList] at hsize

/-- The digits of a single place, in either case. -/
theorem isDigit_digitChar (h : n < 16) :
    isDigit n.digitChar = true ∧ isDigit n.digitChar.toUpper = true := by
  have hall : ∀ d < 16, isDigit (Nat.digitChar d) = true ∧
    isDigit (Nat.digitChar d).toUpper = true := by decide
  exact hall n h

theorem isDigit_of_mem_lowerDigits (h : c ∈ lowerDigits n) :
    isDigit c = true ∧ isDigit c.toUpper = true := by
  unfold lowerDigits at h
  induction n using Nat.strongRecOn with
  | ind n ih =>
    rw [Nat.toDigits_eq_if (by decide)] at h
    split at h
    case isTrue hlt =>
      rw [List.mem_singleton.mp h]
      exact isDigit_digitChar hlt
    case isFalse hle =>
      -- in front of the last digit stand those of the quotient
      rcases List.mem_append.mp h with hhigh | hlast
      · exact ih (n / 16) (by omega) hhigh
      · rw [List.mem_singleton.mp hlast]
        exact isDigit_digitChar (Nat.mod_lt _ (by decide))

theorem isDigit_of_mem_lower (h : c ∈ (lower n).toList) : isDigit c = true := by
  rw [lower, String.toList_ofList] at h
  exact (isDigit_of_mem_lowerDigits h).1

theorem isDigit_of_mem_upperDigits (h : c ∈ upperDigits n) : isDigit c = true := by
  obtain ⟨d, hd, rfl⟩ := List.mem_map.mp h
  exact (isDigit_of_mem_lowerDigits hd).2

theorem isDigit_of_mem_upper (h : c ∈ (upper n).toList) : isDigit c = true := by
  rw [upper, String.toList_ofList] at h
  exact isDigit_of_mem_upperDigits h

/-- Padding adds zeroes only. -/
theorem isDigit_of_mem_leftpad {digits : List Char} (hdigits : ∀ d ∈ digits, isDigit d = true)
    (h : c ∈ digits.leftpad width '0') : isDigit c = true := by
  rcases List.mem_append.mp h with hzero | hdigit
  · rw [List.eq_of_mem_replicate hzero]
    rfl
  · exact hdigits c hdigit

theorem isDigit_of_mem_upperPadded (h : c ∈ (upperPadded width n).toList) : isDigit c = true := by
  rw [upperPadded, String.toList_ofList] at h
  exact isDigit_of_mem_leftpad (fun _ => isDigit_of_mem_upperDigits) h

theorem isDigit_of_mem_lowerPadded (h : c ∈ (lowerPadded width n).toList) : isDigit c = true := by
  rw [lowerPadded, String.toList_ofList] at h
  exact isDigit_of_mem_leftpad (fun _ hd => (isDigit_of_mem_lowerDigits hd).1) h

theorem length_lowerDigits_le (hwidth : 0 < width) (h : n < 16 ^ width) :
    (lowerDigits n).length ≤ width :=
  (Nat.length_toDigits_le_iff (by decide) hwidth).mpr h

/-- A number that fits in the column fills it. -/
theorem length_lowerPadded (hwidth : 0 < width) (h : n < 16 ^ width) :
    (lowerPadded width n).toList.length = width := by
  rw [lowerPadded, String.toList_ofList, List.length_leftpad,
    Nat.max_eq_left (length_lowerDigits_le hwidth h)]

theorem length_upperPadded (hwidth : 0 < width) (h : n < 16 ^ width) :
    (upperPadded width n).toList.length = width := by
  rw [upperPadded, String.toList_ofList, List.length_leftpad, upperDigits, List.length_map,
    Nat.max_eq_left (length_lowerDigits_le hwidth h)]

theorem upperPadded_ne_nil : (upperPadded width n).toList ≠ [] := by
  rw [upperPadded, String.toList_ofList, List.leftpad]
  exact List.append_ne_nil_of_right_ne_nil _ fun hnil =>
    Nat.toDigits_ne_nil (List.map_eq_nil_iff.mp hnil)

/-! ### Reading -/

theorem valueFrom_eq (high : Nat) (digits : List Char) :
    valueFrom high digits = high * 16 ^ digits.length + value digits := by
  unfold value
  induction digits generalizing high with
  | nil => simp
  | cons c rest ih =>
    rw [valueFrom_cons, valueFrom_cons, ih, ih (0 * 16 + _), List.length_cons, Nat.pow_succ]
    rw [Nat.add_mul, Nat.zero_mul, Nat.zero_add, Nat.mul_assoc, Nat.mul_comm 16, Nat.add_assoc]

/-- Digits in front count for a power of sixteen more than those behind. -/
theorem value_append (front back : List Char) :
    value (front ++ back) = value front * 16 ^ back.length + value back := by
  rw [← valueFrom_eq]
  simp [value, valueFrom]

theorem value_replicate_zero (count : Nat) : value (List.replicate count '0') = 0 := by
  induction count with
  | zero => rfl
  | succ count ih =>
    rw [List.replicate_succ', value_append, ih]
    rfl

/-- Zeroes in front do not count. -/
theorem value_leftpad (width : Nat) (digits : List Char) :
    value (digits.leftpad width '0') = value digits := by
  rw [List.leftpad, value_append, value_replicate_zero, Nat.zero_mul, Nat.zero_add]

/-- A digit stands for its place in the row of digits. -/
theorem digit?_digitChar (h : n < 16) :
    digit? n.digitChar = some n ∧ digit? n.digitChar.toUpper = some n := by
  have hall : ∀ d < 16, digit? (Nat.digitChar d) = some d ∧
    digit? (Nat.digitChar d).toUpper = some d := by decide
  exact hall n h

/-- **What is written is read back**, in either case. -/
theorem value_digits (n : Nat) : value (lowerDigits n) = n ∧ value (upperDigits n) = n := by
  unfold upperDigits lowerDigits
  induction n using Nat.strongRecOn with
  | ind n ih =>
    rw [Nat.toDigits_eq_if (by decide)]
    split
    case isTrue hlt =>
      obtain ⟨hlower, hupper⟩ := digit?_digitChar hlt
      simp [value, hlower, hupper]
    case isFalse hle =>
      obtain ⟨hlower, hupper⟩ := digit?_digitChar (Nat.mod_lt n (show 0 < 16 by decide))
      obtain ⟨ihlower, ihupper⟩ := ih (n / 16) (by omega)
      -- quotient and remainder are the digits in front and the last one
      rw [List.map_append, value_append, value_append, ihlower, ihupper]
      simp only [value, List.map_cons, List.map_nil, List.length_cons, List.length_nil,
        valueFrom_cons, valueFrom_nil, hlower, hupper, Option.getD_some]
      omega

theorem value_lower (n : Nat) : value (lower n).toList = n := by
  rw [lower, String.toList_ofList, (value_digits n).1]

/-- Different numbers are written differently. -/
theorem lower_injective : Function.Injective lower := fun m n h => by
  rw [← value_lower m, h, value_lower]

theorem value_upperPadded (width n : Nat) : value (upperPadded width n).toList = n := by
  rw [upperPadded, String.toList_ofList, value_leftpad, (value_digits n).2]

theorem value_lowerPadded (width n : Nat) : value (lowerPadded width n).toList = n := by
  rw [lowerPadded, String.toList_ofList, value_leftpad, (value_digits n).1]

theorem digit?_lt {c : Char} {d : Nat} (h : digit? c = some d) : d < 16 := by
  unfold digit? at h
  have h0 : '0'.toNat = 0x30 := rfl
  have ha : 'a'.toNat = 0x61 := rfl
  have hA : 'A'.toNat = 0x41 := rfl
  split at h
  case isTrue hdecimal =>
    have hle : c.toNat ≤ 0x39 := hdecimal.2
    cases h
    omega
  case isFalse =>
    split at h
    case isTrue hlower =>
      have hle : c.toNat ≤ 0x66 := hlower.2
      cases h
      omega
    case isFalse =>
      split at h
      case isTrue hupper =>
        have hle : c.toNat ≤ 0x46 := hupper.2
        cases h
        omega
      case isFalse => contradiction

/-- As many digits as a number has are enough for it. -/
theorem value_lt (digits : List Char) : value digits < 16 ^ digits.length := by
  induction digits with
  | nil => decide
  | cons c rest ih =>
    have hdigit : value [c] < 16 := by
      rw [value, valueFrom_cons, valueFrom_nil, Nat.zero_mul, Nat.zero_add]
      cases hc : digit? c with
      | none => decide
      | some d => exact digit?_lt hc
    have hle := Nat.mul_le_mul_right (16 ^ rest.length) (Nat.le_of_lt_succ hdigit)
    rw [← List.singleton_append, value_append, List.length_append, Nat.pow_add]
    show _ < 16 * 16 ^ rest.length
    omega

end Hex

end ArmListing
