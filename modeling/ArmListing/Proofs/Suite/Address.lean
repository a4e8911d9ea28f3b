import ArmListing.Proofs.Suite.Reader
import ArmListing.Proofs.Text.Hex

/-!
# ArmListing.Proofs.Suite.Address

The **address of a line**, which may be left out.

What stands in front of the first colon of a line must be a number of 64 bits
(`IsAddress`), and what stands behind it is left to be read (`Located`). A line
without a colon has the address zero. Of a line whose address is known the rest
is read (`fill_of_located`), and every other line is refused
(`fill_of_not_address`).
-/

namespace ArmListing.Suite

variable {text head tail body : List Char} {address : Nat}

/-- A number of 64 bits in hexadecimal, which may have a plus in front. -/
def IsAddress (text : List Char) (address : Nat) : Prop :=
  ∃ digits, (text = digits ∨ text = '+' :: digits) ∧ digits ≠ [] ∧
    (∀ c ∈ digits, Hex.isDigit c = true) ∧ Hex.value digits = address ∧ address < 2 ^ 64

/-- The number that digits stand for, without a sign. -/
def unsigned? (digits : List Char) : Option Nat :=
  if digits.isEmpty || !digits.all Hex.isDigit then none
  else if Hex.value digits < UInt64.size then some (Hex.value digits)
  else none

theorem unsigned?_eq_some_iff {digits : List Char} :
    unsigned? digits = some address ↔ digits ≠ [] ∧ (∀ c ∈ digits, Hex.isDigit c = true) ∧
      Hex.value digits = address ∧ address < 2 ^ 64 := by
  rw [unsigned?, Option.ite_none_left_eq_some, Option.ite_none_right_eq_some, Bool.or_eq_true,
    not_or, List.isEmpty_iff, Bool.not_eq_true', Bool.not_eq_false, List.all_eq_true,
    Option.some.injEq]
  constructor
  · rintro ⟨⟨hne, hdigits⟩, hlt, rfl⟩
    exact ⟨hne, hdigits, rfl, hlt⟩
  · rintro ⟨hne, hdigits, rfl, hlt⟩
    exact ⟨⟨hne, hdigits⟩, hlt, rfl⟩

theorem wordOfDigits?_plus (digits : List Char) :
    wordOfDigits? ('+' :: digits) = unsigned? digits := rfl

theorem wordOfDigits?_of_ne (h : ∀ digits, text ≠ '+' :: digits) :
    wordOfDigits? text = unsigned? text := by
  unfold wordOfDigits?
  split
  case h_1 rest => exact absurd rfl (h rest)
  case h_2 => rfl

/-- **Addresses are read**, and nothing else is. -/
theorem wordOfDigits?_eq_some_iff : wordOfDigits? text = some address ↔ IsAddress text address := by
  unfold IsAddress
  by_cases hplus : ∃ digits, text = '+' :: digits
  · obtain ⟨digits, rfl⟩ := hplus
    rw [wordOfDigits?_plus, unsigned?_eq_some_iff]
    constructor
    · intro h
      exact ⟨digits, .inr rfl, h⟩
    · rintro ⟨digits', rfl | hcons, h⟩
      · exact absurd (h.2.1 '+' List.mem_cons_self) (by decide)
      · cases hcons
        exact h
  · rw [wordOfDigits?_of_ne (not_exists.mp hplus), unsigned?_eq_some_iff]
    constructor
    · intro h
      exact ⟨text, .inl rfl, h⟩
    · rintro ⟨digits, rfl | hcons, h⟩
      · exact h
      · exact absurd ⟨digits, hcons⟩ hplus

/-- What address a text has, and what is left to be read. -/
inductive Located : List Char → Nat → List Char → Prop
  /-- Without a colon there is no address. -/
  | absent {text : List Char} (hcolon : ':' ∉ text) : Located text 0 text
  /-- The address ends at the first colon. -/
  | present {head tail : List Char} {address : Nat} (hcolon : ':' ∉ head)
      (haddress : IsAddress (Text.trim head) address) :
      Located (head ++ ':' :: tail) address (Text.trimStart tail)

/-- Where the address is known, the rest of the text is read. -/
theorem fill_of_located (h : Located text address body) {c : Case} (hc : c.address = 0) :
    fill c text = fillBody { c with address } body := by
  cases h with
  | absent hcolon =>
    rw [fill_of_not_mem hcolon, ← hc]
  | present hcolon haddress =>
    rw [fill, List.append_cons, Text.splitOnce_append hcolon]
    dsimp only
    rw [wordOfDigits?_eq_some_iff.mpr haddress]

/-- What is no address is refused. -/
theorem fill_of_not_address (hcolon : ':' ∉ head)
    (h : ∀ address, ¬IsAddress (Text.trim head) address) (c : Case) (tail : List Char) :
    fill c (head ++ ':' :: tail) = (.fault c.line (.invalidAddress (String.ofList head)), c) := by
  have hnone : wordOfDigits? (Text.trim head) = none := by
    refine Option.eq_none_iff_forall_ne_some.mpr fun address haddress => ?_
    exact h address (wordOfDigits?_eq_some_iff.mp haddress)
  rw [fill, List.append_cons, Text.splitOnce_append hcolon]
  dsimp only
  rw [hnone]

/-- A text is located, or has something in front of its first colon that is no address. -/
theorem located_or_not_address (text : List Char) :
    (∃ address body, Located text address body) ∨
      ∃ head tail, text = head ++ ':' :: tail ∧ ':' ∉ head ∧
        ∀ address, ¬IsAddress (Text.trim head) address := by
  rcases Text.not_mem_or_exists_first ':' text with hnot | ⟨head, tail, hcolon, rfl⟩
  · exact .inl ⟨0, text, .absent hnot⟩
  · by_cases h : ∃ address, IsAddress (Text.trim head) address
    · obtain ⟨address, haddress⟩ := h
      exact .inl ⟨address, _, .present hcolon haddress⟩
    · exact .inr ⟨head, tail, rfl, hcolon, fun address haddress => h ⟨address, haddress⟩⟩

end ArmListing.Suite
