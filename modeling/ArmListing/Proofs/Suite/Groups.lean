import ArmListing.Proofs.Code
import ArmListing.Proofs.Text.Blank
import ArmListing.Proofs.Text.Hex
import ArmListing.Suite.Reader

/-!
# ArmListing.Proofs.Suite.Groups

**Groups of digits**, as a reader of test files takes them one after the other.

What one step does is said by the run of digits in front (`scanGroups_of_leads`).
A group is taken whole if no digit follows it (`scanGroups_append`), so whoever
writes groups with a blank between them, and two blanks behind them, has their
bytes read back (`scanGroups_intercalate`).

The bytes of a group are the lowest ones of the number that it stands for
(`groupBytes_eq`). So digits that spell some bytes are read as these
(`Spells.groupBytes_eq`), and an even number of digits spells what is read from
them (`spells_groupBytes`).
-/

namespace ArmListing.Suite

/-! ### Groups -/

/-- Digits that a reader takes for one to eight bytes. -/
structure IsGroup (digits : List Char) : Prop where
  isDigit : ∀ c ∈ digits, Hex.isDigit c = true
  two_le : 2 ≤ digits.length
  even : digits.length % 2 = 0
  le : digits.length ≤ 16

/-- Whether a text goes on without a digit, or ends. -/
def NoDigitFirst (text : List Char) : Prop := ∀ c ∈ text.head?, Hex.isDigit c = false

variable {n : Nat} {digits rest blanks : List Char} {groups : List (List Char)}

theorem noDigitFirst_nil : NoDigitFirst [] := nofun

theorem noDigitFirst_cons {c : Char} (h : Hex.isDigit c = false) (rest : List Char) :
    NoDigitFirst (c :: rest) := by
  intro d hd
  cases hd
  exact h

/-- What is left of a text stops what has been taken from it. -/
theorem noneFirst_dropWhile (p : Char → Bool) (text : List Char) :
    ∀ c ∈ (text.dropWhile p).head?, p c = false := by
  intro c hc
  have hstop := List.head?_dropWhile_not p text
  rw [Option.mem_def.mp hc] at hstop
  exact hstop

theorem isDigit_of_isBlank {c : Char} (h : Text.isBlank c = true) : Hex.isDigit c = false := by
  rw [← Bool.not_eq_true]
  intro hdigit
  rw [Hex.isBlank_of_isDigit hdigit] at h
  contradiction

/-- Whether a text goes on without a blank, or ends. -/
def NoBlankFirst (text : List Char) : Prop := ∀ c ∈ text.head?, Text.isBlank c = false

/-- What starts with a digit does not start with a blank. -/
theorem noBlankFirst_digits (hne : digits ≠ []) (h : ∀ c ∈ digits, Hex.isDigit c = true)
    (rest : List Char) : NoBlankFirst (digits ++ rest) := by
  obtain ⟨d, digits, rfl⟩ := List.exists_cons_of_ne_nil hne
  intro c hc
  cases hc
  exact Hex.isBlank_of_isDigit (h d List.mem_cons_self)

theorem IsGroup.ne_nil (h : IsGroup digits) : digits ≠ [] := by
  rintro rfl
  exact absurd h.two_le (by decide)

theorem IsGroup.value_lt (h : IsGroup digits) : Hex.value digits < UInt64.size :=
  Nat.lt_of_lt_of_le (Hex.value_lt digits) (Nat.pow_le_pow_right (by decide) h.le)

theorem length_groupBytes (digits : List Char) :
    (groupBytes digits).length = digits.length / 2 := by
  rw [groupBytes, List.length_map, List.length_range]

/-- The bytes of a group are the lowest ones of its number. -/
theorem groupBytes_eq (digits : List Char) :
    groupBytes digits = Code.bytesOf (digits.length / 2) (Hex.value digits) := by
  unfold groupBytes
  generalize digits.length / 2 = count
  generalize Hex.value digits = value
  induction count generalizing value with
  | zero => rfl
  | succ count ih =>
    rw [List.range_succ_eq_map, List.map_cons, List.map_map, Code.bytesOf, ← ih]
    refine congrArg (UInt8.ofNat value :: ·) (List.map_congr_left fun i _ => ?_)
    show UInt8.ofNat (value >>> (8 * (i + 1))) = _
    rw [Nat.mul_succ, Nat.add_comm, Nat.shiftRight_add, Nat.shiftRight_eq_div_pow value 8]

/-- A number of up to eight bytes is written as a group, two digits for each byte. -/
theorem isGroup_lowerPadded (count : Nat) (hpos : 0 < count) (hle : count ≤ 8)
    (h : n < 16 ^ (2 * count)) : IsGroup (Hex.lowerPadded (2 * count) n).toList := by
  have hlength : (Hex.lowerPadded (2 * count) n).toList.length = 2 * count :=
    Hex.length_lowerPadded (by omega) h
  constructor
  · exact fun c hc => Hex.isDigit_of_mem_lowerPadded hc
  all_goals omega

theorem groupBytes_lowerPadded (count : Nat) (hpos : 0 < count) (h : n < 16 ^ (2 * count)) :
    groupBytes (Hex.lowerPadded (2 * count) n).toList = Code.bytesOf count n := by
  rw [groupBytes_eq, Hex.length_lowerPadded (by omega) h, Hex.value_lowerPadded,
    Nat.mul_div_cancel_left _ (by decide)]

/-- Digits that are written for bytes: two for each byte, and a number whose lowest byte is the first
of them. -/
structure Spells (digits : List Char) (bytes : List UInt8) : Prop where
  isDigit : ∀ c ∈ digits, Hex.isDigit c = true
  length_eq : digits.length = 2 * bytes.length
  value_eq : Hex.value digits = Cursor.littleEndian bytes

/-- The digits say which bytes they are written for. -/
theorem Spells.groupBytes_eq {bytes : List UInt8} (h : Spells digits bytes) :
    groupBytes digits = bytes := by
  rw [Suite.groupBytes_eq, h.length_eq, h.value_eq, Nat.mul_div_cancel_left _ (by decide),
    Code.bytesOf_littleEndian (Nat.le_refl _), List.take_length]

/-- An even number of digits is written for the bytes that are read from them. -/
theorem spells_groupBytes (hdigits : ∀ c ∈ digits, Hex.isDigit c = true)
    (heven : digits.length % 2 = 0) : Spells digits (groupBytes digits) := by
  have hlength : digits.length = 2 * (digits.length / 2) := by omega
  have hpow : (16 : Nat) ^ digits.length = 256 ^ (digits.length / 2) := by
    conv => lhs; rw [hlength, Nat.pow_mul]
  refine ⟨hdigits, by rw [length_groupBytes, ← hlength], ?_⟩
  rw [groupBytes_eq, Code.littleEndian_bytesOf, ← hpow, Nat.mod_eq_of_lt (Hex.value_lt digits)]

/-- The number of some bytes spells them, with zeroes in front. -/
theorem spells_lowerPadded {bytes : List UInt8} (hne : bytes ≠ []) :
    Spells (Hex.lowerPadded (2 * bytes.length) (Cursor.littleEndian bytes)).toList bytes := by
  have hpos : 0 < 2 * bytes.length := Nat.mul_pos (by decide) (List.length_pos_iff.mpr hne)
  have hlt : Cursor.littleEndian bytes < 16 ^ (2 * bytes.length) := by
    rw [Nat.pow_mul]
    exact Code.littleEndian_lt bytes
  constructor
  · exact fun c hc => Hex.isDigit_of_mem_lowerPadded hc
  · exact Hex.length_lowerPadded hpos hlt
  · exact Hex.value_lowerPadded _ _

theorem Spells.isGroup {bytes : List UInt8} (h : Spells digits bytes) (hne : bytes ≠ [])
    (hle : bytes.length ≤ 8) : IsGroup digits := by
  have hpos := List.length_pos_iff.mpr hne
  have hlength := h.length_eq
  constructor
  · exact h.isDigit
  all_goals omega

theorem splitDigits_append (h : ∀ c ∈ digits, Hex.isDigit c = true) (hrest : NoDigitFirst rest) :
    splitDigits (digits ++ rest) = (digits, rest) := by
  unfold splitDigits
  rw [List.takeWhile_append_of_pos h, List.dropWhile_append_of_pos h]
  cases rest with
  | nil => simp
  | cons c rest =>
    have hc : ¬Hex.isDigit c = true := by
      rw [hrest c rfl]
      exact Bool.false_ne_true
    rw [List.takeWhile_cons_of_neg hc, List.dropWhile_cons_of_neg hc, List.append_nil]

/-! ### Reading them -/

/-- Whether `run` is the whole run of digits that a text starts with, behind one blank at most. -/
structure Leads (text run rest : List Char) : Prop where
  eq_append : ∃ blanks, (∀ c ∈ blanks, Text.isBlank c = true) ∧ blanks.length ≤ 1 ∧
    text = blanks ++ (run ++ rest)
  isDigit : ∀ c ∈ run, Hex.isDigit c = true
  noDigitFirst : NoDigitFirst rest
  noBlankFirst : NoBlankFirst (run ++ rest)

theorem Leads.trimStart {text run : List Char} (h : Leads text run rest) :
    Text.trimStart text = run ++ rest := by
  obtain ⟨blanks, hblanks, -, rfl⟩ := h.eq_append
  rw [Text.trimStart_append_of_blank hblanks, Text.trimStart_of_head h.noBlankFirst]

theorem Leads.length_takeWhile_le {text run : List Char} (h : Leads text run rest) :
    (text.takeWhile Text.isBlank).length ≤ 1 := by
  have hbody := Text.length_takeWhile_add text
  obtain ⟨blanks, -, hone, htext⟩ := h.eq_append
  have hlength := congrArg List.length htext
  rw [h.trimStart] at hbody
  rw [List.length_append] at hlength
  omega

/-- One step of the reading, by the run of digits in front. -/
theorem scanGroups_of_leads {text run : List Char} (h : Leads text run rest) (bytes : List UInt8) :
    scanGroups bytes text =
      if run.length < 2 ∨ run.length % 2 ≠ 0 then (bytes, .before (run ++ rest))
      else if UInt64.size ≤ Hex.value run then (bytes, .tooLarge run)
      else if 16 < run.length then (bytes, .overrun)
      else scanGroups (bytes ++ groupBytes run) rest := by
  rw [scanGroups, h.trimStart, splitDigits_append h.isDigit h.noDigitFirst,
    if_neg (Nat.not_lt.mpr h.length_takeWhile_le)]
  split <;> rfl

/-- **A group is taken whole** if no digit follows it, and its bytes are put behind the others. -/
theorem scanGroups_append (h : IsGroup digits) (hrest : NoDigitFirst rest)
    (hblanks : ∀ c ∈ blanks, Text.isBlank c = true) (hone : blanks.length ≤ 1)
    (bytes : List UInt8) :
    scanGroups bytes (blanks ++ (digits ++ rest)) =
      scanGroups (bytes ++ groupBytes digits) rest := by
  have hleads : Leads (blanks ++ (digits ++ rest)) digits rest :=
    ⟨⟨blanks, hblanks, hone, rfl⟩, h.isDigit, hrest, noBlankFirst_digits h.ne_nil h.isDigit rest⟩
  have hgroup : ¬(digits.length < 2 ∨ digits.length % 2 ≠ 0) := by
    have htwo := h.two_le
    have heven := h.even
    omega
  rw [scanGroups_of_leads hleads, if_neg hgroup, if_neg (Nat.not_le.mpr h.value_lt),
    if_neg (Nat.not_lt.mpr h.le)]

/-- Behind a blank stands no digit, and the next group is behind a blank. -/
theorem noDigitFirst_flatMap (groups : List (List Char)) (hrest : NoDigitFirst rest) :
    NoDigitFirst (groups.flatMap (' ' :: ·) ++ rest) := by
  cases groups with
  | nil => exact hrest
  | cons g groups => exact noDigitFirst_cons rfl _

/-- All groups are taken, each with a blank in front of it. -/
theorem scanGroups_flatMap (h : ∀ g ∈ groups, IsGroup g) (hrest : NoDigitFirst rest)
    (bytes : List UInt8) :
    scanGroups bytes (groups.flatMap (' ' :: ·) ++ rest) =
      scanGroups (bytes ++ groups.flatMap groupBytes) rest := by
  induction groups generalizing bytes with
  | nil => rw [List.flatMap_nil, List.flatMap_nil, List.nil_append, List.append_nil]
  | cons g groups ih =>
    rw [List.forall_mem_cons] at h
    have hspace : ∀ c ∈ [' '], Text.isBlank c = true := List.forall_mem_singleton.mpr rfl
    have hfirst :=
      scanGroups_append h.1 (noDigitFirst_flatMap groups hrest) hspace (Nat.le_refl 1) bytes
    rw [List.flatMap_cons, List.flatMap_cons, List.append_assoc, ← List.append_assoc bytes,
      ← ih h.2]
    exact hfirst

/-- Two blanks end the groups. -/
theorem scanGroups_of_blanks (hblanks : ∀ c ∈ blanks, Text.isBlank c = true)
    (htwo : 1 < blanks.length) (bytes : List UInt8) (text : List Char) :
    scanGroups bytes (blanks ++ text) = (bytes, .before (Text.trimStart text)) := by
  have hlength : 1 < ((blanks ++ text).takeWhile Text.isBlank).length := by
    rw [List.takeWhile_append_of_pos hblanks, List.length_append]
    omega
  rw [scanGroups, if_pos hlength, Text.trimStart_append_of_blank hblanks]

theorem intercalate_cons_eq_flatMap (separator first : List Char) (rest : List (List Char)) :
    separator.intercalate (first :: rest) = first ++ rest.flatMap (separator ++ ·) := by
  induction rest generalizing first with
  | nil => rw [List.intercalate_singleton, List.flatMap_nil, List.append_nil]
  | cons second rest ih =>
    rw [List.intercalate_cons_cons, ih, List.flatMap_cons, List.append_assoc, List.append_assoc]

theorem noBlankFirst_intercalate (h : ∀ g ∈ groups, IsGroup g) (hne : groups ≠ [])
    (rest : List Char) : NoBlankFirst ([' '].intercalate groups ++ rest) := by
  obtain ⟨first, others, rfl⟩ := List.exists_cons_of_ne_nil hne
  have hfirst : IsGroup first := h first List.mem_cons_self
  rw [intercalate_cons_eq_flatMap, List.append_assoc]
  exact noBlankFirst_digits hfirst.ne_nil hfirst.isDigit _

/-- **Groups are read back** as they are written, up to the two blanks behind them. -/
theorem scanGroups_intercalate (h : ∀ g ∈ groups, IsGroup g) (hne : groups ≠ [])
    (hblanks : ∀ c ∈ blanks, Text.isBlank c = true) (htwo : 1 < blanks.length)
    (bytes : List UInt8) (text : List Char) :
    scanGroups bytes ([' '].intercalate groups ++ (blanks ++ text)) =
      (bytes ++ groups.flatMap groupBytes, .before (Text.trimStart text)) := by
  have hrest : NoDigitFirst (blanks ++ text) := by
    obtain ⟨b, blanks, rfl⟩ := List.exists_cons_of_length_pos (Nat.zero_lt_of_lt htwo)
    exact noDigitFirst_cons (isDigit_of_isBlank (hblanks b List.mem_cons_self)) _
  obtain ⟨first, others, rfl⟩ := List.exists_cons_of_ne_nil hne
  rw [List.forall_mem_cons] at h
  -- no blank stands in front of the first group
  have hnone : ∀ c ∈ ([] : List Char), Text.isBlank c = true := nofun
  have hfirst :=
    scanGroups_append h.1 (noDigitFirst_flatMap others hrest) hnone (Nat.zero_le 1) bytes
  rw [scanGroups_flatMap h.2 hrest, scanGroups_of_blanks hblanks htwo] at hfirst
  rw [intercalate_cons_eq_flatMap, List.append_assoc, List.flatMap_cons, ← List.append_assoc bytes]
  exact hfirst

/-- A record is filled from groups and from the text behind two blanks. -/
theorem fillBody_intercalate (h : ∀ g ∈ groups, IsGroup g) (hne : groups ≠ [])
    (hblanks : ∀ c ∈ blanks, Text.isBlank c = true) (htwo : 1 < blanks.length)
    (c : Case) (text : List Char) :
    fillBody c ([' '].intercalate groups ++ (blanks ++ text)) =
      (.found, { c with
        bytes := c.bytes ++ groups.flatMap groupBytes,
        assembly := String.ofList (Text.trimStart text) }) := by
  have hbytes : ¬(c.bytes ++ groups.flatMap groupBytes).isEmpty = true := by
    obtain ⟨first, others, rfl⟩ := List.exists_cons_of_ne_nil hne
    have htwo := (h first List.mem_cons_self).two_le
    rw [List.isEmpty_iff_length_eq_zero, List.flatMap_cons, List.length_append, List.length_append,
      length_groupBytes]
    omega
  rw [fillBody, scanGroups_intercalate h hne hblanks htwo]
  exact if_neg hbytes

end ArmListing.Suite
