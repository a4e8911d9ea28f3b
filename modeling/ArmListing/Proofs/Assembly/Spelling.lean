import ArmListing.Assembly.Condition
import ArmListing.Assembly.Operand
import ArmListing.Proofs.Text.Blank
import ArmListing.Proofs.Text.Hex

/-!
# ArmListing.Proofs.Assembly.Spelling

The **alphabets** of assembler text: mnemonics are spelled in lower-case letters,
names and numbers in letters, digits and a few marks (`isSymbolChar`), and
operands have brackets, braces, commas and spaces as well (`isOperandChar`).

`spelled` is a test on texts that goes through `++`, so what is put together
from spelled parts is spelled (`spelled_append`). How operands are put together
from names and numbers is said in `ArmListing.Proofs.Assembly.Grammar`.
-/

namespace ArmListing

/-- Whether all characters of a text belong to an alphabet. -/
def spelled (alphabet : Char → Bool) (text : String) : Bool := text.toList.all alphabet

/-- The alphabet of names and numbers. -/
def isSymbolChar (c : Char) : Bool := c.isAlphanum || "#-+.!^_".toList.contains c

/-- The alphabet of operands. -/
def isOperandChar (c : Char) : Bool := c.isAlphanum || "#[]\x7b\x7d,-+.!^_ ".toList.contains c

/-- The alphabet of all that is shown for an encoding: that of operands, the tab behind a mnemonic,
and the brackets around the name of what is undefined. -/
def isTextChar (c : Char) : Bool := isOperandChar c || "\t<>".toList.contains c

variable {alphabet : Char → Bool}

@[simp] theorem spelled_append (front back : String) :
    spelled alphabet (front ++ back) = (spelled alphabet front && spelled alphabet back) := by
  rw [spelled, String.toList_append, List.all_append]
  rfl

@[simp] theorem spelled_ite (choice : Bool) (first second : String) :
    spelled alphabet (if choice then first else second) =
      if choice then spelled alphabet first else spelled alphabet second :=
  apply_ite ..

theorem spelled_iff {text : String} :
    spelled alphabet text = true ↔ ∀ c ∈ text.toList, alphabet c = true :=
  List.all_eq_true

theorem spelled_mono {wider : Char → Bool} (h : ∀ c, alphabet c = true → wider c = true)
    {text : String} (htext : spelled alphabet text = true) : spelled wider text = true :=
  spelled_iff.mpr fun c hc => h c (spelled_iff.mp htext c hc)

/-- What stands in a row with separators stands in one of its parts or in a separator. -/
theorem forall_mem_intercalate {p : Char → Prop} {separator : List Char}
    {lists : List (List Char)} (hseparator : ∀ c ∈ separator, p c)
    (hlists : ∀ l ∈ lists, ∀ c ∈ l, p c) : ∀ c ∈ separator.intercalate lists, p c := by
  induction lists with
  | nil => exact fun c hc => absurd hc List.not_mem_nil
  | cons l rest ih =>
    rw [List.forall_mem_cons] at hlists
    obtain ⟨hfirst, hrest⟩ := hlists
    cases rest with
    | nil => rwa [List.intercalate_singleton]
    | cons next rest =>
      intro c hc
      rw [List.intercalate_cons_cons, List.mem_append, List.mem_append] at hc
      rcases hc with (hc | hc) | hc
      · exact hfirst c hc
      · exact hseparator c hc
      · exact ih hrest c hc

/-- Texts with a separator between them. -/
theorem spelled_intercalate {separator : String} {texts : List String}
    (hseparator : spelled alphabet separator = true)
    (htexts : ∀ text ∈ texts, spelled alphabet text = true) :
    spelled alphabet (separator.intercalate texts) = true := by
  rw [spelled_iff, String.toList_intercalate]
  refine forall_mem_intercalate (spelled_iff.mp hseparator) fun l hl => ?_
  obtain ⟨text, htext, rfl⟩ := List.mem_map.mp hl
  exact spelled_iff.mp (htexts text htext)

/-! ### Characters -/

/-- The three ranges of letters and digits. -/
theorem isAlphanum_iff {c : Char} :
    c.isAlphanum = true ↔ (65 ≤ c.toNat ∧ c.toNat ≤ 90) ∨ (97 ≤ c.toNat ∧ c.toNat ≤ 122) ∨
      (48 ≤ c.toNat ∧ c.toNat ≤ 57) := by
  have hranges : c.isAlphanum =
      ((decide (65 ≤ c.val ∧ c.val ≤ 90) || (decide (97 ≤ c.val) && decide (c.val ≤ 122))) ||
        (decide (48 ≤ c.val) && decide (c.val ≤ 57))) := rfl
  simp only [hranges, Bool.or_eq_true, Bool.and_eq_true, decide_eq_true_eq,
    UInt32.le_iff_toNat_le, or_assoc]
  exact Iff.rfl

theorem isAlphanum_of_isAlpha {c : Char} (h : c.isAlpha = true) : c.isAlphanum = true := by
  show (c.isAlpha || c.isDigit) = true
  rw [h, Bool.true_or]

theorem isAlpha_of_isLower {c : Char} (h : c.isLower = true) : c.isAlpha = true := by
  show (c.isUpper || c.isLower) = true
  rw [h, Bool.or_true]

theorem isBlank_of_isAlphanum {c : Char} (h : c.isAlphanum = true) : Text.isBlank c = false := by
  have hranges := isAlphanum_iff.mp h
  unfold Text.isBlank
  simp only [Bool.or_eq_false_iff, Bool.and_eq_false_iff, decide_eq_false_iff_not,
    beq_eq_false_iff_ne]
  omega

theorem isSymbolChar_of_isAlphanum {c : Char} (h : c.isAlphanum = true) :
    isSymbolChar c = true := by
  rw [isSymbolChar, h, Bool.true_or]

theorem isOperandChar_of_isAlphanum {c : Char} (h : c.isAlphanum = true) :
    isOperandChar c = true := by
  rw [isOperandChar, h, Bool.true_or]

theorem isOperandChar_of_isSymbolChar {c : Char} (h : isSymbolChar c = true) :
    isOperandChar c = true := by
  have hmarks : spelled isOperandChar "#-+.!^_" = true := rfl
  rcases (Bool.or_eq_true _ _).mp h with halphanum | hmark
  · exact isOperandChar_of_isAlphanum halphanum
  · exact spelled_iff.mp hmarks c (List.contains_iff_mem.mp hmark)

/-! ### Numbers -/

theorem isAlphanum_of_isDigit {c : Char} (h : Hex.isDigit c = true) : c.isAlphanum = true := by
  have hrange := Hex.toNat_of_isDigit h
  exact isAlphanum_iff.mpr (by omega)

theorem isOperandChar_of_isDigit {c : Char} (h : Hex.isDigit c = true) :
    isOperandChar c = true :=
  isOperandChar_of_isAlphanum (isAlphanum_of_isDigit h)

@[simp] theorem spelled_lower (n : Nat) : spelled isSymbolChar (Hex.lower n) = true :=
  spelled_iff.mpr fun _ hc =>
    isSymbolChar_of_isAlphanum (isAlphanum_of_isDigit (Hex.isDigit_of_mem_lower hc))

@[simp] theorem spelled_lowerPadded (width n : Nat) :
    spelled isSymbolChar (Hex.lowerPadded width n) = true :=
  spelled_iff.mpr fun _ hc =>
    isSymbolChar_of_isAlphanum (isAlphanum_of_isDigit (Hex.isDigit_of_mem_lowerPadded hc))

@[simp] theorem spelled_repr (n : Nat) : spelled isSymbolChar n.repr = true := by
  rw [spelled_iff]
  intro c hc
  refine isSymbolChar_of_isAlphanum ?_
  show (c.isAlpha || c.isDigit) = true
  rw [Text.isDigit_of_mem_repr hc, Bool.or_true]

@[simp] theorem spelled_numeral (n : Nat) : spelled isSymbolChar (numeral n) = true := by
  unfold numeral
  split
  · exact spelled_repr n
  · rw [spelled_append, spelled_lower]
    rfl

/-! ### Names -/

@[simp] theorem spelled_suffix (c : Condition) : spelled Char.isLower c.suffix = true := by
  cases c <;> rfl

@[simp] theorem Register.spelled_name (r : Register) : spelled isSymbolChar r.name = true := by
  obtain ⟨n⟩ := r
  revert n
  decide

@[simp] theorem Shift.spelled_name (s : Shift) : spelled Char.isLower s.name = true := by
  cases s <;> rfl

/-! ### Instructions

In both states the text of an instruction is its mnemonic, a tab and its operands with commas
between them. -/

/-- How an instruction is written. -/
structure IsAssembly (mnemonic : String) (operands : List String) (text : String) : Prop where
  text_eq : text = mnemonic ++ "\t" ++ ", ".intercalate operands
  mnemonic_ne : mnemonic ≠ ""
  spelled_mnemonic : spelled Char.isAlphanum mnemonic = true
  spelled_operands : ∀ operand ∈ operands, spelled isOperandChar operand = true

namespace IsAssembly

variable {mnemonic text : String} {operands : List String}

/-- The first word is the mnemonic. -/
theorem words_eq (h : IsAssembly mnemonic operands text) :
    Text.words text.toList = mnemonic.toList :: Text.words (", ".intercalate operands).toList := by
  rw [h.text_eq, String.toList_append, String.toList_append, List.append_assoc]
  refine Text.words_append (fun hnil => h.mnemonic_ne (String.toList_eq_nil_iff.mp hnil))
    (fun c hc => ?_) rfl _
  exact isBlank_of_isAlphanum (spelled_iff.mp h.spelled_mnemonic c hc)

theorem spelled_text (h : IsAssembly mnemonic operands text) : spelled isTextChar text = true := by
  have hoperand : ∀ c, isOperandChar c = true → isTextChar c = true := by
    intro c hc
    rw [isTextChar, hc, Bool.true_or]
  have hcomma : spelled isTextChar ", " = true := rfl
  have hmnemonic := spelled_mono
    (fun c hc => hoperand c (isOperandChar_of_isAlphanum hc)) h.spelled_mnemonic
  have hoperands := spelled_intercalate hcomma
    fun operand hmem => spelled_mono hoperand (h.spelled_operands operand hmem)
  rw [h.text_eq, spelled_append, spelled_append, hmnemonic, hoperands]
  rfl

theorem newline_not_mem (h : IsAssembly mnemonic operands text) : '\n' ∉ text.toList :=
  fun hmem => absurd (spelled_iff.mp h.spelled_text _ hmem) (by decide)

end IsAssembly

end ArmListing
