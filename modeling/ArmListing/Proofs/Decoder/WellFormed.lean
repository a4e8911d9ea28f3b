import ArmListing.Proofs.Decoder.Tables
import ArmListing.Proofs.Decoder.Text

/-!
# ArmListing.Proofs.Decoder.WellFormed

Texts of instructions are **well formed** (`Decoder.isWellFormed_standard`), on
which listings, statistics and the reader of test files rely.

`IsWellFormed` does not speak of instructions or operands. It says what is true
of the characters: a mnemonic, a tab, and operands that can be taken apart at
their commas.
-/

namespace ArmListing

/-- What may stand before the tab: a word in lower-case letters, or a mnemonic of the second
coprocessor set. -/
def IsMnemonic (text : String) : Prop :=
  (text ≠ "" ∧ spelled Char.isLower text = true) ∨ text ∈ Arm.Instruction.secondSetMnemonics

/-- What may stand behind the tab. -/
structure IsOperands (text : String) : Prop where
  ne_empty : text ≠ ""
  /-- All characters are printable ASCII. -/
  isPrintable : ∀ c ∈ text.toList, 0x20 ≤ c.toNat ∧ c.toNat ≤ 0x7e
  /-- The marks of columns, lines and comments do not occur. -/
  not_mem : ∀ c ∈ "\t\n@:".toList, c ∉ text.toList
  head?_ne_space : text.toList.head? ≠ some ' '
  getLast?_ne_space : text.toList.getLast? ≠ some ' '
  /-- Taken apart at commas with a space behind them, the text leaves no piece empty. -/
  pieces_ne_nil : ∀ piece ∈ commaPieces text.toList, piece ≠ []
  isBalanced : IsBalanced text.toList

/-- A mnemonic, a tab and operands. -/
def IsWellFormed (text : String) : Prop :=
  ∃ mnemonic operands, text = mnemonic ++ "\t" ++ operands ∧
    IsMnemonic mnemonic ∧ IsOperands operands

theorem isPrintable_of_isOperandChar {c : Char} (h : isOperandChar c = true) :
    0x20 ≤ c.toNat ∧ c.toNat ≤ 0x7e := by
  have hmarks : spelled (fun m => decide (0x20 ≤ m.toNat ∧ m.toNat ≤ 0x7e))
      "#[]\x7b\x7d,-+.!^_ " = true := rfl
  rcases (Bool.or_eq_true _ _).mp h with halphanum | hmark
  · have hranges := isAlphanum_iff.mp halphanum
    omega
  · exact of_decide_eq_true (spelled_iff.mp hmarks c (List.contains_iff_mem.mp hmark))

theorem OperandText.isOperands {text : String} (h : OperandText text) : IsOperands text where
  ne_empty := h.ne_empty
  isPrintable c hc := isPrintable_of_isOperandChar (spelled_iff.mp h.spelled_text c hc)
  not_mem := by
    have hmarks : spelled (!isOperandChar ·) "\t\n@:" = true := rfl
    intro c hc hmem
    have hnot := spelled_iff.mp hmarks c hc
    rw [spelled_iff.mp h.spelled_text c hmem] at hnot
    contradiction
  head?_ne_space := h.head?_ne_space
  getLast?_ne_space := h.getLast?_ne_space
  pieces_ne_nil := h.ne_nil_of_mem_pieces
  isBalanced := h.isBalanced

namespace Arm.Instruction

theorem isMnemonic_mnemonic (i : Instruction) : IsMnemonic i.mnemonic := by
  cases h : i.isSecondSet with
  | false =>
    refine .inl ⟨i.mnemonic_ne_empty, ?_⟩
    rw [i.spelled_mnemonic, h]
    rfl
  | true => exact .inr (mnemonic_of_isSecondSet h)

theorem isWellFormed_text (i : Instruction) : IsWellFormed i.text :=
  ⟨i.mnemonic, ", ".intercalate i.operands, rfl, i.isMnemonic_mnemonic,
    (OperandText.intercalate i.operands_ne_nil i.operandText_operands).isOperands⟩

end Arm.Instruction

namespace Thumb.Instruction

theorem isWellFormed_text (i : Instruction) : IsWellFormed i.text :=
  ⟨i.mnemonic, ", ".intercalate i.operands, rfl, .inl ⟨i.mnemonic_ne_empty, i.spelled_mnemonic⟩,
    (OperandText.intercalate i.operands_ne_nil i.operandText_operands).isOperands⟩

end Thumb.Instruction

/-- Whether the tables of names have a place for all that a word looks up in them. In Thumb state
only the low halfword does. -/
def TablesCover : Mode → Word → Prop
  | .arm, p => Arm.TablesCover p
  | .thumb, p => Thumb.TablesCover (p.unsignedField 0 16)

/-- The text of a known instruction is well formed, and no word is looked up outside of a table. -/
theorem Decoder.isWellFormed_standard (target : Target) (p : Word) :
    (∀ text, (standard.decode target p).text? = some text → IsWellFormed text) ∧
      TablesCover target.mode p := by
  obtain ⟨mode, revision⟩ := target
  cases mode with
  | arm =>
    refine ⟨fun text htext => ?_, Arm.tablesCover p⟩
    rw [decode_standard_arm] at htext
    obtain ⟨i, -, rfl⟩ := Option.map_eq_some_iff.mp htext
    exact i.isWellFormed_text
  | thumb =>
    refine ⟨fun text htext => ?_, Thumb.tablesCover _⟩
    rw [decode_standard_thumb] at htext
    obtain ⟨i, -, rfl⟩ := Option.map_eq_some_iff.mp htext
    exact i.isWellFormed_text

/-- Brackets and braces behind a mnemonic of the second coprocessor set. -/
theorem Decoder.isWellFormed_standard_unindexed :
    (standard.decode ⟨.arm, .v5te⟩ 0xfcd32110#32).text? =
        some "ldc2l\tp1, c2, [r3], \x7b16\x7d" ∧
      IsWellFormed "ldc2l\tp1, c2, [r3], \x7b16\x7d" ∧ TablesCover .arm 0xfcd32110#32 :=
  ⟨by decide, (isWellFormed_standard ⟨.arm, .v5te⟩ 0xfcd32110#32).1 _ (by decide),
    (isWellFormed_standard ⟨.arm, .v5te⟩ 0xfcd32110#32).2⟩

end ArmListing
