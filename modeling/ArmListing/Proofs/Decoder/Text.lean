import ArmListing.Decoder.Echo
import ArmListing.Decoder.Standard
import ArmListing.Proofs.Arm.SecondSet
import ArmListing.Proofs.Line
import ArmListing.Proofs.Thumb.Spelling

/-!
# ArmListing.Proofs.Decoder.Text

The **texts of the decoders**. Those of the standard decoder are assembler text
in either state (`isAssembly_standard`), and the mnemonic is one of letters
alone unless the word belongs to the second coprocessor set. No decoder breaks
a line (`oneLine_standard`, `oneLine_echo`).
-/

namespace ArmListing

/-- Whether code belongs to the second coprocessor set. -/
def inSecondSet : Mode → Word → Bool
  | .arm, p => decide (Arm.InSecondSet p)
  | .thumb, _ => false

theorem Decoder.isAssembly_standard {target : Target} {p : Word} {text : String}
    (h : (standard.decode target p).text? = some text) :
    ∃ mnemonic operands, IsAssembly mnemonic operands text ∧
      spelled Char.isAlpha mnemonic = !inSecondSet target.mode p := by
  obtain ⟨mode, revision⟩ := target
  cases mode with
  | arm =>
    rw [decode_standard_arm] at h
    obtain ⟨i, hi, rfl⟩ := Option.map_eq_some_iff.mp h
    refine ⟨i.mnemonic, i.operands,
      ⟨rfl, i.mnemonic_ne_empty, i.spelled_isAlphanum_mnemonic,
        fun operand hmem => (i.operandText_operands operand hmem).spelled_text⟩, ?_⟩
    rw [i.spelled_isAlpha_mnemonic, Arm.isSecondSet_of_decode hi, inSecondSet]
  | thumb =>
    rw [decode_standard_thumb] at h
    obtain ⟨i, -, rfl⟩ := Option.map_eq_some_iff.mp h
    exact ⟨i.mnemonic, i.operands,
      ⟨rfl, i.mnemonic_ne_empty,
        spelled_mono (fun _ => isAlphanum_of_isAlpha) i.spelled_isAlpha_mnemonic,
        fun operand hmem => (i.operandText_operands operand hmem).spelled_text⟩,
      i.spelled_isAlpha_mnemonic⟩

/-- What is shown for a word is a text, whether the word is defined or not. -/
theorem Decoder.spelled_text_standard (target : Target) (p : Word) :
    spelled isTextChar (standard.decode target p).text = true := by
  rw [Decoded.text]
  cases htext : (standard.decode target p).text? with
  | none => rfl
  | some text =>
    obtain ⟨mnemonic, operands, hassembly, -⟩ := isAssembly_standard htext
    exact hassembly.spelled_text

/-- No text is blank. -/
theorem Decoder.words_text_standard_ne_nil (target : Target) (p : Word) :
    Text.words (standard.decode target p).text.toList ≠ [] := by
  rw [Decoded.text]
  cases htext : (standard.decode target p).text? with
  | none => decide
  | some text =>
    obtain ⟨mnemonic, operands, hassembly, -⟩ := isAssembly_standard htext
    rw [Option.getD_some, hassembly.words_eq]
    exact List.cons_ne_nil _ _

theorem Decoder.oneLine_standard (target : Target) : standard.OneLine target := by
  intro p text htext
  obtain ⟨mnemonic, operands, hassembly, -⟩ := isAssembly_standard htext
  exact hassembly.newline_not_mem

/-! ### The decoder that shows words -/

/-- What is shown of a word is a letter and digits. -/
theorem Decoder.spelled_echo {target : Target} {p : Word} {text : String}
    (h : (echo.decode target p).text? = some text) : spelled isSymbolChar text = true := by
  obtain ⟨mode, revision⟩ := target
  cases mode with
  | arm =>
    obtain ⟨-, htext⟩ := Option.ite_none_left_eq_some.mp h
    rw [← Option.some.inj htext, spelled_append, spelled_lower]
    rfl
  | thumb =>
    obtain ⟨-, htext⟩ := Option.ite_none_left_eq_some.mp h
    rw [← Option.some.inj htext, spelled_append, spelled_lower]
    rfl

theorem Decoder.oneLine_echo (target : Target) : echo.OneLine target := by
  intro p text htext hnewline
  exact absurd (spelled_iff.mp (spelled_echo htext) _ hnewline) (by decide)

/-- No word is shown as an undefined encoding. -/
theorem Decoder.text_echo_ne_unknown (target : Target) (p : Word) :
    (echo.decode target p).text? ≠ some Decoded.unknownText := by
  intro htext
  exact absurd (spelled_echo htext) (by decide)

end ArmListing
