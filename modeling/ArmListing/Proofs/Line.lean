import ArmListing.Line
import ArmListing.Proofs.Text.Blank
import ArmListing.Proofs.Text.Hex

/-!
# ArmListing.Proofs.Line

The **columns of a line**, as a reader finds them: digits in front (`Encoding`),
and behind the address the encoding as the first word (`words_body`). A line is
a line of the listing unless its decoder breaks it (`Decoder.OneLine`).
-/

namespace ArmListing

namespace Encoding

theorem isDigit_of_mem_digits {e : Encoding} {c : Char} (h : c ∈ e.digits.toList) :
    Hex.isDigit c = true := by
  cases e <;> exact Hex.isDigit_of_mem_upperPadded h

theorem digits_ne_nil (e : Encoding) : e.digits.toList ≠ [] := by
  cases e <;> exact Hex.upperPadded_ne_nil

theorem length_digits (e : Encoding) : e.digits.toList.length = 2 * e.width.bytes := by
  cases e with
  | halfword value => exact Hex.length_upperPadded (by decide) value.isLt
  | word value => exact Hex.length_upperPadded (by decide) value.isLt

/-- The number of places in the column of an encoding. -/
def columnWidth : Nat := 8

/-- Blanks fill the places that the digits leave. -/
theorem toList_column (e : Encoding) :
    e.column.toList =
      e.digits.toList ++ List.replicate (columnWidth - 2 * e.width.bytes) ' ' := by
  cases e with
  | halfword value =>
    rw [column, String.toList_append]
    rfl
  | word value => exact (List.append_nil _).symm

/-- Without the blanks at its end a column is the digits. -/
theorem trimEnd_column (e : Encoding) : Text.trimEnd e.column.toList = e.digits.toList := by
  have hlast : ∀ c ∈ e.digits.toList.getLast?, Text.isBlank c = false :=
    fun c hc => Hex.isBlank_of_isDigit (isDigit_of_mem_digits (List.mem_of_getLast? hc))
  rw [toList_column, Text.trimEnd_append_of_blank (Text.isBlank_of_mem_replicate rfl),
    Text.trimEnd_of_last hlast]

/-- A column consists of digits and blanks. -/
theorem eq_of_mem_column {e : Encoding} {c : Char} (h : c ∈ e.column.toList) :
    Hex.isDigit c = true ∨ c = ' ' := by
  rw [toList_column] at h
  rcases List.mem_append.mp h with hdigit | hblank
  · exact .inl (isDigit_of_mem_digits hdigit)
  · exact .inr (List.eq_of_mem_replicate hblank)

end Encoding

namespace Line

/-- The encoding is the first word behind the address. -/
theorem words_body (l : Line) :
    Text.words l.body.toList = l.encoding.digits.toList :: Text.words l.decoded.text.toList := by
  have hnot : ∀ c ∈ l.encoding.digits.toList, Text.isBlank c = false :=
    fun c hc => Hex.isBlank_of_isDigit (Encoding.isDigit_of_mem_digits hc)
  let blanks := Encoding.columnWidth - 2 * l.encoding.width.bytes
  have hbody : l.body.toList = l.encoding.digits.toList ++
      ' ' :: (List.replicate blanks ' ' ++ l.decoded.text.toList) := by
    -- the blank behind the column may as well stand in front of those that fill it
    rw [body, String.toList_append, String.toList_append, Encoding.toList_column,
      List.append_assoc, List.append_assoc, ← List.cons_append, ← List.replicate_succ,
      List.replicate_succ', List.append_assoc]
    rfl
  rw [hbody, Text.words_append l.encoding.digits_ne_nil hnot rfl,
    Text.words_blanks_append (Text.isBlank_of_mem_replicate rfl)]

/-- A line ends only behind the text of its instruction. -/
theorem newline_not_mem_text {l : Line} (h : '\n' ∉ l.decoded.text.toList) :
    '\n' ∉ l.text.toList := by
  unfold text body
  rw [String.toList_append, String.toList_append, String.toList_append, String.toList_append]
  intro hmem
  simp only [List.mem_append] at hmem
  rcases hmem with (haddress | hcolon) | (hcolumn | hblank) | htext
  · exact absurd (Hex.isDigit_of_mem_upperPadded haddress) (by decide)
  · exact absurd hcolon (by decide)
  · rcases Encoding.eq_of_mem_column hcolumn with hdigit | heq
    · exact absurd hdigit (by decide)
    · exact absurd heq (by decide)
  · exact absurd hblank (by decide)
  · exact h htext

end Line

/-- No text of the decoder breaks its line. -/
def Decoder.OneLine (d : Decoder) (target : Target) : Prop :=
  ∀ p, ∀ text ∈ (d.decode target p).text?, '\n' ∉ text.toList

theorem Decoder.OneLine.newline_not_mem {d : Decoder} {target : Target} (h : d.OneLine target)
    (p : Word) : '\n' ∉ (d.decode target p).text.toList := by
  rw [Decoded.text]
  cases htext : (d.decode target p).text? with
  | none => decide
  | some text => exact h p text htext

end ArmListing
