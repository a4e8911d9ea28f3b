import ArmListing.Proofs.Line
import ArmListing.Proofs.Text.Lines

/-!
# ArmListing.Proofs.Line.Columns

The text of a line is **read back**: `Columns.ofText?` finds the address, the
encoding and the text of the instruction in it, whatever the instruction is
called (`ofText?_text`).

The address ends at the first colon, since it consists of digits, however many
there are. Behind it each column has a fixed place: eight places hold either
eight digits, which are a word, or four digits and blanks, which are a halfword.
Everything behind them is the text.
-/

namespace ArmListing

/-- What a line of a listing shows. Undefined encodings show the text that stands in for one. -/
structure Columns where
  address : Nat
  encoding : Encoding
  text : String
  deriving DecidableEq, Repr

/-- What is shown of a line. -/
def Line.columns (l : Line) : Columns := ⟨l.address, l.encoding, l.decoded.text⟩

namespace Encoding

/-- Reads the column of an encoding. Digits that fill it are a word, and others a halfword. -/
def ofColumn (column : List Char) : Encoding :=
  let digits := column.takeWhile Hex.isDigit
  if digits.length = columnWidth then word (BitVec.ofNat 32 (Hex.value digits))
  else halfword (BitVec.ofNat 16 (Hex.value digits))

theorem length_column (e : Encoding) : e.column.toList.length = columnWidth := by
  have hwidth := e.width.bytes_le
  rw [toList_column, List.length_append, List.length_replicate, length_digits, columnWidth]
  omega

/-- The digits in a column are those of the encoding. -/
theorem takeWhile_column (e : Encoding) :
    e.column.toList.takeWhile Hex.isDigit = e.digits.toList := by
  have hdigits : ∀ c ∈ e.digits.toList, Hex.isDigit c = true := by
    intro c hc
    exact isDigit_of_mem_digits hc
  have hblank : ¬ Hex.isDigit ' ' = true := by decide
  rw [toList_column, List.takeWhile_append_of_pos hdigits, List.takeWhile_replicate,
    if_neg hblank, List.append_nil]

/-- **The column of an encoding is read as this encoding.** -/
theorem ofColumn_column (e : Encoding) : ofColumn e.column.toList = e := by
  simp only [ofColumn, takeWhile_column, length_digits]
  cases e with
  | halfword value =>
    have hshort : 2 * (halfword value).width.bytes ≠ columnWidth := nofun
    rw [if_neg hshort, digits, Hex.value_upperPadded, BitVec.ofNat_toNat, BitVec.setWidth_eq]
  | word value =>
    have hfull : 2 * (word value).width.bytes = columnWidth := rfl
    rw [if_pos hfull, digits, Hex.value_upperPadded, BitVec.ofNat_toNat, BitVec.setWidth_eq]

end Encoding

namespace Columns

/-- Reads the line of an instruction. -/
def ofText? (line : List Char) : Option Columns :=
  (Text.splitOnce ": ".toList line).map fun (address, body) =>
    { address := Hex.value address
      encoding := .ofColumn (body.take Encoding.columnWidth)
      text := String.ofList (body.drop (Encoding.columnWidth + 1)) }

/-- **A line shows its address, its encoding and its text** in a way that they can be read. -/
theorem ofText?_text (l : Line) : ofText? l.text.toList = some l.columns := by
  have hcolon : ':' ∉ (Hex.upperPadded 8 l.address).toList := by
    intro hmem
    exact absurd (Hex.isDigit_of_mem_upperPadded hmem) (by decide)
  have hsplit : Text.splitOnce ": ".toList l.text.toList =
      some ((Hex.upperPadded 8 l.address).toList, l.body.toList) := by
    rw [Line.text, String.toList_append, String.toList_append]
    exact Text.splitOnce_append hcolon [' '] l.body.toList
  have hbody : l.body.toList = l.encoding.column.toList ++ ' ' :: l.decoded.text.toList := by
    rw [Line.body, String.toList_append, String.toList_append, List.append_assoc]
    rfl
  have htake : l.body.toList.take Encoding.columnWidth = l.encoding.column.toList := by
    rw [hbody]
    exact List.take_left' l.encoding.length_column
  have hdrop : l.body.toList.drop (Encoding.columnWidth + 1) = l.decoded.text.toList := by
    rw [hbody, ← List.drop_drop, List.drop_left' l.encoding.length_column]
    rfl
  rw [ofText?, hsplit, Option.map_some]
  simp only [htake, hdrop, Encoding.ofColumn_column, Hex.value_upperPadded, String.ofList_toList]
  rfl

end Columns

end ArmListing
