import ArmListing.Proofs.Listing
import ArmListing.Proofs.Statistics.Counts

/-!
# ArmListing.Proofs.Statistics.Listing

**The keys of a listing** are those of the lines of its instructions
(`keys_text`): the header, the blank lines and the trailer have none. An
undefined encoding has no key either (`keyOfLine?_of_unknown`).
-/

namespace ArmListing

namespace Listing

theorem keyOfLine?_header (size : Nat) : keyOfLine? (header size).toList = none := by
  unfold header
  simp only [String.toList_append]
  exact keyOfLine?_eq_none (c := 'D') (d := 'i') rfl _

theorem keyOfLine?_trailer (tally : Tally) : keyOfLine? (trailer tally).toList = none := by
  rw [Option.eq_none_iff_forall_ne_some]
  intro key h
  obtain ⟨address, rest, hline, -, -, -⟩ := exists_of_keyOfLine? h
  have hcolon : ':' ∈ (trailer tally).toList := by simp [hline]
  rw [trailer, String.toList_append] at hcolon
  rcases List.mem_append.mp hcolon with hdigit | htext
  · exact absurd (Text.isDigit_of_mem_repr hdigit) (by decide)
  · exact absurd htext (by decide)

/-- **A listing has the keys of its instructions.** -/
theorem keys_text (size : Nat) {lines : List Line}
    (h : ∀ l ∈ lines, '\n' ∉ l.decoded.text.toList) :
    Statistics.keys (text size lines).toList =
      lines.filterMap fun l => keyOfLine? l.text.toList := by
  have hblank : keyOfLine? [] = none := rfl
  rw [toList_text, Statistics.keys_unlines (newline_not_mem_allLines size h), allLines,
    List.filterMap_append, List.filterMap_append, List.filterMap_map]
  simp only [List.filterMap_cons, List.filterMap_nil, keyOfLine?_header, keyOfLine?_trailer,
    hblank, List.nil_append, List.append_nil]
  rfl

end Listing

/-- Addresses fill their column, and not more, in data that eight digits can count. -/
theorem Walk.address_lt_of_size_le {w : Walk} (hsize : w.cursor.data.size ≤ 2 ^ 32) {l : Line}
    (hl : l ∈ w.lines) : l.address < 16 ^ 8 := by
  have hstop := Nat.lt_of_lt_of_le (address_lt_of_mem_lines hl) w.stop_le
  omega

/-- An undefined encoding has no key. -/
theorem keyOfLine?_of_unknown {l : Line} (h : l.address < 16 ^ 8)
    (hunknown : l.decoded.text? = none) : keyOfLine? l.text.toList = none := by
  have hwords : Text.words Decoded.unknownText.toList = [Decoded.unknownText.toList] := by
    decide
  have htext : l.decoded.text = Decoded.unknownText := by
    rw [Decoded.text, hunknown, Option.getD_none]
  rw [keyOfLine?_text h, htext, hwords, ← Option.not_isSome_iff_eq_none, isSome_keyOfFields?]
  decide

end ArmListing
