import ArmListing.Proofs.Line
import ArmListing.Proofs.Text.Lines
import ArmListing.Statistics

/-!
# ArmListing.Proofs.Statistics

**What is counted** of a line is its key. A line that a listing writes has the
key of its encoding and its text (`keyOfLine?_text`); any line with a key starts
with eight digits and a colon (`exists_of_keyOfLine?`), and a carriage return at
its end does not matter (`keyOfLine?_chomp`).
-/

namespace ArmListing

variable {line address rest : List Char} {key : String}

theorem keyOfLine?_eq (line : List Char) :
    keyOfLine? line = (Text.splitOnce ": ".toList line).bind fun parts =>
      if parts.1.length = 8 ∧ parts.1.all Hex.isDigit then keyOfFields? (Text.words parts.2)
      else none := by
  unfold keyOfLine?
  refine congrArg (Option.bind _) (funext fun parts => ?_)
  obtain ⟨address, rest⟩ := parts
  show Option.bind (if _ then some () else none) _ = _
  split <;> rfl

/-- Behind an address stands what the key is taken from. -/
theorem keyOfLine?_append (hlength : address.length = 8)
    (hdigits : ∀ c ∈ address, Hex.isDigit c = true) (rest : List Char) :
    keyOfLine? (address ++ ": ".toList ++ rest) = keyOfFields? (Text.words rest) := by
  have hcolon : ':' ∉ address := fun hmem => absurd (hdigits _ hmem) (by decide)
  have hsplit : Text.splitOnce ": ".toList (address ++ ": ".toList ++ rest) =
      some (address, rest) :=
    Text.splitOnce_append hcolon [' '] rest
  rw [keyOfLine?_eq, hsplit]
  exact if_pos ⟨hlength, List.all_eq_true.mpr hdigits⟩

theorem exists_of_keyOfLine? (h : keyOfLine? line = some key) :
    ∃ address rest, line = address ++ ": ".toList ++ rest ∧ address.length = 8 ∧
      (∀ c ∈ address, Hex.isDigit c = true) ∧ keyOfFields? (Text.words rest) = some key := by
  rw [keyOfLine?_eq] at h
  obtain ⟨⟨address, rest⟩, hsplit, h⟩ := Option.bind_eq_some_iff.mp h
  split at h
  case isTrue haddress =>
    exact ⟨address, rest, Text.eq_append_of_splitOnce hsplit, haddress.1,
      List.all_eq_true.mp haddress.2, h⟩
  case isFalse => exact nomatch h

theorem keyOfLine?_concat_return (line : List Char) :
    keyOfLine? (line ++ ['\r']) = keyOfLine? line := by
  refine Option.ext fun key => ⟨fun h => ?_, fun h => ?_⟩
  · obtain ⟨address, rest, hline, hlength, hdigits, hkey⟩ := exists_of_keyOfLine? h
    rcases List.eq_nil_or_concat rest with rfl | ⟨front, c, rfl⟩
    · -- the separator itself ends in a blank
      have hlast := congrArg List.getLast? hline
      simp at hlast
    · rw [List.concat_eq_append] at hkey hline
      rw [← List.append_assoc] at hline
      obtain ⟨rfl, hc⟩ := List.append_inj' hline rfl
      obtain rfl : '\r' = c := (List.cons.inj hc).1
      rw [Text.words_concat (by decide)] at hkey
      rwa [keyOfLine?_append hlength hdigits]
  · obtain ⟨address, rest, rfl, hlength, hdigits, hkey⟩ := exists_of_keyOfLine? h
    rw [List.append_assoc, keyOfLine?_append hlength hdigits, Text.words_concat (by decide)]
    exact hkey

/-- A carriage return at the end of a line does not matter. -/
theorem keyOfLine?_chomp (line : List Char) : keyOfLine? (Text.chomp line) = keyOfLine? line := by
  rcases Text.chomp_cases line with hreturn | hsame
  · rw [← keyOfLine?_concat_return, ← hreturn]
  · rw [hsame]

/-- A line without digits at its start has no key. -/
theorem keyOfLine?_eq_none {c d : Char} (hd : Hex.isDigit d = false) (rest : List Char) :
    keyOfLine? (c :: d :: rest) = none := by
  rw [Option.eq_none_iff_forall_ne_some]
  intro key h
  obtain ⟨address, behind, hline, hlength, hdigits, -⟩ := exists_of_keyOfLine? h
  match address, hlength with
  | a :: b :: address, _ =>
    have hsecond : d = b := (List.cons.inj (List.cons.inj hline).2).1
    rw [hsecond, hdigits b (by simp)] at hd
    contradiction

/-- The line of an instruction has the key of its encoding and its text. -/
theorem keyOfLine?_text {l : Line} (h : l.address < 16 ^ 8) :
    keyOfLine? l.text.toList =
      keyOfFields? (l.encoding.digits.toList :: Text.words l.decoded.text.toList) := by
  rw [← Line.words_body, Line.text, String.toList_append, String.toList_append,
    keyOfLine?_append (Hex.length_upperPadded (by decide) h)
      fun _ hc => Hex.isDigit_of_mem_upperPadded hc]

/-- The encoding is always one, so the mnemonic decides. -/
theorem isSome_keyOfFields? (e : Encoding) (mnemonic : List Char) (operands : List (List Char)) :
    (keyOfFields? (e.digits.toList :: mnemonic :: operands)).isSome = mnemonic.all isLetter := by
  have hdigits : e.digits.toList.all Hex.isDigit = true :=
    List.all_eq_true.mpr fun _ hc => Encoding.isDigit_of_mem_digits hc
  unfold keyOfFields?
  dsimp only
  rw [hdigits, Bool.true_and]
  cases mnemonic.all isLetter <;> rfl

end ArmListing
