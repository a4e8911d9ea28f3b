import ArmListing.Proofs.Decoder.Replay
import ArmListing.Proofs.Decoder.Text
import ArmListing.Proofs.Suite.Groups
import ArmListing.Proofs.Suite.Run

/-!
# ArmListing.Proofs.Suite.Sample

**Test files that the decoder writes itself.** For any words, a file can be made
that asks for what the decoder says of them: a line for each word, with the bytes
that its instruction takes, the text and the flag of the revision
(`Sample.fileText`).

Such a file is passed (`run_fileText`). Three things make it so. Every line is
read as it was written (`Sample.readLine?_line`), since no text has a character
that a reader looks for; the bytes of a narrow instruction say as much as the
word that they were cut out of (`Decoder.decode_code_ofPrefetch`); and trimming
does not change the words of a text.
-/

namespace ArmListing.Suite

/-! ### What is written -/

/-- The bytes of an instruction as a test file has them: a word of ARM state is one group, in Thumb
state each halfword is one. -/
def groupsOf (mode : Mode) : Encoding → List String
  | .halfword value => [Hex.lowerPadded 4 value.toNat]
  | .word value =>
    match mode with
    | .arm => [Hex.lowerPadded 8 value.toNat]
    | .thumb => [Hex.lowerPadded 4 (value.field 0 16), Hex.lowerPadded 4 (value.field 16 16)]

/-- The flag that chooses a revision. -/
def flagOf : Revision → String
  | .v4t => "+v4t"
  | .v5te => "+v5te"

/-- A word for a test file, the revision that it is read for, and the blanks in its line. -/
structure Sample where
  code : Word
  revision : Revision
  /-- The number of blanks in front of the text, beyond the two that must stand there. -/
  gap : Nat
  /-- The number of blanks in front of the comment. -/
  margin : Nat
  deriving DecidableEq, Repr

namespace Sample

variable (mode : Mode) (s : Sample)

/-- What the decoder says of the word. -/
def decoded : Decoded := Decoder.standard.decode ⟨mode, s.revision⟩ s.code

/-- The part of the word that the instruction takes. -/
def encoding : Encoding := Encoding.ofPrefetch s.code (s.decoded mode).width

def blanks (count : Nat) : String := String.ofList (List.replicate count ' ')

/-- The line in front of its comment. -/
def body : String :=
  " ".intercalate (groupsOf mode (s.encoding mode)) ++ blanks (s.gap + 2) ++
    (s.decoded mode).text ++ blanks s.margin

/-- The line that asks for what the decoder says of the word. -/
def line : String := s.body mode ++ "@ " ++ flagOf s.revision

/-- The test file with a line for each sample. -/
def fileText (samples : List Sample) : String :=
  String.ofList (Text.unlines (samples.map fun s => (s.line mode).toList))

example : fileText .thumb [⟨0xf800f000, .v4t, 4, 2⟩, ⟨0xf8002001, .v5te, 0, 1⟩] =
    "f000 f800      bl\t.+0x4  @ +v4t\n2001  mov\tr0, #1 @ +v5te\n" := by
  decide +kernel

end Sample

/-! ### Groups -/

theorem map_groupsOf_ne_nil (mode : Mode) (e : Encoding) :
    (groupsOf mode e).map String.toList ≠ [] := by
  cases e <;> cases mode <;> exact List.cons_ne_nil _ _

theorem isGroup_of_mem_groupsOf (mode : Mode) (e : Encoding) :
    ∀ g ∈ (groupsOf mode e).map String.toList, IsGroup g := by
  have hhalf : ∀ n < 2 ^ 16, IsGroup (Hex.lowerPadded 4 n).toList :=
    fun n h => isGroup_lowerPadded 2 (by decide) (by decide) h
  cases e with
  | halfword value => exact List.forall_mem_singleton.mpr (hhalf _ value.isLt)
  | word value =>
    cases mode with
    | arm =>
      have hword := isGroup_lowerPadded 4 (by decide) (by decide) value.isLt
      exact List.forall_mem_singleton.mpr hword
    | thumb =>
      refine List.forall_mem_cons.mpr ⟨hhalf _ ?_, List.forall_mem_singleton.mpr (hhalf _ ?_)⟩
      · exact value.field_lt (by decide)
      · exact value.field_lt (by decide)

/-- Together the groups hold the bytes of the instruction. -/
theorem flatMap_groupsOf (mode : Mode) (e : Encoding) :
    ((groupsOf mode e).map String.toList).flatMap groupBytes = e.bytes := by
  have hhalf : ∀ n < 2 ^ 16, groupBytes (Hex.lowerPadded 4 n).toList = Code.bytesOf 2 n :=
    fun n h => groupBytes_lowerPadded 2 (by decide) h
  rw [List.flatMap_map]
  cases e with
  | halfword value =>
    rw [groupsOf, List.flatMap_singleton]
    exact hhalf _ value.isLt
  | word value =>
    cases mode with
    | arm =>
      have hword := groupBytes_lowerPadded 4 (by decide) value.isLt
      rw [groupsOf, List.flatMap_singleton]
      exact hword
    | thumb =>
      -- the low halfword is the remainder of the word, and the high one its quotient
      have hlow := Code.bytesOf_mod 2 value.toNat
      have hhigh := Code.bytesOf_mod 2 (value.toNat / 256 ^ 2)
      have hword := Code.bytesOf_add 2 2 value.toNat
      rw [groupsOf, List.flatMap_cons, List.flatMap_singleton,
        hhalf _ (value.field_lt (by decide)), hhalf _ (value.field_lt (by decide)),
        value.field_eq (by decide), value.field_eq (by decide), Encoding.bytes, hword, ← hlow,
        ← hhigh, Nat.pow_zero, Nat.div_one]
      rfl

/-! ### Lines -/

namespace Sample

variable (mode : Mode) (s : Sample)

theorem toList_blanks (count : Nat) : (blanks count).toList = List.replicate count ' ' := by
  rw [blanks, String.toList_ofList]

theorem spelled_blanks (count : Nat) : spelled isTextChar (blanks count) = true := by
  rw [spelled_iff, toList_blanks]
  intro c hc
  rw [List.eq_of_mem_replicate hc]
  rfl

theorem spelled_groupsOf (e : Encoding) : ∀ g ∈ groupsOf mode e, spelled isTextChar g = true := by
  intro g hg
  refine spelled_iff.mpr fun c hc => ?_
  have hdigit := (isGroup_of_mem_groupsOf mode e g.toList (List.mem_map_of_mem hg)).isDigit c hc
  rw [isTextChar, isOperandChar_of_isDigit hdigit, Bool.true_or]

theorem spelled_body : spelled isTextChar (s.body mode) = true := by
  have hspace : spelled isTextChar " " = true := rfl
  have hgroups := spelled_intercalate hspace (spelled_groupsOf mode (s.encoding mode))
  have htext := Decoder.spelled_text_standard ⟨mode, s.revision⟩ s.code
  rw [body, spelled_append, spelled_append, spelled_append, hgroups, spelled_blanks,
    spelled_blanks, decoded, htext]
  rfl

theorem not_mem_body {c : Char} (h : isTextChar c = false) : c ∉ (s.body mode).toList := by
  intro hc
  rw [spelled_iff.mp (s.spelled_body mode) c hc] at h
  contradiction

theorem toList_body : (s.body mode).toList =
    [' '].intercalate ((groupsOf mode (s.encoding mode)).map String.toList) ++
      (List.replicate (s.gap + 2) ' ' ++ ((s.decoded mode).text.toList ++
        List.replicate s.margin ' ')) := by
  rw [body, String.toList_append, String.toList_append, String.toList_append,
    String.toList_intercalate, toList_blanks, toList_blanks, List.append_assoc, List.append_assoc]
  rfl

/-- Blanks behind the text do not count. -/
theorem trimEnd_body : Text.trimEnd (s.body mode).toList =
    [' '].intercalate ((groupsOf mode (s.encoding mode)).map String.toList) ++
      (List.replicate (s.gap + 2) ' ' ++ Text.trimEnd (s.decoded mode).text.toList) := by
  have htext : Text.trimEnd (s.decoded mode).text.toList ≠ [] := by
    intro hnil
    have hwords := Decoder.words_text_standard_ne_nil ⟨mode, s.revision⟩ s.code
    rw [← Text.words_trimEnd] at hwords
    exact hwords (congrArg Text.words hnil)
  rw [toList_body, ← List.append_assoc, ← List.append_assoc,
    Text.trimEnd_append_of_blank (Text.isBlank_of_mem_replicate rfl), Text.trimEnd_append htext,
    List.append_assoc]

/-- A line starts with a digit. -/
theorem exists_body_eq :
    ∃ c rest, Text.isBlank c = false ∧ (s.body mode).toList = c :: rest := by
  obtain ⟨first, others, hgroups⟩ :=
    List.exists_cons_of_ne_nil (map_groupsOf_ne_nil mode (s.encoding mode))
  have hfirst : IsGroup first :=
    isGroup_of_mem_groupsOf mode _ first (by rw [hgroups]; exact List.mem_cons_self)
  obtain ⟨c, digits, rfl⟩ := List.exists_cons_of_length_pos (Nat.zero_lt_of_lt hfirst.two_le)
  have hbody := s.toList_body mode
  rw [hgroups, intercalate_cons_eq_flatMap, List.cons_append, List.cons_append] at hbody
  exact ⟨c, _, Hex.isBlank_of_isDigit (hfirst.isDigit c List.mem_cons_self), hbody⟩

theorem toList_line : (s.line mode).toList =
    (s.body mode).toList ++ '@' :: ' ' :: (flagOf s.revision).toList := by
  rw [line, String.toList_append, String.toList_append, List.append_assoc]
  rfl

/-- The case that is read from the line. -/
def expected (number : Nat) : Case where
  line := number
  comment := flagOf s.revision
  bytes := (s.encoding mode).bytes
  assembly := String.ofList (Text.trim (s.decoded mode).text.toList)

/-- **A line is read as it was written.** -/
theorem readLine?_line (number : Nat) :
    readLine? number (s.line mode).toList = some (.found, s.expected mode number) := by
  have hgroups := isGroup_of_mem_groupsOf mode (s.encoding mode)
  have hne := map_groupsOf_ne_nil mode (s.encoding mode)
  have hcolon : ':' ∉ Text.trimEnd (s.body mode).toList :=
    fun hmem => s.not_mem_body mode rfl (Text.mem_of_mem_trimEnd hmem)
  have hcomment : String.ofList (Text.trim (' ' :: (flagOf s.revision).toList)) =
      flagOf s.revision := by
    cases s.revision <;> rfl
  rw [toList_line, readLine?_of_comment (s.exists_body_eq mode) (s.not_mem_body mode rfl),
    fill_of_not_mem hcolon, trimEnd_body,
    fillBody_intercalate hgroups hne (Text.isBlank_of_mem_replicate rfl) (by simp),
    flatMap_groupsOf, hcomment, Text.trimStart_trimEnd]
  rfl

theorem newline_not_mem_line : '\n' ∉ (s.line mode).toList := by
  rw [toList_line]
  intro hmem
  rcases List.mem_append.mp hmem with hbody | hcomment
  · exact s.not_mem_body mode rfl hbody
  · have hflag : ∀ revision, '\n' ∉ '@' :: ' ' :: (flagOf revision).toList := by
      intro revision
      cases revision <;> decide
    exact hflag s.revision hcomment

end Sample

/-! ### Files -/

theorem revisionOfFlags_flagOf (revision : Revision) :
    revisionOfFlags (flags (flagOf revision)) .v5te = .ok revision := by
  cases revision <;> rfl

namespace Sample

variable (mode : Mode) (s : Sample)

/-- What the decoder says of a word is what it says of the bytes that are read back. -/
theorem passes_expected (number : Nat) : (s.expected mode number).Passes mode := by
  have hword : (s.expected mode number).word = (s.encoding mode).code := Case.word_of_bytes rfl
  have hdecode : Decoder.standard.decode ⟨mode, s.revision⟩ (s.encoding mode).code =
      s.decoded mode := Decoder.decode_code_ofPrefetch ⟨mode, s.revision⟩ s.code
  have hwidth : (s.encoding mode).width = (s.decoded mode).width := Encoding.width_ofPrefetch ..
  refine ⟨s.revision, revisionOfFlags_flagOf s.revision, ?_⟩
  rw [hword, hdecode, ← hwidth]
  exact ⟨(s.encoding mode).length_bytes.symm, (singleSpaced_trim _).symm⟩

/-- A case is found for each sample. -/
theorem readings_fileText (samples : List Sample) :
    readings 1 (Text.lines (fileText mode samples).toList) =
      (samples.zipIdx 1).map fun p => (.found, p.1.expected mode p.2) := by
  rw [fileText, String.toList_ofList]
  exact readings_unlines (readLine?_line mode) (newline_not_mem_line mode) samples 1

end Sample

/-- **A test file that asks for what the decoder says is passed** without a word, in either state and
with a revision for each line. -/
theorem run_fileText (diff : Text.LineDiff) (mode : Mode) (file : String)
    (samples : List Sample) :
    run diff mode file (Sample.fileText mode samples) = (.passed, "") := by
  have hpasses : ∀ found ∈ (samples.zipIdx 1).map fun p => (Reading.found, p.1.expected mode p.2),
      found.1 = .found ∧ found.2.Passes mode := by
    intro found hfound
    obtain ⟨⟨s, number⟩, -, rfl⟩ := List.mem_map.mp hfound
    exact ⟨rfl, s.passes_expected mode number⟩
  rw [run_eq, Sample.readings_fileText, judge_of_passes hpasses]
  rfl

end ArmListing.Suite
