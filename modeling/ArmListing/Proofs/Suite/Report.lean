import ArmListing.Proofs.Text.Diff
import ArmListing.Proofs.Text.Returns
import ArmListing.Suite.Report

/-!
# ArmListing.Proofs.Suite.Report

**When a report shows what differs.** Two texts are compared as a whole, but the
report shows their lines, and these do not tell the ends of lines apart. A report
marks a line if and only if the texts differ in more than carriage returns in front
of line feeds (`compare_marks_iff`); texts that differ in nothing else are refused
by a report that shows no difference. So it is with every comparison of lines that
aligns them (`LineDiff.Aligns`), in whatever way it takes one of several that are
equally good.
-/

namespace ArmListing.Suite

open Text (Edit LineDiff)

variable {diff : LineDiff} {left right : String}

/-! ### Marks -/

/-- What is written starts with the mark of a line that only one of the texts has. -/
def IsMarked (written : String) : Prop :=
  "      - ".toList <+: written.toList ∨ "      + ".toList <+: written.toList

instance (written : String) : Decidable (IsMarked written) :=
  inferInstanceAs (Decidable (_ ∨ _))

/-- Of two marks, which are equally long, what is written starts with one. -/
theorem not_prefix_of_mark {mark other : List Char} (hlength : mark.length = other.length)
    (hne : mark ≠ other) (rest : List Char) : ¬mark <+: other ++ rest := by
  intro hprefix
  have hother : other <+: other ++ rest := List.prefix_append other rest
  have hmark := List.prefix_of_prefix_length_le hprefix hother (Nat.le_of_eq hlength)
  exact hne (hmark.eq_of_length hlength)

/-- **The changes are the places that get a mark.** -/
theorem isMarked_editLine_iff (e : Edit String) : IsMarked (editLine e) ↔ e.isChange = true := by
  cases e with
  | left line =>
    refine iff_of_true (.inl ?_) rfl
    rw [editLine, String.append_assoc, String.toList_append]
    exact List.prefix_append _ _
  | both line =>
    refine iff_of_false ?_ Bool.false_ne_true
    rw [editLine, String.append_assoc, IsMarked, String.toList_append]
    rintro (hminus | hplus)
    · exact not_prefix_of_mark (by decide) (by decide) _ hminus
    · exact not_prefix_of_mark (by decide) (by decide) _ hplus
  | right line =>
    refine iff_of_true (.inr ?_) rfl
    rw [editLine, String.append_assoc, String.toList_append]
    exact List.prefix_append _ _

/-! ### Changes -/

theorem map_ofList_inj {lines lines' : List (List Char)} :
    lines.map String.ofList = lines'.map String.ofList ↔ lines = lines' :=
  List.map_inj_right fun _ _ => String.ofList_inj.mp

/-- **The difference of two texts has a change in it** if they differ in more than carriage returns
in front of line feeds, and only then. -/
theorem exists_isChange_iff (hdiff : diff.Aligns) :
    (∃ e ∈ diff left right, e.isChange = true) ↔
      Text.dropReturns left.toList ≠ Text.dropReturns right.toList := by
  obtain ⟨edits, hlongest, heq⟩ := hdiff left right
  rw [heq, ne_eq, ← Text.lines_eq_iff, Classical.not_and_iff_not_or_not]
  simp only [List.mem_append, or_and_right, exists_or]
  refine or_congr ?_ ?_
  · rw [hlongest.exists_isChange_iff, ne_eq, LineDiff.linesOf, LineDiff.linesOf, map_ofList_inj]
  · -- the ends of the last lines make a change unless both are there, or neither
    rw [LineDiff.ending]
    cases Text.endsLine left.toList <;> cases Text.endsLine right.toList <;> decide

/-! ### Reports -/

/-- What a report shows of the lines of two texts. -/
def shownLines (diff : LineDiff) (left right : String) : List String :=
  (diff left right).map editLine

/-- **A report marks a line** if the texts differ in more than carriage returns in front of line
feeds, and only then. -/
theorem exists_isMarked_iff (hdiff : diff.Aligns) :
    (∃ written ∈ shownLines diff left right, IsMarked written) ↔
      Text.dropReturns left.toList ≠ Text.dropReturns right.toList := by
  rw [← exists_isChange_iff hdiff]
  constructor
  · rintro ⟨written, hwritten, hmarked⟩
    obtain ⟨e, he, rfl⟩ := List.mem_map.mp hwritten
    exact ⟨e, he, (isMarked_editLine_iff e).mp hmarked⟩
  · rintro ⟨e, he, hchange⟩
    exact ⟨editLine e, List.mem_map_of_mem he, (isMarked_editLine_iff e).mpr hchange⟩

/-- **Texts that differ are refused by a report of their lines.** It marks one of these lines if the
texts differ in more than carriage returns in front of line feeds, and only then. -/
theorem compare_marks_iff (hdiff : diff.Aligns) (file : String) (line : Nat) (hne : left ≠ right) :
    compare diff file line left right =
        some ("error: " ++ mismatch ++ "\n" ++
          (placeLine file line ++ String.join (shownLines diff left right) ++ "\n")) ∧
      ((∃ written ∈ shownLines diff left right, IsMarked written) ↔
        Text.dropReturns left.toList ≠ Text.dropReturns right.toList) := by
  refine ⟨?_, exists_isMarked_iff hdiff⟩
  have hbytes : bytesLines [] = "" := rfl
  rw [compare, if_neg hne, diffReport, hbytes, String.append_empty, shownLines]

/-- A tab in place of blanks is a difference that the report marks. -/
theorem compare_marks_tab :
    LineDiff.standard.Aligns ∧ "mov\tr0, r1\n" ≠ "mov r0, r1\n" ∧
      ∃ written ∈ shownLines .standard "mov\tr0, r1\n" "mov r0, r1\n", IsMarked written := by
  have hdiff := LineDiff.standard_aligns
  have hne : "mov\tr0, r1\n" ≠ "mov r0, r1\n" := by decide
  exact ⟨hdiff, hne, (compare_marks_iff hdiff "" 0 hne).2.mpr (by decide)⟩

/-- A carriage return in front of a line feed is a difference that the report does not mark, however
the lines are aligned. -/
theorem compare_return_unmarked :
    "a\r\n" ≠ "a\n" ∧ LineDiff.standard.Aligns ∧ ∀ diff : LineDiff, diff.Aligns →
      compare diff "" 0 "a\r\n" "a\n" =
          some "error: invalid result\n      | a\n      | \n\n" ∧
        ¬∃ written ∈ shownLines diff "a\r\n" "a\n", IsMarked written := by
  refine ⟨by decide, LineDiff.standard_aligns, fun diff hdiff => ?_⟩
  obtain ⟨edits, hlongest, heq⟩ := hdiff "a\r\n" "a\n"
  have hleft : LineDiff.linesOf "a\r\n" = ["a"] := by decide
  have hright : LineDiff.linesOf "a\n" = ["a"] := by decide
  rw [hleft, hright] at hlongest
  -- the lines are the same, and so are their ends
  have hlines : diff "a\r\n" "a\n" = [.both "a" "a", .both "" ""] := by
    rw [heq, hlongest.eq_map_pair]
    decide
  constructor
  · rw [compare, if_neg (by decide), diffReport, hlines]
    decide
  · rw [shownLines, hlines]
    decide

end ArmListing.Suite
