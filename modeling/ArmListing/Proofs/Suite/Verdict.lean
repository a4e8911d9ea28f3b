import Mathlib.Data.List.Basic
import Mathlib.Data.List.TakeWhile
import ArmListing.Proofs.Suite.Entry
import ArmListing.Proofs.Suite.Respacing
import ArmListing.Proofs.Suite.Run
import ArmListing.Text.Diff

/-!
# ArmListing.Proofs.Suite.Verdict

**What a run returns**, told from the lines of the file one by one.

A case agrees if its bytes are an instruction of their width with the words of
its text, in the revision that the last flag of its comment names
(`Case.Agrees`). A run goes through the cases and counts those that do not agree,
whatever it reports of them (`judge_append`), until a line is refused. So it
returns the message of the first line that is refused, and else nothing or the
number of these cases (`run_result`).

How lines are compared does not change what is returned (`run_fst_congr`), and two
ways to change a file do not either. Blanks in the text of a case may be replaced
by others, because only its words are compared (`judge_map_spaced`); and the lines
with cases may be put in another order, because the number of a line is not looked
at (`map_renumber_readings`).
-/

namespace ArmListing.Suite

open Text (LineDiff)

/-! ### Results -/

/-- Whether a line is refused. -/
def Reading.isFault : Reading → Bool
  | fault .. => true
  | _ => false

/-- What a run returns, which is nothing or a message, unless it breaks off. -/
def Verdict.result? : Verdict → Option (Except String Unit)
  | passed => some (.ok ())
  | failed count => some (.error (failedMessage count))
  | refused message => some (.error message)
  | brokenOff _ => none

theorem Verdict.result?_ofFailures (failures : Nat) :
    (ofFailures failures).result? =
      some (if failures = 0 then .ok () else .error (failedMessage failures)) := by
  cases failures <;> rfl

/-! ### Words -/

/-- A text has its words with single spaces between them, too. -/
theorem words_singleSpaced (text : String) :
    Text.words (singleSpaced text).toList = Text.words text.toList := by
  have htext : (singleSpaced text).toList = [' '].intercalate (Text.words text.toList) := by
    rw [singleSpaced, String.toList_intercalate, List.map_map]
    exact congrArg [' '].intercalate (List.map_id'' (fun _ => String.toList_ofList) _)
  rw [htext, Text.words_intercalate fun _ => Text.isWord_of_mem_words]

/-- **Texts are compared by their words.** -/
theorem singleSpaced_inj {first second : String} :
    singleSpaced first = singleSpaced second ↔
      Text.words first.toList = Text.words second.toList := by
  constructor
  · intro h
    rw [← words_singleSpaced first, h, words_singleSpaced]
  · intro h
    rw [singleSpaced, h, singleSpaced]

/-! ### Cases -/

/-- The revision that a flag names. -/
def revisionOfFlag (flag : String × Bool) : Revision := if flag.1 = "v4t" then .v4t else .v5te

namespace Case

variable (mode : Mode) (c : Case)

/-- Whether the comment of a case has no other flags than those of the two revisions. -/
def KnowsFlags : Prop := ∀ flag ∈ flags c.comment, flag = ("v4t", true) ∨ flag = ("v5te", true)

instance : Decidable c.KnowsFlags := inferInstanceAs (Decidable (∀ flag ∈ flags c.comment, _))

/-- The revision that the last flag of the comment names, and ARMv5TE if there is none. -/
def revision : Revision := ((flags c.comment).getLast?.map revisionOfFlag).getD .v5te

/-- What the bytes are decoded to. -/
def decoded : Decoded := Decoder.standard.decode ⟨mode, c.revision⟩ c.word

/-- Whether the instruction is as wide as the bytes are many, and has the words of the text. -/
def Agrees : Prop :=
  (c.decoded mode).width.bytes = c.bytes.length ∧
    Text.words (c.decoded mode).text.toList = Text.words c.assembly.toList

instance : Decidable (c.Agrees mode) := inferInstanceAs (Decidable (_ ∧ _))

end Case

variable {diff diff' : LineDiff} {mode : Mode} {file : String} {c : Case}
variable {front back all : List (Reading × Case)}

/-- Known flags choose a revision, and the last one decides. -/
theorem revisionOfFlags_eq {all : List (String × Bool)}
    (h : ∀ flag ∈ all, flag = ("v4t", true) ∨ flag = ("v5te", true)) (revision : Revision) :
    revisionOfFlags all revision = .ok ((all.getLast?.map revisionOfFlag).getD revision) := by
  induction all generalizing revision with
  | nil => rfl
  | cons flag rest ih =>
    obtain ⟨hflag, hrest⟩ := List.forall_mem_cons.mp h
    have hstep : revisionOfFlags (flag :: rest) revision =
        revisionOfFlags rest (revisionOfFlag flag) := by
      rcases hflag with rfl | rfl <;> rfl
    rw [hstep, ih hrest, List.getLast?_cons, Option.map_some, Option.getD_some, Option.getD_map]

/-- A case with known flags passes if it agrees, and only then. -/
theorem Case.passes_iff (h : c.KnowsFlags) : c.Passes mode ↔ c.Agrees mode := by
  have hflags := revisionOfFlags_eq h .v5te
  rw [Passes, hflags]
  constructor
  · rintro ⟨revision, heq, hwidth, htext⟩
    cases heq
    exact ⟨hwidth, singleSpaced_inj.mp htext⟩
  · rintro ⟨hwidth, htext⟩
    exact ⟨_, rfl, hwidth, singleSpaced_inj.mpr htext⟩

/-! ### Counting -/

/-- The number of readings whose cases do not agree. -/
def failuresIn (mode : Mode) (all : List (Reading × Case)) : Nat :=
  all.countP fun found => ¬found.2.Agrees mode

/-- A case is counted if it does not agree, whatever is reported of it. -/
theorem judge_cons (h : c.KnowsFlags) (rest : List (Reading × Case)) (failures : Nat)
    (reports : String) :
    ∃ reports', judge diff mode file ((.found, c) :: rest) failures reports =
      judge diff mode file rest (failures + if c.Agrees mode then 0 else 1) reports' := by
  by_cases hagrees : c.Agrees mode
  · rw [judge_cons_of_passes ((Case.passes_iff h).mpr hagrees), if_pos hagrees]
    exact ⟨reports, rfl⟩
  · have hreport : caseReport? diff file c (c.decoded mode) ≠ none := by
      rw [ne_eq, caseReport?_eq_none_iff, singleSpaced_inj]
      exact hagrees
    obtain ⟨report, hreport⟩ := Option.ne_none_iff_exists'.mp hreport
    have hflags : revisionOfFlags (flags c.comment) .v5te = .ok c.revision :=
      revisionOfFlags_eq h .v5te
    rw [judge, hflags, if_neg hagrees]
    dsimp only
    rw [← Case.decoded, hreport]
    exact ⟨reports ++ report, rfl⟩

/-- **Cases are counted one by one**, and the run goes on behind them. -/
theorem judge_append (h : ∀ found ∈ front, found.1 = .found ∧ found.2.KnowsFlags)
    (back : List (Reading × Case)) (failures : Nat) (reports : String) :
    ∃ reports', judge diff mode file (front ++ back) failures reports =
      judge diff mode file back (failures + failuresIn mode front) reports' := by
  induction front generalizing failures reports with
  | nil => exact ⟨reports, rfl⟩
  | cons found rest ih =>
    obtain ⟨⟨hfound, hflags⟩, hrest⟩ := List.forall_mem_cons.mp h
    obtain ⟨reading, c⟩ := found
    obtain rfl : reading = .found := hfound
    obtain ⟨reports', hstep⟩ := judge_cons hflags (rest ++ back) failures reports
    obtain ⟨reports'', hback⟩ := ih hrest (failures + if c.Agrees mode then 0 else 1) reports'
    refine ⟨reports'', ?_⟩
    rw [List.cons_append, hstep, hback, failuresIn, failuresIn, List.countP_cons, Nat.add_assoc,
      Nat.add_comm (List.countP _ rest)]
    by_cases hagrees : c.Agrees mode <;> simp [hagrees]

/-! ### Files -/

/-- What the lines of a text come to. -/
def readingsOf (text : String) : List (Reading × Case) := (Reader.ofText text).readAll {}

/-- The cases of a text. -/
def casesOf (text : String) : List Case := (readingsOf text).filterMap caseOf?

/-- The lines of a text that have a case in them, without the blanks around them. -/
def caseLines (text : String) : List (List Char) :=
  ((Text.lines text.toList).filter hasCase).map Text.trim

/-- Whether a run of a text comes to an end: up to the first line that is refused, no reading breaks
off and no comment has an unknown flag. -/
structure RunsThrough (text : String) : Prop where
  not_overrun : ∀ found ∈ (readingsOf text).takeWhile (!·.1.isFault), found.1 ≠ .overrun
  knowsFlags : ∀ found ∈ (readingsOf text).takeWhile (!·.1.isFault), found.2.KnowsFlags

variable {text : String}

theorem readingsOf_eq (text : String) : readingsOf text = readings 1 (Text.lines text.toList) :=
  Reader.readAll_eq _ _

theorem ne_finished_of_mem_readings {number : Nat} {lines : List (List Char)}
    {found : Reading × Case} (h : found ∈ readings number lines) : found.1 ≠ .finished := by
  induction lines generalizing number with
  | nil => contradiction
  | cons line rest ih =>
    rw [readings, List.mem_append] at h
    rcases h with hline | hrest
    · exact readLine?_ne_finished (Option.mem_toList.mp hline)
    · exact ih hrest

/-- Up to the first line that is refused a run goes through cases with known flags. -/
theorem RunsThrough.found (h : RunsThrough text) :
    ∀ found ∈ (readingsOf text).takeWhile (!·.1.isFault),
      found.1 = .found ∧ found.2.KnowsFlags := by
  intro found hmem
  refine ⟨?_, h.knowsFlags found hmem⟩
  have hfault := List.all_eq_true.mp List.all_takeWhile found hmem
  have hoverrun := h.not_overrun found hmem
  have hfinished : found.1 ≠ .finished := by
    have hreading := (List.takeWhile_sublist _).subset hmem
    rw [readingsOf_eq] at hreading
    exact ne_finished_of_mem_readings hreading
  obtain ⟨reading, c⟩ := found
  cases reading with
  | found => rfl
  | fault => contradiction
  | overrun => contradiction
  | finished => contradiction

theorem run_eq_judge (diff : LineDiff) (mode : Mode) (file text : String) :
    run diff mode file text = judge diff mode file (readingsOf text) 0 "" := rfl

/-- **The first line that is refused** is what a run returns. -/
theorem run_of_fault (h : RunsThrough text) {number : Nat} {f : Fault}
    (hfault : (readingsOf text).find? (·.1.isFault) = some (.fault number f, c)) :
    (run diff mode file text).1 = .refused (f.message file number) := by
  obtain ⟨-, front, back, hall, hfront⟩ := List.find?_eq_some_iff_append.mp hfault
  -- what stands in front of the first refused line is what the run goes through
  have hfound := h.found
  rw [hall, List.takeWhile_append_of_pos hfront, List.takeWhile_cons_of_neg Bool.false_ne_true,
    List.append_nil] at hfound
  obtain ⟨reports, hjudge⟩ : ∃ reports,
      judge diff mode file (front ++ _) 0 "" = judge diff mode file _ _ _ :=
    judge_append hfound ((.fault number f, c) :: back) 0 ""
  rw [run_eq_judge, hall, hjudge, judge]

/-- Where no line is refused, a run counts the cases that do not agree. -/
theorem run_of_found (h : ∀ found ∈ readingsOf text, found.1 = .found ∧ found.2.KnowsFlags) :
    (run diff mode file text).1 = .ofFailures (failuresIn mode (readingsOf text)) := by
  obtain ⟨reports, hjudge⟩ := judge_append h [] 0 ""
  rw [List.append_nil, Nat.zero_add] at hjudge
  rw [run_eq_judge, hjudge, judge]

/-! ### Blanks in a text -/

/-- A reading with single spaces between the words of its text. -/
def spaced (found : Reading × Case) : Reading × Case :=
  (found.1, { found.2 with assembly := singleSpaced found.2.assembly })

/-- Single spaces between its words do not change whether a case agrees with an instruction. -/
theorem caseReport?_spaced_eq_none_iff {decoded : Decoded} :
    caseReport? diff' file { c with assembly := singleSpaced c.assembly } decoded = none ↔
      caseReport? diff file c decoded = none := by
  rw [caseReport?_eq_none_iff, caseReport?_eq_none_iff, singleSpaced_inj, singleSpaced_inj,
    words_singleSpaced]

/-- Cases with the same flags and the same word are counted alike if the same instructions are right
for them, whatever has been reported and however lines are compared. -/
theorem judge_cons_congr (c c' : Case) {rest rest' : List (Reading × Case)}
    (hcomment : c'.comment = c.comment) (hword : c'.word = c.word)
    (hreport : ∀ decoded,
      caseReport? diff' file c' decoded = none ↔ caseReport? diff file c decoded = none)
    (hrest : ∀ failures reports reports', (judge diff' mode file rest' failures reports).1 =
      (judge diff mode file rest failures reports').1) (failures : Nat) (reports reports' : String) :
    (judge diff' mode file ((.found, c') :: rest') failures reports).1 =
      (judge diff mode file ((.found, c) :: rest) failures reports').1 := by
  rw [judge, judge, hcomment, hword]
  cases revisionOfFlags (flags c.comment) .v5te with
  | error name => rfl
  | ok revision =>
    dsimp only
    have hnone := hreport (Decoder.standard.decode ⟨mode, revision⟩ c.word)
    cases hright : caseReport? diff file c (Decoder.standard.decode ⟨mode, revision⟩ c.word) with
    | none =>
      rw [hnone.mpr hright]
      exact hrest failures reports reports'
    | some report =>
      rw [hright] at hnone
      obtain ⟨report', hreport'⟩ :=
        Option.ne_none_iff_exists'.mp (mt hnone.mp (Option.some_ne_none report))
      rw [hreport']
      exact hrest (failures + 1) _ _

/-- **Nothing but the words of a text is judged.** -/
theorem judge_map_spaced (diff' : LineDiff) (all : List (Reading × Case)) (failures : Nat)
    (reports reports' : String) :
    (judge diff' mode file (all.map spaced) failures reports).1 =
      (judge diff mode file all failures reports').1 := by
  induction all generalizing failures reports reports' with
  | nil => rfl
  | cons found rest ih =>
    obtain ⟨reading, c⟩ := found
    cases reading with
    | finished => rfl
    | fault => rfl
    | overrun => rfl
    | found =>
      rw [List.map_cons, spaced]
      exact judge_cons_congr c { c with assembly := singleSpaced c.assembly } rfl rfl
        (fun _ => caseReport?_spaced_eq_none_iff) ih failures reports reports'

/-- How lines are compared is seen in the reports of a run only. -/
theorem run_fst_congr (diff diff' : LineDiff) (mode : Mode) (file text : String) :
    (run diff mode file text).1 = (run diff' mode file text).1 := by
  have hspaced : ∀ diff : LineDiff, (run diff mode file text).1 =
      (judge diff' mode file ((readingsOf text).map spaced) 0 "").1 :=
    fun _ => (judge_map_spaced diff' (readingsOf text) 0 "" "").symm
  rw [hspaced diff, hspaced diff']

/-- **Blanks in the text of a case** may be replaced by others. -/
theorem run_respaced {before line after front head gap gap' rest tail : List Char}
    (htext : text.toList = before ++ line ++ after) (hline : Text.IsLine before line after)
    (h : AssemblyAt line front (head ++ gap ++ rest) tail) (hgap : IsGap gap)
    (hgap' : IsGap gap') (hnewline : '\n' ∉ gap') :
    (run diff mode file (String.ofList
      (before ++ (front ++ (head ++ gap' ++ rest) ++ tail) ++ after))).1 =
        (run diff mode file text).1 := by
  have hline' : Text.IsLine before (front ++ (head ++ gap' ++ rest) ++ tail) after := by
    refine ⟨hline.before, ?_, hline.after⟩
    have hnot := hline.line
    rw [h.line_eq] at hnot
    simp only [List.mem_append, not_or] at hnot ⊢
    exact ⟨⟨hnot.1.1, ⟨hnot.1.2.1.1, hnewline⟩, hnot.1.2.2⟩, hnot.2⟩
  obtain ⟨c, hread, hassembly, hread'⟩ :=
    h.respaced hgap hgap' ((Text.lines before).length + 1)
  -- the two readings of the line differ in their texts, which have the same words
  have hspaced : singleSpaced (String.ofList (head ++ gap' ++ rest)) = singleSpaced c.assembly := by
    rw [hassembly, singleSpaced_inj, String.toList_ofList, String.toList_ofList,
      Text.words_append_blanks hgap'.ne_nil hgap'.isBlank,
      Text.words_append_blanks hgap.ne_nil hgap.isBlank]
  rw [run_eq, run_eq, String.toList_ofList, htext, readings_edit hline, readings_edit hline', hread,
    hread', ← judge_map_spaced diff _ 0 "" "", ← judge_map_spaced diff (readings 1 _ ++ _) 0 "" ""]
  simp only [List.map_append, Option.toList_some, List.map_cons, List.map_nil, spaced, hspaced]

/-! ### The order of lines -/

theorem snd_renumber (number : Nat) (found : Reading × Case) :
    (renumber number found).2 = { found.2 with line := number } := by
  obtain ⟨reading, c⟩ := found
  cases reading <;> rfl

theorem fst_renumber_eq_found_iff (number : Nat) (found : Reading × Case) :
    (renumber number found).1 = .found ↔ found.1 = .found := by
  obtain ⟨reading, c⟩ := found
  cases reading <;> simp [renumber]

/-- **What a text comes to is what its lines with cases come to**, up to the numbers of lines. -/
theorem map_renumber_readings (number : Nat) (lines : List (List Char)) :
    (readings number lines).map (renumber 0) =
      ((lines.filter hasCase).map Text.trim).filterMap (readLine? 0) := by
  induction lines generalizing number with
  | nil => rfl
  | cons line rest ih =>
    rw [readings, List.map_append, ih]
    cases hcase : hasCase line with
    | false =>
      have hnot : ¬hasCase line = true := by
        rw [hcase]
        exact Bool.false_ne_true
      rw [readLine?_of_blank hcase, List.filter_cons_of_neg hnot]
      rfl
    | true =>
      have htrim : readLine? 0 (Text.trim line) = readLine? 0 line := by
        rw [readLine?, Text.trim_trim, readLine?]
      have hline := readLine?_renumber 0 number line
      rw [List.filter_cons_of_pos hcase, List.map_cons, List.filterMap_cons, htrim, hline,
        readLine?_of_hasCase hcase]
      rfl

theorem Case.knowsFlags_with_line (number : Nat) :
    Case.KnowsFlags { c with line := number } ↔ c.KnowsFlags := Iff.rfl

/-- How many cases do not agree does not depend on the numbers of their lines. -/
theorem failuresIn_map_renumber (number : Nat) (all : List (Reading × Case)) :
    failuresIn mode (all.map (renumber number)) = failuresIn mode all := by
  rw [failuresIn, List.countP_map]
  refine List.countP_congr fun found _ => ?_
  rw [Function.comp_apply, snd_renumber]
  rfl

/-- **The lines with cases** may be put in another order. -/
theorem run_reordered {text' : String}
    (h : ∀ found ∈ readingsOf text, found.1 = .found ∧ found.2.KnowsFlags)
    (hperm : (caseLines text').Perm (caseLines text)) :
    (run diff mode file text').1 = (run diff mode file text).1 := by
  -- a case keeps everything but its number where its line is moved to
  have hreadings : ((readingsOf text').map (renumber 0)).Perm
      ((readingsOf text).map (renumber 0)) := by
    rw [readingsOf_eq, readingsOf_eq, map_renumber_readings, map_renumber_readings]
    exact hperm.filterMap _
  have h' : ∀ found ∈ readingsOf text', found.1 = .found ∧ found.2.KnowsFlags := by
    intro found hmem
    obtain ⟨found', hmem', heq⟩ :=
      List.mem_map.mp (hreadings.mem_iff.mp (List.mem_map_of_mem hmem))
    obtain ⟨hfound, hflags⟩ := h found' hmem'
    have hsnd : { found'.2 with line := 0 } = { found.2 with line := 0 } := by
      rw [← snd_renumber, ← snd_renumber, heq]
    constructor
    · rwa [← fst_renumber_eq_found_iff 0, ← heq, fst_renumber_eq_found_iff]
    · rwa [← Case.knowsFlags_with_line 0, ← hsnd]
  rw [run_of_found h, run_of_found h', ← failuresIn_map_renumber 0 (readingsOf text'), failuresIn,
    hreadings.countP_eq, ← failuresIn, failuresIn_map_renumber]

/-! ### What a run returns -/

theorem failuresIn_readingsOf (h : ∀ found ∈ readingsOf text, found.1 = .found) :
    failuresIn mode (readingsOf text) = (casesOf text).countP fun c => ¬c.Agrees mode := by
  have hcases : casesOf text = (readingsOf text).map Prod.snd := by
    rw [casesOf, ← List.filterMap_eq_map]
    refine List.filterMap_congr fun found hmem => ?_
    obtain ⟨reading, c⟩ := found
    obtain rfl : reading = .found := h _ hmem
    rfl
  rw [hcases, List.countP_map]
  rfl

/-- **What a run returns.** If a line is refused, it is the message of the first such line. Else it
is nothing if all cases agree, and the number of those that do not agree otherwise. It stays the same
if blanks in the text of a case are replaced by others, and, if no line is refused, if the lines with
cases are put in another order. -/
theorem run_result (diff : LineDiff) (mode : Mode) (file : String) {text : String}
    (h : RunsThrough text) :
    (∀ number f c, (readingsOf text).find? (·.1.isFault) = some (.fault number f, c) →
      (run diff mode file text).1.result? = some (.error (f.message file number))) ∧
    ((∀ found ∈ readingsOf text, found.1.isFault = false) →
      ((run diff mode file text).1.result? = some (.ok ()) ↔ ∀ c ∈ casesOf text, c.Agrees mode) ∧
      (¬(∀ c ∈ casesOf text, c.Agrees mode) →
        (run diff mode file text).1.result? = some (.error (Verdict.failedMessage
          ((casesOf text).countP fun c => ¬c.Agrees mode))))) ∧
    (∀ before line after front head gap gap' rest tail : List Char,
      text.toList = before ++ line ++ after → Text.IsLine before line after →
      AssemblyAt line front (head ++ gap ++ rest) tail → IsGap gap → IsGap gap' → '\n' ∉ gap' →
      (run diff mode file (String.ofList
        (before ++ (front ++ (head ++ gap' ++ rest) ++ tail) ++ after))).1.result? =
          (run diff mode file text).1.result?) ∧
    ((∀ found ∈ readingsOf text, found.1.isFault = false) →
      ∀ text' : String, (caseLines text').Perm (caseLines text) →
        (run diff mode file text').1.result? = (run diff mode file text).1.result?) := by
  have hall : (∀ found ∈ readingsOf text, found.1.isFault = false) →
      ∀ found ∈ readingsOf text, found.1 = .found ∧ found.2.KnowsFlags := by
    intro hnone
    have hself : (readingsOf text).takeWhile (!·.1.isFault) = readingsOf text :=
      List.takeWhile_eq_self_iff.mpr fun found hmem => by rw [hnone found hmem]; rfl
    exact hself ▸ h.found
  refine ⟨fun number f c hfault => ?_, fun hnone => ?_, ?_, fun hnone text' hperm => ?_⟩
  · rw [run_of_fault h hfault]
    rfl
  · have hfound := hall hnone
    rw [run_of_found hfound, Verdict.result?_ofFailures,
      failuresIn_readingsOf fun found hmem => (hfound found hmem).1]
    have hzero : (casesOf text).countP (fun c => ¬c.Agrees mode) = 0 ↔
        ∀ c ∈ casesOf text, c.Agrees mode := by
      simp [List.countP_eq_zero]
    by_cases hagree : ∀ c ∈ casesOf text, c.Agrees mode
    · rw [if_pos (hzero.mpr hagree)]
      exact ⟨iff_of_true rfl hagree, fun hfails => absurd hagree hfails⟩
    · rw [if_neg (mt hzero.mp hagree)]
      exact ⟨iff_of_false nofun hagree, fun _ => rfl⟩
  · intro before line after front head gap gap' rest tail htext hline hassembly hgap hgap' hnewline
    rw [run_respaced htext hline hassembly hgap hgap' hnewline]
  · rw [run_reordered (hall hnone) hperm]

/-- A case that agrees and one that does not, with other blanks and in another order; and a case in
front of a line that is refused. -/
theorem run_result_thumb :
    let text := "2001  mov r0,  #1 @ first\n4770  bx r1 @ +v4t\n"
    let respaced := "2001  mov\tr0,  #1 @ first\n4770  bx r1 @ +v4t\n"
    let reordered := "4770  bx r1 @ +v4t\n\n2001  mov r0,  #1 @ first"
    let refused := "2001  mov r0, #1\nzz: 4770  bx lr\n"
    RunsThrough text ∧ RunsThrough refused ∧
      (run .standard .thumb "thumb.s" text).1.result? = some (.error "failed 1 tests") ∧
      (run .standard .thumb "thumb.s" respaced).1.result? = some (.error "failed 1 tests") ∧
      (run .standard .thumb "thumb.s" reordered).1.result? = some (.error "failed 1 tests") ∧
      (run .standard .thumb "thumb.s" refused).1.result? =
        some (.error "error: invalid address \"zz\", thumb.s:2") := by
  intro text respaced reordered refused
  have hreadings : readingsOf text = [(.found, ⟨1, "first", 0, [0x01, 0x20], "mov r0,  #1"⟩),
      (.found, ⟨2, "+v4t", 0, [0x70, 0x47], "bx r1"⟩)] := by decide +kernel
  have hrefused : readingsOf refused = [(.found, ⟨1, "", 0, [0x01, 0x20], "mov r0, #1"⟩),
      (.fault 2 (.invalidAddress "zz"), ⟨2, "", 0, [], ""⟩)] := by decide +kernel
  have hthrough : RunsThrough text := by
    constructor <;> rw [hreadings] <;> decide
  have hthrough' : RunsThrough refused := by
    constructor <;> rw [hrefused] <;> decide
  have hfound : ∀ found ∈ readingsOf text, found.1.isFault = false := by
    rw [hreadings]
    decide
  obtain ⟨-, hcount, hrespaced, hreordered⟩ := run_result .standard .thumb "thumb.s" hthrough
  obtain ⟨hfault, -⟩ := run_result .standard .thumb "thumb.s" hthrough'
  have hcases : casesOf text =
      [⟨1, "first", 0, [0x01, 0x20], "mov r0,  #1"⟩, ⟨2, "+v4t", 0, [0x70, 0x47], "bx r1"⟩] := by
    rw [casesOf, hreadings]
    rfl
  have hresult :
      (run .standard .thumb "thumb.s" text).1.result? = some (.error "failed 1 tests") := by
    have hfails : ¬∀ c ∈ casesOf text, c.Agrees .thumb := by
      rw [hcases]
      decide +kernel
    rw [(hcount hfound).2 hfails, hcases]
    decide +kernel
  have hline : Text.IsLine [] "2001  mov r0,  #1 @ first".toList "\n4770  bx r1 @ +v4t\n".toList :=
    ⟨.inl rfl, by decide, .inr ⟨_, rfl⟩⟩
  have hassembly : AssemblyAt "2001  mov r0,  #1 @ first".toList "2001  ".toList
      ("mov".toList ++ [' '] ++ "r0,  #1".toList) " @ first".toList :=
    ⟨by decide, by decide, List.all_eq_true.mp rfl,
      ⟨1, "first", 0, [0x01, 0x20], "mov r0,  #1"⟩, by decide +kernel, by decide⟩
  have hspace : IsGap [' '] := ⟨List.cons_ne_nil _ _, List.forall_mem_singleton.mpr rfl⟩
  have htab : IsGap ['\t'] := ⟨List.cons_ne_nil _ _, List.forall_mem_singleton.mpr rfl⟩
  have hperm : (caseLines reordered).Perm (caseLines text) := by
    decide
  refine ⟨hthrough, hthrough', hresult, ?_, ?_, ?_⟩
  · have hedit := hrespaced [] _ _ _ _ _ _ _ _ (by decide) hline hassembly hspace htab (by decide)
    have hrespaced : String.ofList ([] ++ ("2001  ".toList ++
        ("mov".toList ++ ['\t'] ++ "r0,  #1".toList) ++ " @ first".toList) ++
          "\n4770  bx r1 @ +v4t\n".toList) = respaced := by decide
    rw [← hrespaced, hedit, hresult]
  · rw [hreordered hfound reordered hperm, hresult]
  · rw [hfault 2 (.invalidAddress "zz") ⟨2, "", 0, [], ""⟩ (by rw [hrefused]; rfl)]
    rfl

end ArmListing.Suite
