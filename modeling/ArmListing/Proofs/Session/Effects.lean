import ArmListing.Proofs.Session

/-!
# ArmListing.Proofs.Session.Effects

What a **run does to the files** of a directory, for every command line.

Nothing is written before all files have been opened, so a run that gives up
leaves no trace. Only a job that saves changes a file, and only its output
(`Directory.ChangesOnly`). What it saves is the listing of what its input held
before the run, even if input and output are one file, and it is the listing
that would have been shown (`SavedAsShown`).
-/

namespace ArmListing

/-- `after` is `before`, but perhaps for the file at `place`. -/
structure Directory.ChangesOnly (before after : Directory) (place : Place) : Prop where
  directories_eq : after.directories = before.directories
  file?_eq : ∀ p, p ≠ place → after.file? p = before.file? p

theorem Directory.changesOnly_put (d : Directory) (place : Place) (contents : ByteArray) :
    d.ChangesOnly (d.put place contents) place where
  directories_eq := directories_put ..
  file?_eq p hp := by rw [file?_put, if_neg hp]

namespace Session

/-- What is `saved` and `said` when an input is listed into a file, beside what is `displayed` when
the same input is listed between messages for the same span and target. -/
def SavedAsShown (input : String) (contents : ByteArray) (span : Span) (target : Target)
    (saved said displayed : ByteArray) : Prop :=
  match span.resolve? contents.data.size with
  | some _ =>
    ∃ tally listing,
      Listing.write .standard target contents.data span {} = .ok tally ⟨none, saved⟩ ∧
        saved = listing.toUTF8 ∧ displayed = (shown input listing).toUTF8
  | none =>
    let report := (outOfRange span contents.data.size).report
    saved = ByteArray.empty ∧
      said = ("Starting disassembly of \"" ++ input ++ "\".\n" ++ report).toUTF8 ∧
      displayed = ("[INFO]: Starting disassembly of \"" ++ input ++ "\".\n" ++ report).toUTF8

variable {input output : String} {span : Span} {target : Target} {contents : ByteArray}

/-- **A listing is saved as it is shown.** -/
theorem savedAsShown_list (input output : String) (contents : ByteArray) (span : Span)
    (target : Target) :
    SavedAsShown input contents span target (list target contents span).1
      (saveListing input output (list target contents span).2).said
      (showListing input contents span target).said := by
  unfold SavedAsShown
  cases hresolve : span.resolve? contents.data.size with
  | some r =>
    have hstart : Walk.start .standard target contents.data span = _ :=
      Walk.start_of_resolve? hresolve
    rw [list_of_start hstart, showListing_of_start hstart]
    exact ⟨_, _, Listing.write_unbounded hstart, rfl, rfl⟩
  | none =>
    rw [list_of_outOfRange hresolve, showListing_of_outOfRange hresolve]
    exact ⟨rfl, rfl, rfl⟩

/-- A run that gives up leaves the directory as it is, and so does every run but one that saves a
listing. If such a run finishes, it has read its input and changed no file but its output, where the
listing of the input as it was before can be read. -/
theorem effects_of_run (tokens : List String) (before : Directory) :
    ∃ answer after,
      (run Directory.access (Job.ofTokens tokens).1).run before = (answer, after) ∧
      (answer.finished = false → after = before) ∧
      match (Job.ofTokens tokens).1 with
      | .saveListing input output span target =>
        answer.finished = true →
          ∃ contents place saved displayed,
            before.read input = .ok contents ∧
            before.placeOfNew? output = some place ∧
            before.ChangesOnly after place ∧
            after.read output = .ok saved ∧
            (run Directory.access (.showListing input span target)).run before =
              (⟨true, displayed⟩, before) ∧
            SavedAsShown input contents span target saved answer.said displayed
      | _ => after = before := by
  cases (Job.ofTokens tokens).1 with
  | nothing => exact ⟨_, _, rfl, fun _ => rfl, rfl⟩
  | showWord code target => exact ⟨_, _, rfl, fun _ => rfl, rfl⟩
  | showListing input span target =>
    cases hread : before.read input with
    | error e => exact ⟨_, _, run_showListing_of_unreadable hread, fun _ => rfl, rfl⟩
    | ok contents => exact ⟨_, _, run_showListing hread, fun _ => rfl, rfl⟩
  | saveListing input output span target =>
    cases hread : before.read input with
    | error e => exact ⟨_, _, run_saveListing_of_unreadable hread, fun _ => rfl, nofun⟩
    | ok contents =>
      cases hplace : before.placeOfNew? output with
      | none => exact ⟨_, _, run_saveListing_of_uncreatable hread hplace, fun _ => rfl, nofun⟩
      | some place =>
        refine ⟨_, _, run_saveListing hread hplace, nofun, fun _ => ?_⟩
        exact ⟨contents, place, _, _, hread, hplace, Directory.changesOnly_put ..,
          Directory.read_put hplace, run_showListing hread, savedAsShown_list ..⟩

/-- A file that is listed onto itself, by another path that leads to it. -/
theorem effects_of_run_in_place :
    let before : Directory := { files := [(["code.bin"], ⟨#[1, 0x20]⟩)] }
    Job.ofTokens ["armdis", "code.bin", "./code.bin"] =
        (.saveListing "code.bin" "./code.bin" {} {}, []) ∧
      ∃ answer after,
        (run Directory.access (.saveListing "code.bin" "./code.bin" {} {})).run before =
          (answer, after) ∧
        answer.finished = true ∧
        before.ChangesOnly after ["code.bin"] ∧
        ∃ saved displayed,
          after.read "./code.bin" = .ok saved ∧
          SavedAsShown "code.bin" ⟨#[1, 0x20]⟩ {} {} saved answer.said displayed := by
  intro before
  have hjob : Job.ofTokens ["armdis", "code.bin", "./code.bin"] =
      (.saveListing "code.bin" "./code.bin" {} {}, []) := by decide +kernel
  have hinput : before.placeOfNew? "code.bin" = some ["code.bin"] := by decide +kernel
  obtain ⟨hfind, -, -⟩ := Directory.placeOfNew?_eq_some_iff.mp hinput
  have hread : before.read "code.bin" = .ok ⟨#[1, 0x20]⟩ := by
    rw [Directory.read_of_find hfind]
    rfl
  have hplace : before.placeOfNew? "./code.bin" = some ["code.bin"] := by decide +kernel
  obtain ⟨answer, after, hrun, -, heffects⟩ :=
    effects_of_run ["armdis", "code.bin", "./code.bin"] before
  rw [hjob] at hrun heffects
  have hfinished : answer.finished = true := by
    rw [run_saveListing hread hplace] at hrun
    exact congrArg (·.1.finished) hrun.symm
  obtain ⟨contents, place, saved, displayed, hcontents, hplace', hchanges, hsaved, -, hshown⟩ :=
    heffects hfinished
  cases hread.symm.trans hcontents
  cases hplace.symm.trans hplace'
  exact ⟨hjob, answer, after, hrun, hfinished, hchanges, saved, displayed, hsaved, hshown⟩

end Session

end ArmListing
