import ArmListing.Proofs.Directory
import ArmListing.Proofs.Listing
import ArmListing.Session

/-!
# ArmListing.Proofs.Session

What a **run says** of an input that it shows: the listing as it would be written
on its own, between two messages (`showListing_of_start`), or a report that the
span lies outside (`showListing_of_outOfRange`).

What a run does in a directory is told job by job. A job that shows reads its
input and leaves all files as they are (`run_showListing`). A job that saves
puts the listing at the place of its output (`run_saveListing`), unless its
input cannot be read or its output cannot be made; then it changes nothing.
-/

namespace ArmListing.Session

variable {input output : String} {target : Target} {contents : ByteArray} {span : Span} {w : Walk}

/-- What is said of an input that could be listed. -/
def shown (input listing : String) : String :=
  "[INFO]: Starting disassembly of \"" ++ input ++ "\".\n" ++ listing ++
    ("\n[INFO]: Completed successfully \"" ++ input ++ "\".\n")

theorem list_of_start (h : Walk.start .standard target contents.data span = .ok w) :
    list target contents span = ((Listing.text w.left w.lines).toUTF8, none) := by
  rw [list, collect, Listing.write_unbounded h]

/-- The report that a span lies outside an input of `size` bytes. -/
def outOfRange (span : Span) (size : Nat) : Failure := .listing (.outOfRange span size)

theorem list_of_outOfRange (h : span.resolve? contents.data.size = none) :
    list target contents span = (ByteArray.empty, some (outOfRange span contents.data.size)) := by
  rw [list, collect, (Listing.write_of_outOfRange h _).2]
  rfl

/-- The listing stands between the messages as it is. -/
theorem showListing_of_start (h : Walk.start .standard target contents.data span = .ok w) :
    showListing input contents span target =
      ⟨true, (shown input (Listing.text w.left w.lines)).toUTF8⟩ := by
  rw [showListing, list_of_start h]
  rfl

/-- Where there is no listing its place is taken by the report. -/
theorem showListing_of_outOfRange (h : span.resolve? contents.data.size = none) :
    showListing input contents span target =
      ⟨true, ("[INFO]: Starting disassembly of \"" ++ input ++ "\".\n" ++
        (outOfRange span contents.data.size).report).toUTF8⟩ := by
  rw [showListing, list_of_outOfRange h]
  simp only [ByteArray.append_empty]
  rfl

/-! ### Runs in a directory -/

section Runs

variable {directory : Directory} {place : Place} {e : FileError}

/-- A run that shows a listing reads its input and does nothing else to the files. -/
theorem run_showListing (h : directory.read input = .ok contents) :
    (run Directory.access (.showListing input span target)).run directory =
      (showListing input contents span target, directory) := by
  rw [run, StateT.run_bind, Directory.run_read h]
  rfl

theorem run_showListing_of_unreadable (h : directory.read input = .error e) :
    (run Directory.access (.showListing input span target)).run directory =
      (.giveUp (Failure.input input e).report, directory) := by
  rw [run, StateT.run_bind, Directory.run_read h]
  rfl

theorem run_saveListing_of_unreadable (h : directory.read input = .error e) :
    (run Directory.access (.saveListing input output span target)).run directory =
      (.giveUp (Failure.input input e).report, directory) := by
  rw [run, StateT.run_bind, Directory.run_read h]
  rfl

theorem run_saveListing_of_uncreatable (hread : directory.read input = .ok contents)
    (hplace : directory.placeOfNew? output = none) :
    (run Directory.access (.saveListing input output span target)).run directory =
      (.giveUp (Failure.output output).report, directory) := by
  rw [run, StateT.run_bind, Directory.run_read hread]
  show StateT.run (Directory.access.create output >>= _) directory = _
  rw [StateT.run_bind, Directory.run_create_of_none hplace]
  rfl

/-- A run that saves a listing has read its input before it empties its output, so the two may be
one file. -/
theorem run_saveListing (hread : directory.read input = .ok contents)
    (hplace : directory.placeOfNew? output = some place) :
    (run Directory.access (.saveListing input output span target)).run directory =
      (saveListing input output (list target contents span).2,
        directory.put place (list target contents span).1) := by
  rw [run, StateT.run_bind, Directory.run_read hread]
  show StateT.run (Directory.access.create output >>= _) directory = _
  rw [StateT.run_bind, Directory.run_create_of_some hplace]
  show (_, (directory.put place _).put place _) = _
  rw [Directory.put_put]
  rfl

end Runs

end ArmListing.Session
