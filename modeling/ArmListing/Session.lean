import ArmListing.Decoder.Standard
import ArmListing.FileAccess
import ArmListing.Job
import ArmListing.Listing

/-!
# ArmListing.Session

**Running** what a command line asks for.

The input is read as a whole before an output is made, so the output may be the
file that the input came from. A request outside the input is not a reason to
stop early: it is reported, and an output that has been made stays empty.

A run answers whether it finished and what it said on the way; it reaches files
only through a `FileAccess`.
-/

namespace ArmListing.Session

/-- Why a run could not do what it was asked for. -/
inductive Failure
  | input (path : String) (error : FileError)
  | output (path : String)
  | listing (error : ListingError)
  deriving DecidableEq, Repr

namespace Failure

def message : Failure → String
  | input path .notFound => "The file \"" ++ path ++ "\" doesn't exist. Aborting."
  | input path error =>
    "The file \"" ++ path ++ "\" could not be read (" ++ error.message ++ "). Aborting."
  | output path => "The file \"" ++ path ++ "\" could not be created. Aborting."
  | listing error => "Disassembly failed: " ++ error.message ++ "."

/-- The line that reports the failure. -/
def report (f : Failure) : String := "[ERROR]: " ++ f.message ++ "\n"

end Failure

/-- The end of a run. -/
structure Answer where
  /-- Whether there was something to do, and all files could be used for it. -/
  finished : Bool
  /-- What the run said on the way. -/
  said : ByteArray

/-- A run that had nothing to do, or could not use a file. -/
def Answer.giveUp (text : String) : Answer := ⟨false, text.toUTF8⟩

/-- What is written to a sink without a capacity, and the failure if there is one. -/
def collect (output : Output Tally) : ByteArray × Option Failure :=
  match output {} with
  | .ok _ sink => (sink.written, none)
  | .error e sink => (sink.written, some (.listing e))

/-- The listing of a whole file, and the failure if there is one. -/
def list (target : Target) (contents : ByteArray) (span : Span) : ByteArray × Option Failure :=
  collect (Listing.write Decoder.standard target contents.data span)

/-- What is said of a single word. -/
def showWord (code : Word) (target : Target) : Answer :=
  ⟨true, (collect (Listing.writeSingle Decoder.standard target code)).1⟩

/-- What is said of an input that is listed between messages. -/
def showListing (input : String) (contents : ByteArray) (span : Span) (target : Target) : Answer :=
  let opening := "[INFO]: Starting disassembly of \"" ++ input ++ "\".\n"
  let (listing, failure?) := list target contents span
  let closing := match failure? with
    | none => "\n[INFO]: Completed successfully \"" ++ input ++ "\".\n"
    | some failure => failure.report
  ⟨true, opening.toUTF8 ++ listing ++ closing.toUTF8⟩

/-- What is said of an input that is listed into a file. -/
def saveListing (input output : String) (failure? : Option Failure) : Answer :=
  let opening := "Starting disassembly of \"" ++ input ++ "\".\n"
  let closing := match failure? with
    | none => "Successfully disassembled \"" ++ input ++ "\" to \"" ++ output ++ "\".\n"
    | some failure => failure.report
  ⟨true, (opening ++ closing).toUTF8⟩

/-- Does a job. -/
def run {m : Type → Type} [Monad m] (files : FileAccess m) : Job → m Answer
  | .nothing => return .giveUp "Nothing was done\n"
  | .showWord code target => return showWord code target
  | .showListing input span target => do
    match ← files.read input with
    | .error e => return .giveUp (Failure.input input e).report
    | .ok contents => return showListing input contents span target
  | .saveListing input output span target => do
    match ← files.read input with
    | .error e => return .giveUp (Failure.input input e).report
    | .ok contents =>
      match ← files.create output with
      | none => return .giveUp (Failure.output output).report
      | some put =>
        let (listing, failure?) := list target contents span
        put listing
        return saveListing input output failure?

end ArmListing.Session
