import ArmListing.Command.Item
import ArmListing.Session
import ArmListing.Statistics

/-!
# ArmListing.Command

The **two programs**: one lists code, the other counts the mnemonics of a
listing.

Both know the options for help and version. The listing program takes everything
else as it stands, since a span may start with hyphens: only the four spellings
of these options, alone in an argument, stop it (`isReserved`), and it looks for
options no earlier than there. The counting program takes one word and refuses
options that it does not know.
-/

namespace ArmListing.Command

/-- What a program leaves behind besides files. -/
structure Exit where
  code : UInt32
  /-- The text on standard output. -/
  said : ByteArray := ByteArray.empty
  /-- The text on standard error. -/
  complaint : String := ""

/-- The end of a program that has done its work. -/
def Exit.ofText (text : String) : Exit := { code := 0, said := text.toUTF8 }

/-- The end of a program that was called in a wrong way or could not go on. -/
def Exit.ofError (reason : String) : Exit := { code := 1, complaint := "Error: " ++ reason ++ "\n" }

/-! ## Requests -/

/-- What the arguments of a program come to. -/
inductive Request
  | help
  | version
  /-- A wrong call, for the given reason. -/
  | refused (reason : String)
  | work (arguments : List String)
  deriving DecidableEq, Repr

/-- The requests that do not depend on the program: help comes before version. -/
def informative? (items : List Item) : Option Request :=
  if items.any (·.kind == .help) then some .help
  else if items.any (·.kind == .version) then some .version
  else none

/-- Whether the listing program does not take a text as it stands. -/
def isReserved (text : String) : Bool :=
  text == "-h" || text == "--help" || text == "-V" || text == "--version"

/-- What the arguments of the listing program come to. It takes the texts of the items up to the
first one that is reserved; options count only from there on. -/
def listingRequest (arguments : List String) : Request :=
  let items := Item.ofArguments arguments
  match items.dropWhile (!isReserved ·.text) with
  | [] => .work (items.map Item.text)
  | item :: rest =>
    (informative? (item :: rest)).getD (.refused ("unexpected argument " ++ item.text))

/-- What the arguments of the counting program come to. It takes one word, wherever that stands. -/
def countingRequest (arguments : List String) : Request :=
  let items := Item.ofArguments arguments
  let (words, options) := items.partition (·.kind == .word)
  match informative? options with
  | some request => request
  | none =>
    match options, words with
    | option :: _, _ => .refused ("unexpected option " ++ option.text)
    | [], [word] => .work [word.text]
    | [], [] => .refused "expected LISTING"
    | [], _ :: word :: _ => .refused ("unexpected argument " ++ word.text)

/-! ## Texts -/

def versionText : String := "Version: 0.1.0\n\n"

/-- The options that both programs know. -/
def optionsHelp : String :=
  "Available options:\n" ++
  "    -h, --help     Prints help information\n" ++
  "    -V, --version  Prints version information\n\n"

def listingHelp : String :=
  "Disassembler for ARM and Thumb code\n\n" ++
  "Usage: armdis [ARG]...\n\n" ++
  "Available positional items:\n" ++
  "    ARG            CODE [/MODE] | INPUT [OUTPUT] [RANGE] [/MODE]\n\n" ++
  optionsHelp ++
  "RANGE is hexadecimal: START-END, START-, --END or START:SIZE. MODE is one of /a, /a5, /a4 " ++
  "(ARM) or\n/t, /t5, /5, /t4, /4 (Thumb).\n\n"

def countingHelp : String :=
  "Count the frequency of instructions in a listing\n\n" ++
  "Usage: insn-stats LISTING\n\n" ++
  "Available positional items:\n" ++
  "    LISTING        Listing to analyze\n\n" ++
  optionsHelp

/-- The last line of a run that has finished. -/
def completion (milliseconds : String) : String :=
  "[INFO]: Completed in: " ++ milliseconds ++ " ms\n"

/-! ## Programs -/

/-- The name of the listing program. -/
def listingProgram : String := "armdis"

/-- The name of the counting program. -/
def countingProgram : String := "insn-stats"

variable {m : Type → Type} [Monad m]

/-- Runs the listing program. `elapsed` is asked for the time at the end of a finished run. -/
def list (files : FileAccess m) (elapsed : m String) (arguments : List String) : m Exit :=
  match listingRequest arguments with
  | .help => return .ofText listingHelp
  | .version => return .ofText versionText
  | .refused reason => return .ofError reason
  | .work arguments => do
    let (job, warnings) := Job.ofTokens (listingProgram :: arguments)
    let answer ← Session.run files job
    let complaint := String.join (warnings.map fun warning => "[WARN] " ++ warning ++ "\n")
    if answer.finished then
      return { code := 0, said := answer.said ++ (completion (← elapsed)).toUTF8, complaint }
    else
      return { code := 0, said := answer.said, complaint }

/-- Runs the counting program. -/
def count (files : FileAccess m) (arguments : List String) : m Exit :=
  match countingRequest arguments with
  | .help => return .ofText countingHelp
  | .version => return .ofText versionText
  | .refused reason => return .ofError reason
  | .work arguments => do
    match ← files.read (arguments.headD "") with
    | .error e => return .ofError e.message
    | .ok contents =>
      match String.fromUTF8? contents with
      | none => return .ofError "stream did not contain valid UTF-8"
      | some text => return .ofText (Statistics.ofListing text).report

end ArmListing.Command
