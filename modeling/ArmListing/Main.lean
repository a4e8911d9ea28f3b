import ArmListing.Command

/-!
# ArmListing.Main

The **command line**. One executable holds both programs and goes by the name
that it is called with: under the name of the counting program it counts, under
any other it lists.

Only this module touches the file system; what is done with it is the work of
`ArmListing.Command`.
-/

namespace ArmListing

/-- The reason with the number `code`, which some systems report as a negative number. -/
def FileError.ofCode (code : UInt32) (reason : String) : FileError :=
  match (if code < 0x80000000 then code else -code).toNat with
  | 20 => .notDirectory
  | 21 => .isDirectory
  | 36 => .nameTooLong
  | number => .other (reason.capitalize ++ " (os error " ++ toString number ++ ")")

/-- The reason why the system refused to read. -/
def FileError.ofError : IO.Error → FileError
  | .noFileOrDirectory .. => .notFound
  | .inappropriateType _ code reason => ofCode code reason
  | .invalidArgument _ code reason => ofCode code reason
  | .permissionDenied _ code reason => ofCode code reason
  | .resourceExhausted _ code reason => ofCode code reason
  | .otherError code reason => ofCode code reason
  | e => .other (toString e)

/-- The files of the system. -/
def diskAccess : FileAccess IO where
  read path := do
    try
      return .ok (← IO.FS.readBinFile path)
    catch e =>
      return .error (.ofError e)
  create path := do
    try
      let file ← IO.FS.Handle.mk path .write
      return some fun contents => do
        file.write contents
        file.flush
    catch _ =>
      return none

/-- Runs the program that the executable is called by. -/
def runProgram (arguments : List String) : IO Command.Exit := do
  let start ← IO.monoMsNow
  let elapsed : IO String := do return toString ((← IO.monoMsNow) - start)
  if (← IO.appPath).fileName == some Command.countingProgram then
    Command.count diskAccess arguments
  else
    Command.list diskAccess elapsed arguments

end ArmListing

/-- Runs a program and passes on what it says. -/
def main (arguments : List String) : IO UInt32 := do
  let exit ← ArmListing.runProgram arguments
  let out ← IO.getStdout
  out.write exit.said
  out.flush
  IO.eprint exit.complaint
  return exit.code
