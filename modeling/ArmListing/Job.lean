import ArmListing.Argument

/-!
# ArmListing.Job

What a **command line** asks for.

The first argument decides: a path is an input to list, anything else a code. An
input may be followed by a path for the output. What then follows is a span and
a mode in either order. Both may be left out, and an argument that is neither
ends the reading: nothing behind it is looked at.
-/

namespace ArmListing

/-- What there is to do. -/
inductive Job
  /-- Nothing: the command line makes no sense. -/
  | nothing
  /-- Show the instruction that a word holds. -/
  | showWord (code : Word) (target : Target)
  /-- List an input between messages. -/
  | showListing (input : String) (span : Span) (target : Target)
  /-- List an input into another file. -/
  | saveListing (input output : String) (span : Span) (target : Target)
  deriving DecidableEq, Repr

/-- The arguments behind the paths, as far as they have been read. -/
structure Settings where
  span : Span := {}
  target : Target := {}
  /-- What the user is to be told, in order. -/
  warnings : List String := []
  deriving DecidableEq, Repr, Inhabited

namespace Settings

/-- Takes an argument as a span, if it is there and is one. -/
def readSpan (s : Settings) : Option String → Bool × Settings
  | none => (false, s)
  | some text =>
    match Span.ofArgument text with
    | .ok span => (true, { s with span })
    | .error e => (false, { s with warnings := s.warnings ++ e.warning?.toList })

/-- Takes an argument as a mode, if it is there and is one. -/
def readTarget (s : Settings) : Option String → Bool × Settings
  | none => (false, s)
  | some text =>
    match Target.ofArgument text with
    | .ok target => (true, { s with target })
    | .error _ => (false, s)

/-- Reads a span and a mode in either order; the second argument only if the first one is either. -/
def ofArguments (first second : Option String) : Settings :=
  let s : Settings := {}
  match s.readSpan first with
  | (true, s) => (s.readTarget second).2
  | (false, s) =>
    match s.readTarget first with
    | (true, s) => (s.readSpan second).2
    | (false, s) => s

end Settings

namespace Job

/-- What arguments that start with the path of an input ask for. -/
def ofInput (input : String) (arguments : List String) : Job × List String :=
  match arguments with
  | output :: rest =>
    if isPath output then
      let s := Settings.ofArguments rest[0]? rest[1]?
      (saveListing input output s.span s.target, s.warnings)
    else
      let s := Settings.ofArguments arguments[0]? arguments[1]?
      (showListing input s.span s.target, s.warnings)
  | [] => (showListing input {} {}, [])

/-- What arguments that start with a code ask for. -/
def ofCode (code : String) (arguments : List String) : Job :=
  match Word.ofArgument code with
  | .ok word => showWord word ((({} : Settings).readTarget arguments[0]?).2.target)
  | .error _ => nothing

/-- The greatest number of arguments. -/
def maxArguments : Nat := 4

/-- What a command line asks for, and what to warn of. The first token is the name of the
program. -/
def ofTokens : List String → Job × List String
  | _ :: first :: rest =>
    if maxArguments < rest.length + 1 then (nothing, [])
    else if isPath first then ofInput first rest
    else (ofCode first rest, [])
  | _ => (nothing, [])

end Job

end ArmListing
