/-!
# ArmListing.Command.Item

The **items of a command line**: what its arguments are, before a program decides
what to do with them.

An argument that starts with a hyphen may stand for options. Behind two hyphens
comes a name, behind one hyphen a letter, and both may be given a value behind an
equals sign. Several letters without a value are a group if each of them is the
letter of a known option; otherwise they are a word, as is everything else. So a
file name such as `-10` is a word, while `-1` is an option that nobody knows.

Behind a lone `--`, which is no item itself, there are only words
(`kind_of_mem_ofArguments_cons`).
-/

namespace ArmListing.Command

/-- What an item is: one of the known options, another option, or a word. -/
inductive Kind
  | help
  | version
  | unknown
  | word
  deriving DecidableEq, Repr

namespace Kind

/-- The option with the given letter. -/
def ofLetter : Char → Kind
  | 'h' => help
  | 'V' => version
  | _ => unknown

/-- The option with the given name. -/
def ofName (name : String) : Kind :=
  if name = "help" then help else if name = "version" then version else unknown

end Kind

/-- An item and the text that it has if it is taken as it stands. -/
structure Item where
  kind : Kind
  text : String
  deriving DecidableEq, Repr

namespace Item

/-- A text that stands for no option. -/
def ofWord (text : String) : Item := ⟨.word, text⟩

/-- The items of a group of letters. The first one has the text of the whole argument, which leaves
an empty text to the others. -/
def ofGroup (argument : String) : List Kind → List Item
  | [] => []
  | first :: rest => ⟨first, argument⟩ :: rest.map (⟨·, ""⟩)

/-- The items of `argument`, which is a hyphen, the letter `first` and `rest`. A letter that is
given a value is a single byte; in any other case the argument is a word. -/
def ofLetters (argument : String) (first : Char) (rest : List Char) : List Item :=
  if '=' ∈ rest then
    if first.utf8Size = 1 then [⟨.ofLetter first, argument⟩] else [ofWord argument]
  else if rest = [] then [⟨.ofLetter first, argument⟩]
  else
    let kinds := (first :: rest).map Kind.ofLetter
    if .unknown ∈ kinds then [ofWord argument] else ofGroup argument kinds

/-- The items of an argument in front of the end of options. -/
def ofArgument (argument : String) : List Item :=
  match argument.toList with
  | ['-', '-'] => [ofWord argument]
  | '-' :: '-' :: rest => [⟨.ofName (String.ofList (rest.takeWhile (· != '='))), argument⟩]
  | '-' :: first :: rest => ofLetters argument first rest
  | _ => [ofWord argument]

/-- The argument behind which nothing is an option. -/
def endOfOptions : String := "--"

/-- The items of a command line. -/
def ofArguments : List String → List Item
  | [] => []
  | argument :: rest =>
    if argument = endOfOptions then rest.map ofWord else ofArgument argument ++ ofArguments rest

/-- Behind the end of options there are only words. -/
theorem kind_of_mem_ofArguments_cons {item : Item} {rest : List String}
    (h : item ∈ ofArguments (endOfOptions :: rest)) : item.kind = .word := by
  simp only [ofArguments, if_true, List.mem_map] at h
  obtain ⟨_, -, rfl⟩ := h
  rfl

end Item

end ArmListing.Command
