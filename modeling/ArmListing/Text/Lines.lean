/-!
# ArmListing.Text.Lines

A text as its **lines**, and the first occurrence of a separator in a line.

A line ends before a line feed, or before a carriage return directly in front of
one. What follows the last line feed is a line only if it is not empty, and a
carriage return at its end belongs to it.
-/

namespace ArmListing.Text

/-- Drops a carriage return from the front of a reversed line. -/
def dropReturn : List Char → List Char
  | '\r' :: rest => rest
  | line => line

/-- The lines of `text`, with `line` the reversed start of the first of them. -/
def linesFrom (line : List Char) : List Char → List (List Char)
  | [] => if line.isEmpty then [] else [line.reverse]
  | '\n' :: rest => (dropReturn line).reverse :: linesFrom [] rest
  | c :: rest => linesFrom (c :: line) rest

/-- The lines of a text, without their ends. -/
def lines (text : List Char) : List (List Char) := linesFrom [] text

@[simp] theorem lines_nil : lines [] = [] := rfl

/-- Whether the last line of a text has an end. -/
def endsLine (text : List Char) : Bool := text.getLast? == some '\n'

/-- The parts of `text` before and behind the first place where `separator` stands. -/
def splitOnce (separator : List Char) : List Char → Option (List Char × List Char)
  | [] => if separator.isEmpty then some ([], []) else none
  | c :: rest =>
    if separator.isPrefixOf (c :: rest) then some ([], (c :: rest).drop separator.length)
    else (splitOnce separator rest).map fun (before, behind) => (c :: before, behind)

end ArmListing.Text
