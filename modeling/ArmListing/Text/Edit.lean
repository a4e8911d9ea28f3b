import ArmListing.Text.Lines

/-!
# ArmListing.Text.Edit

The **interface between reports and what compares lines**.

Design points:

* A `LineDiff` lays the lines of two texts side by side. It comes from elsewhere:
  what reports differences (`ArmListing.Suite.Report`) is written against this
  type, so its laws hold for every comparison, or for every one that has the
  property they ask for.
* Where two lines stand opposite each other both are kept, although only lines
  that are equal should: that is a property of a comparison, and not of its type.
* Lines are told without their ends, so a comparison has to say in another way
  which of the texts ends its last line (`LineDiff.ending`).
-/

namespace ArmListing.Text

/-- A place in the difference of two lists. -/
inductive Edit (α : Type)
  /-- An element of the left list only. -/
  | left (a : α)
  /-- An element of the left list, and one of the right list that is taken for the same. -/
  | both (a b : α)
  /-- An element of the right list only. -/
  | right (b : α)
  deriving DecidableEq, Repr

namespace Edit

variable {α : Type}

/-- An element that both lists have. -/
def pair (a : α) : Edit α := both a a

/-- Whether the two lists differ here. -/
def isChange : Edit α → Bool
  | both .. => false
  | _ => true

end Edit

/-- Lays the lines of a text on the left and of a text on the right side by side. -/
def LineDiff : Type := String → String → List (Edit String)

namespace LineDiff

/-- The lines that are compared. -/
def linesOf (text : String) : List String := (lines text.toList).map String.ofList

/-- What stands behind the lines: an empty line for the end of the last one, which one of the texts
may lack. -/
def ending (left right : String) : List (Edit String) :=
  match endsLine left.toList, endsLine right.toList with
  | true, true => [.both "" ""]
  | true, false => [.left ""]
  | false, true => [.right ""]
  | false, false => []

end LineDiff

end ArmListing.Text
