import ArmListing.Text.Edit

/-!
# ArmListing.Text.Diff

The **standard comparison of lines** (`LineDiff.standard`).

Two lists are laid side by side so that as many elements as possible stand
opposite an equal one. Equal elements at both ends are paired first. For the
rest a table of the lengths of longest common subsequences (`lengths`) shows the
way, which is taken from the ends to the front (`trace`): an element on the right
is laid aside as soon as that costs nothing, then one on the left, and what then
stands opposite each other is equal.
-/

namespace ArmListing.Text

namespace Edit

variable {α : Type}

/-! ## Longest common subsequences -/

section Table

variable [DecidableEq α]

/-- The row for `x` in front of the list that `below` is the row for. An entry belongs to a suffix
of `ys`, the first one to all of it. -/
def row (x : α) : List α → List Nat → List Nat
  | y :: ys, first :: second :: below =>
    let rest := row x ys (second :: below)
    (if x = y then second + 1 else max first (rest.headD 0)) :: rest
  | _, _ => [0]

/-- The lengths of the longest common subsequences of all suffixes of `xs`, each a row, with all
suffixes of `ys`. -/
def lengths (xs ys : List α) : List (List Nat) :=
  match xs with
  | [] => [List.replicate (ys.length + 1) 0]
  | x :: rest =>
    let rows := lengths rest ys
    row x ys (rows.headD []) :: rows

end Table

/-- The first entry of the first row. -/
def corner (rows : List (List Nat)) : Nat := (rows.headD []).headD 0

/-- The rows without their first entries. -/
def shift (rows : List (List Nat)) : List (List Nat) := rows.map List.tail

/-- The way through the table of `xs` and `ys`. -/
def trace : List α → List α → List (List Nat) → List (Edit α)
  | [], [], _ => []
  | [], y :: ys, rows => right y :: trace [] ys (shift rows)
  | x :: xs, [], rows => left x :: trace xs [] rows.tail
  | x :: xs, y :: ys, rows =>
    if corner rows = corner (shift rows) then right y :: trace (x :: xs) ys (shift rows)
    else if corner rows = corner rows.tail then left x :: trace xs (y :: ys) rows.tail
    else both x y :: trace xs ys (shift rows.tail)
termination_by xs ys => xs.length + ys.length

/-! ## Differences -/

section Lists

variable [DecidableEq α]

/-- The number of equal elements that two lists start with. -/
def commonStart : List α → List α → Nat
  | x :: xs, y :: ys => if x = y then commonStart xs ys + 1 else 0
  | _, _ => 0

/-- The difference of two lists that is found by tracing from their ends. -/
def ofMiddle (xs ys : List α) : List (Edit α) :=
  (trace xs.reverse ys.reverse (lengths xs.reverse ys.reverse)).reverse

/-- The difference of two lists. -/
def ofLists (xs ys : List α) : List (Edit α) :=
  let start := commonStart xs ys
  let xs' := xs.drop start
  let ys' := ys.drop start
  let stop := commonStart xs'.reverse ys'.reverse
  (xs.take start).map pair ++
    ofMiddle (xs'.take (xs'.length - stop)) (ys'.take (ys'.length - stop)) ++
    (xs'.drop (xs'.length - stop)).map pair

end Lists

end Edit

/-- Lays as many equal lines as possible opposite each other. -/
def LineDiff.standard : LineDiff := fun left right =>
  Edit.ofLists (linesOf left) (linesOf right) ++ ending left right

end ArmListing.Text
