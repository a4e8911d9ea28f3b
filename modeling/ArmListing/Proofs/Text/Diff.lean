import ArmListing.Proofs.Text.Edit
import ArmListing.Text.Diff

/-!
# ArmListing.Proofs.Text.Diff

**The standard comparison pairs as many equal lines as it can**
(`LineDiff.standard_aligns`).

An entry of the table bounds the length of every common subsequence
(`length_le_corner`), and the way through the table pairs as many elements as the
entry says (`trace_spec`). That what is paired is equal is not tested on the way:
elements are equal because the entry of unequal ones is that of a neighbour
(`corner_lengths`), and then the way goes on to this neighbour. What the lists
start and end with in common lengthens every common subsequence by as much
(`IsLongest.surround`).
-/

namespace ArmListing.Text

namespace Edit

variable {α : Type}

/-! ### Common subsequences -/

/-- A common subsequence does not reach both of two first elements that differ. -/
theorem sublist_or_sublist_of_ne {x y : α} {xs ys other : List α} (hne : x ≠ y)
    (hxs : other.Sublist (x :: xs)) (hys : other.Sublist (y :: ys)) :
    other.Sublist xs ∨ other.Sublist ys := by
  rcases List.sublist_cons_iff.mp hxs with hxs | ⟨rest, rfl, -⟩
  · exact .inl hxs
  · rcases List.sublist_cons_iff.mp hys with hys | ⟨rest', heq, -⟩
    · exact .inr hys
    · exact absurd (List.head_eq_of_cons_eq heq) hne

namespace IsLongest

variable {edits : List (Edit α)} {xs ys : List α}

/-- An element in front of both lists is paired. -/
theorem consPair (h : IsLongest edits xs ys) (x : α) :
    IsLongest (pair x :: edits) (x :: xs) (x :: ys) where
  toShows := h.toShows.consPair x
  length_le other hxs hys := by
    -- the rest of a common subsequence does not reach the first elements
    have hrest : other.tail.length ≤ (common edits).length :=
      h.length_le other.tail hxs.tail hys.tail
    show other.length ≤ (common edits).length + 1
    rw [List.length_tail] at hrest
    omega

theorem reverse (h : IsLongest edits xs ys) : IsLongest edits.reverse xs.reverse ys.reverse where
  toShows := h.toShows.reverse
  length_le other hxs hys := by
    have hreverse : other.reverse.length ≤ (common edits).length := by
      refine h.length_le other.reverse ?_ ?_
      · rwa [← List.reverse_sublist, List.reverse_reverse]
      · rwa [← List.reverse_sublist, List.reverse_reverse]
    rwa [common, List.filterMap_reverse, List.length_reverse, ← common, ← List.length_reverse]

theorem prepend (h : IsLongest edits xs ys) (front : List α) :
    IsLongest (front.map pair ++ edits) (front ++ xs) (front ++ ys) := by
  induction front with
  | nil => exact h
  | cons x rest ih => exact ih.consPair x

theorem append (h : IsLongest edits xs ys) (back : List α) :
    IsLongest (edits ++ back.map pair) (xs ++ back) (ys ++ back) := by
  have hreverse := (h.reverse.prepend back.reverse).reverse
  rwa [← List.reverse_append, ← List.reverse_append, List.map_reverse, ← List.reverse_append,
    List.reverse_reverse, List.reverse_reverse, List.reverse_reverse] at hreverse

/-- What two lists start and end with in common is paired. -/
theorem surround (h : IsLongest edits xs ys) (front back : List α) :
    IsLongest (front.map pair ++ edits ++ back.map pair) (front ++ xs ++ back)
      (front ++ ys ++ back) :=
  (h.prepend front).append back

end IsLongest

variable [DecidableEq α]

/-! ### The table -/

/-- The row for all of `xs`. -/
def topRow (xs ys : List α) : List Nat := (lengths xs ys).headD []

theorem length_row (x : α) {ys : List α} {below : List Nat} (h : below.length = ys.length + 1) :
    (row x ys below).length = ys.length + 1 := by
  induction ys generalizing below with
  | nil => rfl
  | cons y ys ih =>
    match below, h with
    | first :: second :: below, h =>
      rw [row, List.length_cons, ih (Nat.succ.inj h), List.length_cons]

theorem length_topRow (xs ys : List α) : (topRow xs ys).length = ys.length + 1 := by
  induction xs with
  | nil => exact List.length_replicate
  | cons x xs ih => exact length_row x ih

theorem headD_shift (rows : List (List Nat)) : (shift rows).headD [] = (rows.headD []).tail := by
  cases rows <;> rfl

/-- Without its first column the table is that of the shorter list. -/
theorem shift_lengths (xs : List α) (y : α) (ys : List α) :
    shift (lengths xs (y :: ys)) = lengths xs ys := by
  induction xs with
  | nil => rfl
  | cons x xs ih =>
    have htop : topRow xs ys = (topRow xs (y :: ys)).tail := by
      rw [topRow, topRow, ← ih, headD_shift]
    have hlength := length_topRow xs (y :: ys)
    show (row x (y :: ys) (topRow xs (y :: ys))).tail :: shift (lengths xs (y :: ys)) =
      row x ys (topRow xs ys) :: lengths xs ys
    rw [ih, htop]
    match topRow xs (y :: ys), hlength with
    | first :: second :: below, _ => rfl

/-- **An entry of the table**, by those beside it, below it, and across. -/
theorem corner_lengths (x : α) (xs : List α) (y : α) (ys : List α) :
    corner (lengths (x :: xs) (y :: ys)) =
      if x = y then corner (lengths xs ys) + 1
      else max (corner (lengths xs (y :: ys))) (corner (lengths (x :: xs) ys)) := by
  have htop : topRow xs ys = (topRow xs (y :: ys)).tail := by
    rw [topRow, topRow, ← shift_lengths xs y ys, headD_shift]
  have hlength := length_topRow xs (y :: ys)
  show (row x (y :: ys) (topRow xs (y :: ys))).headD 0 =
    if x = y then (topRow xs ys).headD 0 + 1
    else max ((topRow xs (y :: ys)).headD 0) ((row x ys (topRow xs ys)).headD 0)
  rw [htop]
  match topRow xs (y :: ys), hlength with
  | first :: second :: below, _ => rfl

/-- Where neither neighbour has the same entry, the elements are equal. -/
theorem eq_of_corner_ne {x : α} {xs : List α} {y : α} {ys : List α}
    (hright : corner (lengths (x :: xs) (y :: ys)) ≠ corner (lengths (x :: xs) ys))
    (hleft : corner (lengths (x :: xs) (y :: ys)) ≠ corner (lengths xs (y :: ys))) : x = y := by
  by_cases heq : x = y
  · exact heq
  · rw [corner_lengths, if_neg heq] at hright hleft
    omega

theorem corner_lengths_nil (xs : List α) : corner (lengths xs []) = 0 := by
  cases xs <;> rfl

/-- **The table bounds the length of every common subsequence.** -/
theorem length_le_corner {xs ys other : List α} (hxs : other.Sublist xs)
    (hys : other.Sublist ys) : other.length ≤ corner (lengths xs ys) := by
  induction xs generalizing ys other with
  | nil =>
    rw [List.sublist_nil.mp hxs]
    exact Nat.zero_le _
  | cons x xs ih =>
    induction ys generalizing other with
    | nil =>
      rw [List.sublist_nil.mp hys]
      exact Nat.zero_le _
    | cons y ys ih' =>
      rw [corner_lengths]
      split
      case isTrue heq =>
        have hrest : other.tail.length ≤ corner (lengths xs ys) := ih hxs.tail hys.tail
        rw [List.length_tail] at hrest
        omega
      case isFalse hne =>
        rcases sublist_or_sublist_of_ne hne hxs hys with hshort | hshort
        · exact Nat.le_trans (ih hshort hys) (Nat.le_max_left _ _)
        · exact Nat.le_trans (ih' hxs hshort) (Nat.le_max_right _ _)

/-! ### The way through the table -/

/-- **The way through the table goes by both lists**, and pairs as many elements as its entry
says. -/
theorem trace_spec (xs ys : List α) {rows : List (List Nat)} (h : rows = lengths xs ys) :
    Shows (trace xs ys rows) xs ys ∧ (common (trace xs ys rows)).length = corner rows := by
  induction xs, ys, rows using trace.induct with
  | case1 rows =>
    rw [trace, h]
    exact ⟨.nil, rfl⟩
  | case2 y ys rows ih =>
    have hshift : shift rows = lengths [] ys := by rw [h, shift_lengths]
    have hcorner : corner (shift rows) = corner rows := by rw [hshift, h]; rfl
    obtain ⟨hshows, hcommon⟩ := ih hshift
    rw [trace]
    exact ⟨hshows.consRight y, hcommon.trans hcorner⟩
  | case3 x xs rows ih =>
    have htail : rows.tail = lengths xs [] := by rw [h]; rfl
    have hcorner : corner rows.tail = corner rows := by
      rw [htail, h, corner_lengths_nil, corner_lengths_nil]
    obtain ⟨hshows, hcommon⟩ := ih htail
    rw [trace]
    exact ⟨hshows.consLeft x, hcommon.trans hcorner⟩
  | case4 x xs y ys rows hcorner ih =>
    obtain ⟨hshows, hcommon⟩ := ih (by rw [h, shift_lengths])
    rw [trace, if_pos hcorner]
    exact ⟨hshows.consRight y, hcommon.trans hcorner.symm⟩
  | case5 x xs y ys rows hright hcorner ih =>
    obtain ⟨hshows, hcommon⟩ := ih (by rw [h]; rfl)
    rw [trace, if_neg hright, if_pos hcorner]
    exact ⟨hshows.consLeft x, hcommon.trans hcorner.symm⟩
  | case6 x xs y ys rows hright hleft ih =>
    have htail : rows.tail = lengths xs (y :: ys) := by rw [h]; rfl
    have hshift : shift rows.tail = lengths xs ys := by rw [htail, shift_lengths]
    obtain ⟨hshows, hcommon⟩ := ih hshift
    rw [trace, if_neg hright, if_neg hleft]
    rw [h, shift_lengths] at hright
    rw [htail, h] at hleft
    obtain rfl : x = y := eq_of_corner_ne hright hleft
    have hcorner : corner rows = corner (shift rows.tail) + 1 := by
      rw [hshift, h, corner_lengths, if_pos rfl]
    refine ⟨hshows.consPair x, ?_⟩
    rw [hcorner, ← hcommon]
    rfl

/-- The way through the table pairs a longest common subsequence. -/
theorem isLongest_trace (xs ys : List α) : IsLongest (trace xs ys (lengths xs ys)) xs ys := by
  obtain ⟨hshows, hcommon⟩ := trace_spec xs ys rfl
  exact ⟨hshows, fun _ hxs hys => hcommon.symm ▸ length_le_corner hxs hys⟩

theorem isLongest_ofMiddle (xs ys : List α) : IsLongest (ofMiddle xs ys) xs ys := by
  have htrace := (isLongest_trace xs.reverse ys.reverse).reverse
  rwa [List.reverse_reverse, List.reverse_reverse] at htrace

/-! ### Differences -/

theorem take_commonStart (xs ys : List α) :
    xs.take (commonStart xs ys) = ys.take (commonStart xs ys) := by
  induction xs generalizing ys with
  | nil => cases ys <;> rfl
  | cons x xs ih =>
    cases ys with
    | nil => rfl
    | cons y ys =>
      rw [commonStart]
      split
      case isTrue heq => rw [List.take_succ_cons, List.take_succ_cons, heq, ih]
      case isFalse => rfl

/-- What two lists end with in common. -/
theorem drop_commonStart_reverse (xs ys : List α) :
    xs.drop (xs.length - commonStart xs.reverse ys.reverse) =
      ys.drop (ys.length - commonStart xs.reverse ys.reverse) := by
  have htake := congrArg List.reverse (take_commonStart xs.reverse ys.reverse)
  rwa [List.reverse_take, List.reverse_take, List.reverse_reverse, List.reverse_reverse,
    List.length_reverse, List.length_reverse] at htake

/-- What two lists start and end with in common is paired, and the rest of both is traced. -/
theorem exists_ofLists_eq (xs ys : List α) : ∃ front back xs' ys' : List α,
    front ++ xs' ++ back = xs ∧ front ++ ys' ++ back = ys ∧
      ofLists xs ys = front.map pair ++ ofMiddle xs' ys' ++ back.map pair := by
  refine ⟨_, _, _, _, ?_, ?_, rfl⟩
  · rw [List.append_assoc, List.take_append_drop, List.take_append_drop]
  · -- the ends that the lists have in common are taken from the left one
    rw [take_commonStart, drop_commonStart_reverse, List.append_assoc, List.take_append_drop,
      List.take_append_drop]

/-- **A difference pairs a longest common subsequence** of the two lists. -/
theorem isLongest_ofLists (xs ys : List α) : IsLongest (ofLists xs ys) xs ys := by
  obtain ⟨front, back, xs', ys', hxs, hys, heq⟩ := exists_ofLists_eq xs ys
  have hsurround := (isLongest_ofMiddle xs' ys').surround front back
  rwa [hxs, hys, ← heq] at hsurround

end Edit

/-- **The standard comparison aligns the lines of two texts.** -/
theorem LineDiff.standard_aligns : standard.Aligns := fun _ _ =>
  ⟨_, Edit.isLongest_ofLists _ _, rfl⟩

end ArmListing.Text
