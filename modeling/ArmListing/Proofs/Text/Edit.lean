import Mathlib.Data.List.Basic
import ArmListing.Text.Edit

/-!
# ArmListing.Proofs.Text.Edit

**What is relied on of a comparison of lines** (`LineDiff.Aligns`): it pairs equal
lines only, and as many of them as the two texts have in common in the same order.

The places of a difference show both lists (`Edit.Shows`), so lists that differ
have a change in their difference. The other direction takes that the paired
elements are as many as possible (`Edit.IsLongest`): a list has all of its elements
in common with itself, and then no place is left for a change (`eq_map_pair`).
-/

namespace ArmListing.Text

namespace Edit

variable {α : Type}

/-! ### Sides -/

/-- What stands on the left at a place. -/
def left? : Edit α → Option α
  | left a => some a
  | both a _ => some a
  | right _ => none

/-- What stands on the right at a place. -/
def right? : Edit α → Option α
  | left _ => none
  | both _ b => some b
  | right b => some b

/-- What stands on the left at a place that has a right side, too. -/
def paired? : Edit α → Option α
  | both a _ => some a
  | _ => none

/-- The elements that are paired. -/
def common (edits : List (Edit α)) : List α := edits.filterMap paired?

theorem isSome_paired? (e : Edit α) : e.paired?.isSome = !e.isChange := by
  cases e <;> rfl

/-- A pair counts on both sides, and any other place on one. -/
theorem length_sides (edits : List (Edit α)) :
    (edits.filterMap left?).length + (edits.filterMap right?).length =
      edits.length + (common edits).length := by
  induction edits with
  | nil => rfl
  | cons e edits ih =>
    cases e with
    | left a =>
      show (edits.filterMap left?).length + 1 + (edits.filterMap right?).length =
        edits.length + 1 + (common edits).length
      omega
    | both a b =>
      show (edits.filterMap left?).length + 1 + ((edits.filterMap right?).length + 1) =
        edits.length + 1 + ((common edits).length + 1)
      omega
    | right b =>
      show (edits.filterMap left?).length + ((edits.filterMap right?).length + 1) =
        edits.length + 1 + (common edits).length
      omega

/-- Some places show two lists: their left sides are the one, their right sides the other, and only
equal elements are paired. -/
structure Shows (edits : List (Edit α)) (xs ys : List α) : Prop where
  left : edits.filterMap left? = xs
  right : edits.filterMap right? = ys
  eq_of_both_mem : ∀ x y, both x y ∈ edits → x = y

namespace Shows

variable {edits : List (Edit α)} {xs ys : List α}

theorem nil : Shows ([] : List (Edit α)) [] [] := ⟨rfl, rfl, nofun⟩

theorem consLeft (h : Shows edits xs ys) (x : α) : Shows (.left x :: edits) (x :: xs) ys where
  left := congrArg (x :: ·) h.left
  right := h.right
  eq_of_both_mem a b hmem := by
    cases hmem with
    | tail _ hmem => exact h.eq_of_both_mem a b hmem

theorem consRight (h : Shows edits xs ys) (y : α) : Shows (.right y :: edits) xs (y :: ys) where
  left := h.left
  right := congrArg (y :: ·) h.right
  eq_of_both_mem a b hmem := by
    cases hmem with
    | tail _ hmem => exact h.eq_of_both_mem a b hmem

theorem consPair (h : Shows edits xs ys) (x : α) : Shows (pair x :: edits) (x :: xs) (x :: ys) where
  left := congrArg (x :: ·) h.left
  right := congrArg (x :: ·) h.right
  eq_of_both_mem a b hmem := by
    cases hmem with
    | head => rfl
    | tail _ hmem => exact h.eq_of_both_mem a b hmem

theorem reverse (h : Shows edits xs ys) : Shows edits.reverse xs.reverse ys.reverse where
  left := by rw [List.filterMap_reverse, h.left]
  right := by rw [List.filterMap_reverse, h.right]
  eq_of_both_mem a b hmem := h.eq_of_both_mem a b (List.mem_reverse.mp hmem)

/-- Places without a change are pairs. -/
theorem eq_map_pair_of_forall (h : Shows edits xs ys) (hsame : ∀ e ∈ edits, e.isChange = false) :
    edits = xs.map pair := by
  obtain ⟨rfl, -, hboth⟩ := h
  induction edits with
  | nil => rfl
  | cons e edits ih =>
    obtain ⟨he, hrest⟩ := List.forall_mem_cons.mp hsame
    cases e with
    | left a => contradiction
    | right b => contradiction
    | both a b =>
      obtain rfl : a = b := hboth a b List.mem_cons_self
      have hedits := ih hrest fun x y hmem => hboth x y (List.mem_cons_of_mem _ hmem)
      exact congrArg (pair a :: ·) hedits

/-- Places without a change show the same list on both sides. -/
theorem eq_of_forall (h : Shows edits xs ys) (hsame : ∀ e ∈ edits, e.isChange = false) :
    xs = ys := by
  have hedits := h.eq_map_pair_of_forall hsame
  have hright : (xs.map pair).filterMap right? = xs := by
    rw [List.filterMap_map]
    exact List.filterMap_some
  rw [← h.right, hedits, hright]

end Shows

/-! ### Longest differences -/

/-- Some places show two lists, and what they pair is a longest common subsequence. -/
structure IsLongest (edits : List (Edit α)) (xs ys : List α) : Prop extends Shows edits xs ys where
  length_le : ∀ other : List α, other.Sublist xs → other.Sublist ys →
    other.length ≤ (common edits).length

namespace IsLongest

variable {edits : List (Edit α)} {xs ys : List α}

/-- **A list has nothing but pairs in a difference with itself.** -/
theorem eq_map_pair (h : IsLongest edits xs xs) : edits = xs.map pair := by
  have hcommon : xs.length ≤ (common edits).length :=
    h.length_le xs (List.Sublist.refl xs) (List.Sublist.refl xs)
  have hsides := length_sides edits
  rw [h.left, h.right] at hsides
  have hle : (common edits).length ≤ edits.length := List.length_filterMap_le _ _
  -- as many elements as places are paired, so every place is a pair
  have hlength : (common edits).length = edits.length := by omega
  refine h.eq_map_pair_of_forall fun e he => ?_
  have hpaired := List.filterMap_length_eq_length.mp hlength e he
  rwa [isSome_paired?, Bool.not_eq_true'] at hpaired

/-- **A longest difference has a change in it if the lists differ**, and only then. -/
theorem exists_isChange_iff (h : IsLongest edits xs ys) :
    (∃ e ∈ edits, e.isChange = true) ↔ xs ≠ ys := by
  constructor
  · rintro ⟨e, he, hchange⟩ rfl
    rw [h.eq_map_pair] at he
    obtain ⟨x, -, rfl⟩ := List.mem_map.mp he
    contradiction
  · intro hne
    refine Classical.byContradiction fun hnone => hne ?_
    refine h.eq_of_forall fun e he => ?_
    exact Bool.eq_false_iff.mpr fun hchange => hnone ⟨e, he, hchange⟩

end IsLongest

end Edit

/-- A comparison lays the lines of two texts side by side by a longest common subsequence, and tells
behind them which of the texts ends its last line. -/
def LineDiff.Aligns (diff : LineDiff) : Prop :=
  ∀ left right, ∃ edits, Edit.IsLongest edits (linesOf left) (linesOf right) ∧
    diff left right = edits ++ ending left right

end ArmListing.Text
