import ArmListing.Text.Hex

/-!
# ArmListing.Span

**Ranges of byte offsets** into an input.

A span whose `stop` is zero is *open*: it reaches to the end of the input,
whatever its length. `Span.resolve` holds a span against an input of known
length and closes it.
-/

namespace ArmListing

/-- The offsets from `start` up to, and without, `stop`. -/
structure Span where
  start : Nat := 0
  stop : Nat := 0
  deriving DecidableEq, Repr, Inhabited

namespace Span

/-- Whether the length of the input decides where the span stops. -/
def isOpen (s : Span) : Bool := s.stop == 0

/-- The number of bytes; none if the stop lies before the start. -/
def length (s : Span) : Nat := s.stop - s.start

def isEmpty (s : Span) : Bool := s.length == 0

/-- The offsets in hexadecimal, without a stop for an open span. -/
def text (s : Span) : String :=
  if s.isOpen then "0x" ++ Hex.lower s.start ++ ".."
  else "0x" ++ Hex.lower s.start ++ "..0x" ++ Hex.lower s.stop

/-- The span in an input of `length` bytes, closed; none if one of its ends lies outside. -/
def resolve? (s : Span) (length : Nat) : Option Span :=
  if s.start > length ∨ s.stop > length then none
  else some ⟨s.start, if s.isOpen then length else s.stop⟩

theorem resolve?_eq_none_iff {s : Span} {length : Nat} :
    s.resolve? length = none ↔ s.start > length ∨ s.stop > length := by
  unfold resolve?
  split <;> simp_all

theorem resolve?_eq_some_iff {s r : Span} {length : Nat} :
    s.resolve? length = some r ↔
      (s.start ≤ length ∧ s.stop ≤ length) ∧
        r = ⟨s.start, if s.isOpen then length else s.stop⟩ := by
  unfold resolve?
  rw [Option.ite_none_left_eq_some, Option.some.injEq, eq_comm (b := r), not_or, Nat.not_lt,
    Nat.not_lt]

/-- A span that is closed already stays as it is. -/
theorem resolve?_of_pos {s : Span} {length : Nat} (hpos : 0 < s.stop) (hstart : s.start ≤ length)
    (hstop : s.stop ≤ length) : s.resolve? length = some s := by
  have hclosed : s.isOpen = false := beq_eq_false_iff_ne.mpr (Nat.ne_of_gt hpos)
  rw [resolve?_eq_some_iff, hclosed]
  exact ⟨⟨hstart, hstop⟩, rfl⟩

/-- Closing a span leaves its start. -/
theorem start_eq_of_resolve? {s r : Span} {length : Nat} (h : s.resolve? length = some r) :
    r.start = s.start := by
  obtain ⟨-, rfl⟩ := resolve?_eq_some_iff.mp h
  rfl

theorem start_le_of_resolve? {s r : Span} {length : Nat} (h : s.resolve? length = some r) :
    r.start ≤ length := by
  obtain ⟨⟨hstart, -⟩, rfl⟩ := resolve?_eq_some_iff.mp h
  exact hstart

/-- A closed span lies inside the input. -/
theorem stop_le_of_resolve? {s r : Span} {length : Nat} (h : s.resolve? length = some r) :
    r.stop ≤ length := by
  obtain ⟨⟨-, hstop⟩, rfl⟩ := resolve?_eq_some_iff.mp h
  simp only
  split
  · exact Nat.le_refl _
  · exact hstop

end Span

end ArmListing
