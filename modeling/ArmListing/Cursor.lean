import ArmListing.Word
import ArmListing.Decoder

/-!
# ArmListing.Cursor

A **position in a byte string** that only moves forward.

Looking ahead never moves the cursor, and past the end of the data it sees
zeroes. The position lies inside the data or at its end; the type carries the
bound.

There are two ways to move. `step` moves by the width of an instruction, as a
walk does. `advance?` takes any 64-bit count. Position and count are added as
machine words before the sum is held back at the end of the data, so there is no
answer if the sum is too large for a word (`advance?_eq_none_iff`).
-/

namespace ArmListing

/-- A position in `data`. -/
structure Cursor where
  data : Array UInt8
  offset : Nat
  offset_le : offset ≤ data.size

namespace Cursor

/-- The cursor at `offset`, or at the end if the data is shorter. -/
def atOffset (data : Array UInt8) (offset : Nat) : Cursor :=
  ⟨data, min offset data.size, Nat.min_le_right ..⟩

/-- The number of bytes that are left. -/
def remaining (c : Cursor) : Nat := c.data.size - c.offset

/-- The cursor behind an instruction of the given width. -/
def step (c : Cursor) (width : Width) : Cursor := atOffset c.data (c.offset + width.bytes)

/-- The cursor behind `count` bytes, unless position and count add up to more than a 64-bit word
holds. -/
def advance? (c : Cursor) (count : UInt64) : Option Cursor :=
  if c.offset + count.toNat < UInt64.size then some (atOffset c.data (c.offset + count.toNat))
  else none

/-- At most `count` of the bytes that are left. -/
def peek (c : Cursor) (count : Nat) : List UInt8 :=
  (c.data.extract c.offset (c.offset + count)).toList

/-- The next `count` bytes, with zeroes past the end. -/
def peekPadded (c : Cursor) (count : Nat) : List UInt8 :=
  (c.peek count).rightpad count 0

/-- The number that bytes stand for, the lowest byte first. -/
def littleEndian (bytes : List UInt8) : Nat :=
  bytes.foldr (fun b n => b.toNat + 256 * n) 0

/-- The next four bytes as a word, the lowest byte first, with zeroes past the end. -/
def peekWord (c : Cursor) : Word :=
  BitVec.ofNat 32 (littleEndian (c.peekPadded 4))

@[simp] theorem data_step (c : Cursor) (width : Width) : (c.step width).data = c.data := rfl

@[simp] theorem offset_atOffset (data : Array UInt8) (offset : Nat) :
    (atOffset data offset).offset = min offset data.size := rfl

theorem offset_step (c : Cursor) (width : Width) :
    (c.step width).offset = min (c.offset + width.bytes) c.data.size := rfl

/-- Only a sum that is too large for a word has no answer. -/
theorem advance?_eq_none_iff {c : Cursor} {count : UInt64} :
    c.advance? count = none ↔ UInt64.size ≤ c.offset + count.toNat := by
  simp [advance?]

/-- An answer holds the exact sum back at the end of the data. -/
theorem eq_of_advance? {c d : Cursor} {count : UInt64} (h : c.advance? count = some d) :
    d = atOffset c.data (c.offset + count.toNat) := by
  obtain ⟨-, hd⟩ := Option.ite_none_right_eq_some.mp h
  exact (Option.some.inj hd).symm

theorem data_of_advance? {c d : Cursor} {count : UInt64} (h : c.advance? count = some d) :
    d.data = c.data := by
  rw [eq_of_advance? h]
  rfl

theorem offset_of_advance? {c d : Cursor} {count : UInt64} (h : c.advance? count = some d) :
    d.offset = min (c.offset + count.toNat) c.data.size := by
  rw [eq_of_advance? h, offset_atOffset]

/-- No look-ahead is longer than what is left. -/
theorem length_peek (c : Cursor) (count : Nat) : (c.peek count).length = min count c.remaining := by
  simp only [peek, remaining, Array.length_toList, Array.size_extract]
  omega

end Cursor

end ArmListing
