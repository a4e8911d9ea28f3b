import ArmListing.Word
import ArmListing.Target

/-!
# ArmListing.Decoder

The **interface between walking and decoding**.

Design points:

* A `Decoder` is a pair of functions, one for each instruction set state. What
  walks over code (`ArmListing.Walk`) is written against this structure, so its
  laws hold for every decoder and not only for the ARM tables.
* A decoder is always shown 32 bits. In Thumb state only the low halfword is
  certain to belong to the instruction, and the width of the answer says how
  many bytes of the prefetch it takes.
* An undefined encoding has a width too: the walk steps over it and goes on.
-/

namespace ArmListing

/-- How much code one instruction takes. -/
inductive Width
  /-- One halfword. -/
  | narrow
  /-- One word. -/
  | wide
  deriving DecidableEq, Repr, Inhabited

namespace Width

/-- The number of bytes of an instruction of this width. -/
def bytes : Width → Nat
  | narrow => 2
  | wide => 4

/-- The width below which no instruction of the state goes. -/
def least : Mode → Width
  | .arm => wide
  | .thumb => narrow

theorem bytes_pos (w : Width) : 0 < w.bytes := by cases w <;> decide

theorem two_le_bytes (w : Width) : 2 ≤ w.bytes := by cases w <;> decide

theorem bytes_le (w : Width) : w.bytes ≤ 4 := by cases w <;> decide

end Width

/-- The answer of a decoder: a width, and the assembler text if the encoding is defined. -/
structure Decoded where
  width : Width
  text? : Option String
  deriving DecidableEq, Repr, Inhabited

namespace Decoded

/-- What a listing shows in place of an undefined encoding. -/
def unknownText : String := "<unknown>"

/-- Whether the encoding is defined. -/
def isKnown (d : Decoded) : Bool := d.text?.isSome

/-- The text that a listing shows. -/
def text (d : Decoded) : String := d.text?.getD unknownText

end Decoded

/-- Gives each 32-bit pattern a width and a text, in either instruction set state. -/
structure Decoder where
  /-- The instruction that a word holds in ARM state. -/
  arm : Word → Revision → Decoded
  /-- The instruction that a prefetched word starts with in Thumb state. -/
  thumb : Word → Revision → Decoded

namespace Decoder

/-- Decodes `prefetch` in the state and for the revision of `target`. -/
def decode (d : Decoder) (target : Target) (prefetch : Word) : Decoded :=
  match target.mode with
  | .arm => d.arm prefetch target.revision
  | .thumb => d.thumb prefetch target.revision

/-- In ARM state every instruction takes a whole word. -/
def FixedWidth (d : Decoder) : Prop :=
  ∀ word revision, (d.arm word revision).width = .wide

end Decoder

end ArmListing
