import ArmListing.Decoder
import ArmListing.Text.Hex

/-!
# ArmListing.Line

The **lines of a listing**: address, encoding and assembler text of one
instruction.

The columns have fixed widths, so that the texts stand below each other: eight
digits for the address (more if it needs them), eight places for the encoding.
A halfword fills half of its column.
-/

namespace ArmListing

/-- The code of one instruction, as a number of its width. -/
inductive Encoding
  | halfword (value : BitVec 16)
  | word (value : Word)
  deriving DecidableEq, Repr

namespace Encoding

/-- The part of `prefetch` that an instruction of the given width takes. -/
def ofPrefetch (prefetch : Word) : Width → Encoding
  | .narrow => halfword (prefetch.setWidth 16)
  | .wide => word prefetch

def width : Encoding → Width
  | halfword _ => .narrow
  | word _ => .wide

@[simp] theorem width_ofPrefetch (prefetch : Word) (w : Width) :
    (ofPrefetch prefetch w).width = w := by
  cases w <;> rfl

/-- The value in upper-case digits. -/
def digits : Encoding → String
  | halfword value => Hex.upperPadded 4 value.toNat
  | word value => Hex.upperPadded 8 value.toNat

/-- The value in its column. -/
def column : Encoding → String
  | halfword value => (halfword value).digits ++ "    "
  | word value => (word value).digits

end Encoding

/-- One instruction of a listing. -/
structure Line where
  address : Nat
  encoding : Encoding
  decoded : Decoded
  deriving DecidableEq, Repr

namespace Line

/-- The line for the instruction that `prefetch` starts with. -/
def ofPrefetch (address : Nat) (prefetch : Word) (decoded : Decoded) : Line :=
  ⟨address, Encoding.ofPrefetch prefetch decoded.width, decoded⟩

def width (l : Line) : Width := l.encoding.width

/-- The line without its address column. -/
def body (l : Line) : String := l.encoding.column ++ " " ++ l.decoded.text

def text (l : Line) : String := Hex.upperPadded 8 l.address ++ ": " ++ l.body

@[simp] theorem width_ofPrefetch (address : Nat) (prefetch : Word) (decoded : Decoded) :
    (ofPrefetch address prefetch decoded).width = decoded.width :=
  Encoding.width_ofPrefetch ..

end Line

/-- How much has been listed so far. -/
structure Tally where
  /-- The number of lines. -/
  lines : Nat := 0
  /-- The number of lines with an undefined encoding. -/
  unknown : Nat := 0
  deriving DecidableEq, Repr, Inhabited

namespace Tally

/-- `t`, and one line more. -/
def add (t : Tally) (l : Line) : Tally :=
  ⟨t.lines + 1, if l.decoded.isKnown then t.unknown else t.unknown + 1⟩

end Tally

end ArmListing
