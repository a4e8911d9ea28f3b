import ArmListing.Decoder
import ArmListing.Text.Hex

/-!
# ArmListing.Decoder.Echo

A decoder without tables, which **shows the words themselves**. It lays a walk
open: in Thumb state the top four bits of a halfword choose the width, and a
halfword whose other bits are clear is undefined.
-/

namespace ArmListing.Decoder

/-- Writes each word as a number behind a letter. -/
def echo : Decoder where
  arm word _ := ⟨.wide, if word = 0 then none else some ("w" ++ Hex.lower word.toNat)⟩
  thumb word _ :=
    { width := if word.field 12 4 = 15 then .wide else .narrow
      text? := if word.field 0 12 = 0 then none else some ("h" ++ Hex.lower (word.field 0 16)) }

theorem fixedWidth_echo : echo.FixedWidth := fun _ _ => rfl

end ArmListing.Decoder
