import ArmListing.Decoder
import ArmListing.Arm.Decode
import ArmListing.Arm.Text
import ArmListing.Thumb.Decode
import ArmListing.Thumb.Text

/-!
# ArmListing.Decoder.Standard

The **decoder for ARM processors**, put together from the instruction tables of
the two states and the texts of their instructions.
-/

namespace ArmListing.Decoder

/-- Decodes ARMv4T and ARMv5TE code. -/
def standard : Decoder where
  arm word revision := ⟨.wide, (Arm.decode word revision).map Arm.Instruction.text⟩
  thumb word revision :=
    let (width, instruction?) := Thumb.decode word revision
    ⟨width, instruction?.map Thumb.Instruction.text⟩

theorem decode_standard_arm (p : Word) (revision : Revision) :
    standard.decode ⟨.arm, revision⟩ p =
      ⟨.wide, (Arm.decode p revision).map Arm.Instruction.text⟩ := rfl

theorem decode_standard_thumb (p : Word) (revision : Revision) :
    standard.decode ⟨.thumb, revision⟩ p =
      ⟨(Thumb.decode p revision).1,
        (Thumb.decode p revision).2.map Thumb.Instruction.text⟩ := rfl

theorem fixedWidth_standard : standard.FixedWidth := fun _ _ => rfl

end ArmListing.Decoder
