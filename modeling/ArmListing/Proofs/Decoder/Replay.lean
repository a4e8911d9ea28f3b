import ArmListing.Decoder.Standard
import ArmListing.Proofs.Code
import ArmListing.Proofs.Thumb.Call

/-!
# ArmListing.Proofs.Decoder.Replay

**Decoding an encoding on its own**. A walk decodes what it has prefetched, and
of that a narrow instruction takes only half. Whatever stood in the other half,
the encoding that the instruction is listed with says the same again
(`decode_code_ofPrefetch`).
-/

namespace ArmListing
namespace Thumb

variable {p : Word} {revision : Revision}

/-- Before what does not end a call every halfword is narrow. -/
theorem width_decode_of_not_endsCall (hend : ¬EndsCall revision (p.unsignedField 16 16)) :
    (decode p revision).1 = .narrow := by
  cases hwidth : (decode p revision).1 with
  | narrow => rfl
  | wide => exact absurd (decode_eq_wide_iff.mp hwidth).2 hend

theorem not_endsCall_zero (revision : Revision) : ¬EndsCall revision 0 := by
  cases revision <;> unfold EndsCall <;> decide

theorem toNat_code_narrow (p : Word) :
    (Encoding.ofPrefetch p .narrow).code.toNat = p.toNat % 2 ^ 16 := by
  rw [Encoding.ofPrefetch, Encoding.code, BitVec.toNat_setWidth, BitVec.toNat_setWidth]
  omega

theorem decode_code_ofPrefetch (p : Word) (revision : Revision) :
    decode (Encoding.ofPrefetch p (decode p revision).1).code revision = decode p revision := by
  cases hwidth : (decode p revision).1 with
  | wide => rfl
  | narrow =>
    have hhigh : (Encoding.ofPrefetch p .narrow).code.unsignedField 16 16 = 0 := by
      apply BitVec.eq_of_toNat_eq
      rw [Word.toNat_unsignedField _ (by decide), toNat_code_narrow]
      show _ = 0
      omega
    refine decode_congr_of_narrow hwidth (width_decode_of_not_endsCall ?_) ?_
    · rw [hhigh]
      exact not_endsCall_zero revision
    · apply BitVec.eq_of_toNat_eq
      rw [Word.toNat_unsignedField _ (by decide), Word.toNat_unsignedField _ (by decide),
        toNat_code_narrow]
      omega

end Thumb

namespace Decoder

/-- **An encoding is decoded like the prefetch that it was cut out of**: a halfword does not depend
on what stood behind it, so it may as well be zeroes. -/
theorem decode_code_ofPrefetch (target : Target) (p : Word) :
    standard.decode target (Encoding.ofPrefetch p (standard.decode target p).width).code =
      standard.decode target p := by
  obtain ⟨mode, revision⟩ := target
  cases mode with
  | arm => rfl
  | thumb =>
    have hdecode := Thumb.decode_code_ofPrefetch p revision
    exact congrArg (fun d => Decoded.mk d.1 (d.2.map Thumb.Instruction.text)) hdecode

end Decoder
end ArmListing
