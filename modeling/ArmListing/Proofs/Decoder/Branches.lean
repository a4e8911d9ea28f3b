import ArmListing.Decoder.Standard
import ArmListing.Proofs.Assembly.Reading
import ArmListing.Proofs.Thumb.Branch

/-!
# ArmListing.Proofs.Decoder.Branches

**Branch targets undo the encoding** of branches, in both states
(`Decoder.branchesBy_of_encoding`): what is shown for the word of a branch has the
distance that the word was made for, over the whole reach of each encoding.
-/

namespace ArmListing.Decoder

/-- Whether code is shown as a branch over the distance `d`: the mnemonic and a target that is read
back as `d`. The distance is the last of the steps, none of which is too great for a register. -/
structure BranchesBy (target : Target) (p : Word) (width : Width) (mnemonic : String)
    (steps : List Int) (d : Int) : Prop where
  shown : ∃ operand, standard.decode target p = ⟨width, some (mnemonic ++ "\t" ++ operand)⟩ ∧
    distance? operand = some d
  last : steps.getLast? = some d
  isInt32 : ∀ n ∈ steps, IsInt32 n

variable {revision : Revision} {p : Word} {width : Width} {mnemonic : String} {steps : List Int}
  {d : Int}

theorem branchesBy_arm {i : Arm.Instruction} (hi : Arm.decode p revision = some i)
    (htext : i.text = mnemonic ++ "\t" ++ displacement d) (hlast : steps.getLast? = some d)
    (hsteps : ∀ n ∈ steps, IsInt32 n) :
    BranchesBy ⟨.arm, revision⟩ p .wide mnemonic steps d where
  shown := by
    refine ⟨displacement d, ?_, distance?_displacement d⟩
    rw [decode_standard_arm, hi, Option.map_some, htext]
  last := hlast
  isInt32 := hsteps

theorem branchesBy_thumb {i : Thumb.Instruction} (hi : Thumb.decode p revision = (width, some i))
    (htext : i.text = mnemonic ++ "\t" ++ displacement d) (hlast : steps.getLast? = some d)
    (hsteps : ∀ n ∈ steps, IsInt32 n) :
    BranchesBy ⟨.thumb, revision⟩ p width mnemonic steps d where
  shown := by
    refine ⟨displacement d, ?_, distance?_displacement d⟩
    rw [decode_standard_thumb, hi, Option.map_some, htext]
  last := hlast
  isInt32 := hsteps

/-! ### Encodings -/

theorem branchesBy_branchWord (revision : Revision) (link : Bool) (c : Condition) (hdvd : 4 ∣ d)
    (hd : -2 ^ 25 + 8 ≤ d ∧ d ≤ 2 ^ 25 + 4) :
    BranchesBy ⟨.arm, revision⟩ (Arm.branchWord link c d) .wide
      ("b" ++ Arm.mark link "l" ++ c.suffix) (Arm.branchSteps (Arm.branchWord link c d)) d :=
  branchesBy_arm (Arm.decode_branchWord revision link c hdvd hd) rfl
    (congrArg some (Arm.branchDistance_branchWord link c hdvd hd))
    fun _ => Arm.isInt32_of_mem_branchSteps

theorem branchesBy_branchToThumbWord (hdvd : 2 ∣ d) (hd : -2 ^ 25 + 8 ≤ d ∧ d ≤ 2 ^ 25 + 6) :
    BranchesBy ⟨.arm, .v5te⟩ (Arm.branchToThumbWord d) .wide "blx"
      (Arm.branchToThumbSteps (Arm.branchToThumbWord d)) d := by
  have hlast := Arm.getLast?_branchToThumbSteps (Arm.branchToThumbWord d)
  rw [Arm.distance_branchToThumbWord hdvd hd] at hlast
  exact branchesBy_arm (Arm.decode_branchToThumbWord hdvd hd) rfl hlast
    fun _ => Arm.isInt32_of_mem_branchToThumbSteps

theorem branchesBy_thumb_branchWord (revision : Revision) (next : Nat) (hdvd : 2 ∣ d)
    (hd : -2044 ≤ d ∧ d ≤ 2050) :
    BranchesBy ⟨.thumb, revision⟩ (Thumb.branchWord d next) .narrow "b"
      (Thumb.branchSteps 11 (Thumb.branchWord d next)) d :=
  branchesBy_thumb (Thumb.decode_branchWord revision next hdvd hd) rfl
    (congrArg some (Thumb.distance_branchWord next hdvd hd))
    fun _ => Thumb.isInt32_of_mem_branchSteps (by decide) (by decide)

theorem branchesBy_conditionalBranchWord (revision : Revision) {c : Condition} (next : Nat)
    (hc : c ≠ .always) (hdvd : 2 ∣ d) (hd : -252 ≤ d ∧ d ≤ 258) :
    BranchesBy ⟨.thumb, revision⟩ (Thumb.conditionalBranchWord c d next) .narrow
      ("b" ++ c.suffix) (Thumb.branchSteps 8 (Thumb.conditionalBranchWord c d next)) d :=
  branchesBy_thumb (Thumb.decode_conditionalBranchWord revision next hc hdvd hd) rfl
    (congrArg some (Thumb.distance_conditionalBranchWord c next hdvd hd))
    fun _ => Thumb.isInt32_of_mem_branchSteps (by decide) (by decide)

theorem branchesBy_callWord (revision : Revision) (hdvd : 2 ∣ d)
    (hd : -2 ^ 22 + 4 ≤ d ∧ d ≤ 2 ^ 22 + 2) :
    BranchesBy ⟨.thumb, revision⟩ (Thumb.callWord false d) .wide "bl"
      (Thumb.callSteps (Thumb.callWord false d)) d := by
  have hlast := Thumb.getLast?_callSteps (Thumb.callWord false d)
  rw [Thumb.callDistance_callWord false hdvd hd] at hlast
  exact branchesBy_thumb (Thumb.decode_callWord revision hdvd hd) rfl hlast
    fun _ => Thumb.isInt32_of_mem_callSteps

theorem branchesBy_callWord_exchange (hdvd : 4 ∣ d) (hd : -2 ^ 22 + 4 ≤ d ∧ d ≤ 2 ^ 22 + 2) :
    BranchesBy ⟨.thumb, .v5te⟩ (Thumb.callWord true d) .wide "blx"
      (Thumb.callSteps (Thumb.callWord true d)) d := by
  have hlast := Thumb.getLast?_callSteps (Thumb.callWord true d)
  rw [Thumb.callDistance_callWord true (by omega) hd] at hlast
  exact branchesBy_thumb (Thumb.decode_callWord_exchange hdvd hd) rfl hlast
    fun _ => Thumb.isInt32_of_mem_callSteps

/-! ### All encodings -/

/-- **Branches are shown with the distance that they were encoded with**, at both ends of the reach
of each encoding and everywhere between them. In ARM state these are jumps and calls under any
condition and calls into Thumb code; in Thumb state jumps, jumps under a condition, and calls in
two halves. The halfword behind a short jump does not matter. -/
theorem branchesBy_of_encoding (revision : Revision) (d : Int) :
    (∀ link c, 4 ∣ d → -2 ^ 25 + 8 ≤ d ∧ d ≤ 2 ^ 25 + 4 →
      BranchesBy ⟨.arm, revision⟩ (Arm.branchWord link c d) .wide
        ("b" ++ Arm.mark link "l" ++ c.suffix) (Arm.branchSteps (Arm.branchWord link c d)) d) ∧
    (2 ∣ d → -2 ^ 25 + 8 ≤ d ∧ d ≤ 2 ^ 25 + 6 →
      BranchesBy ⟨.arm, .v5te⟩ (Arm.branchToThumbWord d) .wide "blx"
        (Arm.branchToThumbSteps (Arm.branchToThumbWord d)) d) ∧
    (∀ next, 2 ∣ d → -2044 ≤ d ∧ d ≤ 2050 →
      BranchesBy ⟨.thumb, revision⟩ (Thumb.branchWord d next) .narrow "b"
        (Thumb.branchSteps 11 (Thumb.branchWord d next)) d) ∧
    (∀ c next, c ≠ .always → 2 ∣ d → -252 ≤ d ∧ d ≤ 258 →
      BranchesBy ⟨.thumb, revision⟩ (Thumb.conditionalBranchWord c d next) .narrow
        ("b" ++ c.suffix) (Thumb.branchSteps 8 (Thumb.conditionalBranchWord c d next)) d) ∧
    (2 ∣ d → -2 ^ 22 + 4 ≤ d ∧ d ≤ 2 ^ 22 + 2 →
      BranchesBy ⟨.thumb, revision⟩ (Thumb.callWord false d) .wide "bl"
        (Thumb.callSteps (Thumb.callWord false d)) d) ∧
    (4 ∣ d → -2 ^ 22 + 4 ≤ d ∧ d ≤ 2 ^ 22 + 2 →
      BranchesBy ⟨.thumb, .v5te⟩ (Thumb.callWord true d) .wide "blx"
        (Thumb.callSteps (Thumb.callWord true d)) d) :=
  ⟨branchesBy_branchWord revision, branchesBy_branchToThumbWord,
    branchesBy_thumb_branchWord revision,
    fun _ next => branchesBy_conditionalBranchWord revision next,
    branchesBy_callWord revision, branchesBy_callWord_exchange⟩

/-- At the ends of their reach. -/
theorem branchesBy_of_encoding_reach :
    BranchesBy ⟨.arm, .v4t⟩ 0xbb800000#32 .wide "bllt" (Arm.branchSteps 0xbb800000#32)
      (-33554424) ∧
    BranchesBy ⟨.arm, .v5te⟩ 0xfb7fffff#32 .wide "blx" (Arm.branchToThumbSteps 0xfb7fffff#32)
      33554438 ∧
    BranchesBy ⟨.thumb, .v4t⟩ 0xffffe400#32 .narrow "b" (Thumb.branchSteps 11 0xffffe400#32)
      (-2044) ∧
    BranchesBy ⟨.thumb, .v4t⟩ 0x0000d07f#32 .narrow "beq" (Thumb.branchSteps 8 0x0000d07f#32)
      258 ∧
    BranchesBy ⟨.thumb, .v4t⟩ 0xf800f400#32 .wide "bl" (Thumb.callSteps 0xf800f400#32)
      (-4194300) ∧
    BranchesBy ⟨.thumb, .v5te⟩ 0xeffef3ff#32 .wide "blx" (Thumb.callSteps 0xeffef3ff#32)
      4194304 := by
  have hcall : Arm.branchWord true .less (-33554424) = 0xbb800000#32 := by decide
  have hthumb : Arm.branchToThumbWord 33554438 = 0xfb7fffff#32 := by decide
  have hjump : Thumb.branchWord (-2044) 0xffff = 0xffffe400#32 := by decide
  have hequal : Thumb.conditionalBranchWord .equal 258 0 = 0x0000d07f#32 := by decide
  have hlow : Thumb.callWord false (-4194300) = 0xf800f400#32 := by decide
  have hhigh : Thumb.callWord true 4194304 = 0xeffef3ff#32 := by decide
  refine ⟨?_, ?_, ?_, ?_, ?_, ?_⟩
  · rw [← hcall]
    exact (branchesBy_of_encoding .v4t (-33554424)).1 true .less (by decide) (by decide)
  · rw [← hthumb]
    exact (branchesBy_of_encoding .v4t 33554438).2.1 (by decide) (by decide)
  · rw [← hjump]
    exact (branchesBy_of_encoding .v4t (-2044)).2.2.1 0xffff (by decide) (by decide)
  · rw [← hequal]
    exact (branchesBy_of_encoding .v4t 258).2.2.2.1 .equal 0 (by decide) (by decide) (by decide)
  · rw [← hlow]
    exact (branchesBy_of_encoding .v4t (-4194300)).2.2.2.2.1 (by decide) (by decide)
  · rw [← hhigh]
    exact (branchesBy_of_encoding .v4t 4194304).2.2.2.2.2 (by decide) (by decide)

end ArmListing.Decoder
