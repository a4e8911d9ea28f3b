import ArmListing.Proofs.Arm.Branch
import ArmListing.Proofs.Thumb.Call

/-!
# ArmListing.Proofs.Thumb.Branch

**Encoding branches** of Thumb state, and what is read off the words.

Distances are counted from two halfwords ahead, so that four is taken from them.
A jump has the rest in halfwords, in one signed field. A call has it in two parts,
of which only the one in the first half is signed. Reading undoes that for each
distance that the bits reach (`decode_branchWord`, `decode_conditionalBranchWord`,
`decode_callWord`). On the way no number leaves the range of a 32-bit machine
(`isInt32_of_mem_branchSteps`, `isInt32_of_mem_callSteps`).
-/

namespace ArmListing.Thumb

/-! ### Encoding -/

/-- A word whose low halfword is a jump with the given field; the high one is the next code. -/
def branchWordOfField (field next : Nat) : Word :=
  .ofParts [(11, field), (5, 0b11100), (16, next)]

/-- A word whose low halfword is a jump over the distance `d`. -/
def branchWord (d : Int) (next : Nat) : Word :=
  branchWordOfField ((d - 4) / 2 % 2 ^ 11).toNat next

/-- A word whose low halfword is a jump under the condition with the given code. -/
def conditionalBranchWordOfField (code field next : Nat) : Word :=
  .ofParts [(8, field), (4, code), (4, 0b1101), (16, next)]

/-- A word whose low halfword is a jump over the distance `d` under a condition. -/
def conditionalBranchWord (c : Condition) (d : Int) (next : Nat) : Word :=
  conditionalBranchWordOfField c.code ((d - 4) / 2 % 2 ^ 8).toNat next

/-- The word of a call whose halves have the given fields; `exchange` leads into ARM code. -/
def callWordOfFields (exchange : Bool) (high low : Nat) : Word :=
  .ofParts [(11, high), (5, 0b11110), (11, low), (5, if exchange then 0b11101 else 0b11111)]

/-- The word of a call over the distance `d`. -/
def callWord (exchange : Bool) (d : Int) : Word :=
  callWordOfFields exchange ((d - 4) / 4096 % 2 ^ 11).toNat ((d - 4) / 2 % 2 ^ 11).toNat

theorem fields_branchWordOfField (field next : Nat) :
    (branchWordOfField field next).field 0 11 = field % 2 ^ 11 ∧
      (branchWordOfField field next).field 11 5 = 0b11100 := by
  have hparts := Word.parts_ofParts [(11, field), (5, 0b11100), (16, next)] rfl
  simp only [List.map_cons, Word.parts, List.cons.injEq, Prod.mk.injEq, true_and] at hparts
  obtain ⟨hfield, hclass, -⟩ := hparts
  exact ⟨hfield, hclass⟩

theorem fields_conditionalBranchWordOfField (code field next : Nat) :
    (conditionalBranchWordOfField code field next).field 0 8 = field % 2 ^ 8 ∧
      (conditionalBranchWordOfField code field next).field 8 4 = code % 2 ^ 4 ∧
      (conditionalBranchWordOfField code field next).field 12 4 = 0b1101 := by
  have hparts := Word.parts_ofParts [(8, field), (4, code), (4, 0b1101), (16, next)] rfl
  simp only [List.map_cons, Word.parts, List.cons.injEq, Prod.mk.injEq, true_and] at hparts
  obtain ⟨hfield, hcode, hclass, -⟩ := hparts
  exact ⟨hfield, hcode, hclass⟩

theorem fields_callWordOfFields (exchange : Bool) (high low : Nat) :
    (callWordOfFields exchange high low).field 0 11 = high % 2 ^ 11 ∧
      (callWordOfFields exchange high low).field 11 5 = 0b11110 ∧
      (callWordOfFields exchange high low).field 16 11 = low % 2 ^ 11 ∧
      (callWordOfFields exchange high low).field 27 5 =
        if exchange then 0b11101 else 0b11111 := by
  have hparts := Word.parts_ofParts
    [(11, high), (5, 0b11110), (11, low), (5, if exchange then 0b11101 else 0b11111)] rfl
  simp only [List.map_cons, Word.parts, List.cons.injEq, Prod.mk.injEq, true_and] at hparts
  obtain ⟨hhigh, hstart, hlow, hend, -⟩ := hparts
  refine ⟨hhigh, hstart, hlow, hend.trans ?_⟩
  cases exchange <;> rfl

/-! ### Reading halfwords -/

variable {h : Word} {revision : Revision}

theorem decodeHalfword_of_branch (hclass : h.field 11 5 = 0b11100) :
    decodeHalfword h revision = some (.branch .always (h.signedField 0 11 * 2 + 4)) := by
  have htop : h.field 11 5 = h.field 11 2 + 4 * h.field 13 3 := h.field_add 11 2 3 (by decide)
  have hlow : h.field 11 2 < 4 := h.field_lt (by decide)
  rw [decodeHalfword, show h.field 13 3 = 7 by omega]
  exact if_pos (by omega)

theorem decodeHalfword_of_conditionalBranch {c : Condition} (hc : c ≠ .always)
    (hclass : h.field 12 4 = 0b1101) (hcode : h.field 8 4 = c.code) :
    decodeHalfword h revision = some (.branch c (h.signedField 0 8 * 2 + 4)) := by
  have htop : h.field 12 4 = (h.bit 12).toNat + 2 * h.field 13 3 := h.field_succ 12 3 (by decide)
  have hbit : h.bit 12 = true := by
    cases hbit : h.bit 12 with
    | false => rw [hbit, Bool.toNat_false] at htop; omega
    | true => rfl
  rw [hbit, Bool.toNat_true] at htop
  have hbranch : conditionalBranch h = some (.branch c (h.signedField 0 8 * 2 + 4)) := by
    rw [conditionalBranch, hcode]
    cases c with
    | always => contradiction
    | _ => rfl
  rw [decodeHalfword, show h.field 13 3 = 6 by omega, hbranch]
  exact if_pos hbit

/-! ### Reading words -/

theorem field_low (w : Word) {pos len : Nat} (h : pos + len ≤ 16) :
    (w.unsignedField 0 16).field pos len = w.field pos len := by
  rw [Word.field_unsignedField w (by decide) h, Nat.zero_add]

theorem field_high (w : Word) {pos len : Nat} (h : pos + len ≤ 16) :
    (w.unsignedField 16 16).field pos len = w.field (16 + pos) len :=
  Word.field_unsignedField w (by decide) h

/-- A signed field of the low halfword holds the number that it was cut from. -/
theorem signedField_low {w : Word} {len : Nat} {x : Int} (hpos : 0 < len) (hlen : len ≤ 16)
    (hx : -2 ^ len ≤ 2 * x ∧ 2 * x < 2 ^ len) (hfield : w.field 0 len = (x % 2 ^ len).toNat) :
    (w.unsignedField 0 16).signedField 0 len = x := by
  obtain ⟨hlow, hhigh⟩ := hx
  refine Word.signedField_of_field hpos (by omega) hlow hhigh ?_
  rwa [field_low w (by omega)]

/-- Halfwords, with four taken from them, give back the distance. -/
theorem distance_of_field {w : Word} {len : Nat} {d : Int} (hpos : 0 < len) (hlen : len ≤ 16)
    (hdvd : 2 ∣ d) (hd : -2 ^ len ≤ d - 4 ∧ d - 4 < 2 ^ len)
    (hfield : w.field 0 len = ((d - 4) / 2 % 2 ^ len).toNat) :
    (w.unsignedField 0 16).signedField 0 len * 2 + 4 = d := by
  have hhalf : 2 * ((d - 4) / 2) = d - 4 := by omega
  rw [signedField_low hpos hlen (by rwa [hhalf]) hfield]
  omega

theorem distance_branchWord {d : Int} (next : Nat) (hdvd : 2 ∣ d) (hd : -2044 ≤ d ∧ d ≤ 2050) :
    ((branchWord d next).unsignedField 0 16).signedField 0 11 * 2 + 4 = d := by
  obtain ⟨hfield, -⟩ := fields_branchWordOfField ((d - 4) / 2 % 2 ^ 11).toNat next
  rw [← branchWord, Nat.mod_eq_of_lt (by omega)] at hfield
  exact distance_of_field (by decide) (by decide) hdvd (by omega) hfield

theorem decode_branchWord (revision : Revision) {d : Int} (next : Nat) (hdvd : 2 ∣ d)
    (hd : -2044 ≤ d ∧ d ≤ 2050) :
    decode (branchWord d next) revision = (.narrow, some (.branch .always d)) := by
  obtain ⟨-, hclass⟩ := fields_branchWordOfField ((d - 4) / 2 % 2 ^ 11).toNat next
  rw [← branchWord, ← field_low _ (by decide)] at hclass
  have hstart : ¬StartsCall ((branchWord d next).unsignedField 0 16) := by
    unfold StartsCall
    omega
  rw [decode_of_not_startsCall hstart, decodeHalfword_of_branch hclass,
    distance_branchWord next hdvd hd]

theorem distance_conditionalBranchWord (c : Condition) {d : Int} (next : Nat) (hdvd : 2 ∣ d)
    (hd : -252 ≤ d ∧ d ≤ 258) :
    ((conditionalBranchWord c d next).unsignedField 0 16).signedField 0 8 * 2 + 4 = d := by
  obtain ⟨hfield, -⟩ :=
    fields_conditionalBranchWordOfField c.code ((d - 4) / 2 % 2 ^ 8).toNat next
  rw [← conditionalBranchWord, Nat.mod_eq_of_lt (by omega)] at hfield
  exact distance_of_field (by decide) (by decide) hdvd (by omega) hfield

theorem decode_conditionalBranchWord (revision : Revision) {c : Condition} {d : Int} (next : Nat)
    (hc : c ≠ .always) (hdvd : 2 ∣ d) (hd : -252 ≤ d ∧ d ≤ 258) :
    decode (conditionalBranchWord c d next) revision = (.narrow, some (.branch c d)) := by
  have hdistance := distance_conditionalBranchWord c next hdvd hd
  obtain ⟨-, hcode, hclass⟩ :=
    fields_conditionalBranchWordOfField c.code ((d - 4) / 2 % 2 ^ 8).toNat next
  rw [← conditionalBranchWord, ← field_low _ (by decide)] at hcode hclass
  generalize (conditionalBranchWord c d next) = w at *
  have hlt := c.code_lt
  rw [Nat.mod_eq_of_lt (by omega)] at hcode
  have hstart : ¬StartsCall (w.unsignedField 0 16) := by
    -- the class is the upper part of the five bits that mark a call
    have htop := (w.unsignedField 0 16).field_succ 11 4 (by decide)
    intro hstart
    rw [hclass, hstart] at htop
    cases hbit : (w.unsignedField 0 16).bit 11 <;> simp [hbit] at htop
  rw [decode_of_not_startsCall hstart, decodeHalfword_of_conditionalBranch hc hclass hcode,
    hdistance]

/-- The two parts of a call give back its distance. -/
theorem callDistance_callWord (exchange : Bool) {d : Int} (hdvd : 2 ∣ d)
    (hd : -2 ^ 22 + 4 ≤ d ∧ d ≤ 2 ^ 22 + 2) :
    callDistance ((callWord exchange d).unsignedField 0 16)
      ((callWord exchange d).unsignedField 16 16) = d := by
  obtain ⟨hhigh, -, hlow, -⟩ := fields_callWordOfFields exchange
    ((d - 4) / 4096 % 2 ^ 11).toNat ((d - 4) / 2 % 2 ^ 11).toNat
  rw [← callWord] at hhigh hlow
  generalize callWord exchange d = w at *
  rw [Nat.mod_eq_of_lt (by omega)] at hhigh hlow
  rw [callDistance, signedField_low (by decide) (by decide) (by omega) hhigh,
    field_high w (by decide), hlow]
  omega

theorem decode_callWord (revision : Revision) {d : Int} (hdvd : 2 ∣ d)
    (hd : -2 ^ 22 + 4 ≤ d ∧ d ≤ 2 ^ 22 + 2) :
    decode (callWord false d) revision = (.wide, some (.branchLink false d)) := by
  obtain ⟨-, hstart, -, hend⟩ := fields_callWordOfFields false
    ((d - 4) / 4096 % 2 ^ 11).toNat ((d - 4) / 2 % 2 ^ 11).toNat
  rw [← callWord, ← field_low _ (by decide)] at hstart
  rw [← callWord, show 27 = 16 + 11 from rfl, ← field_high _ (by decide)] at hend
  rw [decode_of_call_v4t hstart (.inl hend), callDistance_callWord false hdvd hd]

/-- Calls into ARM code keep to whole words. -/
theorem decode_callWord_exchange {d : Int} (hdvd : 4 ∣ d)
    (hd : -2 ^ 22 + 4 ≤ d ∧ d ≤ 2 ^ 22 + 2) :
    decode (callWord true d) .v5te = (.wide, some (.branchLink true d)) := by
  have hdistance := callDistance_callWord true (show 2 ∣ d by omega) hd
  obtain ⟨-, hstart, hlow, hend⟩ := fields_callWordOfFields true
    ((d - 4) / 4096 % 2 ^ 11).toNat ((d - 4) / 2 % 2 ^ 11).toNat
  rw [← callWord] at hstart hlow hend
  generalize callWord true d = w at *
  rw [← field_low _ (by decide)] at hstart
  rw [show 27 = 16 + 11 from rfl, ← field_high _ (by decide)] at hend
  have hhalf : (w.unsignedField 16 16).bit 0 = false := by
    have hbit := (w.unsignedField 16 16).field_succ 0 10 (by decide)
    rw [field_high w (by decide), hlow] at hbit
    cases h : (w.unsignedField 16 16).bit 0 with
    | false => rfl
    | true => rw [h, Bool.toNat_true] at hbit; omega
  unfold decode
  dsimp only
  rw [if_pos hstart, hend, hdistance, hhalf]
  rfl

/-! ### Numbers on the way -/

/-- The numbers that lead to the distance of a jump with a field of the given length. -/
def branchSteps (len : Nat) (w : Word) : List Int :=
  let halfwords := (w.unsignedField 0 16).signedField 0 len
  [halfwords, halfwords * 2, halfwords * 2 + 4]

/-- The numbers that lead to the distance of a call. -/
def callSteps (w : Word) : List Int :=
  let high := (w.unsignedField 0 16).signedField 0 11
  let low := (w.unsignedField 16 16).field 0 11
  [high, high * 4096, low, low * 2, high * 4096 + low * 2, high * 4096 + low * 2 + 4]

theorem getLast?_callSteps (w : Word) : (callSteps w).getLast? =
    some (callDistance (w.unsignedField 0 16) (w.unsignedField 16 16)) := by
  simp only [callSteps, callDistance, List.getLast?_cons_cons, List.getLast?_singleton,
    Option.some.injEq]
  omega

theorem isInt32_of_mem_branchSteps {len : Nat} {w : Word} {n : Int} (hpos : 0 < len)
    (hlen : len ≤ 16) (h : n ∈ branchSteps len w) : IsInt32 n := by
  obtain ⟨hlow, hhigh⟩ :=
    (w.unsignedField 0 16).signedField_bounds hpos (show 0 + len ≤ 32 by omega)
  have hpow : (2 : Int) ^ len ≤ 2 ^ 16 := by exact_mod_cast Nat.pow_le_pow_right (by decide) hlen
  simp only [branchSteps, List.mem_cons, List.not_mem_nil, or_false] at h
  unfold IsInt32
  omega

theorem isInt32_of_mem_callSteps {w : Word} {n : Int} (h : n ∈ callSteps w) : IsInt32 n := by
  have hsecond := (w.unsignedField 16 16).field_lt (show 0 + 11 ≤ 32 by decide)
  obtain ⟨hlow, hhigh⟩ :=
    (w.unsignedField 0 16).signedField_bounds (show 0 < 11 by decide) (show 0 + 11 ≤ 32 by decide)
  simp only [callSteps, List.mem_cons, List.not_mem_nil, or_false] at h
  unfold IsInt32
  omega

end ArmListing.Thumb
