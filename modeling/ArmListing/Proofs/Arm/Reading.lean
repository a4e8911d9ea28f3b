import ArmListing.Proofs.Arm.Encoding
import ArmListing.Proofs.Arm.Spelling
import ArmListing.Proofs.Assembly.Reading

/-!
# ArmListing.Proofs.Arm.Reading

**Reading instructions back** off their text, as far as all fields of their words
are shown.

A mnemonic is a stem, a condition and a tail. No tail starts like a condition, so
the three are told apart (`Instruction.head?_eq_of_mnemonic`), and the operands
are told by their symbols. So instructions with the same text are the same
(`Instruction.IsShown.eq_of_text`). As encoding undoes reading, words with the
same text are the same too, except for the direction of an offset that is left
out (`text_decode_eq_iff`).
-/

namespace ArmListing

/-- What stands behind texts of the same length is told apart from them. -/
theorem append_inj_of_length {front front' back back' : String}
    (hlength : front.toList.length = front'.toList.length) (h : front ++ back = front' ++ back') :
    front = front' ∧ back = back' := by
  have hchars := congrArg String.toList h
  rw [String.toList_append, String.toList_append] at hchars
  obtain ⟨hfront, hback⟩ := List.append_inj hchars hlength
  exact ⟨String.toList_inj.mp hfront, String.toList_inj.mp hback⟩

/-! ## Conditions -/

namespace Condition

theorem length_suffix (c : Condition) :
    c.suffix.toList.length = if c = always then 0 else 2 := by
  cases c <;> rfl

/-- What may stand behind a condition. -/
def tails : List String := ["", "s", "b", "t", "bt", "da", "ia", "db", "ib"]

/-- No tail starts like a condition. -/
theorem append_ne_of_mem_tails {c : Condition} {tail : String} (hc : c ≠ always)
    (htail : tail ∈ tails) (rest : String) : c.suffix ++ rest ≠ tail := by
  have hall : ∀ tail ∈ tails, ¬c.suffix.toList <+: tail.toList := by
    cases c with
    | always => contradiction
    | _ => decide
  rintro rfl
  exact hall _ htail (by rw [String.toList_append]; exact List.prefix_append _ _)

/-- A condition and its tail are told apart. -/
theorem suffix_append_inj {c c' : Condition} {tail tail' : String} (htail : tail ∈ tails)
    (htail' : tail' ∈ tails) (h : c.suffix ++ tail = c'.suffix ++ tail') :
    c = c' ∧ tail = tail' := by
  by_cases hc : c = always
  · subst hc
    by_cases hc' : c' = always
    · subst hc'
      exact ⟨rfl, h⟩
    · exact absurd h.symm (append_ne_of_mem_tails hc' htail tail')
  · by_cases hc' : c' = always
    · subst hc'
      exact absurd h (append_ne_of_mem_tails hc htail' tail)
    · have hlength : c.suffix.toList.length = c'.suffix.toList.length := by
        rw [length_suffix, length_suffix, if_neg hc, if_neg hc']
      obtain ⟨hsuffix, htails⟩ := append_inj_of_length hlength h
      exact ⟨suffix_injective hsuffix, htails⟩

end Condition

namespace Arm

/-! ## Stems -/

/-- What a mnemonic starts with. -/
inductive Stem
  | arithmetic (op : Arithmetic)
  | transfer (load : Bool)
  | blockTransfer (load : Bool)
  | branch (link : Bool)
  | softwareInterrupt
  | coprocessorOperation
  | coprocessorMove (fromCoprocessor : Bool)
  deriving DecidableEq

namespace Stem

def name : Stem → String
  | arithmetic op => op.name
  | transfer load => if load then "ldr" else "str"
  | blockTransfer load => if load then "ldm" else "stm"
  | branch link => "b" ++ mark link "l"
  | softwareInterrupt => "swi"
  | coprocessorOperation => "cdp"
  | coprocessorMove fromCoprocessor => if fromCoprocessor then "mrc" else "mcr"

/-- Branches are the ones that do not have three letters. -/
def isBranch : Stem → Bool
  | branch _ => true
  | _ => false

def all : List Stem :=
  [.and, .eor, .sub, .rsb, .add, .adc, .sbc, .rsc, .orr, .bic].map arithmetic ++
    [transfer false, transfer true, blockTransfer false, blockTransfer true, branch false,
      branch true, softwareInterrupt, coprocessorOperation, coprocessorMove false,
      coprocessorMove true]

theorem mem_all (stem : Stem) : stem ∈ all := by
  cases stem with
  | arithmetic op => cases op <;> decide
  | transfer load | blockTransfer load => cases load <;> decide
  | branch link => cases link <;> decide
  | coprocessorMove fromCoprocessor => cases fromCoprocessor <;> decide
  | softwareInterrupt | coprocessorOperation => decide

theorem name_injective : Function.Injective name := by
  have hall : ∀ a ∈ all, ∀ b ∈ all, a.name = b.name → a = b := by decide
  exact fun a b => hall a (mem_all a) b (mem_all b)

theorem length_name {stem : Stem} (h : stem.isBranch = false) : stem.name.toList.length = 3 := by
  have hall : ∀ stem ∈ all, stem.isBranch = false → stem.name.toList.length = 3 := by decide
  exact hall stem (mem_all stem) h

/-- No branch starts like another instruction, of which `bic` comes closest. -/
theorem append_ne_branch {stem : Stem} (h : stem.isBranch = false) (rest : String) (link : Bool)
    (c : Condition) : stem.name ++ rest ≠ (branch link).name ++ c.suffix := by
  have hall : ∀ stem ∈ all, stem.isBranch = false →
      ¬stem.name.toList <+: ((branch link).name ++ c.suffix).toList := by
    cases link <;> cases c <;> decide
  intro hbranch
  refine hall stem (mem_all stem) h ?_
  rw [← hbranch, String.toList_append]
  exact List.prefix_append _ _

/-- The length of a branch is odd unless it is a call, so `bls` is no call. -/
theorem branch_append_inj {link link' : Bool} {c c' : Condition}
    (h : (branch link).name ++ c.suffix = (branch link').name ++ c'.suffix) :
    link = link' ∧ c = c' := by
  have hlength : (branch link).name.toList.length = (branch link').name.toList.length := by
    have hall := congrArg (fun text : String => text.toList.length) h
    have hlink (link : Bool) : (branch link).name.toList.length = 1 + link.toNat := by
      cases link <;> rfl
    simp only [String.toList_append, List.length_append, hlink, Condition.length_suffix] at hall ⊢
    have hbit := link.toNat_le
    have hbit' := link'.toNat_le
    split at hall <;> split at hall <;> omega
  obtain ⟨hstem, hsuffix⟩ := append_inj_of_length hlength h
  exact ⟨Stem.branch.inj (name_injective hstem), Condition.suffix_injective hsuffix⟩

theorem exists_link {stem : Stem} (h : stem.isBranch = true) : ∃ link, stem = branch link := by
  cases stem with
  | branch link => exact ⟨link, rfl⟩
  | _ => contradiction

/-- Stems, conditions and tails are told apart. -/
theorem append_inj {stem stem' : Stem} {c c' : Condition} {tail tail' : String}
    (htail : tail ∈ Condition.tails) (htail' : tail' ∈ Condition.tails)
    (hbranch : stem.isBranch = true → tail = "") (hbranch' : stem'.isBranch = true → tail' = "")
    (h : stem.name ++ c.suffix ++ tail = stem'.name ++ c'.suffix ++ tail') :
    stem = stem' ∧ c = c' ∧ tail = tail' := by
  cases hstem : stem.isBranch <;> cases hstem' : stem'.isBranch
  case false.false =>
    rw [String.append_assoc, String.append_assoc] at h
    obtain ⟨hname, hrest⟩ :=
      append_inj_of_length ((length_name hstem).trans (length_name hstem').symm) h
    exact ⟨name_injective hname, Condition.suffix_append_inj htail htail' hrest⟩
  case false.true =>
    obtain ⟨link, rfl⟩ := exists_link hstem'
    rw [hbranch' hstem', String.append_empty, String.append_assoc] at h
    exact absurd h (append_ne_branch hstem _ link c')
  case true.false =>
    obtain ⟨link, rfl⟩ := exists_link hstem
    rw [hbranch hstem, String.append_empty, String.append_assoc] at h
    exact absurd h.symm (append_ne_branch hstem' _ link c)
  case true.true =>
    obtain ⟨link, rfl⟩ := exists_link hstem
    obtain ⟨link', rfl⟩ := exists_link hstem'
    rw [hbranch hstem, hbranch' hstem', String.append_empty, String.append_empty] at h
    obtain ⟨rfl, rfl⟩ := branch_append_inj h
    rw [hbranch hstem, hbranch' hstem']
    exact ⟨rfl, rfl, rfl⟩

end Stem

/-! ## Instructions -/

theorem BlockMode.name_injective : Function.Injective name := by
  intro a b
  cases a <;> cases b <;> decide

namespace Instruction

/-- The instructions that show all fields of their words. -/
inductive IsShown : Instruction → Prop
  | arithmetic (op : Arithmetic) (c : Condition) (s : Bool) (rd rn : Register)
    (operand : ShiftedRegister) : IsShown (.arithmetic op c s rd rn (.register operand))
  | transfer (load byte asUser : Bool) (c : Condition) (rd : Register) (address : Address) :
    IsShown (.transfer load byte asUser c rd address)
  | blockTransfer (load : Bool) (mode : BlockMode) (c : Condition) (rn : Register)
    (writeback : Bool) (registers : RegisterList) (userBank : Bool) :
    IsShown (.blockTransfer load mode c rn writeback registers userBank)
  | branch (link : Bool) (c : Condition) (distance : Int) : IsShown (.branch link c distance)
  | softwareInterrupt (c : Condition) (number : Nat) : IsShown (.softwareInterrupt c number)
  | coprocessorOperation (c : Condition) (cp op1 crd crn crm op2 : Nat) :
    IsShown (.coprocessorOperation (.conditional c) cp op1 crd crn crm op2)
  | coprocessorMove (fromCoprocessor : Bool) (c : Condition) (cp op1 : Nat) (rd : Register)
    (crn crm op2 : Nat) :
    IsShown (.coprocessorMove fromCoprocessor (.conditional c) cp op1 rd crn crm op2)

theorem isShown_of_encode? {i : Instruction} {w : Word} (h : i.encode? = some w) : IsShown i := by
  unfold encode? at h
  split at h
  case h_9 => contradiction
  all_goals constructor

/-- Stem, condition and tail of the mnemonic. -/
def head? : Instruction → Option (Stem × Condition × String)
  | arithmetic op c s .. => some (.arithmetic op, c, mark s "s")
  | transfer load byte asUser c .. =>
    some (.transfer load, c, mark byte "b" ++ mark asUser "t")
  | blockTransfer load mode c .. => some (.blockTransfer load, c, mode.name)
  | branch link c _ => some (.branch link, c, "")
  | softwareInterrupt c _ => some (.softwareInterrupt, c, "")
  | coprocessorOperation (.conditional c) .. => some (.coprocessorOperation, c, "")
  | coprocessorMove fromCoprocessor (.conditional c) .. =>
    some (.coprocessorMove fromCoprocessor, c, "")
  | _ => none

variable {i j : Instruction}

theorem IsShown.exists_head (h : IsShown i) :
    ∃ stem c tail, i.head? = some (stem, c, tail) ∧ i.mnemonic = stem.name ++ c.suffix ++ tail ∧
      tail ∈ Condition.tails ∧ (stem.isBranch = true → tail = "") := by
  cases h with
  | arithmetic op c s rd rn operand =>
    exact ⟨_, _, _, rfl, rfl, by cases s <;> decide, fun h => absurd h Bool.false_ne_true⟩
  | transfer load byte asUser c rd address =>
    refine ⟨_, _, _, rfl, ?_, by cases byte <;> cases asUser <;> decide,
      fun h => absurd h Bool.false_ne_true⟩
    simp [mnemonic, Stem.name, String.append_assoc]
  | blockTransfer load mode c rn writeback registers userBank =>
    exact ⟨_, _, _, rfl, rfl, by cases mode <;> decide, fun h => absurd h Bool.false_ne_true⟩
  | branch | softwareInterrupt | coprocessorOperation | coprocessorMove =>
    exact ⟨_, _, _, rfl, String.append_empty.symm, by decide, fun _ => rfl⟩

theorem head?_eq_of_mnemonic (hi : IsShown i) (hj : IsShown j) (h : i.mnemonic = j.mnemonic) :
    i.head? = j.head? := by
  obtain ⟨stem, c, tail, hhead, hmnemonic, htail, hbranch⟩ := hi.exists_head
  obtain ⟨stem', c', tail', hhead', hmnemonic', htail', hbranch'⟩ := hj.exists_head
  rw [hmnemonic, hmnemonic'] at h
  obtain ⟨rfl, rfl, rfl⟩ := Stem.append_inj htail htail' hbranch hbranch' h
  rw [hhead, hhead']

theorem symbols_text (i : Instruction) :
    symbols i.text = i.mnemonic :: symbols (", ".intercalate i.operands) := by
  have hmnemonic := spelled_mono (fun _ => isSymbolChar_of_isAlphanum) i.spelled_isAlphanum_mnemonic
  rw [text, symbols_tab, symbols_of_spelled hmnemonic]
  rfl

@[simp] theorem symbols_coprocessor (n : Nat) : symbols (coprocessor n) = [coprocessor n] :=
  symbols_of_spelled (by simp +decide [coprocessor])

@[simp] theorem symbols_coprocessorRegister (n : Nat) :
    symbols (coprocessorRegister n) = [coprocessorRegister n] :=
  symbols_of_spelled (by simp +decide [coprocessorRegister])

theorem coprocessor_injective : Function.Injective coprocessor := fun _ _ h =>
  repr_injective ((String.append_right_inj _).mp h)

theorem coprocessorRegister_injective : Function.Injective coprocessorRegister := fun _ _ h =>
  repr_injective ((String.append_right_inj _).mp h)

theorem mark_injective {text : String} (h : text ≠ "") : Function.Injective (mark · text) := by
  intro shown shown'
  cases shown <;> cases shown' <;> simp [mark, h, h.symm]

/-- Marks behind a register are told from its name. -/
theorem name_append_mark_inj {r r' : Register} {shown shown' : Bool}
    (h : r.name ++ mark shown "!" = r'.name ++ mark shown' "!") : r = r' ∧ shown = shown' := by
  have hmark : spelled Char.isAlphanum "!" = false := by decide
  cases shown <;> cases shown' <;> simp [mark] at h ⊢
  · exact Register.name_injective h
  · exact absurd h.symm (ne_append_of_mark hmark r.spelled_isAlphanum_name _)
  · exact absurd h (ne_append_of_mark hmark r'.spelled_isAlphanum_name _)
  · exact Register.name_injective h

theorem symbols_name_append_mark (r : Register) (shown : Bool) :
    symbols (r.name ++ mark shown "!") = [r.name ++ mark shown "!"] :=
  symbols_of_spelled (by simp +decide)

theorem transferTail_inj {byte byte' asUser asUser' : Bool}
    (h : mark byte "b" ++ mark asUser "t" = mark byte' "b" ++ mark asUser' "t") :
    byte = byte' ∧ asUser = asUser' := by
  cases byte <;> cases byte' <;> cases asUser <;> cases asUser' <;> revert h <;> decide

/-- **Instructions that show all their fields are told by their text.** -/
theorem IsShown.eq_of_text (hi : IsShown i) (hj : IsShown j) (h : i.text = j.text) : i = j := by
  have hsymbols := congrArg symbols h
  rw [symbols_text, symbols_text, List.cons.injEq] at hsymbols
  obtain ⟨hmnemonic, hoperands⟩ := hsymbols
  have hhead := head?_eq_of_mnemonic hi hj hmnemonic
  cases hi <;> cases hj <;>
    simp only [head?, Option.some.injEq, Prod.mk.injEq, reduceCtorEq, false_and] at hhead
  case arithmetic.arithmetic =>
    obtain ⟨hstem, rfl, hflags⟩ := hhead
    simp [operands, symbols_comma, Register.name_injective.eq_iff] at hoperands
    obtain ⟨rfl, rfl, hoperand⟩ := hoperands
    rw [Stem.arithmetic.inj hstem, mark_injective (by decide) hflags,
      ShiftedRegister.eq_of_symbols_text hoperand]
  case transfer.transfer =>
    obtain ⟨hstem, rfl, htail⟩ := hhead
    simp [operands, symbols_comma, Register.name_injective.eq_iff] at hoperands
    obtain ⟨rfl, haddress⟩ := hoperands
    obtain ⟨rfl, rfl⟩ := transferTail_inj htail
    rw [Stem.transfer.inj hstem, Address.eq_of_symbols haddress]
  case blockTransfer.blockTransfer =>
    obtain ⟨hstem, rfl, hmode⟩ := hhead
    simp [operands, symbols_comma, symbols_name_append_mark] at hoperands
    obtain ⟨hbase, hlist⟩ := hoperands
    obtain ⟨rfl, rfl⟩ := name_append_mark_inj hbase
    obtain ⟨rfl, huser⟩ := RegisterList.eq_of_symbols (by simp +decide) (by simp +decide) hlist
    rw [Stem.blockTransfer.inj hstem, BlockMode.name_injective hmode,
      mark_injective (by decide) huser]
  case branch.branch =>
    obtain ⟨hstem, rfl, -⟩ := hhead
    simp [operands, displacement_injective.eq_iff] at hoperands
    rw [Stem.branch.inj hstem, hoperands]
  case softwareInterrupt.softwareInterrupt =>
    obtain ⟨-, rfl, -⟩ := hhead
    have hnumber (n : Nat) : symbols ("0x" ++ Hex.lower n) = ["0x" ++ Hex.lower n] :=
      symbols_of_spelled (by simp +decide)
    simp [operands, hnumber, Hex.lower_injective.eq_iff] at hoperands
    rw [hoperands]
  case coprocessorOperation.coprocessorOperation =>
    obtain ⟨-, rfl, -⟩ := hhead
    simp [operands, symbols_comma, coprocessor_injective.eq_iff, repr_injective.eq_iff,
      coprocessorRegister_injective.eq_iff] at hoperands
    obtain ⟨rfl, rfl, rfl, rfl, rfl, rfl⟩ := hoperands
    rfl
  case coprocessorMove.coprocessorMove =>
    obtain ⟨hstem, rfl, -⟩ := hhead
    simp [operands, symbols_comma, coprocessor_injective.eq_iff, repr_injective.eq_iff,
      coprocessorRegister_injective.eq_iff, Register.name_injective.eq_iff] at hoperands
    obtain ⟨rfl, rfl, rfl, rfl, rfl, rfl⟩ := hoperands
    rw [Stem.coprocessorMove.inj hstem]

end Instruction

/-! ## Words -/

variable {v w : Word} {revision : Revision}

theorem canonical_eq_of_text (hv : ShowsAllFields v) (hw : ShowsAllFields w)
    (h : (decode v revision).map Instruction.text = (decode w revision).map Instruction.text) :
    canonical v = canonical w := by
  obtain ⟨i, hi, hencode⟩ := encode?_of_decode hv revision
  obtain ⟨j, hj, hencode'⟩ := encode?_of_decode hw revision
  rw [hi, hj, Option.map_some, Option.map_some, Option.some.injEq] at h
  have hij : i = j := (Instruction.isShown_of_encode? hencode).eq_of_text
    (Instruction.isShown_of_encode? hencode') h
  rw [hij, hencode'] at hencode
  exact (Option.some.inj hencode).symm

theorem eq_or_of_canonical_eq (h : canonical v = canonical w) :
    v = w ∨ (LeavesOutOffset v ∧ LeavesOutOffset w ∧ v ^^^ w = directionBit) := by
  by_cases hv : LeavesOutOffset v
  · by_cases hw : LeavesOutOffset w
    · rw [canonical, canonical, if_pos hv, if_pos hw, or_directionBit_eq_iff] at h
      exact h.imp_right fun hdirection => ⟨hv, hw, hdirection⟩
    · rw [canonical, canonical, if_pos hv, if_neg hw] at h
      exact absurd (h ▸ leavesOutOffset_or_directionBit.mpr hv) hw
  · by_cases hw : LeavesOutOffset w
    · rw [canonical, canonical, if_neg hv, if_pos hw] at h
      exact absurd (h ▸ leavesOutOffset_or_directionBit.mpr hw) hv
    · rw [canonical, canonical, if_neg hv, if_neg hw] at h
      exact .inl h

/-- **Words all of whose fields are shown are told by their text**, with one exception: two
transfers that would add and take away an offset of zero, which is left out. All of these words are
defined, in both revisions. -/
theorem text_decode_eq_iff (revision : Revision) (hv : ShowsAllFields v) (hw : ShowsAllFields w) :
    (decode v revision).isSome ∧ (decode w revision).isSome ∧
      ((decode v revision).map Instruction.text = (decode w revision).map Instruction.text ↔
        v = w ∨ (LeavesOutOffset v ∧ LeavesOutOffset w ∧ v ^^^ w = directionBit)) := by
  have hdefined {w : Word} (hw : ShowsAllFields w) : (decode w revision).isSome = true := by
    obtain ⟨i, hi, -⟩ := encode?_of_decode hw revision
    rw [hi, Option.isSome_some]
  refine ⟨hdefined hv, hdefined hw, fun h => eq_or_of_canonical_eq (canonical_eq_of_text hv hw h),
    ?_⟩
  rintro (rfl | ⟨hleaves, hleaves', hdirection⟩)
  · rfl
  · have hcondition := (showsAllFields_iff.mp hv).1
    have hcondition' := (showsAllFields_iff.mp hw).1
    rw [← decode_or_directionBit hleaves hcondition, ← decode_or_directionBit hleaves' hcondition',
      or_directionBit_eq_iff.mpr (.inr hdirection)]

/-- Two ways to encode `ldr r1, [r0]`, and `add` beside `adds`. -/
theorem text_decode_eq_iff_ldr_adds :
    (decode 0xe5901000#32 .v4t).map Instruction.text =
        (decode 0xe5101000#32 .v4t).map Instruction.text ∧
      (decode 0xe0810002#32 .v5te).map Instruction.text ≠
        (decode 0xe0910002#32 .v5te).map Instruction.text := by
  have hup : ShowsAllFields 0xe5901000#32 := by decide
  have hdown : ShowsAllFields 0xe5101000#32 := by decide
  have hadd : ShowsAllFields 0xe0810002#32 := by decide
  have hadds : ShowsAllFields 0xe0910002#32 := by decide
  have hsame := (text_decode_eq_iff .v4t hup hdown).2.2
  have hdiffers := (text_decode_eq_iff .v5te hadd hadds).2.2
  exact ⟨hsame.mpr (by decide), fun h => absurd (hdiffers.mp h) (by decide)⟩

end Arm

end ArmListing
