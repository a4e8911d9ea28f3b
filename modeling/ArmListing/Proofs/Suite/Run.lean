import ArmListing.Proofs.Code
import ArmListing.Proofs.Suite.Reader
import ArmListing.Suite.Run

/-!
# ArmListing.Proofs.Suite.Run

**What passes**: a case whose flags are known, and whose bytes are an instruction
of their width with the words of its text (`Case.Passes`).

A case that passes is judged without a word (`judge_cons_of_passes`), so a file
with no other cases is passed and nothing is reported (`judge_of_passes`).
-/

namespace ArmListing.Suite

open Text (LineDiff)

variable {diff : LineDiff} {mode : Mode} {file : String} {c : Case} {decoded : Decoded}

/-! ### Cases -/

/-- Short code is read into a word whole. -/
theorem Case.word_of_bytes {e : Encoding} (h : c.bytes = e.bytes) : c.word = e.code := by
  have hle := e.width.bytes_le
  rw [← Encoding.length_bytes] at hle
  rw [word, h, List.take_of_length_le hle, Encoding.littleEndian_bytes, BitVec.ofNat_toNat,
    BitVec.setWidth_eq]

/-- Only the words of a text are compared. -/
theorem singleSpaced_trim (text : String) :
    singleSpaced (String.ofList (Text.trim text.toList)) = singleSpaced text := by
  rw [singleSpaced, String.toList_ofList, Text.trim, Text.words_trimEnd, Text.words_trimStart,
    singleSpaced]

/-- Nothing is wrong with a case whose width and words are those of the instruction. -/
theorem caseReport?_eq_none_iff : caseReport? diff file c decoded = none ↔
    decoded.width.bytes = c.bytes.length ∧
      singleSpaced decoded.text = singleSpaced c.assembly := by
  unfold caseReport?
  dsimp only
  split
  case isTrue h => exact ⟨fun _ => h, fun _ => rfl⟩
  case isFalse h => exact ⟨fun hnone => absurd hnone (by simp), fun h' => absurd h' h⟩

/-- Whether the flags of a case are known, and the instruction is as wide as the case and has its
words. -/
def Case.Passes (mode : Mode) (c : Case) : Prop :=
  ∃ revision, revisionOfFlags (flags c.comment) .v5te = .ok revision ∧
    (Decoder.standard.decode ⟨mode, revision⟩ c.word).width.bytes = c.bytes.length ∧
    singleSpaced (Decoder.standard.decode ⟨mode, revision⟩ c.word).text = singleSpaced c.assembly

/-! ### Runs -/

/-- A case that passes is judged without a word. -/
theorem judge_cons_of_passes (h : c.Passes mode) (rest : List (Reading × Case)) (failures : Nat)
    (reports : String) :
    judge diff mode file ((.found, c) :: rest) failures reports =
      judge diff mode file rest failures reports := by
  obtain ⟨revision, hflags, hpasses⟩ := h
  have hreport : caseReport? diff file c _ = none := caseReport?_eq_none_iff.mpr hpasses
  rw [judge, hflags]
  dsimp only
  rw [hreport]

theorem judge_of_passes {all : List (Reading × Case)}
    (h : ∀ found ∈ all, found.1 = .found ∧ found.2.Passes mode) (failures : Nat)
    (reports : String) :
    judge diff mode file all failures reports = (.ofFailures failures, reports) := by
  induction all with
  | nil => rfl
  | cons found rest ih =>
    obtain ⟨⟨hfound, hpasses⟩, hrest⟩ := List.forall_mem_cons.mp h
    obtain ⟨reading, c⟩ := found
    obtain rfl : reading = .found := hfound
    rw [judge_cons_of_passes hpasses, ih hrest]

/-- A run judges what the lines come to one by one. -/
theorem run_eq (diff : LineDiff) (mode : Mode) (file text : String) :
    run diff mode file text = judge diff mode file (readings 1 (Text.lines text.toList)) 0 "" := by
  rw [run, Reader.readAll_eq]
  rfl

end ArmListing.Suite
