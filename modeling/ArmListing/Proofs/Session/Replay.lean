import ArmListing.Directory
import ArmListing.Proofs.Argument.Kind
import ArmListing.Proofs.Decoder.Replay
import ArmListing.Proofs.Job.Order
import ArmListing.Proofs.Line.Columns
import ArmListing.Proofs.Listing
import ArmListing.Session

/-!
# ArmListing.Proofs.Session.Replay

**Showing a line of a listing again**, from what stands in its columns.

The encoding column of a line, without the blanks that fill it, is a code that a
command line may ask for (`Word.ofArgument_digits`). A walk has taken the same
code out of a prefetch, of which a narrow instruction is only the lower half,
and decoding it with zeroes above gives the same line
(`Session.body_single_code`). So whoever asks for the code of a line, in the
mode of its walk, is shown the line as it was, without its address.
-/

namespace ArmListing

/-! ### Arguments -/

/-- A mode that asks for a target. -/
def Target.argument : Target → String
  | ⟨.arm, .v5te⟩ => "/a"
  | ⟨.arm, .v4t⟩ => "/a4"
  | ⟨.thumb, .v5te⟩ => "/t"
  | ⟨.thumb, .v4t⟩ => "/t4"

/-- Every target can be asked for. -/
theorem Target.ofArgument_argument (target : Target) : ofArgument target.argument = .ok target := by
  obtain ⟨mode, revision⟩ := target
  cases mode <;> cases revision <;> rfl

/-- The digits of an encoding are read as its code. -/
theorem Word.ofArgument_digits (e : Encoding) : ofArgument e.digits = .ok e.code := by
  have hdigits : ∀ c ∈ e.digits.toList, Hex.isDigit c = true := fun _ => e.isDigit_of_mem_digits
  have hlength := e.length_digits
  have hpos := e.width.bytes_pos
  have hle := e.width.bytes_le
  have hsize := Hex.utf8ByteSize_of_isDigit hdigits
  have hvalue : BitVec.ofNat 32 (Hex.value e.digits.toList) = e.code := by
    cases e with
    | halfword value =>
      rw [Encoding.digits, Hex.value_upperPadded, Encoding.code, BitVec.ofNat_toNat]
    | word value =>
      rw [Encoding.digits, Hex.value_upperPadded, Encoding.code, BitVec.ofNat_toNat,
        BitVec.setWidth_eq]
  rw [ofArgument, if_neg (by omega), if_pos (List.all_eq_true.mpr hdigits), hvalue]

/-! ### Jobs -/

/-- A code and a mode ask for one instruction, and there is nothing to warn of. -/
theorem Job.ofTokens_code {code mode : String} {word : Word} {target : Target}
    (hcode : Word.ofArgument code = .ok word) (hmode : Target.ofArgument mode = .ok target)
    (program : String) : ofTokens [program, code, mode] = (showWord word target, []) := by
  have hpath : ¬isPath code = true := ArgumentKind.not_path_of_code ⟨word, hcode⟩
  have hjob : ofCode code [mode] = showWord word target := by
    simp only [ofCode, hcode, List.getElem?_cons_zero, Settings.readTarget_of_ok _ hmode]
  have hfew : ¬maxArguments < [mode].length + 1 := Nat.not_lt.mpr (Nat.le_add_left 2 2)
  rw [ofTokens, if_neg hfew, if_neg hpath, hjob]

/-! ### Runs -/

/-- A word is the same line as the prefetch that it was cut out of, but for the address. -/
theorem Listing.single_code_ofPrefetch (target : Target) (p : Word) :
    single .standard target (Encoding.ofPrefetch p (Decoder.standard.decode target p).width).code =
      .ofPrefetch 0 p (Decoder.standard.decode target p) := by
  have hdecode := Decoder.decode_code_ofPrefetch target p
  have hencoding := (Encoding.ofPrefetch p (Decoder.standard.decode target p).width).ofPrefetch_code
  rw [Encoding.width_ofPrefetch] at hencoding
  rw [single, hdecode, Line.ofPrefetch, hencoding, Line.ofPrefetch]

namespace Session

/-- A word is shown as its line, without an address. -/
theorem showWord_eq (code : Word) (target : Target) :
    showWord code target =
      ⟨true, ((Listing.single .standard target code).body ++ "\n").toUTF8⟩ := by
  rw [showWord, collect, Listing.writeSingle, Sink.emitLine, Sink.unbounded_emit]

variable {target : Target} {data : Array UInt8} {span : Span} {w : Walk} {l : Line}

/-- The code of a line is decoded like the prefetch that the line was made of. -/
theorem body_single_code (h : Walk.start .standard target data span = .ok w) (hl : l ∈ w.lines) :
    (Listing.single .standard target l.encoding.code).body = l.body := by
  obtain ⟨hdecoder, htarget, -, -⟩ := Walk.of_start h
  have hline := Walk.eq_lineAt_of_mem_lines hl
  rw [hdecoder, htarget] at hline
  rw [hline]
  exact (congrArg Line.body (Listing.single_code_ofPrefetch target _)).trans rfl

/-- **Every line can be shown again**: the digits in its encoding column, with a mode for the target
of its walk, ask for the word that they are, and a run that is asked so says the line without its
address. It needs no file for that. -/
theorem run_code_of_line (h : Walk.start .standard target data span = .ok w) (hl : l ∈ w.lines) :
    (∃ mode, Target.ofArgument mode = .ok target) ∧
    ∀ mode, Target.ofArgument mode = .ok target → ∀ program : String,
      let code := String.ofList (Text.trimEnd l.encoding.column.toList)
      Job.ofTokens [program, code, mode] = (.showWord l.encoding.code target, []) ∧
      ∀ {m : Type → Type} [Monad m] (files : FileAccess m),
        run files (Job.ofTokens [program, code, mode]).1 =
          pure ⟨true, (l.body ++ "\n").toUTF8⟩ := by
  refine ⟨⟨target.argument, target.ofArgument_argument⟩, fun mode hmode program => ?_⟩
  intro code
  have hcode : code = l.encoding.digits := by
    show String.ofList (Text.trimEnd l.encoding.column.toList) = _
    rw [Encoding.trimEnd_column, String.ofList_toList]
  have hjob : Job.ofTokens [program, code, mode] = (.showWord l.encoding.code target, []) := by
    rw [hcode]
    exact Job.ofTokens_code (Word.ofArgument_digits l.encoding) hmode program
  refine ⟨hjob, fun files => ?_⟩
  rw [hjob, run, showWord_eq, body_single_code h hl]

/-- A return in front of a halfword that ends no call. -/
theorem run_code_of_line_return :
    ∃ w, Walk.start .standard ⟨.thumb, .v5te⟩ #[0x70, 0x47, 0xff, 0xff] {} = .ok w ∧
      ∃ l ∈ w.lines, l.body = "4770     bx\tlr" ∧
        Target.ofArgument "/t5" = .ok ⟨.thumb, .v5te⟩ ∧
        Job.ofTokens ["armdis", "4770", "/t5"] = (.showWord l.encoding.code ⟨.thumb, .v5te⟩, []) ∧
        (run Directory.access (Job.ofTokens ["armdis", "4770", "/t5"]).1).run {} =
          (⟨true, (l.body ++ "\n").toUTF8⟩, {}) := by
  let w := Walk.between .standard ⟨.thumb, .v5te⟩ #[0x70, 0x47, 0xff, 0xff] 0 4 (Nat.le_refl 4)
  have hspan : ({} : Span).resolve? w.cursor.data.size = some ⟨0, 4⟩ := Span.resolve?_default 4
  have hstart : Walk.start .standard ⟨.thumb, .v5te⟩ #[0x70, 0x47, 0xff, 0xff] {} = .ok w :=
    Walk.start_of_resolve? hspan
  have hfits : w.fits = true := by decide +kernel
  have hline : w.line = ⟨0, .halfword 0x4770, ⟨.narrow, some "bx\tlr"⟩⟩ := by decide +kernel
  have hl : w.line ∈ w.lines := by
    rw [Walk.lines_of_fits hfits]
    exact List.mem_cons_self
  have hmode : Target.ofArgument "/t5" = .ok ⟨.thumb, .v5te⟩ := rfl
  have hcode : String.ofList (Text.trimEnd w.line.encoding.column.toList) = "4770" := by
    rw [hline]
    decide
  have hreplay := (run_code_of_line hstart hl).2 "/t5" hmode "armdis"
  simp only [hcode] at hreplay
  obtain ⟨hjob, hrun⟩ := hreplay
  refine ⟨w, hstart, w.line, hl, ?_, hmode, hjob, ?_⟩
  · rw [hline]
    decide
  · rw [hrun Directory.access]
    rfl

end Session

end ArmListing
