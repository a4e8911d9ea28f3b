import ArmListing.Proofs.Decoder.Text
import ArmListing.Proofs.Statistics.Listing

/-!
# ArmListing.Proofs.Statistics.Total

**What the statistics of a listing miss.** The total counts the known
instructions, but not those of the second coprocessor set: their mnemonics carry
a digit (`cdp2`, `ldc2l`), and a line counts only if its mnemonic is made of
letters (`isSome_keyOfLine?_text`).

So the total is the number of known lines if and only if the code holds no known
instruction of this set.
-/

namespace ArmListing

/-- Whether the code of a line belongs to the second coprocessor set. -/
def Line.inSecondSet (mode : Mode) (l : Line) : Bool :=
  match l.encoding with
  | .word w => ArmListing.inSecondSet mode w
  | .halfword _ => false

/-- A line of the listing is that of a word in the second set if its code is. -/
theorem Line.inSecondSet_lineAt {decoder : Decoder} (hwidth : decoder.FixedWidth) (target : Target)
    (data : Array UInt8) (offset : Nat) :
    (Code.lineAt decoder target data offset).inSecondSet target.mode =
      ArmListing.inSecondSet target.mode (Code.word data offset) := by
  obtain ⟨mode, revision⟩ := target
  cases mode with
  | arm =>
    have hword : (decoder.decode ⟨.arm, revision⟩ (Code.word data offset)).width = .wide :=
      hwidth _ _
    unfold inSecondSet Code.lineAt Line.ofPrefetch
    rw [hword]
    rfl
  | thumb =>
    unfold inSecondSet
    split <;> rfl

/-- **A line counts if its instruction is known**, and not one of the second set. -/
theorem isSome_keyOfLine?_text {target : Target} {data : Array UInt8} {offset : Nat}
    (h : offset < 16 ^ 8) {l : Line} (hl : l = Code.lineAt .standard target data offset) :
    (keyOfLine? l.text.toList).isSome = (l.decoded.isKnown && !l.inSecondSet target.mode) := by
  have hsecond : l.inSecondSet target.mode = _ :=
    hl ▸ Line.inSecondSet_lineAt Decoder.fixedWidth_standard target data offset
  have hdecoded : l.decoded = Decoder.standard.decode target (Code.word data offset) :=
    congrArg Line.decoded hl
  have haddress : l.address = offset := congrArg Line.address hl
  rw [← haddress] at h
  rw [hsecond, Decoded.isKnown]
  cases htext : l.decoded.text? with
  | none =>
    rw [keyOfLine?_of_unknown h htext]
    rfl
  | some text =>
    rw [hdecoded] at htext
    obtain ⟨mnemonic, operands, hassembly, hletters⟩ := Decoder.isAssembly_standard htext
    rw [keyOfLine?_text h, hdecoded, Decoded.text, htext, Option.getD_some, hassembly.words_eq,
      isSome_keyOfFields?, ← hletters]
    rfl

namespace Statistics

variable {w : Walk}

/-- What a listing counts: its known lines without those of the second set. -/
theorem total_ofListing_text (hdecoder : w.decoder = .standard)
    (hsize : w.cursor.data.size ≤ 2 ^ 32) :
    (ofListing (Listing.text w.left w.lines)).total =
      w.lines.countP fun l => l.decoded.isKnown && !l.inSecondSet w.target.mode := by
  have hline : ∀ l ∈ w.lines, l = Code.lineAt .standard w.target w.cursor.data l.address :=
    fun l hl => hdecoder ▸ Walk.eq_lineAt_of_mem_lines hl
  have hnewline : ∀ l ∈ w.lines, '\n' ∉ l.decoded.text.toList :=
    fun l hl => Walk.newline_not_mem_of_mem_lines (hdecoder ▸ Decoder.oneLine_standard _) hl
  rw [total_ofListing, Listing.keys_text w.left hnewline, List.length_filterMap_eq_countP]
  refine List.countP_congr fun l hl => ?_
  rw [isSome_keyOfLine?_text (Walk.address_lt_of_size_le hsize hl) (hline l hl)]

/-- A line is counted, or belongs to the second set, or is unknown. -/
theorem countP_known (mode : Mode) (lines : List Line) :
    (lines.countP fun l => l.decoded.isKnown && !l.inSecondSet mode) +
        (lines.countP fun l => l.decoded.isKnown && l.inSecondSet mode) +
        (lines.countP fun l => !l.decoded.isKnown) = lines.length := by
  induction lines with
  | nil => rfl
  | cons l rest ih =>
    rw [List.countP_cons, List.countP_cons, List.countP_cons, List.length_cons, ← ih]
    cases l.decoded.isKnown <;> cases l.inSecondSet mode <;> simp <;> omega

/-- The total of a listing is the number of its known lines if and only if none of them belongs to
the second coprocessor set; it misses those that do. A line adds to it if it is known and does not
belong there, and the header, the blank lines and the trailer add nothing. -/
theorem total_eq_known_iff {target : Target} {data : Array UInt8} {span r : Span}
    (h : span.resolve? data.size = some r) (hsize : data.size ≤ 2 ^ 32) :
    ∃ w tally text, Walk.start .standard target data span = .ok w ∧
      Listing.write .standard target data span {} = .ok tally ⟨none, text.toUTF8⟩ ∧
      ((ofListing text).total = tally.lines - tally.unknown ↔
        ∀ l ∈ w.lines, l.decoded.isKnown → l.inSecondSet target.mode = false) ∧
      (ofListing text).total +
          (w.lines.countP fun l => l.decoded.isKnown && l.inSecondSet target.mode) =
        tally.lines - tally.unknown ∧
      ∀ s : Statistics,
        (∀ l ∈ w.lines,
          (s.addLine l.text.toList).1 = (l.decoded.isKnown && !l.inSecondSet target.mode)) ∧
        (s.addLine (Listing.header w.left).toList).1 = false ∧ (s.addLine []).1 = false ∧
        (s.addLine (Listing.trailer tally).toList).1 = false := by
  let w := Walk.between .standard target data r.start r.stop (Span.stop_le_of_resolve? h)
  have hstart : Walk.start .standard target data span = .ok w := Walk.start_of_resolve? h
  have htotal : (ofListing (Listing.text w.left w.lines)).total = _ :=
    total_ofListing_text rfl hsize
  have hknown := countP_known target.mode w.lines
  have hmissed : (ofListing (Listing.text w.left w.lines)).total +
      (w.lines.countP fun l => l.decoded.isKnown && l.inSecondSet target.mode) =
        (Tally.ofLines w.lines).lines - (Tally.ofLines w.lines).unknown := by
    rw [htotal]
    exact Nat.eq_sub_of_add_eq hknown
  refine ⟨w, _, _, hstart, Listing.write_unbounded hstart, ?_, hmissed, fun s => ?_⟩
  · rw [← hmissed, Nat.left_eq_add, List.countP_eq_zero]
    refine forall₂_congr fun l _ => ?_
    cases l.decoded.isKnown <;> cases l.inSecondSet target.mode <;> decide
  · simp only [addLine_fst, Listing.keyOfLine?_header, Listing.keyOfLine?_trailer]
    refine ⟨fun l hl => ?_, rfl, rfl, rfl⟩
    have haddress : l.address < 16 ^ 8 := Walk.address_lt_of_size_le hsize hl
    exact isSome_keyOfLine?_text haddress (Walk.eq_lineAt_of_mem_lines hl)

/-- An instruction of the second set, alone. -/
theorem total_eq_known_iff_cdp :
    (⟨0, 0⟩ : Span).resolve? 4 = some ⟨0, 4⟩ ∧ #[0, 0, 0, 0xfe].size ≤ 2 ^ 32 ∧
    ∃ w tally text,
      Walk.start .standard ⟨.arm, .v5te⟩ #[0, 0, 0, 0xfe] ⟨0, 0⟩ = .ok w ∧
      Listing.write .standard ⟨.arm, .v5te⟩ #[0, 0, 0, 0xfe] ⟨0, 0⟩ {} =
        .ok tally ⟨none, text.toUTF8⟩ ∧
      ((ofListing text).total = tally.lines - tally.unknown ↔
        ∀ l ∈ w.lines, l.decoded.isKnown → l.inSecondSet .arm = false) ∧
      (ofListing text).total +
          (w.lines.countP fun l => l.decoded.isKnown && l.inSecondSet .arm) =
        tally.lines - tally.unknown ∧
      ∀ s : Statistics,
        (∀ l ∈ w.lines,
          (s.addLine l.text.toList).1 = (l.decoded.isKnown && !l.inSecondSet .arm)) ∧
        (s.addLine (Listing.header w.left).toList).1 = false ∧ (s.addLine []).1 = false ∧
        (s.addLine (Listing.trailer tally).toList).1 = false :=
  ⟨rfl, by decide, total_eq_known_iff rfl (by decide)⟩

/-- The listing of a `cdp2` has one line, which is known, and a total of zero. -/
theorem total_ne_known_cdp :
    ∃ tally text,
      Listing.write .standard ⟨.arm, .v5te⟩ #[0, 0, 0, 0xfe] ⟨0, 0⟩ {} =
        .ok tally ⟨none, text.toUTF8⟩ ∧
      tally.lines - tally.unknown = 1 ∧ (ofListing text).total = 0 := by
  have hresolve : (⟨0, 0⟩ : Span).resolve? #[(0 : UInt8), 0, 0, 0xfe].size = some ⟨0, 4⟩ := rfl
  let w := Walk.between .standard ⟨.arm, .v5te⟩ #[0, 0, 0, 0xfe] 0 4 (Nat.le_refl 4)
  have hstart : Walk.start .standard ⟨.arm, .v5te⟩ #[0, 0, 0, 0xfe] ⟨0, 0⟩ = .ok w :=
    Walk.start_of_resolve? hresolve
  have hlines : w.lines = [w.line] := by
    rw [Walk.lines_of_fits (by decide), Walk.lines_of_not_fits (by decide)]
  refine ⟨_, _, Listing.write_unbounded hstart, ?_, ?_⟩
  · rw [hlines]
    decide
  · rw [total_ofListing_text rfl (by decide), hlines]
    decide

end Statistics

end ArmListing
