import ArmListing.Proofs.Decoder.Text
import ArmListing.Proofs.Line.Columns
import ArmListing.Proofs.Listing
import ArmListing.Proofs.Walk.Tiling

/-!
# ArmListing.Proofs.Listing.Lossless

A listing **loses nothing** of what it shows: two walks that write the same text
list the same addresses, encodings and texts, and so they have walked over the
same bytes.

Since no text breaks its line, what is written falls into lines in one way only
(`Text.unlines_injective`), and each of them is read back on its own
(`Columns.ofText?_text`). So the columns are a function of the text
(`filterMap_ofText?_rows`), for whatever decoder has written it. The counts are
read from the same lines (`countP_textColumn?`), as long as no decoder calls an
instruction what an undefined encoding is called.
-/

namespace ArmListing.Listing

/-- The lines of a walk as they are written. -/
def rows (lines : List Line) : List (List Char) := lines.map (·.text.toList)

/-- What a row shows behind its encoding. -/
def textColumn? (row : List Char) : Option String := (Columns.ofText? row).map Columns.text

theorem textColumn?_text (l : Line) : textColumn? l.text.toList = some l.decoded.text := by
  rw [textColumn?, Columns.ofText?_text]
  rfl

/-- **The columns are read back from the rows.** -/
theorem filterMap_ofText?_rows (lines : List Line) :
    (rows lines).filterMap Columns.ofText? = lines.map Line.columns := by
  have hread : Columns.ofText? ∘ (fun l : Line => l.text.toList) = some ∘ Line.columns := by
    funext l
    rw [Function.comp_apply, Function.comp_apply, Columns.ofText?_text]
  rw [rows, List.filterMap_map, hread, List.filterMap_eq_map]

theorem newline_not_mem_rows {w : Walk} (h : w.decoder.OneLine w.target) :
    ∀ row ∈ rows w.lines, '\n' ∉ row := by
  intro row hrow
  obtain ⟨l, hl, rfl⟩ := List.mem_map.mp hrow
  exact Line.newline_not_mem_text (Walk.newline_not_mem_of_mem_lines h hl)

/-- Two walks that write the same text show the same columns. -/
theorem map_columns_eq_of_body_eq {v w : Walk} (hv : v.decoder.OneLine v.target)
    (hw : w.decoder.OneLine w.target) (h : body v.lines = body w.lines) :
    v.lines.map Line.columns = w.lines.map Line.columns := by
  have hrows : rows v.lines = rows w.lines := by
    refine Text.unlines_injective (newline_not_mem_rows hv) (newline_not_mem_rows hw) ?_
    rw [rows, rows, ← toList_body, ← toList_body, h]
  rw [← filterMap_ofText?_rows, ← filterMap_ofText?_rows, hrows]

/-! ### What the columns say about the code -/

/-- Walks that show the same columns have passed the same bytes. -/
theorem extract_eq_of_map_columns_eq {v w : Walk}
    (h : v.lines.map Line.columns = w.lines.map Line.columns) :
    v.cursor.data.extract v.offset v.finish.offset =
      w.cursor.data.extract w.offset w.finish.offset := by
  have hbytes : ∀ u : Walk, (u.cursor.data.extract u.offset u.finish.offset).toList =
      (u.lines.map Line.columns).flatMap (·.encoding.bytes) := by
    intro u
    rw [← Walk.bytes_lines, List.flatMap_map]
    rfl
  rw [← Array.toList_inj, hbytes, hbytes, h]

/-- Walks that show the same columns, and any at all, start at the same offset. -/
theorem offset_eq_of_map_columns_eq {v w : Walk}
    (h : v.lines.map Line.columns = w.lines.map Line.columns) (hne : v.lines ≠ []) :
    v.offset = w.offset := by
  obtain ⟨l, rest, hv⟩ := List.exists_cons_of_ne_nil hne
  rw [hv, List.map_cons] at h
  obtain ⟨l', rest', hw, hcolumns, -⟩ := List.map_eq_cons_iff.mp h.symm
  have haddress : l'.address = l.address := congrArg Columns.address hcolumns
  rw [← Walk.address_head_lines (w := v) (l := l) (by rw [hv]; rfl),
    ← Walk.address_head_lines (w := w) (l := l') (by rw [hw]; rfl), haddress]

/-! ### Counts -/

/-- Where no instruction is called what an undefined encoding is called, the rows tell how many are
undefined. -/
theorem countP_textColumn? {lines : List Line}
    (h : ∀ l ∈ lines, l.decoded.text? ≠ some Decoded.unknownText) :
    (rows lines).countP (fun row => textColumn? row = some Decoded.unknownText) =
      lines.countP fun l => !l.decoded.isKnown := by
  rw [rows, List.countP_map]
  refine List.countP_congr fun l hl => ?_
  have hname := h l hl
  rw [Function.comp_apply, textColumn?_text, Decoded.text, Decoded.isKnown]
  cases htext : l.decoded.text? with
  | none => simp
  | some text =>
    rw [htext] at hname
    simpa using hname

/-! ### What is written -/

/-- Two walks that write the same text list the same addresses, encodings and texts, so they have
passed the same bytes, from the same offset if there are any. If in addition no instruction is
called what an undefined encoding is called, the counts are those of the lines that have been
written and of those among them with this name, and a whole listing ends with the second of them. -/
theorem columns_eq_of_written_eq {d₁ d₂ : Decoder} {t₁ t₂ : Target} {data₁ data₂ : Array UInt8}
    {span₁ span₂ : Span} {tally₁ tally₂ : Tally} {written : ByteArray}
    (hd₁ : d₁.OneLine t₁) (hd₂ : d₂.OneLine t₂)
    (h₁ : writeLines d₁ t₁ data₁ span₁ {} = .ok tally₁ ⟨none, written⟩)
    (h₂ : writeLines d₂ t₂ data₂ span₂ {} = .ok tally₂ ⟨none, written⟩) :
    ∃ w₁ w₂, Walk.start d₁ t₁ data₁ span₁ = .ok w₁ ∧ Walk.start d₂ t₂ data₂ span₂ = .ok w₂ ∧
      w₁.lines.map Line.columns = w₂.lines.map Line.columns ∧
      data₁.extract span₁.start (w₁.after w₁.lines.length).offset =
        data₂.extract span₂.start (w₂.after w₂.lines.length).offset ∧
      (w₁.lines ≠ [] → span₁.start = span₂.start) ∧
      ((∀ p, (d₁.decode t₁ p).text? ≠ some Decoded.unknownText) →
        (∃ rows, written = (String.ofList (Text.unlines rows)).toUTF8 ∧
          (∀ row ∈ rows, '\n' ∉ row) ∧ tally₁.lines = rows.length ∧
          tally₁.unknown =
            rows.countP fun row => textColumn? row = some Decoded.unknownText) ∧
        ∃ front : String, write d₁ t₁ data₁ span₁ {} = .ok tally₁
          ⟨none, front.toUTF8 ++ written ++
            ("\n" ++ (toString tally₁.unknown ++ " unknown instructions.") ++ "\n").toUTF8⟩) := by
  obtain ⟨w₁, hw₁, rfl, hwritten₁⟩ := exists_of_writeLines h₁
  obtain ⟨w₂, hw₂, -, hwritten₂⟩ := exists_of_writeLines h₂
  obtain rfl : written = (body w₁.lines).toUTF8 := congrArg Sink.written hwritten₁
  have hbody : body w₁.lines = body w₂.lines :=
    String.toByteArray_inj.mp (congrArg Sink.written hwritten₂)
  obtain ⟨rfl, rfl, rfl, hstart₁⟩ := Walk.of_start hw₁
  obtain ⟨rfl, rfl, rfl, hstart₂⟩ := Walk.of_start hw₂
  have hcolumns := map_columns_eq_of_body_eq hd₁ hd₂ hbody
  rw [← hstart₁, ← hstart₂]
  refine ⟨w₁, w₂, hw₁, hw₂, hcolumns, ?_, offset_eq_of_map_columns_eq hcolumns,
    fun hname => ⟨⟨rows w₁.lines, ?_, newline_not_mem_rows hd₁, ?_, ?_⟩, ?_⟩⟩
  · rw [Walk.offset_after (Nat.le_refl _), Walk.offset_after (Nat.le_refl _)]
    exact extract_eq_of_map_columns_eq hcolumns
  · rw [rows, ← toList_body, String.ofList_toList]
  · rw [rows, List.length_map]
    rfl
  · have hnames : ∀ l ∈ w₁.lines, l.decoded.text? ≠ some Decoded.unknownText := by
      intro l hl
      rw [Walk.eq_lineAt_of_mem_lines hl]
      exact hname _
    exact (countP_textColumn? hnames).symm
  · refine ⟨header w₁.left ++ "\n\n", ?_⟩
    rw [write_unbounded hw₁, ByteArray.append_assoc]
    rfl

/-- An undefined halfword and a word, read for two revisions. One of the inputs goes on behind the
stop of its span. -/
theorem columns_eq_of_written_eq_echo :
    ∃ written,
      Decoder.echo.OneLine ⟨.thumb, .v4t⟩ ∧ Decoder.echo.OneLine ⟨.thumb, .v5te⟩ ∧
      writeLines .echo ⟨.thumb, .v4t⟩ #[0, 0x10, 2, 0xf0, 3, 0] ⟨0, 0⟩ {} =
        .ok ⟨2, 1⟩ ⟨none, written⟩ ∧
      writeLines .echo ⟨.thumb, .v5te⟩ #[0, 0x10, 2, 0xf0, 3, 0, 4] ⟨0, 6⟩ {} =
        .ok ⟨2, 1⟩ ⟨none, written⟩ ∧
      (∀ p, (Decoder.echo.decode ⟨.thumb, .v4t⟩ p).text? ≠ some Decoded.unknownText) ∧
      ∃ w₁ w₂,
        Walk.start .echo ⟨.thumb, .v4t⟩ #[0, 0x10, 2, 0xf0, 3, 0] ⟨0, 0⟩ = .ok w₁ ∧
        Walk.start .echo ⟨.thumb, .v5te⟩ #[0, 0x10, 2, 0xf0, 3, 0, 4] ⟨0, 6⟩ = .ok w₂ ∧
        w₁.lines.map Line.columns = w₂.lines.map Line.columns ∧
        (#[0, 0x10, 2, 0xf0, 3, 0] : Array UInt8).extract 0 (w₁.after w₁.lines.length).offset =
          #[0, 0x10, 2, 0xf0, 3, 0, 4].extract 0 (w₂.after w₂.lines.length).offset ∧
        (w₁.lines ≠ [] → 0 = 0) ∧
        (∃ rows, written = (String.ofList (Text.unlines rows)).toUTF8 ∧
          (∀ row ∈ rows, '\n' ∉ row) ∧ 2 = rows.length ∧
          1 = rows.countP fun row => textColumn? row = some Decoded.unknownText) ∧
        ∃ front : String,
          write .echo ⟨.thumb, .v4t⟩ #[0, 0x10, 2, 0xf0, 3, 0] ⟨0, 0⟩ {} = .ok ⟨2, 1⟩
            ⟨none, front.toUTF8 ++ written ++
              ("\n" ++ (toString 1 ++ " unknown instructions.") ++ "\n").toUTF8⟩ := by
  let lines : List Line :=
    [⟨0, .halfword 0x1000, ⟨.narrow, none⟩⟩, ⟨2, .word 0x3f002, ⟨.wide, some "hf002"⟩⟩]
  have hlines₁ : (Walk.between .echo ⟨.thumb, .v4t⟩ #[0, 0x10, 2, 0xf0, 3, 0] 0 6
      (by decide)).lines = lines := by decide +kernel
  have hlines₂ : (Walk.between .echo ⟨.thumb, .v5te⟩ #[0, 0x10, 2, 0xf0, 3, 0, 4] 0 6
      (by decide)).lines = lines := by decide +kernel
  have h₁ : writeLines .echo ⟨.thumb, .v4t⟩ #[0, 0x10, 2, 0xf0, 3, 0] ⟨0, 0⟩ {} =
      .ok ⟨2, 1⟩ ⟨none, (body lines).toUTF8⟩ := by
    rw [writeLines_unbounded (Walk.start_of_resolve? (r := ⟨0, 6⟩) rfl), hlines₁]
    rfl
  have h₂ : writeLines .echo ⟨.thumb, .v5te⟩ #[0, 0x10, 2, 0xf0, 3, 0, 4] ⟨0, 6⟩ {} =
      .ok ⟨2, 1⟩ ⟨none, (body lines).toUTF8⟩ := by
    rw [writeLines_unbounded (Walk.start_of_resolve? (r := ⟨0, 6⟩) rfl), hlines₂]
    rfl
  have hname := Decoder.text_echo_ne_unknown ⟨.thumb, .v4t⟩
  obtain ⟨w₁, w₂, hw₁, hw₂, hcolumns, hbytes, hstart, hcounts⟩ :=
    columns_eq_of_written_eq (Decoder.oneLine_echo _) (Decoder.oneLine_echo _) h₁ h₂
  exact ⟨_, Decoder.oneLine_echo _, Decoder.oneLine_echo _, h₁, h₂, hname, w₁, w₂, hw₁, hw₂,
    hcolumns, hbytes, hstart, hcounts hname⟩

end ArmListing.Listing
