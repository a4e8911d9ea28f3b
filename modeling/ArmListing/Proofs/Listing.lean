import ArmListing.Listing
import ArmListing.Proofs.Line
import ArmListing.Proofs.Output
import ArmListing.Proofs.Text.Lines
import ArmListing.Proofs.Walk.Run

/-!
# ArmListing.Proofs.Listing

A listing is **one text**, which can be said before anything is written: the
lines of the walk, and for a whole listing the header and the trailer around
them (`writeLines_eq`, `write_eq`). The outcome counts the lines
(`Tally.ofLines`).
-/

namespace ArmListing

/-- Where no text of the decoder breaks its line, no line of a walk is broken. -/
theorem Walk.newline_not_mem_of_mem_lines {w : Walk} (h : w.decoder.OneLine w.target) {l : Line}
    (hl : l ∈ w.lines) : '\n' ∉ l.decoded.text.toList := by
  rw [eq_lineAt_of_mem_lines hl]
  exact h.newline_not_mem _

/-! ### Listings as texts -/

/-- The counts of a sequence of lines. -/
def Tally.ofLines (lines : List Line) : Tally :=
  ⟨lines.length, lines.countP fun l => !l.decoded.isKnown⟩

/-- Lines are counted one by one. -/
theorem Tally.foldl_add (t : Tally) (lines : List Line) :
    lines.foldl add t =
      ⟨t.lines + lines.length, t.unknown + lines.countP fun l => !l.decoded.isKnown⟩ := by
  induction lines generalizing t with
  | nil => rfl
  | cons l rest ih =>
    rw [List.foldl_cons, ih, List.length_cons, List.countP_cons, add, Nat.add_assoc,
      Nat.add_comm 1]
    cases l.decoded.isKnown with
    | true => rfl
    | false => exact congrArg (mk _) (Nat.add_right_comm ..)

namespace Listing

/-- The lines of a listing, with their ends. -/
def body : List Line → String
  | [] => ""
  | l :: rest => l.text ++ "\n" ++ body rest

/-- The text of a whole listing of `size` bytes. -/
def text (size : Nat) (lines : List Line) : String :=
  (header size ++ "\n\n") ++ (body lines ++ ("\n" ++ trailer (.ofLines lines) ++ "\n"))

theorem toList_body (lines : List Line) :
    (body lines).toList = Text.unlines (lines.map (·.text.toList)) := by
  induction lines with
  | nil => rfl
  | cons l rest ih =>
    rw [body, String.toList_append, String.toList_append, ih, List.append_assoc, List.map_cons]
    rfl

/-- The lines of a whole listing. -/
def allLines (size : Nat) (lines : List Line) : List (List Char) :=
  [(header size).toList, []] ++ lines.map (·.text.toList) ++
    [[], (trailer (.ofLines lines)).toList]

theorem toList_text (size : Nat) (lines : List Line) :
    (text size lines).toList = Text.unlines (allLines size lines) := by
  rw [text, allLines, Text.unlines_append, Text.unlines_append, ← toList_body, List.append_assoc]
  simp only [String.toList_append, Text.unlines, List.append_assoc]
  rfl

theorem newline_not_mem_header (size : Nat) : '\n' ∉ (header size).toList := by
  unfold header
  simp only [String.toList_append, List.mem_append, not_or]
  refine ⟨⟨⟨⟨by decide, fun hsize => ?_⟩, by decide⟩, fun hsize => ?_⟩, by decide⟩
  · exact absurd (Text.isDigit_of_mem_repr hsize) (by decide)
  · exact absurd (Hex.isDigit_of_mem_upper hsize) (by decide)

theorem newline_not_mem_trailer (tally : Tally) : '\n' ∉ (trailer tally).toList := by
  rw [trailer, String.toList_append, List.mem_append, not_or]
  exact ⟨fun hunknown => absurd (Text.isDigit_of_mem_repr hunknown) (by decide), by decide⟩

/-- Where no text of an instruction breaks its line, nothing does. -/
theorem newline_not_mem_allLines (size : Nat) {lines : List Line}
    (h : ∀ l ∈ lines, '\n' ∉ l.decoded.text.toList) :
    ∀ line ∈ allLines size lines, '\n' ∉ line := by
  simp only [allLines, List.mem_append, List.mem_cons, List.not_mem_nil, or_false, List.mem_map]
  rintro line (((rfl | rfl) | ⟨l, hl, rfl⟩) | rfl | rfl)
  · exact newline_not_mem_header size
  · exact List.not_mem_nil
  · exact Line.newline_not_mem_text (h l hl)
  · exact List.not_mem_nil
  · exact newline_not_mem_trailer _

end Listing

theorem Walk.write_eq (w : Walk) (seen : Tally) :
    w.write seen = (do Sink.emit (Listing.body w.lines); return w.lines.foldl Tally.add seen) := by
  induction w using run_induction generalizing seen with
  | stopped w h =>
    rw [lines_of_not_fits h, Listing.body, Sink.emit_empty, write]
    split
    case h_1 => rfl
    case h_2 hsome => rw [next?_of_not_fits h] at hsome; contradiction
  | step w h ih =>
    rw [lines_of_fits h, Listing.body, Sink.emit_append, write]
    split
    case h_1 hnone => rw [next?_of_fits h] at hnone; contradiction
    case h_2 hsome =>
      rw [next?_of_fits h] at hsome
      cases hsome
      rw [ih, Sink.emitLine, List.foldl_cons, bind_assoc]

namespace Listing

variable {decoder : Decoder} {target : Target} {data : Array UInt8} {span : Span} {w : Walk}

/-- Where no walk starts, nothing is written. -/
theorem startWalk_of_error {e : ListingError} (h : Walk.start decoder target data span = .error e) :
    startWalk decoder target data span = throw e := by
  rw [startWalk, h]

theorem startWalk_of_ok (h : Walk.start decoder target data span = .ok w) :
    startWalk decoder target data span = pure w := by
  rw [startWalk, h]

/-- A span that does not lie inside the data is refused before anything is written. -/
theorem write_of_outOfRange (h : span.resolve? data.size = none) (sink : Sink) :
    writeLines decoder target data span sink = .error (.outOfRange span data.size) sink ∧
      write decoder target data span sink = .error (.outOfRange span data.size) sink := by
  have hthrow : startWalk decoder target data span = throw (.outOfRange span data.size) :=
    startWalk_of_error (Walk.start_of_resolve?_eq_none h)
  rw [writeLines, write, hthrow]
  exact ⟨rfl, rfl⟩

/-- The lines of a walk are written as one text. -/
theorem writeLines_eq (h : Walk.start decoder target data span = .ok w) :
    writeLines decoder target data span =
      (do Sink.emit (body w.lines); return .ofLines w.lines) := by
  rw [writeLines, startWalk_of_ok h, pure_bind, Walk.write_eq, Tally.foldl_add]
  simp only [Nat.zero_add, Tally.ofLines]

/-- A whole listing is written as one text. -/
theorem write_eq (h : Walk.start decoder target data span = .ok w) :
    write decoder target data span =
      (do Sink.emit (text w.left w.lines); return .ofLines w.lines) := by
  rw [write, startWalk_of_ok h, pure_bind, Walk.write_eq, Tally.foldl_add, text,
    Sink.emit_append (header _ ++ _), Sink.emit_append (body _)]
  simp only [bind_assoc, pure_bind, Nat.zero_add, Tally.ofLines]

/-- A sink without a capacity takes the text of the lines. -/
theorem writeLines_unbounded (h : Walk.start decoder target data span = .ok w) :
    writeLines decoder target data span {} =
      .ok (.ofLines w.lines) ⟨none, (body w.lines).toUTF8⟩ := by
  rw [writeLines_eq h, Sink.unbounded_emit]

/-- What a sink without a capacity has taken is the text of a walk. -/
theorem exists_of_writeLines {tally : Tally} {sink : Sink}
    (h : writeLines decoder target data span {} = .ok tally sink) :
    ∃ w, Walk.start decoder target data span = .ok w ∧ tally = .ofLines w.lines ∧
      sink = ⟨none, (body w.lines).toUTF8⟩ := by
  cases hstart : Walk.start decoder target data span with
  | error e =>
    rw [writeLines, startWalk_of_error hstart] at h
    contradiction
  | ok w =>
    rw [writeLines_unbounded hstart] at h
    cases h
    exact ⟨w, rfl, rfl, rfl⟩

/-- A sink without a capacity takes the text of a whole listing. -/
theorem write_unbounded (h : Walk.start decoder target data span = .ok w) :
    write decoder target data span {} =
      .ok (.ofLines w.lines) ⟨none, (text w.left w.lines).toUTF8⟩ := by
  rw [write_eq h, Sink.unbounded_emit]

end Listing

end ArmListing
