import Mathlib.Data.List.Chain
import ArmListing.Decoder.Echo
import ArmListing.Proofs.Walk.Run

/-!
# ArmListing.Proofs.Walk.Tiling

The lines of a walk **tile the code**: each begins where the one before it ends,
and put together their encodings are the bytes from the start to the end of the
walk. A walk ends at its stop, or before a rest that is shorter than an
instruction (`Tiles`).

`tiles_lines` is the invariant, by induction along the run; `exists_tiles` says
it of the walk that a span asks for, together with what requests get to see.
-/

namespace ArmListing

/-- The lines cover the code from `start` up to `finish`, on the way to `stop`. -/
structure Tiles (decoder : Decoder) (target : Target) (data : Array UInt8)
    (start stop finish : Nat) (lines : List Line) : Prop where
  /-- The first line stands at the start. -/
  head : ∀ l ∈ lines.head?, l.address = start
  /-- Each further line stands right behind the one before it. -/
  chain : lines.IsChain fun l next => next.address = l.address + l.width.bytes
  /-- Each line shows the instruction at its address. -/
  decoded : ∀ l ∈ lines, l.decoded = decoder.decode target (Code.word data l.address)
  /-- No byte is left out, and none is listed twice. -/
  bytes : lines.flatMap (·.encoding.bytes) = (data.extract start finish).toList
  /-- Nothing is listed from behind the stop. -/
  behind : stop ≤ start → finish = start
  /-- Before the stop, less than a word is given up. -/
  bounds : start ≤ stop → start ≤ finish ∧ finish ≤ stop ∧ stop - finish < 4
  /-- What is given up does not hold a whole instruction. -/
  dropped : finish < stop →
    match target.mode with
    | .arm => stop - finish < 4
    | .thumb => stop - finish < (decoder.decode target (Code.word data finish)).width.bytes

namespace Walk

variable {w : Walk}

/-! ### The invariant -/

theorem address_head_lines {l : Line} (hl : l ∈ w.lines.head?) : l.address = w.offset := by
  by_cases h : w.fits
  · rw [lines_of_fits h, List.head?_cons, Option.mem_some_iff] at hl
    rw [← hl, address_line]
  · rw [lines_of_not_fits h] at hl
    contradiction

/-- The next line stands where the line before it ends. -/
theorem isChain_lines (w : Walk) :
    w.lines.IsChain fun l next => next.address = l.address + l.width.bytes := by
  induction w using run_induction with
  | stopped w h => rw [lines_of_not_fits h]; exact .nil
  | step w h ih =>
    rw [lines_of_fits h, List.isChain_cons]
    refine ⟨fun next hnext => ?_, ih⟩
    rw [address_head_lines hnext, offset_rest h, address_line, width_line]

/-- The bytes of a line are the bytes that its step passes. -/
theorem bytes_line (h : w.fits) :
    w.line.encoding.bytes = (w.cursor.data.extract w.offset w.rest.offset).toList := by
  have hle := Nat.le_trans (offset_rest_le_stop h) w.stop_le
  rw [offset_rest h] at hle ⊢
  rw [← Code.window_eq_extract _ hle, line_eq, Code.lineAt, ← decoded_eq]
  exact Encoding.bytes_ofPrefetch ..

/-- The bytes of all lines are the bytes that the run passes. -/
theorem bytes_lines (w : Walk) :
    w.lines.flatMap (·.encoding.bytes) =
      (w.cursor.data.extract w.offset w.finish.offset).toList := by
  induction w using run_induction with
  | stopped w h =>
    rw [lines_of_not_fits h, finish_of_not_fits h, List.flatMap_nil,
      Array.extract_empty_of_stop_le_start (Nat.le_refl _)]
  | step w h ih =>
    have hlt := offset_lt_rest h
    have hle := offset_le_finish w.rest
    -- the bytes of the line and those of the rest meet where the step ends
    rw [lines_of_fits h, finish_of_fits h, List.flatMap_cons, bytes_line h, ih, data_rest,
      ← Array.toList_append, Array.extract_append_extract,
      Nat.min_eq_left (Nat.le_of_lt hlt), Nat.max_eq_right hle]

theorem tiles_lines (w : Walk) :
    Tiles w.decoder w.target w.cursor.data w.offset w.stop w.finish.offset w.lines where
  head _ := address_head_lines
  chain := isChain_lines w
  decoded l hl := congrArg Line.decoded (eq_lineAt_of_mem_lines hl)
  bytes := bytes_lines w
  behind hle := congrArg offset (finish_of_not_fits (not_fits_of_stop_le hle))
  bounds hle := by
    have hleft := left_lt_of_not_fits (not_fits_finish w)
    rw [left, stop_finish] at hleft
    exact ⟨offset_le_finish w, finish_offset_le_stop hle, hleft⟩
  dropped _ := by
    have hend := not_fits_finish w
    split
    case h_1 =>
      have hleft := left_lt_of_not_fits hend
      rwa [left, stop_finish] at hleft
    case h_2 hmode =>
      rw [fits_iff_of_thumb _ (by rwa [target_finish]), decoded_eq, left, stop_finish,
        decoder_finish, target_finish, data_finish] at hend
      exact Nat.lt_of_not_le hend

/-! ### Walks over a span -/

/-- A span that lies inside the data gives a walk. Requests are answered by lines that tile the
code, in their order, and behind the last of them by nothing, with the walk at rest. -/
theorem exists_tiles {decoder : Decoder} {target : Target} {data : Array UInt8} {span : Span}
    {s e : Nat} (h : span.resolve? data.size = some ⟨s, e⟩) :
    ∃ w, start decoder target data span = .ok w ∧
      Tiles decoder target data s e (w.after w.lines.length).offset w.lines ∧
      ∀ n, (w.after n).poll.1 = w.lines[n]? ∧
        (w.lines.length ≤ n → (w.after n).offset = (w.after w.lines.length).offset) := by
  refine ⟨_, start_of_resolve? h, ?_, fun n => ⟨poll_after _ n, fun hn => ?_⟩⟩
  · rw [offset_after (Nat.le_refl _)]
    have hstart := Span.start_le_of_resolve? h
    have htiles := tiles_lines (between decoder target data s e (Span.stop_le_of_resolve? h))
    rwa [offset_between hstart] at htiles
  · rw [offset_after hn, offset_after (Nat.le_refl _)]

/-- A narrow line, a wide line and a byte that belongs to nothing. -/
theorem exists_tiles_seven_bytes :
    (⟨0, 0⟩ : Span).resolve? 7 = some ⟨0, 7⟩ ∧
    ∃ w, start .echo {} #[1, 0, 2, 0xf0, 3, 0, 4] ⟨0, 0⟩ = .ok w ∧
      Tiles .echo {} #[1, 0, 2, 0xf0, 3, 0, 4] 0 7 (w.after w.lines.length).offset w.lines ∧
      ∀ n, (w.after n).poll.1 = w.lines[n]? ∧
        (w.lines.length ≤ n → (w.after n).offset = (w.after w.lines.length).offset) :=
  ⟨rfl, exists_tiles rfl⟩

end Walk

end ArmListing
