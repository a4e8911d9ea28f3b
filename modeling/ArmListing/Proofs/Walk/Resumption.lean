import ArmListing.Decoder.Echo
import ArmListing.Proofs.Walk.Run

/-!
# ArmListing.Proofs.Walk.Resumption

Walking **in parts**: a walk that is stopped early lists a beginning of what it
would have listed, and a second walk from where it stands lists the rest.

The walk with the earlier stop goes in step with the longer one as long as its
instructions fit (`rest_withStop`). Where none fits any more, the longer walk
goes on from the same offset (`lines_withStop`), and the end of its next line, and so of
every further one, lies behind the earlier stop (`offset_rest_le_of_mem_lines`).
The look-ahead is not cut at a stop, so both see the same words.
-/

namespace ArmListing.Walk

variable {w : Walk} {stop : Nat}

/-- The same walk up to another stop. -/
def withStop (w : Walk) (stop : Nat) (stop_le : stop ≤ w.cursor.data.size) : Walk :=
  { w with stop, stop_le }

theorem rest_withStop (h : stop ≤ w.cursor.data.size) :
    (w.withStop stop h).rest = w.rest.withStop stop h := rfl

/-- What fits before a stop also fits before a later one. -/
theorem fits_withStop (h : stop ≤ w.cursor.data.size) (hle : w.stop ≤ stop) (hfits : w.fits) :
    (w.withStop stop h).fits := by
  have hleft : w.left ≤ (w.withStop stop h).left := Nat.sub_le_sub_right hle _
  obtain ⟨hleast, hwidth⟩ := fits_iff.mp hfits
  exact fits_iff.mpr ⟨Nat.le_trans hleast hleft, Nat.le_trans hwidth hleft⟩

/-- **Resumption**: with a later stop the same lines are followed by those of a walk from where the
earlier stop ended the run. -/
theorem lines_withStop (h : stop ≤ w.cursor.data.size) (hle : w.stop ≤ stop) :
    (w.withStop stop h).lines =
      w.lines ++ ((w.withStop stop h).moveTo w.finish.offset).lines := by
  induction w using run_induction with
  | stopped w hstopped =>
    have hsame : (w.withStop stop h).moveTo w.offset = w.withStop stop h := moveTo_offset _
    rw [lines_of_not_fits hstopped, finish_of_not_fits hstopped, hsame, List.nil_append]
  | step w hfits ih =>
    rw [lines_of_fits hfits, lines_of_fits (fits_withStop h hle hfits), finish_of_fits hfits,
      rest_withStop, ih h hle, List.cons_append]
    rfl

/-- No line ends before the first one does. -/
theorem offset_rest_le_of_mem_lines {l : Line} (hl : l ∈ w.lines) :
    w.offset + w.decoded.width.bytes ≤ l.address + l.width.bytes := by
  by_cases hfits : w.fits
  · rw [lines_of_fits hfits] at hl
    rcases List.mem_cons.mp hl with rfl | hrest
    · have hend : w.line.address + w.line.width.bytes = w.offset + w.decoded.width.bytes := by
        rw [address_line, width_line]
      exact Nat.le_of_eq hend.symm
    · have hbehind := offset_le_of_mem_lines hrest
      rw [offset_rest hfits] at hbehind
      exact Nat.le_trans hbehind (Nat.le_add_right ..)
  · rw [lines_of_not_fits hfits] at hl
    contradiction

/-- **Truncation**: an earlier stop keeps the lines that end before it. -/
theorem lines_eq_filter_withStop (hwidth : w.decoder.FixedWidth) (h : stop ≤ w.cursor.data.size)
    (hle : w.stop ≤ stop) :
    w.lines = (w.withStop stop h).lines.filter fun l => l.address + l.width.bytes ≤ w.stop := by
  have hkept : ∀ l ∈ w.lines, decide (l.address + l.width.bytes ≤ w.stop) = true :=
    fun l hl => decide_eq_true (end_le_stop_of_mem_lines hl)
  have hdropped : ∀ l ∈ ((w.withStop stop h).moveTo w.finish.offset).lines,
      ¬ decide (l.address + l.width.bytes ≤ w.stop) = true := by
    intro l hl
    -- the resumed walk starts with the instruction that did not fit any more
    have hend := offset_rest_le_of_mem_lines hl
    have hoffset : ((w.withStop stop h).moveTo w.finish.offset).offset = w.finish.offset :=
      (congrArg offset (finish_eq w)).symm
    have hdecoded : ((w.withStop stop h).moveTo w.finish.offset).decoded = w.finish.decoded :=
      (congrArg decoded (finish_eq w)).symm
    have hstopped := not_fits_finish w
    rw [fits_iff_of_fixedWidth w.finish (by rwa [decoder_finish]), left, stop_finish] at hstopped
    rw [hoffset, hdecoded] at hend
    rw [decide_eq_true_iff]
    omega
  rw [lines_withStop h hle, List.filter_append, List.filter_eq_self.mpr hkept,
    List.filter_eq_nil_iff.mpr hdropped, List.append_nil]

/-- The walk up to an earlier stop lists the lines of the longer walk that end before this stop,
and a walk from where it comes to rest lists all others: nothing is lost at the seam, and nothing
is listed twice. -/
theorem lines_of_earlier_stop {decoder : Decoder} (hwidth : decoder.FixedWidth) {target : Target}
    {data : Array UInt8} {s e₁ e₂ : Nat} (hstart : s ≤ data.size) (hpos : 0 < e₁) (hle : e₁ ≤ e₂)
    (hsize : e₂ ≤ data.size) :
    ∃ short long, start decoder target data ⟨s, e₁⟩ = .ok short ∧
      start decoder target data ⟨s, e₂⟩ = .ok long ∧
      (short.lines = long.lines.filter fun l => l.address + l.width.bytes ≤ e₁) ∧
      ∀ n, short.lines.length ≤ n → ∃ resumed,
        start decoder target data ⟨(short.after n).offset, e₂⟩ = .ok resumed ∧
        long.lines = short.lines ++ resumed.lines := by
  have hsize₁ : e₁ ≤ data.size := Nat.le_trans hle hsize
  have hpos₂ : 0 < e₂ := Nat.lt_of_lt_of_le hpos hle
  let short := between decoder target data s e₁ hsize₁
  have hshort : start decoder target data ⟨s, e₁⟩ = .ok short := start_of_pos hpos hstart hsize₁
  have hlong : start decoder target data ⟨s, e₂⟩ = .ok (short.withStop e₂ hsize) :=
    start_of_pos hpos₂ hstart hsize
  refine ⟨short, short.withStop e₂ hsize, hshort, hlong,
    lines_eq_filter_withStop hwidth hsize hle, fun n hn => ?_⟩
  have hrest : short.finish.offset ≤ data.size := by
    have hcursor := short.finish.cursor.offset_le
    rwa [data_finish] at hcursor
  rw [offset_after hn]
  exact ⟨_, start_of_pos hpos₂ hrest hsize, lines_withStop hsize hle⟩

/-- A stop in the middle of a wide instruction. -/
theorem lines_of_earlier_stop_five_bytes :
    Decoder.echo.FixedWidth ∧ 0 ≤ #[1, 0, 2, 0xf0, 3, 0, 4].size ∧ 0 < 5 ∧ 5 ≤ 6 ∧
    6 ≤ #[1, 0, 2, 0xf0, 3, 0, 4].size ∧
    ∃ short long, start .echo {} #[1, 0, 2, 0xf0, 3, 0, 4] ⟨0, 5⟩ = .ok short ∧
      start .echo {} #[1, 0, 2, 0xf0, 3, 0, 4] ⟨0, 6⟩ = .ok long ∧
      (short.lines = long.lines.filter fun l => l.address + l.width.bytes ≤ 5) ∧
      ∀ n, short.lines.length ≤ n → ∃ resumed,
        start .echo {} #[1, 0, 2, 0xf0, 3, 0, 4] ⟨(short.after n).offset, 6⟩ = .ok resumed ∧
        long.lines = short.lines ++ resumed.lines :=
  ⟨Decoder.fixedWidth_echo, by decide, by decide, by decide, by decide,
    lines_of_earlier_stop Decoder.fixedWidth_echo (by decide) (by decide) (by decide) (by decide)⟩

end ArmListing.Walk
