import ArmListing.Proofs.Code
import ArmListing.Walk

/-!
# ArmListing.Proofs.Walk.Run

**Runs of a walk**, from one step to the next.

While the next instruction fits (`fits_iff`), a walk has a `line` and a `rest`;
after that it stays where it is. Everything that a run does is said by these two
cases: `lines_of_fits` and `lines_of_not_fits` for the lines, and the same for
where the run ends and for requests. A property of runs is proved by
`run_induction`, which has one case for each.

The lines of a run hang on the data alone: each of them is the line at its
address (`eq_lineAt_of_mem_lines`).
-/

namespace ArmListing

/-- The line for the instruction that `data` holds at `offset`. -/
def Code.lineAt (decoder : Decoder) (target : Target) (data : Array UInt8) (offset : Nat) : Line :=
  .ofPrefetch offset (word data offset) (decoder.decode target (word data offset))

namespace Walk

variable {w : Walk}

/-! ### The start -/

/-- The walk over the code of `data` from `start` up to `stop`. -/
def between (decoder : Decoder) (target : Target) (data : Array UInt8) (start stop : Nat)
    (stop_le : stop ≤ data.size) : Walk :=
  ⟨decoder, target, .atOffset data start, stop, stop_le⟩

theorem offset_between {decoder : Decoder} {target : Target} {data : Array UInt8} {s e : Nat}
    (hs : s ≤ data.size) (he : e ≤ data.size) : (between decoder target data s e he).offset = s :=
  Nat.min_eq_left hs

/-- A walk starts if its span lies inside the data. -/
theorem start_of_resolve? {decoder : Decoder} {target : Target} {data : Array UInt8}
    {span r : Span} (h : span.resolve? data.size = some r) :
    start decoder target data span =
      .ok (between decoder target data r.start r.stop (Span.stop_le_of_resolve? h)) := by
  unfold start
  split
  case h_1 hnone => rw [hnone] at h; contradiction
  case h_2 resolved hsome =>
    obtain rfl : resolved = r := Option.some.inj (hsome.symm.trans h)
    rfl

/-- A span with a stop is walked as it is. -/
theorem start_of_pos {decoder : Decoder} {target : Target} {data : Array UInt8} {s e : Nat}
    (hpos : 0 < e) (hs : s ≤ data.size) (he : e ≤ data.size) :
    start decoder target data ⟨s, e⟩ = .ok (between decoder target data s e he) :=
  start_of_resolve? (Span.resolve?_of_pos hpos hs he)

theorem start_of_resolve?_eq_none {decoder : Decoder} {target : Target} {data : Array UInt8}
    {span : Span} (h : span.resolve? data.size = none) :
    start decoder target data span = .error (.outOfRange span data.size) := by
  unfold start
  split
  case h_1 => rfl
  case h_2 hsome => rw [hsome] at h; contradiction

/-- A walk that has been started stands at the start of its span. -/
theorem of_start {decoder : Decoder} {target : Target} {data : Array UInt8} {span : Span}
    (h : start decoder target data span = .ok w) :
    w.decoder = decoder ∧ w.target = target ∧ w.cursor.data = data ∧ w.offset = span.start := by
  cases hresolve : span.resolve? data.size with
  | none =>
    rw [start_of_resolve?_eq_none hresolve] at h
    contradiction
  | some r =>
    rw [start_of_resolve? hresolve] at h
    obtain rfl := Except.ok.inj h
    refine ⟨rfl, rfl, rfl, ?_⟩
    rw [offset_between (Span.start_le_of_resolve? hresolve), Span.start_eq_of_resolve? hresolve]

/-! ### One step -/

/-- The line of the next instruction. -/
def line (w : Walk) : Line := .ofPrefetch w.offset w.cursor.peekWord w.decoded

/-- The walk over the same code from another offset on. -/
def moveTo (w : Walk) (offset : Nat) : Walk := { w with cursor := .atOffset w.cursor.data offset }

/-- The walk behind the next instruction. -/
def rest (w : Walk) : Walk := w.moveTo (w.offset + w.decoded.width.bytes)

@[simp] theorem moveTo_moveTo (w : Walk) (a b : Nat) : (w.moveTo a).moveTo b = w.moveTo b := rfl

@[simp] theorem offset_moveTo (w : Walk) (a : Nat) :
    (w.moveTo a).offset = min a w.cursor.data.size := rfl

@[simp] theorem moveTo_offset (w : Walk) : w.moveTo w.offset = w := by
  obtain ⟨decoder, target, ⟨data, offset, hle⟩, stop, hstop⟩ := w
  simp only [moveTo, Walk.offset, Cursor.atOffset, Nat.min_eq_left hle]

theorem left_moveTo {offset : Nat} (h : offset ≤ w.cursor.data.size) :
    (w.moveTo offset).left = w.stop - offset := by
  rw [left, offset_moveTo, Nat.min_eq_left h]
  rfl

@[simp] theorem decoder_rest (w : Walk) : w.rest.decoder = w.decoder := rfl
@[simp] theorem target_rest (w : Walk) : w.rest.target = w.target := rfl
@[simp] theorem data_rest (w : Walk) : w.rest.cursor.data = w.cursor.data := rfl
@[simp] theorem stop_rest (w : Walk) : w.rest.stop = w.stop := rfl
@[simp] theorem address_line (w : Walk) : w.line.address = w.offset := rfl
@[simp] theorem decoded_line (w : Walk) : w.line.decoded = w.decoded := rfl

@[simp] theorem width_line (w : Walk) : w.line.width = w.decoded.width :=
  Line.width_ofPrefetch ..

/-- The decoder is shown the word at the offset. -/
theorem decoded_eq (w : Walk) :
    w.decoded = w.decoder.decode w.target (Code.word w.cursor.data w.offset) := by
  rw [decoded, Cursor.peekWord_eq, offset]

theorem decoded_moveTo {offset : Nat} (h : offset ≤ w.cursor.data.size) :
    (w.moveTo offset).decoded =
      w.decoder.decode w.target (Code.word w.cursor.data offset) := by
  rw [decoded_eq, offset_moveTo, Nat.min_eq_left h]
  rfl

theorem line_eq (w : Walk) :
    w.line = Code.lineAt w.decoder w.target w.cursor.data w.offset := by
  rw [line, Code.lineAt, decoded_eq, Cursor.peekWord_eq, offset]

theorem fits_iff :
    w.fits ↔ (Width.least w.target.mode).bytes ≤ w.left ∧ w.decoded.width.bytes ≤ w.left := by
  rw [fits, Bool.and_eq_true, decide_eq_true_iff, decide_eq_true_iff]

/-- In Thumb state no instruction is shorter than what a walk asks for. -/
theorem fits_iff_of_thumb (w : Walk) (hmode : w.target.mode = .thumb) :
    w.fits ↔ w.decoded.width.bytes ≤ w.left := by
  have hleast : (Width.least .thumb).bytes ≤ w.decoded.width.bytes := by
    cases w.decoded.width <;> decide
  rw [fits_iff, hmode]
  omega

/-- Where words are decoded as words, only the width of the next instruction decides. -/
theorem fits_iff_of_fixedWidth (w : Walk) (hwidth : w.decoder.FixedWidth) :
    w.fits ↔ w.decoded.width.bytes ≤ w.left := by
  cases hmode : w.target.mode with
  | arm =>
    have hwide : w.decoded.width = .wide := by
      rw [decoded, Decoder.decode, hmode]
      exact hwidth _ _
    rw [fits_iff, hmode, hwide]
    exact and_self_iff
  | thumb => exact fits_iff_of_thumb w hmode

/-- Where nothing fits, less than a word is left. -/
theorem left_lt_of_not_fits (h : ¬ w.fits) : w.left < 4 := by
  -- neither of the two widths that have to fit is greater than a word
  have hleast := (Width.least w.target.mode).bytes_le
  have hwidth := w.decoded.width.bytes_le
  rw [fits_iff] at h
  omega

theorem next?_of_fits (h : w.fits) : w.next? = some (w.line, w.rest) := by
  rw [next?, if_pos h]
  simp only [line, rest, moveTo, offset, Cursor.step, Line.width_ofPrefetch]

theorem next?_of_not_fits (h : ¬ w.fits) : w.next? = none := by
  rw [next?, if_neg h]

theorem offset_rest (h : w.fits) : w.rest.offset = w.offset + w.decoded.width.bytes := by
  have hoffset := offset_of_next? (next?_of_fits h)
  rwa [width_line] at hoffset

theorem offset_rest_le_stop (h : w.fits) : w.rest.offset ≤ w.stop :=
  offset_le_of_next? (next?_of_fits h)

theorem offset_lt_rest (h : w.fits) : w.offset < w.rest.offset :=
  offset_lt_of_next? (next?_of_fits h)

/-- Nothing fits behind the stop. -/
theorem not_fits_of_stop_le (h : w.stop ≤ w.offset) : ¬ w.fits := by
  intro hfits
  have hle := offset_rest_le_stop hfits
  have hlt := offset_lt_rest hfits
  omega

/-! ### Whole runs -/

/-- **Induction along a run**: what holds where nothing fits, and before each step behind which it
holds, holds of every walk. -/
theorem run_induction {motive : Walk → Prop} (stopped : ∀ w, ¬ w.fits → motive w)
    (step : ∀ w, w.fits → motive w.rest → motive w) (w : Walk) : motive w := by
  by_cases h : w.fits
  · exact step w h (run_induction stopped step w.rest)
  · exact stopped w h
termination_by w.left
decreasing_by exact left_lt_of_next? (next?_of_fits h)

theorem lines_of_fits (h : w.fits) : w.lines = w.line :: w.rest.lines := by
  rw [lines]
  split
  case h_1 hnone => rw [next?_of_fits h] at hnone; contradiction
  case h_2 hsome => rw [next?_of_fits h] at hsome; cases hsome; rfl

theorem lines_of_not_fits (h : ¬ w.fits) : w.lines = [] := by
  rw [lines]
  split
  case h_1 => rfl
  case h_2 hsome => rw [next?_of_not_fits h] at hsome; contradiction

theorem finish_of_fits (h : w.fits) : w.finish = w.rest.finish := by
  rw [finish]
  split
  case h_1 hnone => rw [next?_of_fits h] at hnone; contradiction
  case h_2 hsome => rw [next?_of_fits h] at hsome; cases hsome; rfl

theorem finish_of_not_fits (h : ¬ w.fits) : w.finish = w := by
  rw [finish]
  split
  case h_1 => rfl
  case h_2 hsome => rw [next?_of_not_fits h] at hsome; contradiction

/-- A run ends where nothing fits. -/
theorem not_fits_finish (w : Walk) : ¬ w.finish.fits := by
  induction w using run_induction with
  | stopped w h => rwa [finish_of_not_fits h]
  | step w h ih => rwa [finish_of_fits h]

/-- Only the offset changes along a run. -/
theorem finish_eq (w : Walk) : w.finish = w.moveTo w.finish.offset := by
  induction w using run_induction with
  | stopped w h => rw [finish_of_not_fits h, moveTo_offset]
  | step w h ih =>
    rw [finish_of_fits h]
    exact ih

@[simp] theorem decoder_finish (w : Walk) : w.finish.decoder = w.decoder :=
  (congrArg decoder (finish_eq w)).trans rfl

@[simp] theorem target_finish (w : Walk) : w.finish.target = w.target :=
  (congrArg target (finish_eq w)).trans rfl

@[simp] theorem data_finish (w : Walk) : w.finish.cursor.data = w.cursor.data :=
  (congrArg (·.cursor.data) (finish_eq w)).trans rfl

@[simp] theorem stop_finish (w : Walk) : w.finish.stop = w.stop :=
  (congrArg stop (finish_eq w)).trans rfl

theorem offset_le_finish (w : Walk) : w.offset ≤ w.finish.offset := by
  induction w using run_induction with
  | stopped w h => exact Nat.le_of_eq (congrArg offset (finish_of_not_fits h).symm)
  | step w h ih =>
    rw [finish_of_fits h]
    exact Nat.le_trans (Nat.le_of_lt (offset_lt_rest h)) ih

/-- A run that starts before the stop does not go past it. -/
theorem finish_offset_le_stop (hle : w.offset ≤ w.stop) : w.finish.offset ≤ w.stop := by
  induction w using run_induction with
  | stopped w h => rwa [finish_of_not_fits h]
  | step w h ih =>
    rw [finish_of_fits h]
    exact ih (offset_rest_le_stop h)

/-- What holds of the line of each step, and goes back over a step, holds of all lines of a run. -/
theorem mem_lines_induction {motive : Walk → Line → Prop}
    (here : ∀ w : Walk, w.fits → motive w w.line)
    (behind : ∀ (w : Walk) (l : Line), w.fits → motive w.rest l → motive w l) {l : Line}
    (hl : l ∈ w.lines) : motive w l := by
  induction w using run_induction with
  | stopped w h =>
    rw [lines_of_not_fits h] at hl
    contradiction
  | step w h ih =>
    rw [lines_of_fits h] at hl
    rcases List.mem_cons.mp hl with rfl | hrest
    · exact here w h
    · exact behind w l h (ih hrest)

/-- The lines of a run are those that stand at their addresses. -/
theorem eq_lineAt_of_mem_lines {l : Line} (hl : l ∈ w.lines) :
    l = Code.lineAt w.decoder w.target w.cursor.data l.address := by
  refine mem_lines_induction (motive := fun w l =>
    l = Code.lineAt w.decoder w.target w.cursor.data l.address) (fun w _ => ?_)
    (fun w l _ hrest => ?_) hl
  · rw [address_line, line_eq]
  · exact hrest

/-- No line stands before the start. -/
theorem offset_le_of_mem_lines {l : Line} (hl : l ∈ w.lines) : w.offset ≤ l.address := by
  refine mem_lines_induction (motive := fun w l => w.offset ≤ l.address) (fun w _ => ?_)
    (fun w l h hrest => ?_) hl
  · exact Nat.le_of_eq (address_line w).symm
  · exact Nat.le_trans (Nat.le_of_lt (offset_lt_rest h)) hrest

/-- Every line ends before the stop. -/
theorem end_le_stop_of_mem_lines {l : Line} (hl : l ∈ w.lines) :
    l.address + l.width.bytes ≤ w.stop := by
  refine mem_lines_induction (motive := fun w l => l.address + l.width.bytes ≤ w.stop)
    (fun w h => ?_) (fun w l _ hrest => ?_) hl
  · have hle := offset_rest_le_stop h
    rwa [offset_rest h, ← width_line] at hle
  · exact hrest

/-- Every line stands before the stop. -/
theorem address_lt_of_mem_lines {l : Line} (hl : l ∈ w.lines) : l.address < w.stop :=
  Nat.lt_of_lt_of_le (Nat.lt_add_of_pos_right l.width.bytes_pos) (end_le_stop_of_mem_lines hl)

/-! ### Requests -/

/-- The walk after `n` requests for a line. -/
def after (w : Walk) : Nat → Walk
  | 0 => w
  | n + 1 => w.poll.2.after n

theorem poll_of_fits (h : w.fits) : w.poll = (some w.line, w.rest) := by
  rw [poll, next?_of_fits h]

/-- A request without an answer does not move the walk, and leaves it behind its stop. -/
theorem poll_of_not_fits (h : ¬ w.fits) :
    w.poll.1 = none ∧ w.poll.2.offset = w.offset ∧ w.poll.2.stop ≤ w.poll.2.offset := by
  rw [poll, next?_of_not_fits h]
  exact ⟨rfl, rfl, Nat.min_le_right ..⟩

/-- Requests without an answer repeat themselves. -/
theorem after_of_not_fits (h : ¬ w.fits) (n : Nat) :
    (w.after n).poll.1 = none ∧ (w.after n).offset = w.offset := by
  induction n generalizing w with
  | zero => exact ⟨(poll_of_not_fits h).1, rfl⟩
  | succ n ih =>
    -- the first request gives the rest up, so that the walk stands behind its stop
    obtain ⟨-, hoffset, hstop⟩ := poll_of_not_fits h
    obtain ⟨hnone, hsame⟩ := ih (not_fits_of_stop_le hstop)
    exact ⟨hnone, hsame.trans hoffset⟩

/-- Requests are answered by the lines in their order, and by nothing behind the last of them. -/
theorem poll_after (w : Walk) (n : Nat) : (w.after n).poll.1 = w.lines[n]? := by
  induction w using run_induction generalizing n with
  | stopped w h => rw [lines_of_not_fits h, (after_of_not_fits h n).1, List.getElem?_nil]
  | step w h ih =>
    rw [lines_of_fits h]
    cases n with
    | zero => rw [after, poll_of_fits h, List.getElem?_cons_zero]
    | succ n => rw [after, poll_of_fits h, List.getElem?_cons_succ, ih n]

/-- Once all lines have been given out, the walk stands at the end of its run. -/
theorem offset_after {n : Nat} (hn : w.lines.length ≤ n) :
    (w.after n).offset = w.finish.offset := by
  induction w using run_induction generalizing n with
  | stopped w h => rw [finish_of_not_fits h, (after_of_not_fits h n).2]
  | step w h ih =>
    rw [lines_of_fits h, List.length_cons] at hn
    cases n with
    | zero => contradiction
    | succ n =>
      rw [after, poll_of_fits h, finish_of_fits h]
      exact ih (Nat.le_of_succ_le_succ hn)

end Walk

end ArmListing
