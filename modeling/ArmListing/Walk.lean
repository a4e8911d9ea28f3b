import ArmListing.Cursor
import ArmListing.Line
import ArmListing.Output

/-!
# ArmListing.Walk

**Walking over code**, one instruction after the other.

A walk stands before an instruction and knows where the code stops. A step shows
the decoder the next four bytes, takes as many of them as the answer says, and
gives the others back: a narrow instruction leaves the upper half of its
prefetch to the next step.

A walk ends where the code stops, or before a rest that holds no whole
instruction. `Walk.next?` answers `none` there, and `Walk.poll`, which answers
one request after the other, gives such a rest up: it moves the stop back to it.
Each step moves forward (`offset_lt_of_next?`) and not past the stop
(`offset_le_of_next?`), which is why `Walk.lines` comes to an end.
-/

namespace ArmListing

/-- A position on the way over the code before `stop`. -/
structure Walk where
  decoder : Decoder
  target : Target
  cursor : Cursor
  stop : Nat
  stop_le : stop ≤ cursor.data.size

namespace Walk

/-- The walk over `span` of `data`. -/
def start (decoder : Decoder) (target : Target) (data : Array UInt8) (span : Span) :
    Except ListingError Walk :=
  match h : span.resolve? data.size with
  | none => .error (.outOfRange span data.size)
  | some resolved =>
    .ok ⟨decoder, target, .atOffset data resolved.start, resolved.stop,
      Span.stop_le_of_resolve? h⟩

/-- The offset of the next instruction. -/
def offset (w : Walk) : Nat := w.cursor.offset

/-- The number of bytes before the stop. -/
def left (w : Walk) : Nat := w.stop - w.offset

/-- The decoder's answer to the bytes at the cursor. -/
def decoded (w : Walk) : Decoded := w.decoder.decode w.target w.cursor.peekWord

/-- Whether the next instruction lies before the stop as a whole. -/
def fits (w : Walk) : Bool :=
  (Width.least w.target.mode).bytes ≤ w.left && w.decoded.width.bytes ≤ w.left

/-- The next line and the walk behind it. -/
def next? (w : Walk) : Option (Line × Walk) :=
  if w.fits then
    let line := Line.ofPrefetch w.offset w.cursor.peekWord w.decoded
    some (line, { w with cursor := w.cursor.step line.width })
  else none

/-- Answers a request for a line. Where there is none, the walk stops at its cursor from now on. -/
def poll (w : Walk) : Option Line × Walk :=
  match w.next? with
  | some (line, rest) => (some line, rest)
  | none =>
    (none, { w with stop := min w.stop w.offset, stop_le := Nat.le_trans (Nat.min_le_left ..) w.stop_le })

theorem stop_of_next? {w rest : Walk} {line : Line} (h : w.next? = some (line, rest)) :
    rest.stop = w.stop := by
  unfold next? at h
  split at h
  · cases h; rfl
  · contradiction

/-- A step moves by the width of its line. -/
theorem offset_of_next? {w rest : Walk} {line : Line} (h : w.next? = some (line, rest)) :
    rest.offset = w.offset + line.width.bytes := by
  unfold next? at h
  split at h
  case isTrue hfits =>
    cases h
    have hleft : w.decoded.width.bytes ≤ w.left := by
      simp only [fits, Bool.and_eq_true, decide_eq_true_eq] at hfits
      exact hfits.2
    have hpos := w.decoded.width.bytes_pos
    have hstop := w.stop_le
    simp only [offset, left, Cursor.offset_step, Line.width_ofPrefetch] at hleft ⊢
    omega
  case isFalse => contradiction

theorem offset_lt_of_next? {w rest : Walk} {line : Line} (h : w.next? = some (line, rest)) :
    w.offset < rest.offset := by
  have := offset_of_next? h
  have := line.width.bytes_pos
  omega

/-- A step does not go past the stop. -/
theorem offset_le_of_next? {w rest : Walk} {line : Line} (h : w.next? = some (line, rest)) :
    rest.offset ≤ w.stop := by
  have hoffset := offset_of_next? h
  unfold next? at h
  split at h
  case isTrue hfits =>
    obtain ⟨rfl, -⟩ := Prod.mk.inj (Option.some.inj h)
    have hpos := w.decoded.width.bytes_pos
    have hleft : w.decoded.width.bytes ≤ w.left := by
      simp only [fits, Bool.and_eq_true, decide_eq_true_eq] at hfits
      exact hfits.2
    unfold left at hleft
    rw [Line.width_ofPrefetch] at hoffset
    omega
  case isFalse => contradiction

theorem left_lt_of_next? {w rest : Walk} {line : Line} (h : w.next? = some (line, rest)) :
    rest.left < w.left := by
  have hlt := offset_lt_of_next? h
  have hle := offset_le_of_next? h
  have hstop := stop_of_next? h
  unfold left
  omega

/-- The lines up to the end of the walk. -/
def lines (w : Walk) : List Line :=
  match _h : w.next? with
  | none => []
  | some (line, rest) => line :: rest.lines
termination_by w.left
decreasing_by exact left_lt_of_next? _h

/-- The walk at its end. -/
def finish (w : Walk) : Walk :=
  match _h : w.next? with
  | none => w
  | some (_, rest) => rest.finish
termination_by w.left
decreasing_by exact left_lt_of_next? _h

/-- Writes the lines up to the end of the walk and counts them onto `seen`. -/
def write (w : Walk) (seen : Tally) : Output Tally :=
  match _h : w.next? with
  | none => pure seen
  | some (line, rest) => do
    Sink.emitLine line.text
    rest.write (seen.add line)
termination_by w.left
decreasing_by exact left_lt_of_next? _h

end Walk

end ArmListing
