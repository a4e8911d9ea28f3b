import Mathlib.Algebra.Group.Even
import Mathlib.Algebra.Group.Nat.Even
import ArmListing.Decoder.Standard
import ArmListing.Proofs.Thumb.Call
import ArmListing.Proofs.Walk.Run

/-!
# ArmListing.Proofs.Walk.Synchronisation

Walks over Thumb code **synchronise themselves**: two walks to the same stop that
start an even distance apart list the same lines behind the later start.

The earlier walk passes the later start in one of two ways. Either it stands
there at some time, and from then on the two walks are one. Or it jumps over it
with an instruction of one word; then what stands there is the second half of
this instruction, which no decoder that pairs halfwords
(`Decoder.PairsHalfwords`) takes for the start of another one. The later walk
lists it as a single halfword, and behind it the two walks meet.
-/

namespace ArmListing

/-- The second half of a wide instruction is not the first half of another one. -/
def Decoder.PairsHalfwords (d : Decoder) (revision : Revision) : Prop :=
  ∀ p q : Word, q.unsignedField 0 16 = p.unsignedField 16 16 →
    (d.thumb p revision).width = .wide → (d.thumb q revision).width = .narrow

theorem Decoder.pairsHalfwords_standard (revision : Revision) :
    Decoder.standard.PairsHalfwords revision := by
  intro p q hpq hp
  obtain ⟨-, hend⟩ := Thumb.decode_eq_wide_iff.mp hp
  rw [← hpq] at hend
  exact congrArg Prod.fst (Thumb.decode_of_lone_end revision hend.v5te)

namespace Walk

variable {w : Walk}

/-- In the middle of a wide instruction stands a narrow one. -/
theorem width_middle (hpairs : w.decoder.PairsHalfwords w.target.revision)
    (hmode : w.target.mode = .thumb) (hle : w.offset + 2 ≤ w.cursor.data.size)
    (hwide : w.decoded.width = .wide) : (w.moveTo (w.offset + 2)).decoded.width = .narrow := by
  rw [decoded_eq, Decoder.decode, hmode] at hwide
  rw [decoded_moveTo hle, Decoder.decode, hmode]
  exact hpairs _ _ (Code.unsignedField_high ..).symm hwide

/-- What lies up to an offset is passed by for what lies behind it. -/
theorem filter_lines_of_fits {offset : Nat} (h : w.fits) (hle : w.offset ≤ offset) :
    w.lines.filter (offset < ·.address) = w.rest.lines.filter (offset < ·.address) := by
  rw [lines_of_fits h, List.filter_cons_of_neg]
  rw [address_line, decide_eq_true_iff]
  exact Nat.not_lt.mpr hle

/-- **Synchronisation**: a walk and one that starts later, an even distance away, list the same
lines behind the later start. -/
theorem filter_lines_moveTo {offset : Nat}
    (hpairs : w.decoder.PairsHalfwords w.target.revision) (hmode : w.target.mode = .thumb)
    (hle : w.offset ≤ offset) (hstop : offset ≤ w.stop) (heven : Even (offset - w.offset)) :
    w.lines.filter (offset < ·.address) = (w.moveTo offset).lines.filter (offset < ·.address) := by
  have hsize := w.stop_le
  obtain ⟨n, hn⟩ := heven
  induction w using run_induction generalizing n with
  | stopped w h =>
    rcases Nat.eq_or_lt_of_le hle with rfl | hlt
    · rw [moveTo_offset]
    · -- at most three bytes are left, and at most one of them lies behind the later start
      have hleft := left_lt_of_not_fits h
      have hmoved : ¬ (w.moveTo offset).fits := by
        have hnarrow := (w.moveTo offset).decoded.width.two_le_bytes
        rw [fits_iff_of_thumb (w.moveTo offset) hmode, left_moveTo (Nat.le_trans hstop hsize)]
        unfold left at hleft
        omega
      rw [lines_of_not_fits h, lines_of_not_fits hmoved]
  | step w h ih =>
    rcases Nat.eq_or_lt_of_le hle with rfl | hlt
    · rw [moveTo_offset]
    · rw [filter_lines_of_fits h hle]
      have hoffset := offset_rest h
      cases hwidth : w.decoded.width with
      | narrow =>
        rw [hwidth, Width.bytes] at hoffset
        exact ih hpairs hmode (by omega) hstop hsize (n - 1) (by omega)
      | wide =>
        rw [hwidth, Width.bytes] at hoffset
        by_cases hrest : w.rest.offset ≤ offset
        · exact ih hpairs hmode hrest hstop hsize (n - 2) (by omega)
        · -- the instruction covers the later start, where the other walk takes its second half
          obtain rfl : offset = w.offset + 2 := by omega
          have hmiddle := width_middle hpairs hmode (Nat.le_trans hstop hsize) hwidth
          have hend := offset_rest_le_stop h
          have hfits : (w.moveTo (w.offset + 2)).fits := by
            rw [fits_iff_of_thumb (w.moveTo (w.offset + 2)) hmode, hmiddle,
              left_moveTo (Nat.le_trans hstop hsize), Width.bytes]
            omega
          have hmeet : (w.moveTo (w.offset + 2)).rest = w.rest := by
            rw [rest, rest, moveTo_moveTo, hmiddle, hwidth, offset_moveTo,
              Nat.min_eq_left (Nat.le_trans hstop hsize)]
            rfl
          rw [filter_lines_of_fits hfits (Nat.min_le_left ..), hmeet]

/-- Thumb walks to the same stop that start an even distance apart list the same lines behind the
later start: of what the later walk lists, only the line at its start may be one of its own. -/
theorem lines_synchronise {revision : Revision} {data : Array UInt8} {s₁ s₂ e : Nat}
    (hle : s₁ ≤ s₂) (hstop : s₂ ≤ e) (hsize : e ≤ data.size) (hpos : 0 < e)
    (heven : Even (s₂ - s₁)) :
    ∃ w₁ w₂, start .standard ⟨.thumb, revision⟩ data ⟨s₁, e⟩ = .ok w₁ ∧
      start .standard ⟨.thumb, revision⟩ data ⟨s₂, e⟩ = .ok w₂ ∧
      w₁.lines.filter (s₂ < ·.address) = w₂.lines.filter (s₂ < ·.address) ∧
      ∀ l ∈ w₂.lines, l.address ≠ s₂ → l ∈ w₁.lines := by
  have h₂ : s₂ ≤ data.size := Nat.le_trans hstop hsize
  have h₁ : s₁ ≤ data.size := Nat.le_trans hle h₂
  let earlier := between .standard ⟨.thumb, revision⟩ data s₁ e hsize
  let later := between .standard ⟨.thumb, revision⟩ data s₂ e hsize
  have hearlier : earlier.offset = s₁ := offset_between h₁ hsize
  have hlater : later.offset = s₂ := offset_between h₂ hsize
  have hsame : earlier.lines.filter (s₂ < ·.address) = later.lines.filter (s₂ < ·.address) :=
    filter_lines_moveTo (Decoder.pairsHalfwords_standard revision) rfl (by rwa [hearlier]) hstop
      (by rwa [hearlier])
  refine ⟨earlier, later, start_of_resolve? (Span.resolve?_of_pos hpos h₁ hsize),
    start_of_resolve? (Span.resolve?_of_pos hpos h₂ hsize), hsame, fun l hl hne => ?_⟩
  have hlt : s₂ < l.address := by
    have hle := offset_le_of_mem_lines hl
    rw [hlater] at hle
    omega
  have hmem : l ∈ later.lines.filter (s₂ < ·.address) :=
    List.mem_filter.mpr ⟨hl, decide_eq_true hlt⟩
  rw [← hsame] at hmem
  exact (List.mem_filter.mp hmem).1

/-- A walk that starts in the middle of a call. -/
theorem lines_synchronise_call :
    0 ≤ 2 ∧ 2 ≤ 6 ∧ 6 ≤ #[0x00, 0xf0, 0x02, 0xf8, 0x70, 0x47].size ∧ 0 < 6 ∧ Even (2 - 0) ∧
    ∃ w₁ w₂, start .standard ⟨.thumb, .v5te⟩ #[0x00, 0xf0, 0x02, 0xf8, 0x70, 0x47] ⟨0, 6⟩ = .ok w₁ ∧
      start .standard ⟨.thumb, .v5te⟩ #[0x00, 0xf0, 0x02, 0xf8, 0x70, 0x47] ⟨2, 6⟩ = .ok w₂ ∧
      w₁.lines.filter (2 < ·.address) = w₂.lines.filter (2 < ·.address) ∧
      ∀ l ∈ w₂.lines, l.address ≠ 2 → l ∈ w₁.lines :=
  ⟨by decide, by decide, by decide, by decide, by decide,
    lines_synchronise (by decide) (by decide) (by decide) (by decide) (by decide)⟩

end Walk

end ArmListing
