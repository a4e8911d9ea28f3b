import ArmListing.Decoder.Echo
import ArmListing.Proofs.Listing

/-!
# ArmListing.Proofs.Walk.Locality

**Which bytes a listing depends on**: those before the stop and, in Thumb state,
the two behind it (`Mode.lookahead`).

The decoder is always shown four bytes, and near the stop some of them lie
behind it. In ARM state a word fits only if all of it lies before the stop. In
Thumb state a halfword may stand right before it, and then the two bytes behind
are shown too; a third one is shown only where not even a halfword fits, so that
the answer does not matter.

`Alike` relates two walks over code that looks the same to them. One step keeps
it (`Alike.rest`), so the two list the same lines (`Alike.lines_eq`).
-/

namespace ArmListing

/-- How many bytes behind the stop can make a difference. -/
def Mode.lookahead : Mode → Nat
  | .arm => 0
  | .thumb => 2

/-- Together with the shortest instruction, the look-ahead is a prefetch. -/
theorem Mode.least_add_lookahead (mode : Mode) :
    (Width.least mode).bytes + mode.lookahead = 4 := by
  cases mode <;> rfl

namespace Code

/-- Two byte strings hold the same from `start` up to `stop`, with zeroes behind their ends. -/
def AgreeOn (a b : Array UInt8) (start stop : Nat) : Prop :=
  ∀ i, start ≤ i → i < stop → byte a i = byte b i

variable {a b : Array UInt8} {start stop : Nat}

theorem AgreeOn.mono {start' stop' : Nat} (h : AgreeOn a b start stop) (hstart : start ≤ start')
    (hstop : stop' ≤ stop) : AgreeOn a b start' stop' := by
  intro i hi hi'
  exact h i (Nat.le_trans hstart hi) (Nat.lt_of_lt_of_le hi' hstop)

theorem AgreeOn.window_eq {count : Nat} (h : AgreeOn a b start (start + count)) :
    window a start count = window b start count := by
  induction count generalizing start with
  | zero => rfl
  | succ count ih =>
    have hfirst : byte a start = byte b start := h start (Nat.le_refl _) (by omega)
    have hrest : AgreeOn a b (start + 1) (start + 1 + count) := h.mono (by omega) (by omega)
    rw [window, window, hfirst, ih hrest]

theorem AgreeOn.word_eq (h : AgreeOn a b start (start + 4)) : word a start = word b start := by
  rw [word, word, h.window_eq]

end Code

namespace Walk

variable {v w : Walk}

/-- Two walks over code that looks the same to them. -/
structure Alike (v w : Walk) : Prop where
  decoder_eq : v.decoder = w.decoder
  target_eq : v.target = w.target
  offset_eq : v.offset = w.offset
  stop_eq : v.stop = w.stop
  agree : Code.AgreeOn v.cursor.data w.cursor.data v.offset (v.stop + v.target.mode.lookahead)

namespace Alike

theorem left_eq (h : Alike v w) : v.left = w.left := by
  rw [left, left, h.stop_eq, h.offset_eq]

/-- Where the shortest instruction fits, both walks see the same word. -/
theorem word_eq (h : Alike v w) (hleast : (Width.least v.target.mode).bytes ≤ v.left) :
    Code.word v.cursor.data v.offset = Code.word w.cursor.data w.offset := by
  have hprefetch : v.offset + 4 ≤ v.stop + v.target.mode.lookahead := by
    have hsum := v.target.mode.least_add_lookahead
    have hpos := (Width.least v.target.mode).bytes_pos
    unfold left at hleast
    omega
  rw [← h.offset_eq]
  exact (h.agree.mono (Nat.le_refl _) hprefetch).word_eq

theorem decoded_eq (h : Alike v w) (hleast : (Width.least v.target.mode).bytes ≤ v.left) :
    v.decoded = w.decoded := by
  rw [Walk.decoded_eq, Walk.decoded_eq, h.word_eq hleast, h.decoder_eq, h.target_eq]

theorem fits_iff (h : Alike v w) : v.fits ↔ w.fits := by
  rw [Walk.fits_iff, Walk.fits_iff, ← h.left_eq, ← h.target_eq]
  refine and_congr_right fun hleast => ?_
  rw [h.decoded_eq hleast]

theorem line_eq (h : Alike v w) (hfits : v.fits) : v.line = w.line := by
  have hword := h.word_eq (Walk.fits_iff.mp hfits).1
  rw [Walk.line_eq, Walk.line_eq, Code.lineAt, Code.lineAt, hword, h.decoder_eq, h.target_eq,
    h.offset_eq]

/-- A step leaves the two walks alike. -/
theorem rest (h : Alike v w) (hfits : v.fits) : Alike v.rest w.rest where
  decoder_eq := h.decoder_eq
  target_eq := h.target_eq
  offset_eq := by
    have hdecoded := h.decoded_eq (Walk.fits_iff.mp hfits).1
    rw [offset_rest hfits, offset_rest (h.fits_iff.mp hfits), h.offset_eq, hdecoded]
  stop_eq := h.stop_eq
  agree := h.agree.mono (Nat.le_of_lt (offset_lt_rest hfits)) (Nat.le_refl _)

/-- **Walks over code that looks the same list the same lines.** -/
theorem lines_eq (h : Alike v w) : v.lines = w.lines := by
  induction v using run_induction generalizing w with
  | stopped v hstopped =>
    rw [lines_of_not_fits hstopped, lines_of_not_fits (mt h.fits_iff.mpr hstopped)]
  | step v hfits ih =>
    rw [lines_of_fits hfits, lines_of_fits (h.fits_iff.mp hfits), h.line_eq hfits,
      ih (h.rest hfits)]

end Alike

end Walk

namespace Listing

/-- What is written of a span hangs on the bytes before its stop and on the look-ahead behind it:
inputs that agree on them give the same text and the same counts, whatever else they hold and
however long they are. -/
theorem writeLines_eq_of_agreeOn {decoder : Decoder} {target : Target} {a b : Array UInt8}
    {s e : Nat} (hpos : 0 < e) (ha : max s e ≤ a.size) (hb : max s e ≤ b.size)
    (h : Code.AgreeOn a b s (e + target.mode.lookahead)) :
    (∃ (tally : Tally) (text : String),
      writeLines decoder target a ⟨s, e⟩ {} = .ok tally ⟨none, text.toUTF8⟩ ∧
      writeLines decoder target b ⟨s, e⟩ {} = .ok tally ⟨none, text.toUTF8⟩) ∧
    ∀ sink, writeLines decoder target a ⟨s, e⟩ sink = writeLines decoder target b ⟨s, e⟩ sink := by
  obtain ⟨has, hae⟩ := Nat.max_le.mp ha
  obtain ⟨hbs, hbe⟩ := Nat.max_le.mp hb
  let v := Walk.between decoder target a s e hae
  let w := Walk.between decoder target b s e hbe
  have hv : Walk.start decoder target a ⟨s, e⟩ = .ok v := Walk.start_of_pos hpos has hae
  have hw : Walk.start decoder target b ⟨s, e⟩ = .ok w := Walk.start_of_pos hpos hbs hbe
  have hvs : v.offset = s := Walk.offset_between has hae
  have hws : w.offset = s := Walk.offset_between hbs hbe
  have halike : Walk.Alike v w :=
    ⟨rfl, rfl, hvs.trans hws.symm, rfl, h.mono (Nat.le_of_eq hvs.symm) (Nat.le_refl _)⟩
  have hwrite : writeLines decoder target a ⟨s, e⟩ = writeLines decoder target b ⟨s, e⟩ := by
    rw [writeLines_eq hv, writeLines_eq hw, halike.lines_eq]
  refine ⟨⟨.ofLines v.lines, body v.lines, writeLines_unbounded hv, ?_⟩, fun sink => ?_⟩
  · rw [← hwrite]
    exact writeLines_unbounded hv
  · rw [hwrite]

/-- A wide instruction that is cut by the stop: the bytes behind the look-ahead differ, and one of
the inputs ends there. -/
theorem writeLines_eq_of_agreeOn_cut :
    0 < 3 ∧ max 1 3 ≤ #[9, 1, 0xf0, 2, 3].size ∧ max 1 3 ≤ #[7, 1, 0xf0, 2, 3, 4, 5].size ∧
    Code.AgreeOn #[9, 1, 0xf0, 2, 3] #[7, 1, 0xf0, 2, 3, 4, 5] 1 (3 + Mode.thumb.lookahead) ∧
    (∃ (tally : Tally) (text : String),
      writeLines .echo {} #[9, 1, 0xf0, 2, 3] ⟨1, 3⟩ {} = .ok tally ⟨none, text.toUTF8⟩ ∧
      writeLines .echo {} #[7, 1, 0xf0, 2, 3, 4, 5] ⟨1, 3⟩ {} = .ok tally ⟨none, text.toUTF8⟩) ∧
    ∀ sink, writeLines .echo {} #[9, 1, 0xf0, 2, 3] ⟨1, 3⟩ sink =
      writeLines .echo {} #[7, 1, 0xf0, 2, 3, 4, 5] ⟨1, 3⟩ sink := by
  have hagree :
      Code.AgreeOn #[9, 1, 0xf0, 2, 3] #[7, 1, 0xf0, 2, 3, 4, 5] 1 (3 + Mode.thumb.lookahead) := by
    have hall : ∀ i < 5, 1 ≤ i →
        Code.byte #[9, 1, 0xf0, 2, 3] i = Code.byte #[7, 1, 0xf0, 2, 3, 4, 5] i := by decide
    exact fun i hi hi' => hall i hi' hi
  exact ⟨by decide, by decide, by decide, hagree,
    writeLines_eq_of_agreeOn (by decide) (by decide) (by decide) hagree⟩

end Listing

end ArmListing
