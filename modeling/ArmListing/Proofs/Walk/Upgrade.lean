import ArmListing.Decoder.Standard
import ArmListing.Proofs.Arm.Revision
import ArmListing.Proofs.Listing
import ArmListing.Proofs.Thumb.Revision

/-!
# ArmListing.Proofs.Walk.Upgrade

Listing the same code **for ARMv5TE instead of ARMv4T** loses no instruction.

The two walks do not go in step: two halfwords that ARMv4T does not define may
be one call on ARMv5TE, and where the code stops in the middle of it, the second
walk gives up a halfword that the first one lists. `Upgraded` is the relation
between the two sequences of lines, by induction along the second walk
(`upgraded_lines`). All that is said of known lines and of counts follows from
it.
-/

namespace ArmListing

/-- How the answer to a prefetch changes with the revision. -/
inductive Decoder.Upgrades (d : Decoder) (mode : Mode) (p : Word) : Prop
  /-- The width stays, and so does what was known. -/
  | same (width : (d.decode ⟨mode, .v5te⟩ p).width = (d.decode ⟨mode, .v4t⟩ p).width)
      (known : (d.decode ⟨mode, .v4t⟩ p).isKnown →
        d.decode ⟨mode, .v5te⟩ p = d.decode ⟨mode, .v4t⟩ p)
  /-- Two unknown halfwords become one instruction. -/
  | merged (thumb : mode = .thumb) (old : d.decode ⟨mode, .v4t⟩ p = ⟨.narrow, none⟩)
      (width : (d.decode ⟨mode, .v5te⟩ p).width = .wide)
      (next : ∀ q : Word, q.unsignedField 0 16 = p.unsignedField 16 16 →
        d.decode ⟨mode, .v4t⟩ q = ⟨.narrow, none⟩)

theorem Decoder.upgrades_standard (mode : Mode) (p : Word) : standard.Upgrades mode p := by
  cases mode with
  | arm =>
    refine .same rfl fun hknown => ?_
    rw [decode_standard_arm] at hknown
    rw [decode_standard_arm, decode_standard_arm]
    cases hold : Arm.decode p .v4t with
    | none => rw [hold] at hknown; contradiction
    | some i => rw [Arm.decode_v5te hold]
  | thumb =>
    rcases Thumb.decode_v5te p with ⟨hwidth, hkept⟩ | ⟨hold, hwidth, hnext⟩
    · refine .same hwidth fun hknown => ?_
      rw [decode_standard_thumb] at hknown
      rw [decode_standard_thumb, decode_standard_thumb, hwidth]
      cases hold : (Thumb.decode p .v4t).2 with
      | none => rw [hold] at hknown; contradiction
      | some i => rw [hkept i hold]
    · refine .merged rfl ?_ hwidth fun q hq => ?_
      · rw [decode_standard_thumb, hold, Option.map_none]
      · rw [decode_standard_thumb, hnext q hq, Option.map_none]

/-- The lines that take the place of others after an upgrade. -/
inductive Upgraded : List Line → List Line → Prop
  | nil : Upgraded [] []
  /-- The same code, and if it was known also the same text. -/
  | same {l l' : Line} {old new : List Line} (address : l'.address = l.address)
      (encoding : l'.encoding = l.encoding) (known : l.decoded.isKnown → l' = l)
      (rest : Upgraded old new) : Upgraded (l :: old) (l' :: new)
  /-- Two unknown lines become one. -/
  | merged {l₁ l₂ l' : Line} {old new : List Line} (first : l₁.decoded.isKnown = false)
      (second : l₂.decoded.isKnown = false) (rest : Upgraded old new) :
      Upgraded (l₁ :: l₂ :: old) (l' :: new)
  /-- An unknown line in front of the stop is given up. -/
  | dropped {l : Line} (unknown : l.decoded.isKnown = false) : Upgraded [l] []

namespace Upgraded

variable {old new : List Line}

/-- No known line is lost. -/
theorem mem_of_known (h : Upgraded old new) {l : Line} (hl : l ∈ old)
    (hknown : l.decoded.isKnown) : l ∈ new := by
  induction h with
  | nil => exact hl
  | same _ _ hsame _ ih =>
    rcases List.mem_cons.mp hl with rfl | hrest
    · rw [hsame hknown]
      exact List.mem_cons_self
    · exact List.mem_cons_of_mem _ (ih hrest)
  | merged hfirst hsecond _ ih =>
    rcases List.mem_cons.mp hl with rfl | hrest
    · rw [hfirst] at hknown
      contradiction
    · rcases List.mem_cons.mp hrest with rfl | hrest
      · rw [hsecond] at hknown
        contradiction
      · exact List.mem_cons_of_mem _ (ih hrest)
  | dropped hunknown =>
    rw [List.mem_singleton.mp hl, hunknown] at hknown
    contradiction

theorem length_le (h : Upgraded old new) : new.length ≤ old.length := by
  induction h with
  | nil => exact Nat.le_refl _
  | same _ _ _ _ ih => exact Nat.succ_le_succ ih
  | merged _ _ _ ih => exact Nat.succ_le_succ (Nat.le_succ_of_le ih)
  | dropped _ => exact Nat.zero_le _

theorem countP_unknown_le (h : Upgraded old new) :
    (new.countP fun l => !l.decoded.isKnown) ≤ old.countP fun l => !l.decoded.isKnown := by
  induction h with
  | nil => exact Nat.le_refl _
  | @same l l' _ _ _ _ hsame _ ih =>
    rw [List.countP_cons, List.countP_cons]
    by_cases hknown : l.decoded.isKnown
    · rw [hsame hknown]
      exact Nat.add_le_add_right ih _
    · have hcounts : (!l.decoded.isKnown) = true := by simpa using hknown
      rw [if_pos hcounts]
      exact Nat.add_le_add ih (by split <;> decide)
  | merged hfirst hsecond _ ih =>
    -- both old lines count, and the new one may
    rw [List.countP_cons, List.countP_cons, List.countP_cons, hfirst, hsecond]
    exact Nat.add_le_add (Nat.le_succ_of_le ih) (by split <;> decide)
  | dropped _ => exact Nat.zero_le _

end Upgraded

namespace Walk

variable {w : Walk} {revision : Revision}

/-- The same walk for another revision. -/
def forRevision (w : Walk) (revision : Revision) : Walk :=
  { w with target.revision := revision }

theorem forRevision_self (h : w.target.revision = revision) : w.forRevision revision = w := by
  subst h
  rfl

theorem decoded_forRevision (w : Walk) (revision : Revision) :
    (w.forRevision revision).decoded =
      w.decoder.decode ⟨w.target.mode, revision⟩ (Code.word w.cursor.data w.offset) :=
  decoded_eq _

section SameWidth

variable (hwidth : (w.forRevision revision).decoded.width = w.decoded.width)
include hwidth

theorem fits_forRevision : (w.forRevision revision).fits = w.fits := by
  rw [fits, hwidth]
  rfl

theorem rest_forRevision : (w.forRevision revision).rest = w.rest.forRevision revision := by
  rw [rest, hwidth]
  rfl

theorem encoding_line_forRevision :
    (w.forRevision revision).line.encoding = w.line.encoding := by
  show Encoding.ofPrefetch _ _ = Encoding.ofPrefetch _ _
  rw [hwidth]
  rfl

end SameWidth

/-- Where no width changes, the same code is listed. -/
theorem map_lines_forRevision
    (hwidth : ∀ p, (w.decoder.decode ⟨w.target.mode, revision⟩ p).width =
      (w.decoder.decode w.target p).width) :
    (w.forRevision revision).lines.map (fun l => (l.address, l.encoding)) =
      w.lines.map fun l => (l.address, l.encoding) := by
  induction w using run_induction with
  | stopped w h =>
    have hsame : (w.forRevision revision).decoded.width = w.decoded.width := by
      rw [decoded_forRevision, hwidth, ← decoded_eq]
    rw [lines_of_not_fits h, lines_of_not_fits (by rwa [fits_forRevision hsame])]
  | step w h ih =>
    have hsame : (w.forRevision revision).decoded.width = w.decoded.width := by
      rw [decoded_forRevision, hwidth, ← decoded_eq]
    rw [lines_of_fits h, lines_of_fits (by rwa [fits_forRevision hsame]), List.map_cons,
      List.map_cons, rest_forRevision hsame, ih hwidth, encoding_line_forRevision hsame]
    rfl

/-- The two cases of an upgrade, as a walk meets them. -/
theorem decoded_upgrade (hrevision : w.target.revision = .v5te)
    (hdecoder : ∀ p, w.decoder.Upgrades w.target.mode p) :
    ((w.forRevision .v4t).decoded.width = w.decoded.width ∧
        ((w.forRevision .v4t).decoded.isKnown → w.decoded = (w.forRevision .v4t).decoded)) ∨
      (w.target.mode = .thumb ∧ (w.forRevision .v4t).decoded = ⟨.narrow, none⟩ ∧
        w.decoded.width = .wide ∧ (w.offset + 2 ≤ w.cursor.data.size →
          ((w.moveTo (w.offset + 2)).forRevision .v4t).decoded = ⟨.narrow, none⟩)) := by
  have hself : w.decoded = _ := congrArg decoded (forRevision_self hrevision).symm
  rw [hself, decoded_forRevision, decoded_forRevision]
  rcases hdecoder (Code.word w.cursor.data w.offset) with
    ⟨hwidth, hknown⟩ | ⟨hthumb, hold, hwidth, hnext⟩
  · exact .inl ⟨hwidth.symm, hknown⟩
  · refine .inr ⟨hthumb, hold, hwidth, fun hle => ?_⟩
    rw [decoded_forRevision, offset_moveTo, Nat.min_eq_left hle]
    exact hnext _ (Code.unsignedField_high ..).symm

/-- Where no word fits, nothing is listed behind a halfword. -/
theorem lines_of_cut_call (w : Walk) (hthumb : w.target.mode = .thumb)
    (hfirst : w.decoded.width = .narrow) (hfits : w.fits) (hleft : w.left < 4) :
    w.lines = [w.line] := by
  have hlast : ¬ w.rest.fits := by
    have hoffset := offset_rest hfits
    have hnext := w.rest.decoded.width.two_le_bytes
    rw [hfirst, Width.bytes] at hoffset
    rw [fits_iff_of_thumb w.rest hthumb, left, hoffset, stop_rest]
    unfold left at hleft
    omega
  rw [lines_of_fits hfits, lines_of_not_fits hlast]

/-- Where a word fits, two halfwords do. -/
theorem lines_of_split_call (w : Walk) (hthumb : w.target.mode = .thumb)
    (hleft : 4 ≤ w.left) (hfirst : w.decoded.width = .narrow)
    (hsecond : (w.moveTo (w.offset + 2)).decoded.width = .narrow) :
    w.lines = w.line :: (w.moveTo (w.offset + 2)).line :: (w.moveTo (w.offset + 4)).lines := by
  have hstop := w.stop_le
  have hsize : w.offset + 2 ≤ w.cursor.data.size := by
    unfold left at hleft
    omega
  have hfits : w.fits := by
    rw [fits_iff_of_thumb w hthumb, hfirst]
    exact Nat.le_trans (by decide) hleft
  have hrest : w.rest = w.moveTo (w.offset + 2) := by
    rw [rest, hfirst]
    rfl
  have hmiddle : w.rest.fits := by
    rw [fits_iff_of_thumb w.rest hthumb, hrest, hsecond, left_moveTo hsize, Width.bytes]
    unfold left at hleft
    omega
  have hmeet : (w.moveTo (w.offset + 2)).rest = w.moveTo (w.offset + 4) := by
    rw [rest, hsecond, offset_moveTo, Nat.min_eq_left hsize]
    rfl
  rw [lines_of_fits hfits, lines_of_fits hmiddle, hrest, hmeet]

/-- **Walking for ARMv5TE upgrades the lines.** -/
theorem upgraded_lines (hrevision : w.target.revision = .v5te)
    (hdecoder : ∀ p, w.decoder.Upgrades w.target.mode p) :
    Upgraded (w.forRevision .v4t).lines w.lines := by
  induction w using run_induction with
  | stopped w h =>
    rw [lines_of_not_fits h]
    by_cases hfits : (w.forRevision .v4t).fits
    · rcases decoded_upgrade hrevision hdecoder with ⟨hwidth, -⟩ | ⟨hthumb, hold, -, -⟩
      · rw [fits_forRevision hwidth] at hfits
        exact absurd hfits h
      · -- the stop cuts a call, of which ARMv4T still lists the first half
        have hleft : w.left < 4 := left_lt_of_not_fits h
        rw [lines_of_cut_call (w.forRevision .v4t) hthumb (congrArg Decoded.width hold) hfits hleft]
        exact .dropped (congrArg Decoded.isKnown hold)
    · rw [lines_of_not_fits hfits]
      exact .nil
  | step w h ih =>
    rw [lines_of_fits h]
    rcases decoded_upgrade hrevision hdecoder with
      ⟨hwidth, hknown⟩ | ⟨hthumb, hold, hwidth, hnext⟩
    · rw [lines_of_fits (by rwa [fits_forRevision hwidth]), rest_forRevision hwidth]
      refine .same rfl (encoding_line_forRevision hwidth).symm (fun hk => ?_)
        (ih hrevision hdecoder)
      rw [line, hknown hk]
      rfl
    · -- a call into ARM code, which ARMv4T takes for two halfwords
      have hleft : 4 ≤ w.left := by
        rw [fits_iff_of_thumb w hthumb, hwidth] at h
        exact h
      have hsecond := hnext (by have := w.stop_le; unfold left at hleft; omega)
      have hrest : (w.forRevision .v4t).moveTo (w.offset + 4) = w.rest.forRevision .v4t := by
        rw [rest, hwidth]
        rfl
      rw [lines_of_split_call (w.forRevision .v4t) hthumb hleft (congrArg Decoded.width hold)
        (congrArg Decoded.width hsecond)]
      show Upgraded (_ :: _ :: ((w.forRevision .v4t).moveTo (w.offset + 4)).lines) _
      rw [hrest]
      exact .merged (congrArg Decoded.isKnown hold) (congrArg Decoded.isKnown hsecond)
        (ih hrevision hdecoder)

/-- For ARMv5TE nothing is lost that ARMv4T defines: its lines are listed again, there are not more
lines and not more unknown ones, and in ARM state it is the same code line by line. -/
theorem known_lines_upgrade {mode : Mode} {data : Array UInt8} {span r : Span}
    (h : span.resolve? data.size = some r) :
    ∃ old new, start .standard ⟨mode, .v4t⟩ data span = .ok old ∧
      start .standard ⟨mode, .v5te⟩ data span = .ok new ∧
      (∀ l ∈ old.lines, l.decoded.isKnown → l ∈ new.lines) ∧
      (∃ tally₄ sink₄ tally₅ sink₅,
        Listing.writeLines .standard ⟨mode, .v4t⟩ data span {} = .ok tally₄ sink₄ ∧
        Listing.writeLines .standard ⟨mode, .v5te⟩ data span {} = .ok tally₅ sink₅ ∧
        tally₅.unknown ≤ tally₄.unknown ∧ tally₅.lines ≤ tally₄.lines) ∧
      (mode = .arm → old.lines.map (fun l => (l.address, l.encoding)) =
        new.lines.map fun l => (l.address, l.encoding)) := by
  let new := between .standard ⟨mode, .v5te⟩ data r.start r.stop (Span.stop_le_of_resolve? h)
  have hold : start .standard ⟨mode, .v4t⟩ data span = .ok (new.forRevision .v4t) :=
    start_of_resolve? h
  have hnew : start .standard ⟨mode, .v5te⟩ data span = .ok new := start_of_resolve? h
  have hlines : Upgraded (new.forRevision .v4t).lines new.lines :=
    upgraded_lines rfl (Decoder.upgrades_standard mode)
  refine ⟨_, new, hold, hnew, fun l => hlines.mem_of_known, ?_, fun hmode => ?_⟩
  · exact ⟨_, _, _, _, Listing.writeLines_unbounded hold, Listing.writeLines_unbounded hnew,
      hlines.countP_unknown_le, hlines.length_le⟩
  · subst hmode
    exact map_lines_forRevision fun p => rfl

/-- Two halfwords of ARMv4T, and the call that they are on ARMv5TE. -/
theorem known_lines_upgrade_call :
    (⟨0, 0⟩ : Span).resolve? 4 = some ⟨0, 4⟩ ∧
    ∃ old new, start .standard ⟨.thumb, .v4t⟩ #[0x00, 0xf0, 0x02, 0xe8] ⟨0, 0⟩ = .ok old ∧
      start .standard ⟨.thumb, .v5te⟩ #[0x00, 0xf0, 0x02, 0xe8] ⟨0, 0⟩ = .ok new ∧
      (∀ l ∈ old.lines, l.decoded.isKnown → l ∈ new.lines) ∧
      (∃ tally₄ sink₄ tally₅ sink₅,
        Listing.writeLines .standard ⟨.thumb, .v4t⟩ #[0x00, 0xf0, 0x02, 0xe8] ⟨0, 0⟩ {} =
          .ok tally₄ sink₄ ∧
        Listing.writeLines .standard ⟨.thumb, .v5te⟩ #[0x00, 0xf0, 0x02, 0xe8] ⟨0, 0⟩ {} =
          .ok tally₅ sink₅ ∧
        tally₅.unknown ≤ tally₄.unknown ∧ tally₅.lines ≤ tally₄.lines) ∧
      (Mode.thumb = .arm → old.lines.map (fun l => (l.address, l.encoding)) =
        new.lines.map fun l => (l.address, l.encoding)) :=
  ⟨rfl, known_lines_upgrade rfl⟩

end Walk

end ArmListing
