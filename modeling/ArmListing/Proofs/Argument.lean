import ArmListing.Argument

/-!
# ArmListing.Proofs.Argument

What the **readers of arguments** take and refuse.

A span that is read does not stop before it starts, and a text that would do so
is the only reason to warn (`Span.ofArgument_cases`). A text with a slash in
front is no span, and one without a slash is no mode
(`Target.head?_of_ofArgument`), so no text is both.
-/

namespace ArmListing

namespace Span

variable {text : String} {s r span : Span} {length : Nat}

/-! ### Order -/

/-- A span that is open, or stops no earlier than it starts. -/
def IsOrdered (s : Span) : Prop := s.stop = 0 ∨ s.start ≤ s.stop

/-- A span up to the end of the input is closed to itself, even if the input is empty. -/
theorem resolve?_to_end {start : Nat} (h : start ≤ length) :
    (⟨start, length⟩ : Span).resolve? length = some ⟨start, length⟩ := by
  rw [resolve?_eq_some_iff, ite_self]
  exact ⟨⟨h, Nat.le_refl _⟩, rfl⟩

/-- The span that leaves both its ends out is the whole input. -/
theorem resolve?_default (length : Nat) : ({} : Span).resolve? length = some ⟨0, length⟩ := by
  rw [resolve?_eq_some_iff]
  exact ⟨⟨Nat.zero_le _, Nat.zero_le _⟩, rfl⟩

/-- An ordered span is closed to an ordered one, which stays as it is from then on. -/
theorem IsOrdered.resolve? (h : s.IsOrdered) (hr : s.resolve? length = some r) :
    r.start ≤ r.stop ∧ r.stop ≤ length ∧ r.resolve? length = some r := by
  obtain ⟨⟨hstart, hstop⟩, rfl⟩ := resolve?_eq_some_iff.mp hr
  unfold isOpen
  by_cases hopen : s.stop = 0
  · simp only [hopen, beq_self_eq_true, if_true]
    exact ⟨hstart, Nat.le_refl _, resolve?_to_end hstart⟩
  · have hle : s.start ≤ s.stop := h.resolve_left hopen
    simp only [beq_eq_false_iff_ne.mpr hopen, Bool.false_eq_true, if_false]
    exact ⟨hle, hstop, resolve?_of_pos (Nat.pos_of_ne_zero hopen) hstart hstop⟩

/-! ### Reading -/

/-- A text with a slash in front is no span. -/
theorem ofArgument_of_slash (h : text.toList.head? = some '/') :
    ofArgument text = .error .notASpan := by
  obtain ⟨rest, hrest⟩ := List.head?_eq_some_iff.mp h
  unfold ofArgument
  rw [hrest]
  rfl

theorem ofArgument_of_empty (h : text.toList = []) : ofArgument text = .error .notASpan := by
  unfold ofArgument
  rw [h]

/-- Of any other text the first characters are read, and then the ends are compared. -/
theorem ofArgument_of_ne (hne : text.toList ≠ []) (hslash : text.toList.head? ≠ some '/') :
    ofArgument text = spanCandidate (text.toList.take spanLength) >>= fun span =>
      if span.stop ≠ 0 ∧ span.stop < span.start then
        .error (.stopBeforeStart span.start span.stop)
      else .ok span := by
  unfold ofArgument
  split
  case h_1 hnil => exact absurd hnil hne
  case h_2 rest hrest => exact absurd (congrArg List.head? hrest) hslash
  case h_3 =>
    cases spanCandidate (text.toList.take spanLength) with
    | error e => rfl
    | ok span =>
      show (if _ then _ else _) = (if _ then _ else _)
      split <;> rfl

/-- The causes that a candidate is refused for do not compare its ends. -/
theorem warning?_of_spanCandidate {chars : List Char} {e : SpanError}
    (h : spanCandidate chars = .error e) : e.warning? = none := by
  unfold spanCandidate at h
  split at h
  case h_4 =>
    unfold spanOfParts at h
    dsimp only at h
    split at h
    · cases h; rfl
    · split at h
      · split at h
        · contradiction
        · cases h; rfl
      · contradiction
  all_goals contradiction

/-- **What becomes of a text**: it is read as an ordered span, or refused in silence, or, if it would
stop before it starts, refused with a warning. -/
theorem ofArgument_cases (text : String) :
    (∃ span, span.IsOrdered ∧ ofArgument text = .ok span) ∨
      (∃ e : SpanError, e.warning? = none ∧ ofArgument text = .error e) ∨
      (text.toList.head? ≠ some '/' ∧ ∃ start stop, 0 < stop ∧ stop < start ∧
        ofArgument text = .error (.stopBeforeStart start stop)) := by
  by_cases hne : text.toList = []
  · exact .inr (.inl ⟨_, rfl, ofArgument_of_empty hne⟩)
  by_cases hslash : text.toList.head? = some '/'
  · exact .inr (.inl ⟨_, rfl, ofArgument_of_slash hslash⟩)
  have hread := ofArgument_of_ne hne hslash
  cases hcandidate : spanCandidate (text.toList.take spanLength) with
  | error e =>
    rw [hcandidate] at hread
    exact .inr (.inl ⟨e, warning?_of_spanCandidate hcandidate, hread⟩)
  | ok span =>
    rw [hcandidate] at hread
    by_cases horder : span.stop ≠ 0 ∧ span.stop < span.start
    · refine .inr (.inr ⟨hslash, _, _, Nat.pos_of_ne_zero horder.1, horder.2, ?_⟩)
      exact hread.trans (if_pos horder)
    · have hordered : span.IsOrdered := by
        unfold IsOrdered
        omega
      exact .inl ⟨span, hordered, hread.trans (if_neg horder)⟩

end Span

/-- Behind the slash of a mode there is the name of a target. -/
theorem Target.toList_of_ofArgument {text : String} {target : Target}
    (h : ofArgument text = .ok target) :
    ∃ name, text.toList = '/' :: name ∧ ofName? name = some target := by
  unfold ofArgument at h
  split at h
  · contradiction
  · split at h
    case h_1 name hname =>
      refine ⟨name, hname, ?_⟩
      split at h
      · cases h
        assumption
      · contradiction
    case h_2 => contradiction

/-- A mode has a slash in front, so that no span is one. -/
theorem Target.head?_of_ofArgument {text : String} {target : Target}
    (h : ofArgument text = .ok target) : text.toList.head? = some '/' := by
  obtain ⟨name, htext, -⟩ := toList_of_ofArgument h
  rw [htext]
  rfl

end ArmListing
