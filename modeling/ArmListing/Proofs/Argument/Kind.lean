import ArmListing.Proofs.Argument

/-!
# ArmListing.Proofs.Argument.Kind

The four **kinds of arguments**, and which texts are of two kinds.

Each reader leaves a mark on the texts that it takes. A path has a dot, a code
has digits only, a mode starts with a slash and has no dot, and a span has a
separator and does not start with a slash. So a text is of one kind at most,
except that a span may be a path as well: what stands behind its numbers is
ignored, and that may be a dot (`ArgumentKind.exists_takes_both_iff`).
-/

namespace ArmListing

variable {text : String}

/-! ### The marks -/

theorem mem_toList_of_isPath (h : isPath text = true) : '.' ∈ text.toList := by
  obtain ⟨-, hdot⟩ := Bool.and_eq_true_iff.mp h
  exact List.mem_of_mem_tail (List.contains_iff_mem.mp hdot)

theorem Word.isDigit_of_ofArgument {word : Word} (h : ofArgument text = .ok word) :
    ∀ c ∈ text.toList, Hex.isDigit c = true := by
  unfold ofArgument at h
  split at h
  · contradiction
  · split at h
    · exact List.all_eq_true.mp ‹_›
    · contradiction

theorem Target.not_mem_of_ofArgument {target : Target} (h : ofArgument text = .ok target) :
    '.' ∉ text.toList := by
  obtain ⟨name, htext, hname⟩ := toList_of_ofArgument h
  rw [htext]
  unfold ofName? at hname
  split at hname
  case h_9 => contradiction
  all_goals simp

/-- A text that is read as a span has something to tell its numbers apart. -/
theorem exists_isSeparator_of_spanCandidate {chars : List Char} {span : Span}
    (h : spanCandidate chars = .ok span) : ∃ c ∈ chars, isSeparator c = true := by
  unfold spanCandidate at h
  split at h
  case h_4 =>
    unfold spanOfParts at h
    dsimp only at h
    split at h
    case h_1 => contradiction
    case h_2 separator rest hrest =>
      refine ⟨separator, ?_, ?_⟩
      · exact (List.dropWhile_sublist _).subset (hrest ▸ List.mem_cons_self)
      · have hnot := List.head?_dropWhile_not (!isSeparator ·) chars
        rw [hrest] at hnot
        simpa using hnot
  all_goals exact ⟨_, List.mem_cons_self, rfl⟩

theorem Span.exists_isSeparator_of_ofArgument {span : Span} (h : ofArgument text = .ok span) :
    text.toList.head? ≠ some '/' ∧ ∃ c ∈ text.toList, isSeparator c = true := by
  have hne : text.toList ≠ [] := by
    intro hnil
    rw [ofArgument_of_empty hnil] at h
    contradiction
  have hslash : text.toList.head? ≠ some '/' := by
    intro hslash
    rw [ofArgument_of_slash hslash] at h
    contradiction
  refine ⟨hslash, ?_⟩
  rw [ofArgument_of_ne hne hslash] at h
  cases hcandidate : spanCandidate (text.toList.take spanLength) with
  | error e =>
    rw [hcandidate] at h
    contradiction
  | ok candidate =>
    obtain ⟨c, hc, hseparator⟩ := exists_isSeparator_of_spanCandidate hcandidate
    exact ⟨c, List.mem_of_mem_take hc, hseparator⟩

/-! ### Kinds -/

/-- What an argument is read as. -/
inductive ArgumentKind
  | path | code | mode | span
  deriving DecidableEq, Repr

namespace ArgumentKind

/-- Whether the reader of a kind takes a text. -/
def Takes : ArgumentKind → String → Prop
  | path, text => isPath text = true
  | code, text => ∃ word, Word.ofArgument text = .ok word
  | mode, text => ∃ target, Target.ofArgument text = .ok target
  | span, text => ∃ span, Span.ofArgument text = .ok span

theorem not_path_of_code (h : code.Takes text) : ¬path.Takes text := by
  obtain ⟨word, hword⟩ := h
  intro hpath
  exact absurd (Word.isDigit_of_ofArgument hword _ (mem_toList_of_isPath hpath)) (by decide)

theorem not_mode_of_code (h : code.Takes text) : ¬mode.Takes text := by
  obtain ⟨word, hword⟩ := h
  rintro ⟨target, htarget⟩
  have hslash := List.mem_of_mem_head? (Target.head?_of_ofArgument htarget)
  exact absurd (Word.isDigit_of_ofArgument hword _ hslash) (by decide)

theorem not_span_of_code (h : code.Takes text) : ¬span.Takes text := by
  obtain ⟨word, hword⟩ := h
  rintro ⟨span, hspan⟩
  obtain ⟨-, c, hc, hseparator⟩ := Span.exists_isSeparator_of_ofArgument hspan
  have hdigit := Word.isDigit_of_ofArgument hword c hc
  rcases Bool.or_eq_true_iff.mp hseparator with hc | hc <;> cases eq_of_beq hc <;>
    exact absurd hdigit (by decide)

theorem not_path_of_mode (h : mode.Takes text) : ¬path.Takes text := by
  obtain ⟨target, htarget⟩ := h
  intro hpath
  exact Target.not_mem_of_ofArgument htarget (mem_toList_of_isPath hpath)

theorem not_span_of_mode (h : mode.Takes text) : ¬span.Takes text := by
  obtain ⟨target, htarget⟩ := h
  rintro ⟨span, hspan⟩
  exact (Span.exists_isSeparator_of_ofArgument hspan).1 (Target.head?_of_ofArgument htarget)

/-- Each reader takes something. -/
theorem exists_takes (kind : ArgumentKind) : ∃ text, kind.Takes text := by
  cases kind with
  | path => exact ⟨"a.b", rfl⟩
  | code => exact ⟨"0", 0, rfl⟩
  | mode => exact ⟨"/a", ⟨.arm, .v5te⟩, rfl⟩
  | span => exact ⟨"0-", {}, rfl⟩

/-- **Texts of two kinds** are the spans that look like paths. -/
theorem exists_takes_both_iff (a b : ArgumentKind) :
    (∃ text, a.Takes text ∧ b.Takes text) ↔
      a = b ∨ (a = path ∧ b = span) ∨ (a = span ∧ b = path) := by
  constructor
  · rintro ⟨text, ha, hb⟩
    cases a <;> cases b
    case path.code => exact absurd ha (not_path_of_code hb)
    case path.mode => exact absurd ha (not_path_of_mode hb)
    case path.span => exact .inr (.inl ⟨rfl, rfl⟩)
    case code.path => exact absurd hb (not_path_of_code ha)
    case code.mode => exact absurd hb (not_mode_of_code ha)
    case code.span => exact absurd hb (not_span_of_code ha)
    case mode.path => exact absurd hb (not_path_of_mode ha)
    case mode.code => exact absurd ha (not_mode_of_code hb)
    case mode.span => exact absurd hb (not_span_of_mode ha)
    case span.path => exact .inr (.inr ⟨rfl, rfl⟩)
    case span.code => exact absurd ha (not_span_of_code hb)
    case span.mode => exact absurd ha (not_span_of_mode hb)
    all_goals exact .inl rfl
  · have hboth : path.Takes "0-." ∧ span.Takes "0-." := ⟨rfl, {}, rfl⟩
    rintro (rfl | ⟨rfl, rfl⟩ | ⟨rfl, rfl⟩)
    · obtain ⟨text, htext⟩ := exists_takes a
      exact ⟨text, htext, htext⟩
    · exact ⟨_, hboth⟩
    · exact ⟨_, hboth.symm⟩

end ArgumentKind

end ArmListing
