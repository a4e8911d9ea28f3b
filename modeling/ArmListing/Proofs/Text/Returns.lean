import ArmListing.Proofs.Text.Lines

/-!
# ArmListing.Proofs.Text.Returns

**What the lines of a text do not tell.** Two texts have the same lines, and both
or neither of them ends its last line, if and only if they are the same up to
carriage returns directly in front of a line feed (`lines_eq_iff`).

Every text is cut in one way into lines that have an end and a rest that has none
(`CutInto`), and its lines, its end and the text without these carriage returns
are told by the cut.
-/

namespace ArmListing.Text

variable {text line rest last last' : List Char} {all all' : List (List Char)} {c : Char}

/-- A text without the carriage returns that stand directly in front of a line feed. -/
def dropReturns : List Char → List Char
  | [] => []
  | c :: rest =>
    if c = '\r' ∧ rest.head? = some '\n' then dropReturns rest else c :: dropReturns rest

/-! ### Lines with their ends -/

theorem newline_not_mem_chomp (h : '\n' ∉ line) : '\n' ∉ chomp line := by
  rcases chomp_cases line with hreturn | hsame
  · intro hmem
    rw [hreturn] at h
    exact h (List.mem_append_left _ hmem)
  · rwa [hsame]

/-- A carriage return is dropped from the end of a line only. -/
theorem chomp_cons (c : Char) (hne : line ≠ []) : chomp (c :: line) = c :: chomp line := by
  obtain ⟨front, d, rfl⟩ := (List.eq_nil_or_concat line).resolve_left hne
  rw [List.concat_eq_append, chomp, chomp, List.reverse_cons, List.reverse_append,
    List.reverse_singleton, List.singleton_append, List.cons_append]
  by_cases hd : d = '\r'
  · subst hd
    rw [dropReturn, dropReturn, List.reverse_append]
    rfl
  · rw [dropReturn, dropReturn, List.reverse_cons, List.reverse_cons, List.reverse_append]
    · rfl
    · rintro rest ⟨rfl, -⟩
      exact hd rfl
    · rintro rest ⟨rfl, -⟩
      exact hd rfl

theorem dropReturns_of_not_mem (h : '\n' ∉ line) : dropReturns line = line := by
  induction line with
  | nil => rfl
  | cons c line ih =>
    rw [List.mem_cons, not_or] at h
    have hhead : ¬(c = '\r' ∧ line.head? = some '\n') :=
      fun hboth => h.2 (List.mem_of_mem_head? hboth.2)
    rw [dropReturns, if_neg hhead, ih h.2]

/-- A line with its end keeps what its line is. -/
theorem dropReturns_append (h : '\n' ∉ line) (rest : List Char) :
    dropReturns (line ++ '\n' :: rest) = chomp line ++ '\n' :: dropReturns rest := by
  induction line with
  | nil => exact if_neg fun hboth => absurd hboth.1 (by decide)
  | cons c line ih =>
    rw [List.mem_cons, not_or] at h
    rw [List.cons_append, dropReturns, ih h.2]
    by_cases hnil : line = []
    · subst hnil
      by_cases hc : c = '\r'
      · subst hc
        rfl
      · rw [if_neg fun hboth => hc hboth.1]
        have hkeep : chomp [c] = [c] := by
          rw [chomp, List.reverse_singleton, dropReturn, List.reverse_singleton]
          rintro rest ⟨rfl, -⟩
          exact hc rfl
        rw [hkeep]
        rfl
    · have hhead : ¬(c = '\r' ∧ (line ++ '\n' :: rest).head? = some '\n') := by
        obtain ⟨d, line, rfl⟩ := List.exists_cons_of_ne_nil hnil
        rintro ⟨-, hfirst⟩
        exact h.2 (List.mem_of_mem_head? hfirst)
      rw [if_neg hhead, chomp_cons c hnil, List.cons_append]

/-! ### Cutting a text -/

/-- A text cut into lines that have an end, and a rest that has none. -/
structure CutInto (text : List Char) (all : List (List Char)) (last : List Char) : Prop where
  eq_append : text = unlines all ++ last
  newline_not_mem : ∀ line ∈ all, '\n' ∉ line
  newline_not_mem_last : '\n' ∉ last

/-- Every text is cut. -/
theorem exists_cutInto (text : List Char) : ∃ all last, CutInto text all last := by
  induction text with
  | nil => exact ⟨[], [], rfl, nofun, List.not_mem_nil⟩
  | cons c text ih =>
    obtain ⟨all, last, rfl, hall, hlast⟩ := ih
    by_cases hc : c = '\n'
    · subst hc
      exact ⟨[] :: all, last, rfl, List.forall_mem_cons.mpr ⟨List.not_mem_nil, hall⟩, hlast⟩
    · have hcons : ∀ {line : List Char}, '\n' ∉ line → '\n' ∉ c :: line := by
        intro line hline
        rw [List.mem_cons, not_or]
        exact ⟨Ne.symm hc, hline⟩
      cases all with
      | nil => exact ⟨[], c :: last, rfl, nofun, hcons hlast⟩
      | cons line all =>
        obtain ⟨hline, hall⟩ := List.forall_mem_cons.mp hall
        exact ⟨(c :: line) :: all, last, rfl, List.forall_mem_cons.mpr ⟨hcons hline, hall⟩, hlast⟩

namespace CutInto

/-- **A text is cut in one way.** -/
theorem unique (h : CutInto text all last) (h' : CutInto text all' last') :
    all = all' ∧ last = last' := by
  have hlines : ∀ {all : List (List Char)} {last : List Char}, CutInto text all last →
      ∀ line ∈ all ++ [last], '\n' ∉ line := by
    intro all last h line hline
    rcases List.mem_append.mp hline with hmem | hmem
    · exact h.newline_not_mem line hmem
    · exact List.mem_singleton.mp hmem ▸ h.newline_not_mem_last
  -- with an end for the rest as well, the text is one of lines only
  have htext : unlines (all ++ [last]) = unlines (all' ++ [last']) := by
    rw [unlines_append, unlines_append]
    show unlines all ++ (last ++ ['\n']) = unlines all' ++ (last' ++ ['\n'])
    rw [← List.append_assoc, ← List.append_assoc, ← h.eq_append, ← h'.eq_append]
  obtain ⟨hall, hlast⟩ :=
    List.append_inj' (unlines_injective (hlines h) (hlines h') htext) rfl
  exact ⟨hall, List.singleton_inj.mp hlast⟩

/-- The lines of a text are those with an end, and the rest if there is one. -/
theorem lines_eq (h : CutInto text all last) :
    lines text = all.map chomp ++ if last = [] then [] else [last] := by
  obtain ⟨rfl, hall, hlast⟩ := h
  induction all with
  | nil =>
    show lines last = if last = [] then [] else [last]
    split
    case isTrue hnil => rw [hnil, lines_nil]
    case isFalse hne => exact lines_of_not_mem hlast hne
  | cons line all ih =>
    obtain ⟨hline, hall⟩ := List.forall_mem_cons.mp hall
    rw [unlines, List.append_assoc, List.cons_append, lines_append hline, ih hall, List.map_cons,
      List.cons_append]

/-- The last line of a text has an end if nothing stands behind the lines that have one. -/
theorem endsLine_eq (h : CutInto text all last) :
    endsLine text = true ↔ last = [] ∧ all ≠ [] := by
  obtain ⟨rfl, -, hlast⟩ := h
  rw [endsLine, beq_iff_eq]
  by_cases hnil : last = []
  · subst hnil
    rw [List.append_nil]
    induction all with
    | nil => exact iff_of_false (Option.some_ne_none '\n').symm fun h => h.2 rfl
    | cons line all ih =>
      refine iff_of_true ?_ ⟨rfl, List.cons_ne_nil _ _⟩
      rw [unlines, List.getLast?_append]
      cases all with
      | nil => rfl
      | cons next all =>
        have hrest := ih.mpr ⟨rfl, List.cons_ne_nil _ _⟩
        rw [List.getLast?_cons, hrest]
        rfl
  · refine iff_of_false (fun hends => ?_) fun h => hnil h.1
    obtain ⟨front, d, rfl⟩ := (List.eq_nil_or_concat last).resolve_left hnil
    rw [List.concat_eq_append, ← List.append_assoc, List.getLast?_concat] at hends
    rw [List.concat_eq_append, Option.some.inj hends] at hlast
    exact hlast (List.mem_append_right _ List.mem_cons_self)

/-- Without carriage returns in front of line feeds a text is cut in the same places. -/
theorem dropReturns (h : CutInto text all last) :
    CutInto (dropReturns text) (all.map chomp) last := by
  obtain ⟨rfl, hall, hlast⟩ := h
  refine ⟨?_, fun line hline => ?_, hlast⟩
  · induction all with
    | nil => exact dropReturns_of_not_mem hlast
    | cons line all ih =>
      obtain ⟨hline, hall⟩ := List.forall_mem_cons.mp hall
      rw [unlines, List.append_assoc, List.cons_append, dropReturns_append hline, ih hall,
        List.map_cons, unlines, List.append_assoc, List.cons_append]
  · obtain ⟨line, hmem, rfl⟩ := List.mem_map.mp hline
    exact newline_not_mem_chomp (hall line hmem)

/-- Nothing stands behind the lines with an end if the last line has one, or if there is no line. -/
theorem last_eq_nil_iff (h : CutInto text all last) :
    last = [] ↔ endsLine text = true ∨ lines text = [] := by
  constructor
  · rintro rfl
    by_cases hnil : all = []
    · subst hnil
      exact .inr (by rw [h.lines_eq]; rfl)
    · exact .inl (h.endsLine_eq.mpr ⟨rfl, hnil⟩)
  · rintro (hends | hnone)
    · exact (h.endsLine_eq.mp hends).1
    · rw [h.lines_eq, List.append_eq_nil_iff] at hnone
      exact Classical.byContradiction fun hne =>
        absurd hnone.2 (by rw [if_neg hne]; exact List.cons_ne_nil _ _)

/-- The lines of a text, put together, are the text without carriage returns, with an end. -/
theorem unlines_lines (h : CutInto text all last) :
    unlines (lines text) = Text.dropReturns text ++ if last = [] then [] else ['\n'] := by
  rw [h.lines_eq, h.dropReturns.eq_append, unlines_append, List.append_assoc]
  split
  case isTrue hnil => rw [hnil]; rfl
  case isFalse => rfl

end CutInto

/-- **Texts with the same lines and the same end** differ in nothing but carriage returns in front
of line feeds. -/
theorem lines_eq_iff {first second : List Char} :
    lines first = lines second ∧ endsLine first = endsLine second ↔
      dropReturns first = dropReturns second := by
  obtain ⟨all, last, hfirst⟩ := exists_cutInto first
  obtain ⟨all', last', hsecond⟩ := exists_cutInto second
  constructor
  · rintro ⟨hlines, hends⟩
    have hlast : last = [] ↔ last' = [] := by
      rw [hfirst.last_eq_nil_iff, hsecond.last_eq_nil_iff, hlines, hends]
    have htext := hfirst.unlines_lines
    rw [hlines, hsecond.unlines_lines] at htext
    simp only [hlast] at htext
    exact (List.append_cancel_right htext).symm
  · intro heq
    obtain ⟨hall, rfl⟩ := hfirst.dropReturns.unique (heq ▸ hsecond.dropReturns)
    have hnil : all = [] ↔ all' = [] := by
      rw [← List.map_eq_nil_iff, hall, List.map_eq_nil_iff]
    rw [hfirst.lines_eq, hsecond.lines_eq, hall, Bool.eq_iff_iff, hfirst.endsLine_eq,
      hsecond.endsLine_eq, ne_eq, hnil]
    exact ⟨rfl, Iff.rfl⟩

end ArmListing.Text
