import ArmListing.Proofs.Text.Blank
import ArmListing.Text.Lines

/-!
# ArmListing.Proofs.Text.Lines

Texts that are **put together from lines** are taken apart into the same lines
(`lines_unlines`), up to a carriage return at the end of a line (`chomp`); a
line that a separator is written into is split there (`splitOnce_append`); and
no other lines make the same text (`unlines_injective`).
-/

namespace ArmListing.Text

/-- The text of some lines, each with its end. -/
def unlines : List (List Char) → List Char
  | [] => []
  | line :: rest => line ++ '\n' :: unlines rest

/-- A line without a carriage return at its end. -/
def chomp (line : List Char) : List Char := (dropReturn line.reverse).reverse

theorem unlines_append (front back : List (List Char)) :
    unlines (front ++ back) = unlines front ++ unlines back := by
  induction front with
  | nil => rfl
  | cons line rest ih => rw [List.cons_append, unlines, unlines, ih, List.append_assoc]; rfl

/-- Either a line ends in a carriage return, or nothing is taken from it. -/
theorem chomp_cases (line : List Char) : line = chomp line ++ ['\r'] ∨ chomp line = line := by
  unfold chomp
  cases hreverse : line.reverse with
  | nil => exact .inr (by rw [List.reverse_eq_nil_iff.mp hreverse]; rfl)
  | cons c rest =>
    have hline : line = rest.reverse ++ [c] := by
      rw [← List.reverse_reverse line, hreverse, List.reverse_cons]
    by_cases hc : c = '\r'
    · subst hc
      exact .inl hline
    · refine .inr ?_
      rw [dropReturn]
      · rw [List.reverse_cons, hline]
      · rintro rest' ⟨rfl, -⟩
        exact hc rfl

/-- A carriage return is a blank. -/
theorem trim_chomp (line : List Char) : trim (chomp line) = trim line := by
  rcases chomp_cases line with hreturn | hsame
  · have hblank : ∀ c ∈ ['\r'], isBlank c = true := List.forall_mem_singleton.mpr rfl
    conv => rhs; rw [hreturn, trim_append_of_blank hblank]
  · rw [hsame]

/-! ### Lines -/

theorem linesFrom_append {front : List Char} (h : '\n' ∉ front) (line rest : List Char) :
    linesFrom line (front ++ '\n' :: rest) = chomp (line.reverse ++ front) :: lines rest := by
  induction front generalizing line with
  | nil =>
    rw [List.nil_append, List.append_nil, linesFrom, chomp, List.reverse_reverse]
    rfl
  | cons c front ih =>
    rw [List.mem_cons, not_or] at h
    rw [List.cons_append, linesFrom]
    · rw [ih h.2, List.reverse_cons, List.append_assoc]
      rfl
    · exact fun hc => h.1 hc.symm

/-- The first line of a text ends where its first line feed stands. -/
theorem lines_append {line : List Char} (h : '\n' ∉ line) (rest : List Char) :
    lines (line ++ '\n' :: rest) = chomp line :: lines rest :=
  linesFrom_append h [] rest

theorem lines_unlines {all : List (List Char)} (h : ∀ line ∈ all, '\n' ∉ line) :
    lines (unlines all) = all.map chomp := by
  induction all with
  | nil => rfl
  | cons line rest ih =>
    rw [List.forall_mem_cons] at h
    rw [unlines, lines_append h.1, ih h.2, List.map_cons]

theorem linesFrom_of_not_mem {rest : List Char} (h : '\n' ∉ rest) {start : List Char}
    (hne : start ≠ [] ∨ rest ≠ []) : linesFrom start rest = [start.reverse ++ rest] := by
  induction rest generalizing start with
  | nil =>
    have hstart : ¬start.isEmpty = true := by
      rw [List.isEmpty_iff]
      exact hne.resolve_right (fun hnil => hnil rfl)
    rw [linesFrom, if_neg hstart, List.append_nil]
  | cons c rest ih =>
    rw [List.mem_cons, not_or] at h
    rw [linesFrom, ih h.2 (.inl (List.cons_ne_nil c start)), List.reverse_cons, List.append_assoc]
    · rfl
    · exact fun hc => h.1 hc.symm

/-- A text that ends no line is one, if it is not empty. -/
theorem lines_of_not_mem {line : List Char} (h : '\n' ∉ line) (hne : line ≠ []) :
    lines line = [line] :=
  linesFrom_of_not_mem h (.inr hne)

theorem linesFrom_append_of_endsLine {front : List Char} (h : endsLine front = true)
    (line rest : List Char) :
    linesFrom line (front ++ rest) = linesFrom line front ++ lines rest := by
  induction front generalizing line with
  | nil => contradiction
  | cons c front ih =>
    have hfront : endsLine front = true ∨ front = [] ∧ c = '\n' := by
      cases front with
      | nil => exact .inr ⟨rfl, by simpa [endsLine] using h⟩
      | cons d front => exact .inl h
    rw [List.cons_append]
    by_cases hc : c = '\n'
    · subst hc
      rw [linesFrom, linesFrom, List.cons_append]
      rcases hfront with hends | ⟨rfl, -⟩
      · rw [ih hends]
      · rfl
    · rcases hfront with hends | ⟨-, hnewline⟩
      · rw [linesFrom, linesFrom, ih hends]
        · exact hc
        · exact hc
      · exact absurd hnewline hc

/-- **Texts behind each other have their lines behind each other**, if the first one ends a line. -/
theorem lines_append_of_endsLine {front : List Char} (h : endsLine front = true)
    (rest : List Char) : lines (front ++ rest) = lines front ++ lines rest :=
  linesFrom_append_of_endsLine h [] rest

/-! ### Separators -/

variable {separator text front behind : List Char}

theorem eq_append_of_splitOnce (h : splitOnce separator text = some (front, behind)) :
    text = front ++ separator ++ behind := by
  induction text generalizing front with
  | nil =>
    unfold splitOnce at h
    split at h
    case isTrue hempty =>
      cases h
      rw [List.isEmpty_iff.mp hempty]
      rfl
    case isFalse => contradiction
  | cons c rest ih =>
    unfold splitOnce at h
    split at h
    case isTrue hprefix =>
      obtain ⟨tail, htail⟩ := List.isPrefixOf_iff_prefix.mp hprefix
      rw [← htail, List.drop_left] at h
      cases h
      exact htail.symm
    case isFalse =>
      obtain ⟨⟨front', behind'⟩, hrest, heq⟩ := Option.map_eq_some_iff.mp h
      cases heq
      rw [ih hrest]
      rfl

/-- A text is split where the first character of the separator stands first. -/
theorem splitOnce_append {c : Char} (h : c ∉ front) (separator behind : List Char) :
    splitOnce (c :: separator) (front ++ (c :: separator) ++ behind) = some (front, behind) := by
  induction front with
  | nil =>
    have hprefix : (c :: separator).isPrefixOf (c :: (separator ++ behind)) :=
      List.isPrefixOf_iff_prefix.mpr ⟨behind, rfl⟩
    show splitOnce (c :: separator) (c :: (separator ++ behind)) = _
    rw [splitOnce, if_pos hprefix]
    exact congrArg (fun tail => some ([], tail)) List.drop_left
  | cons d front ih =>
    rw [List.mem_cons, not_or] at h
    rw [List.cons_append, List.cons_append, splitOnce, if_neg, ih h.2, Option.map_some]
    rw [List.isPrefixOf_cons_cons, Bool.and_eq_true, beq_iff_eq]
    exact fun heq => h.1 heq.1

/-- A text without the first character of the separator is not split. -/
theorem splitOnce_eq_none {c : Char} (h : c ∉ text) (separator : List Char) :
    splitOnce (c :: separator) text = none := by
  induction text with
  | nil => rfl
  | cons d text ih =>
    rw [List.mem_cons, not_or] at h
    rw [splitOnce, if_neg, ih h.2, Option.map_none]
    rw [List.isPrefixOf_cons_cons, Bool.and_eq_true, beq_iff_eq]
    exact fun heq => h.1 heq.1

/-- A character stands nowhere in a text, or in front of one of its places it does not. -/
theorem not_mem_or_exists_first (c : Char) (text : List Char) :
    c ∉ text ∨ ∃ front behind, c ∉ front ∧ text = front ++ c :: behind := by
  by_cases h : c ∈ text
  · obtain ⟨front, behind, htext, hfront⟩ := List.eq_append_cons_of_mem h
    exact .inr ⟨front, behind, hfront, htext⟩
  · exact .inl h

theorem takeWhile_append_of_not_mem {c : Char} (h : c ∉ front) (behind : List Char) :
    (front ++ behind).takeWhile (· != c) = front ++ behind.takeWhile (· != c) :=
  List.takeWhile_append_of_pos fun _ hd => bne_iff_ne.mpr (ne_of_mem_of_not_mem hd h)

theorem dropWhile_append_of_not_mem {c : Char} (h : c ∉ front) (behind : List Char) :
    (front ++ behind).dropWhile (· != c) = behind.dropWhile (· != c) :=
  List.dropWhile_append_of_pos fun _ hd => bne_iff_ne.mpr (ne_of_mem_of_not_mem hd h)

/-- **A text has one set of lines**: the first one ends where its first line feed stands. -/
theorem unlines_injective {first second : List (List Char)} (hfirst : ∀ line ∈ first, '\n' ∉ line)
    (hsecond : ∀ line ∈ second, '\n' ∉ line) (h : unlines first = unlines second) :
    first = second := by
  induction first generalizing second with
  | nil =>
    cases second with
    | nil => rfl
    | cons line rest => simp [unlines] at h
  | cons line rest ih =>
    cases second with
    | nil => simp [unlines] at h
    | cons line' rest' =>
      obtain ⟨hline, hrest⟩ := List.forall_mem_cons.mp hfirst
      obtain ⟨hline', hrest'⟩ := List.forall_mem_cons.mp hsecond
      rw [unlines, unlines, List.append_cons line, List.append_cons line'] at h
      have hsplit := congrArg (splitOnce ['\n']) h
      rw [splitOnce_append hline [], splitOnce_append hline' []] at hsplit
      obtain ⟨rfl, hbehind⟩ := Prod.mk.inj (Option.some.inj hsplit)
      rw [ih hrest hrest' hbehind]

end ArmListing.Text
