import ArmListing.Proofs.Suite.Reader

/-!
# ArmListing.Proofs.Suite.Independence

The calls of a reader **do not disturb each other**, although they share one
record, and lines are refused when parts of it have been filled already.

There is a reading for each line with a case, under the number of that line
(`map_lineOf_readings`), and it depends on this line alone. So a line may be
blanked out, and of all readings only its own is gone, even if the line was
refused or broke the reading off (`readings_edit`).
-/

namespace ArmListing

/-! ### Lines in a text -/

namespace Text

/-- Whether `line` is a whole line of a text, between what stands before and behind it. -/
structure IsLine (before line after : List Char) : Prop where
  before : before = [] ∨ endsLine before = true
  line : '\n' ∉ line
  after : after = [] ∨ ∃ rest, after = '\n' :: rest

theorem lines_append_of_isLine {before line after : List Char} (h : IsLine before line after) :
    lines (before ++ line ++ after) = lines before ++ lines (line ++ after) := by
  rw [List.append_assoc]
  rcases h.before with rfl | hends
  · rfl
  · exact lines_append_of_endsLine hends _

end Text

namespace Suite

variable {number : Nat} {line : List Char} {all : List (List Char)}

/-! ### Numbers -/

/-- The number of the line that a reading is about. If the line is refused, it is the one in the
message, and else the one in the record. -/
def lineOf : Reading × Case → Nat
  | (.fault line _, _) => line
  | (_, c) => c.line

theorem lineOf_fillBody (c : Case) (text : List Char) : lineOf (fillBody c text) = c.line := by
  unfold fillBody
  split
  · rfl
  · rfl
  · split <;> rfl

theorem lineOf_fill (c : Case) (text : List Char) : lineOf (fill c text) = c.line := by
  unfold fill
  split
  · exact lineOf_fillBody c text
  · split
    · rfl
    · exact lineOf_fillBody _ _

theorem lineOf_of_readLine? {found : Reading × Case} (h : readLine? number line = some found) :
    lineOf found = number := by
  rw [readLine?_eq] at h
  obtain ⟨-, hfound⟩ := Option.ite_none_left_eq_some.mp h
  rw [← Option.some.inj hfound, lineOf_fill]

theorem map_lineOf_readLine? (number : Nat) (line : List Char) :
    (readLine? number line).toList.map lineOf = if hasCase line then [number] else [] := by
  cases hcase : hasCase line with
  | false =>
    rw [readLine?_of_blank hcase]
    rfl
  | true =>
    rw [readLine?_of_hasCase hcase, Option.toList_some, List.map_singleton, lineOf_fill]
    rfl

/-- **There is a reading for each line with a case**, in order and under its number. -/
theorem map_lineOf_readings (number : Nat) (all : List (List Char)) :
    (readings number all).map lineOf =
      ((all.zipIdx number).filter (hasCase ·.1)).map Prod.snd := by
  induction all generalizing number with
  | nil => rfl
  | cons line rest ih =>
    rw [readings, List.map_append, map_lineOf_readLine?, ih, List.zipIdx_cons]
    cases hcase : hasCase line with
    | false => rw [List.filter_cons_of_neg (by simp [hcase])]; rfl
    | true => rw [List.filter_cons_of_pos (by simp [hcase])]; rfl

theorem lineOf_of_mem_readings {found : Reading × Case} (h : found ∈ readings number all) :
    number ≤ lineOf found ∧ lineOf found < number + all.length := by
  have hmem : lineOf found ∈ (readings number all).map lineOf := List.mem_map_of_mem h
  rw [map_lineOf_readings] at hmem
  obtain ⟨⟨line, n⟩, hfilter, hn⟩ := List.mem_map.mp hmem
  obtain ⟨hle, hlt, -⟩ := List.mem_zipIdx (List.mem_filter.mp hfilter).1
  rw [← hn]
  exact ⟨hle, hlt⟩

/-- What a line comes to, as if it were the line with the given number. -/
def renumber (number : Nat) : Reading × Case → Reading × Case
  | (.fault _ f, c) => (.fault number f, { c with line := number })
  | (reading, c) => (reading, { c with line := number })

theorem fillBody_with_line (c : Case) (number : Nat) (text : List Char) :
    fillBody { c with line := number } text = renumber number (fillBody c text) := by
  unfold fillBody
  dsimp only
  rcases scanGroups c.bytes text with ⟨bytes, rest | digits | -⟩
  · dsimp only
    split <;> rfl
  · rfl
  · rfl

theorem fill_with_line (c : Case) (number : Nat) (text : List Char) :
    fill { c with line := number } text = renumber number (fill c text) := by
  unfold fill
  rcases Text.splitOnce [':'] text with - | ⟨head, tail⟩
  · exact fillBody_with_line c number text
  · dsimp only
    rcases wordOfDigits? (Text.trim head) with - | address
    · rfl
    · exact fillBody_with_line { c with address } number _

/-- **The number of a line does not matter** for anything but itself. -/
theorem readLine?_renumber (number n : Nat) (line : List Char) :
    readLine? number line = (readLine? n line).map (renumber number) := by
  rw [readLine?_eq, readLine?_eq]
  split
  · rfl
  · rw [Option.map_some, ← fill_with_line]

/-! ### Editing a line -/

theorem readings_append (number : Nat) (front back : List (List Char)) :
    readings number (front ++ back) =
      readings number front ++ readings (number + front.length) back := by
  induction front generalizing number with
  | nil => rfl
  | cons line rest ih =>
    rw [List.cons_append, readings, readings, ih, List.append_assoc, List.length_cons,
      Nat.add_comm rest.length, Nat.add_assoc]

/-- What a text comes to that starts with a line: what this line comes to, and then the others. -/
theorem readings_line {before after : List Char} (h : Text.IsLine before line after)
    (number : Nat) :
    readings number (Text.lines (line ++ after)) =
      (readLine? number line).toList ++ readings (number + 1) (Text.lines after.tail) := by
  rcases h.after with rfl | ⟨rest, rfl⟩
  · by_cases hnil : line = []
    · subst hnil
      rfl
    · rw [List.append_nil, Text.lines_of_not_mem h.line hnil]
      rfl
  · rw [Text.lines_append h.line, readings, readLine?_chomp]
    rfl

/-- A whole line of a text has its own part in what the text comes to. -/
theorem readings_edit {before after : List Char} (h : Text.IsLine before line after) :
    readings 1 (Text.lines (before ++ line ++ after)) =
      readings 1 (Text.lines before) ++
        ((readLine? ((Text.lines before).length + 1) line).toList ++
          readings ((Text.lines before).length + 2) (Text.lines after.tail)) := by
  rw [Text.lines_append_of_isLine h, readings_append, readings_line h, Nat.add_comm 1]

/-- Without the readings of its line, a part of what lines come to is what it was. -/
theorem filter_readings {n : Nat} (h : n < number ∨ number + all.length ≤ n) :
    (readings number all).filter (lineOf · ≠ n) = readings number all := by
  refine List.filter_eq_self.mpr fun found hfound => ?_
  obtain ⟨hle, hlt⟩ := lineOf_of_mem_readings hfound
  refine decide_eq_true ?_
  omega

theorem filter_readLine? (number : Nat) (line : List Char) :
    (readLine? number line).toList.filter (lineOf · ≠ number) = [] := by
  refine List.filter_eq_nil_iff.mpr fun found hfound => ?_
  rw [lineOf_of_readLine? (Option.mem_toList.mp hfound)]
  simp

namespace Reader

/-- **Readings do not disturb each other.** What the calls of a reader come to does not depend on the
record that it starts with. There is one reading for each line with a case, under its number. And
where a line is replaced by one without a case, its reading is gone and all others are the same. -/
theorem readAll_undisturbed (text : String) :
    (∀ c c', (ofText text).readAll c = (ofText text).readAll c') ∧
    (∀ c, ((ofText text).readAll c).map lineOf =
      (((Text.lines text.toList).zipIdx 1).filter (hasCase ·.1)).map Prod.snd) ∧
    ∀ before line after blank : List Char, text.toList = before ++ line ++ after →
      Text.IsLine before line after → Text.IsLine before blank after → hasCase blank = false →
      ∀ c c', (ofText (String.ofList (before ++ blank ++ after))).readAll c' =
        ((ofText text).readAll c).filter (lineOf · ≠ (Text.lines before).length + 1) := by
  have hall : ∀ (text : String) (c : Case),
      (ofText text).readAll c = readings 1 (Text.lines text.toList) := by
    intro text c
    rw [readAll_eq]
    rfl
  refine ⟨fun c c' => ?_, fun c => ?_, ?_⟩
  · rw [hall, hall]
  · rw [hall, map_lineOf_readings]
  · intro before line after blank htext hline hblank hcase c c'
    have hfront : (Text.lines before).length + 1 < 1 ∨
        1 + (Text.lines before).length ≤ (Text.lines before).length + 1 := by omega
    have hback : (Text.lines before).length + 1 < (Text.lines before).length + 2 ∨
        (Text.lines before).length + 2 + (Text.lines after.tail).length ≤
          (Text.lines before).length + 1 := by omega
    rw [hall, hall, htext, String.toList_ofList, readings_edit hline, readings_edit hblank,
      readLine?_of_blank hcase, List.filter_append, List.filter_append, filter_readings hfront,
      filter_readings hback, filter_readLine?]
    rfl

/-- A line that breaks the reading off is blanked out, between a case and a line that is refused. -/
theorem readAll_undisturbed_overrun :
    let before := "2001  nop @ first\n".toList
    let line := "0000000000000000ab  nop".toList
    let after := "\nzz: 4770  bx lr".toList
    Text.IsLine before line after ∧ Text.IsLine before [' '] after ∧ hasCase [' '] = false ∧
      ∀ c c', (ofText "2001  nop @ first\n \nzz: 4770  bx lr").readAll c' =
        ((ofText "2001  nop @ first\n0000000000000000ab  nop\nzz: 4770  bx lr").readAll c).filter
          (lineOf · ≠ 2) := by
  intro before line after
  have hline : Text.IsLine before line after := ⟨.inr rfl, by decide, .inr ⟨_, rfl⟩⟩
  have hblank : Text.IsLine before [' '] after := ⟨.inr rfl, by decide, .inr ⟨_, rfl⟩⟩
  have hedit := (readAll_undisturbed
    "2001  nop @ first\n0000000000000000ab  nop\nzz: 4770  bx lr").2.2
  exact ⟨hline, hblank, rfl, hedit before line after [' '] rfl hline hblank rfl⟩

end Reader

end Suite

end ArmListing
