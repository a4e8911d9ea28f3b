import ArmListing.Proofs.Text.Lines
import ArmListing.Suite.Reader

/-!
# ArmListing.Proofs.Suite.Reader

**Each line of a test file is read on its own**: what the calls of a reader come
to is what its lines come to one by one (`readAll_eq`), whatever the record has
held before. A record is filled in place, but all that a line leaves in it is
written anew or cleared first.

A line is cut into its content and its comment at the first `@`, and the blanks
around either of them do not matter (`readLine?_eq`). Nor does the end of a line
(`readLine?_chomp`). A line without a content is passed over, and every other
line comes to something (`readLine?_of_blank`, `readLine?_of_hasCase`).
-/

namespace ArmListing.Suite

open Text (isBlank trim trimEnd)

/-- What a line comes to on its own, if there is a case in it. -/
def readLine? (number : Nat) (line : List Char) : Option (Reading × Case) :=
  let parts := splitAtOr '@' (trim line)
  let text := trim parts.1
  if text.isEmpty then none
  else some (fill { line := number, comment := String.ofList (trim parts.2) } text)

/-- What stands in a line in front of its comment, without the blanks around it. -/
def contentOf (line : List Char) : List Char := trim (line.takeWhile (· != '@'))

/-- The comment of a line, which stands behind the first `@`, without the blanks around it. -/
def commentOf (line : List Char) : List Char := trim (line.dropWhile (· != '@')).tail

/-- Whether something stands in a line in front of its comment. -/
def hasCase (line : List Char) : Bool := (line.takeWhile (· != '@')).any (!isBlank ·)

/-- What lines come to, the first one with the given number. -/
def readings : Nat → List (List Char) → List (Reading × Case)
  | _, [] => []
  | number, line :: rest => (readLine? number line).toList ++ readings (number + 1) rest

/-! ### Contents and comments -/

theorem contentOf_append {front : List Char} (h : '@' ∉ front) (behind : List Char) :
    contentOf (front ++ '@' :: behind) = trim front := by
  rw [contentOf, Text.takeWhile_append_of_not_mem h, List.takeWhile_cons_of_neg (by decide),
    List.append_nil]

theorem commentOf_append {front : List Char} (h : '@' ∉ front) (behind : List Char) :
    commentOf (front ++ '@' :: behind) = trim behind := by
  rw [commentOf, Text.dropWhile_append_of_not_mem h, List.dropWhile_cons_of_neg (by decide),
    List.tail_cons]

theorem contentOf_of_not_mem {line : List Char} (h : '@' ∉ line) : contentOf line = trim line := by
  have htake := Text.takeWhile_append_of_not_mem h []
  rw [List.append_nil, List.takeWhile_nil, List.append_nil] at htake
  rw [contentOf, htake]

theorem commentOf_of_not_mem {line : List Char} (h : '@' ∉ line) : commentOf line = [] := by
  have hdrop := Text.dropWhile_append_of_not_mem h []
  rw [List.append_nil, List.dropWhile_nil] at hdrop
  rw [commentOf, hdrop]
  rfl

theorem contentOf_ne_nil_iff {line : List Char} : contentOf line ≠ [] ↔ hasCase line = true := by
  rw [contentOf, ne_eq, Text.trim_eq_nil_iff, hasCase, List.any_eq_true]
  simp

/-- **A line is cut into its content and its comment**, whatever blanks stand around them. -/
theorem readLine?_eq (number : Nat) (line : List Char) :
    readLine? number line =
      if (contentOf line).isEmpty then none
      else some (fill { line := number, comment := String.ofList (commentOf line) }
        (contentOf line)) := by
  have hparts : trim (splitAtOr '@' (trim line)).1 = contentOf line ∧
      trim (splitAtOr '@' (trim line)).2 = commentOf line := by
    rcases Text.not_mem_or_exists_first '@' line with hnot | ⟨front, behind, hfront, rfl⟩
    · have htrim : '@' ∉ trim line := fun hmem => hnot (Text.mem_of_mem_trim hmem)
      rw [splitAtOr, Text.splitOnce_eq_none htrim, Option.getD_none, contentOf_of_not_mem hnot,
        commentOf_of_not_mem hnot, Text.trim_trim]
      exact ⟨rfl, rfl⟩
    · have hstart : '@' ∉ Text.trimStart front :=
        fun hmem => hfront ((List.dropWhile_sublist _).subset hmem)
      rw [splitAtOr, Text.trim_append_cons (by decide), List.append_cons,
        Text.splitOnce_append hstart, Option.getD_some, contentOf_append hfront,
        commentOf_append hfront, Text.trim_trimStart, Text.trim_trimEnd]
      exact ⟨rfl, rfl⟩
  rw [readLine?, hparts.1, hparts.2]

theorem readLine?_of_blank {line : List Char} (h : hasCase line = false) (number : Nat) :
    readLine? number line = none := by
  have hnil : contentOf line = [] := by
    by_cases hne : contentOf line = []
    · exact hne
    · rw [contentOf_ne_nil_iff.mp hne] at h
      contradiction
  rw [readLine?_eq, hnil]
  rfl

theorem readLine?_of_hasCase {line : List Char} (h : hasCase line = true) (number : Nat) :
    readLine? number line =
      some (fill { line := number, comment := String.ofList (commentOf line) }
        (contentOf line)) := by
  have hne : ¬(contentOf line).isEmpty = true := by
    rw [List.isEmpty_iff]
    exact contentOf_ne_nil_iff.mpr h
  rw [readLine?_eq, if_neg hne]

/-! ### Calls -/

theorem fillBody_ne_finished (c : Case) (text : List Char) : (fillBody c text).1 ≠ .finished := by
  unfold fillBody
  split
  · exact Reading.noConfusion
  · exact Reading.noConfusion
  · split <;> exact Reading.noConfusion

theorem fill_ne_finished (c : Case) (text : List Char) : (fill c text).1 ≠ .finished := by
  unfold fill
  split
  · exact fillBody_ne_finished c text
  · split
    · exact Reading.noConfusion
    · exact fillBody_ne_finished _ _

theorem readLine?_ne_finished {number : Nat} {line : List Char} {found : Reading × Case}
    (h : readLine? number line = some found) : found.1 ≠ .finished := by
  obtain ⟨-, hfound⟩ := Option.ite_none_left_eq_some.mp h
  rw [← Option.some.inj hfound]
  exact fill_ne_finished _ _

namespace Reader

variable {line : Nat} {head : List Char} {rest : List (List Char)}

/-- A line without a case is passed over. -/
theorem read_of_none (h : readLine? (line + 1) head = none) (c : Case) :
    read ⟨line, head :: rest⟩ c = read ⟨line + 1, rest⟩ c := by
  by_cases hblank : (trim (splitAtOr '@' (trim head)).1).isEmpty = true
  · exact if_pos hblank
  · rw [readLine?, if_neg hblank] at h
    contradiction

/-- A line with a case is read as if the record were a new one. -/
theorem read_of_some {found : Reading × Case} (h : readLine? (line + 1) head = some found)
    (c : Case) : read ⟨line, head :: rest⟩ c = (found.1, found.2, ⟨line + 1, rest⟩) := by
  obtain ⟨hblank, hfound⟩ := Option.ite_none_left_eq_some.mp h
  rw [← Option.some.inj hfound]
  exact if_neg hblank

/-- **Each line is read on its own**, whatever the record has held before. -/
theorem readAll_eq (r : Reader) (c : Case) : r.readAll c = readings (r.line + 1) r.lines := by
  obtain ⟨line, lines⟩ := r
  induction lines generalizing c line with
  | nil => rw [readAll]; rfl
  | cons head rest ih =>
    show _ = (readLine? (line + 1) head).toList ++ readings (line + 2) rest
    cases hline : readLine? (line + 1) head with
    | none =>
      have hrest := ih c (line + 1)
      rw [readAll] at hrest
      rw [readAll, read_of_none hline]
      exact hrest
    | some found =>
      rw [readAll, read_of_some hline, dif_neg (readLine?_ne_finished hline), ih]
      rfl

end Reader

/-! ### Lines -/

/-- The end of a line does not matter. -/
theorem readLine?_chomp (number : Nat) (line : List Char) :
    readLine? number (Text.chomp line) = readLine? number line := by
  rw [readLine?, Text.trim_chomp, readLine?]

theorem readings_map_chomp (number : Nat) (lines : List (List Char)) :
    readings number (lines.map Text.chomp) = readings number lines := by
  induction lines generalizing number with
  | nil => rfl
  | cons line rest ih => rw [List.map_cons, readings, readings, readLine?_chomp, ih]

section Written

variable {α : Type} {write : α → List Char} {expected : α → Nat → Case}

/-- Lines that are written for cases are read as these. -/
theorem readings_map
    (hread : ∀ a number, readLine? number (write a) = some (.found, expected a number))
    (all : List α) (number : Nat) :
    readings number (all.map write) =
      (all.zipIdx number).map fun p => (.found, expected p.1 p.2) := by
  induction all generalizing number with
  | nil => rfl
  | cons a all ih =>
    rw [List.map_cons, readings, hread, ih]
    rfl

/-- So are the lines of a text that is put together from them. -/
theorem readings_unlines
    (hread : ∀ a number, readLine? number (write a) = some (.found, expected a number))
    (hnewline : ∀ a, '\n' ∉ write a) (all : List α) (number : Nat) :
    readings number (Text.lines (Text.unlines (all.map write))) =
      (all.zipIdx number).map fun p => (.found, expected p.1 p.2) := by
  have hlines : ∀ line ∈ all.map write, '\n' ∉ line := by
    intro line hline
    obtain ⟨a, -, rfl⟩ := List.mem_map.mp hline
    exact hnewline a
  rw [Text.lines_unlines hlines, readings_map_chomp, readings_map hread]

end Written

/-- What stands in front of the comment of a line is read without the blanks behind it. -/
theorem readLine?_of_comment {body : List Char}
    (hhead : ∃ c rest, isBlank c = false ∧ body = c :: rest) (hat : '@' ∉ body) (number : Nat)
    (comment : List Char) :
    readLine? number (body ++ '@' :: comment) =
      some (fill { line := number, comment := String.ofList (trim comment) } (trimEnd body)) := by
  obtain ⟨c, rest, hc, rfl⟩ := hhead
  have hbody : trim (c :: rest) = c :: trimEnd rest := by
    rw [trim, Text.trimStart_cons_of_not hc, Text.trimEnd_cons hc]
  rw [readLine?_eq, contentOf_append hat, commentOf_append hat, hbody, Text.trimEnd_cons hc]
  rfl

/-- A line without a colon has no address. -/
theorem fill_of_not_mem {text : List Char} (h : ':' ∉ text) (c : Case) :
    fill c text = fillBody c text := by
  rw [fill, Text.splitOnce_eq_none h]

end ArmListing.Suite
