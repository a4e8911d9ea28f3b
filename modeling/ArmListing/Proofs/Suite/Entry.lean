import ArmListing.Proofs.Assembly.Spelling
import ArmListing.Proofs.Suite.Address
import ArmListing.Proofs.Suite.Groups

/-!
# ArmListing.Proofs.Suite.Entry

**Lines as people write them.** An entry is what a line of a test file is made
of: an address, which may be left out, groups of digits with a space between
them, a text, a comment, and blanks around all of these.

The parts of an entry carry what they must be for the line to say what is meant:
a group spells its bytes, a text has no blanks around it and none of the marks
that a reader looks for. So every entry is read as it is written
(`Reader.read_entry`), and a file of entries is read one by one
(`Reader.readAll_entries`).
-/

namespace ArmListing.Suite

open Text (trim trimStart trimEnd)

/-! ### Parts -/

/-- Blanks that stay on their line. -/
structure Blanks where
  text : List Char
  isBlank : ∀ c ∈ text, Text.isBlank c = true
  newline_not_mem : '\n' ∉ text

/-- A row of spaces. -/
def Blanks.spaces (count : Nat) : Blanks where
  text := List.replicate count ' '
  isBlank := Text.isBlank_of_mem_replicate rfl
  newline_not_mem := fun hmem => absurd (List.eq_of_mem_replicate hmem) (by decide)

/-- An address with a colon behind it, and blanks behind that. -/
structure Label where
  digits : List Char
  ne_nil : digits ≠ []
  isDigit : ∀ c ∈ digits, Hex.isDigit c = true
  value_lt : Hex.value digits < 2 ^ 64
  gap : Blanks

/-- Every number of 64 bits is an address, with no more digits than it needs. -/
def Label.lower (n : Nat) (h : n < 2 ^ 64) (gap : Blanks) : Label where
  digits := Hex.lowerDigits n
  ne_nil := Nat.toDigits_ne_nil
  isDigit := fun _ hmem => (Hex.isDigit_of_mem_lowerDigits hmem).1
  value_lt := by rwa [(Hex.value_digits n).1]
  gap

/-- One to eight bytes, written as a number whose lowest byte is the first of them. -/
structure ByteGroup where
  digits : List Char
  bytes : List UInt8
  spells : Spells digits bytes
  ne_nil : bytes ≠ []
  length_le : bytes.length ≤ 8

/-- One to eight bytes are a group. -/
def ByteGroup.lower (bytes : List UInt8) (hne : bytes ≠ []) (hle : bytes.length ≤ 8) :
    ByteGroup where
  digits := (Hex.lowerPadded (2 * bytes.length) (Cursor.littleEndian bytes)).toList
  bytes
  spells := spells_lowerPadded hne
  ne_nil := hne
  length_le := hle

/-- The parts of a line. -/
structure Entry where
  margin : Blanks
  label? : Option Label
  groups : List ByteGroup
  groups_ne_nil : groups ≠ []
  gap : Blanks
  two_le_gap : 2 ≤ gap.text.length
  assembly : List Char
  assembly_ne_nil : assembly ≠ []
  trim_assembly : trim assembly = assembly
  newline_not_mem_assembly : '\n' ∉ assembly
  at_not_mem_assembly : '@' ∉ assembly
  /-- A colon in the text would end an address. -/
  colon_not_mem_assembly : label? = none → ':' ∉ assembly
  tail : Blanks
  comment? : Option (List Char)
  newline_not_mem_comment : ∀ comment ∈ comment?, '\n' ∉ comment

namespace Entry

variable (e : Entry)

/-- The groups and the text. -/
def body : List Char :=
  [' '].intercalate (e.groups.map ByteGroup.digits) ++ (e.gap.text ++ e.assembly)

/-- What stands in front of the body. -/
def labelText : List Char :=
  match e.label? with
  | none => []
  | some label => label.digits ++ ':' :: label.gap.text

/-- The line in front of its comment. -/
def front : List Char := e.margin.text ++ (e.labelText ++ e.body) ++ e.tail.text

/-- The line. -/
def line : List Char :=
  match e.comment? with
  | none => e.front
  | some comment => e.front ++ '@' :: comment

/-- The number of the label, or zero. -/
def address : Nat :=
  match e.label? with
  | none => 0
  | some label => Hex.value label.digits

/-- The case that the line is written for. -/
def expected (number : Nat) : Case where
  line := number
  comment := String.ofList (trim (e.comment?.getD []))
  address := e.address
  bytes := e.groups.flatMap ByteGroup.bytes
  assembly := String.ofList e.assembly

end Entry

/-! ### Characters -/

namespace Entry

variable (e : Entry) {c : Char}

theorem not_mem_blanks (h : Text.isBlank c = false) (b : Blanks) : c ∉ b.text := by
  intro hc
  rw [b.isBlank c hc] at h
  contradiction

theorem not_mem_digits (h : Hex.isDigit c = false) {digits : List Char}
    (hdigits : ∀ d ∈ digits, Hex.isDigit d = true) : c ∉ digits := by
  intro hc
  rw [hdigits c hc] at h
  contradiction

/-- Nothing but digits, blanks and the text stands in the body. -/
theorem not_mem_body (hdigit : Hex.isDigit c = false) (hspace : c ≠ ' ')
    (hblanks : ∀ b : Blanks, c ∉ b.text) (hassembly : c ∉ e.assembly) : c ∉ e.body := by
  have hgroups : ∀ d ∈ [' '].intercalate (e.groups.map ByteGroup.digits), d ≠ c := by
    refine forall_mem_intercalate (List.forall_mem_singleton.mpr hspace.symm) fun digits hmem => ?_
    obtain ⟨group, -, rfl⟩ := List.mem_map.mp hmem
    exact fun d hd => ne_of_mem_of_not_mem hd (not_mem_digits hdigit group.spells.isDigit)
  rw [body, List.mem_append, List.mem_append, not_or, not_or]
  exact ⟨fun hc => hgroups c hc rfl, hblanks e.gap, hassembly⟩

/-- In front of the comment there is only one other mark. -/
theorem not_mem_front (hdigit : Hex.isDigit c = false) (hspace : c ≠ ' ') (hcolon : c ≠ ':')
    (hblanks : ∀ b : Blanks, c ∉ b.text) (hassembly : c ∉ e.assembly) : c ∉ e.front := by
  have hlabel : c ∉ e.labelText := by
    unfold labelText
    split
    · exact List.not_mem_nil
    case h_2 label _ =>
      rw [List.mem_append, List.mem_cons, not_or, not_or]
      exact ⟨not_mem_digits hdigit label.isDigit, hcolon, hblanks label.gap⟩
  have hbody := e.not_mem_body hdigit hspace hblanks hassembly
  rw [front, List.mem_append, List.mem_append, List.mem_append, not_or, not_or, not_or]
  exact ⟨⟨hblanks e.margin, hlabel, hbody⟩, hblanks e.tail⟩

theorem at_not_mem_front : '@' ∉ e.front :=
  e.not_mem_front rfl (by decide) (by decide) (not_mem_blanks rfl) e.at_not_mem_assembly

theorem newline_not_mem_line : '\n' ∉ e.line := by
  -- a line feed is a blank, so it is kept out by what the blanks of an entry carry
  have hfront : '\n' ∉ e.front :=
    e.not_mem_front rfl (by decide) (by decide) Blanks.newline_not_mem e.newline_not_mem_assembly
  unfold line
  split
  · exact hfront
  case h_2 comment hcomment =>
    rw [List.mem_append, List.mem_cons, not_or, not_or]
    exact ⟨hfront, by decide, e.newline_not_mem_comment comment hcomment⟩

/-! ### Reading -/

theorem isGroup_of_mem : ∀ digits ∈ e.groups.map ByteGroup.digits, IsGroup digits := by
  intro digits hmem
  obtain ⟨group, -, rfl⟩ := List.mem_map.mp hmem
  exact group.spells.isGroup group.ne_nil group.length_le

theorem map_digits_ne_nil : e.groups.map ByteGroup.digits ≠ [] :=
  fun hnil => e.groups_ne_nil (List.map_eq_nil_iff.mp hnil)

theorem flatMap_digits : (e.groups.map ByteGroup.digits).flatMap groupBytes =
    e.groups.flatMap ByteGroup.bytes := by
  rw [List.flatMap_map]
  exact congrArg e.groups.flatMap (funext fun group => group.spells.groupBytes_eq)

theorem noBlankFirst_body : NoBlankFirst e.body :=
  noBlankFirst_intercalate e.isGroup_of_mem e.map_digits_ne_nil _

/-- Behind its margin a line starts with a digit. -/
theorem noBlankFirst_content : NoBlankFirst (e.labelText ++ e.body) := by
  unfold labelText
  split
  · exact e.noBlankFirst_body
  case h_2 label _ =>
    rw [List.append_assoc]
    exact noBlankFirst_digits label.ne_nil label.isDigit _

/-- Only the margin and the blanks behind the text are cut off. -/
theorem trim_front : trim e.front = e.labelText ++ e.body := by
  have hassembly : trimEnd e.assembly = e.assembly := Text.trimEnd_of_trim e.trim_assembly
  have hne : trimEnd e.assembly ≠ [] := by
    rw [hassembly]
    exact e.assembly_ne_nil
  -- the margin goes with the blanks in front, and the text stops what is cut off behind
  rw [front, Text.trim_append_of_blank e.tail.isBlank, trim,
    Text.trimStart_append_of_blank e.margin.isBlank, Text.trimStart_of_head e.noBlankFirst_content,
    body, ← List.append_assoc, ← List.append_assoc, Text.trimEnd_append hne, hassembly]

theorem contentOf_line : contentOf e.line = e.labelText ++ e.body := by
  unfold line
  split
  · rw [contentOf_of_not_mem e.at_not_mem_front, trim_front]
  · rw [contentOf_append e.at_not_mem_front, trim_front]

theorem commentOf_line : commentOf e.line = trim (e.comment?.getD []) := by
  unfold line
  split
  case h_1 hnone =>
    rw [commentOf_of_not_mem e.at_not_mem_front, hnone]
    rfl
  case h_2 comment hcomment =>
    rw [commentOf_append e.at_not_mem_front, hcomment, Option.getD_some]

/-- The line has the address that its label says. -/
theorem located : Located (e.labelText ++ e.body) e.address e.body := by
  cases hlabel : e.label? with
  | none =>
    have hcolon : ':' ∉ e.body :=
      e.not_mem_body rfl (by decide) (not_mem_blanks rfl) (e.colon_not_mem_assembly hlabel)
    rw [labelText, address, hlabel]
    exact .absent hcolon
  | some label =>
    have hblank : ∀ c ∈ label.digits, Text.isBlank c = false :=
      fun c hc => Hex.isBlank_of_isDigit (label.isDigit c hc)
    have haddress : IsAddress (trim label.digits) (Hex.value label.digits) := by
      rw [Text.trim_of_not_blank hblank]
      exact ⟨label.digits, .inl rfl, label.ne_nil, label.isDigit, rfl, label.value_lt⟩
    have hlocated : Located (label.digits ++ ':' :: (label.gap.text ++ e.body)) _ _ :=
      .present (not_mem_digits rfl label.isDigit) haddress
    -- of what stands behind the colon only its blanks are cut off
    rw [Text.trimStart_append_of_blank label.gap.isBlank,
      Text.trimStart_of_head e.noBlankFirst_body] at hlocated
    rw [labelText, address, hlabel, List.append_assoc]
    exact hlocated

theorem hasCase_line : hasCase e.line = true := by
  have hbehind : e.gap.text ++ e.assembly ≠ [] :=
    List.append_ne_nil_of_right_ne_nil _ e.assembly_ne_nil
  have hbody : e.body ≠ [] := List.append_ne_nil_of_right_ne_nil _ hbehind
  rw [← contentOf_ne_nil_iff, contentOf_line]
  exact List.append_ne_nil_of_right_ne_nil _ hbody

theorem line_ne_nil : e.line ≠ [] := by
  intro hnil
  have hcase := e.hasCase_line
  rw [hnil] at hcase
  contradiction

/-- **An entry is read as it is written.** -/
theorem readLine?_line (number : Nat) :
    readLine? number e.line = some (.found, e.expected number) := by
  have hassembly : trimStart e.assembly = e.assembly := Text.trimStart_of_trim e.trim_assembly
  rw [readLine?_of_hasCase e.hasCase_line, contentOf_line, commentOf_line,
    fill_of_located e.located rfl, body,
    fillBody_intercalate e.isGroup_of_mem e.map_digits_ne_nil e.gap.isBlank e.two_le_gap,
    flatMap_digits, hassembly]
  rfl

end Entry

/-! ### Files -/

namespace Reader

/-- A file of entries is read one by one. -/
theorem readAll_entries (entries : List Entry) (c : Case) :
    (ofText (String.ofList (Text.unlines (entries.map Entry.line)))).readAll c =
      (entries.zipIdx 1).map fun p => (.found, p.1.expected p.2) := by
  rw [readAll_eq, ofText, String.toList_ofList]
  exact readings_unlines Entry.readLine?_line Entry.newline_not_mem_line entries 1

/-- **What is written is read back.** A call in front of the line of an entry finds the case that the
line is written for, whatever stands behind the line and in the record; and so does the first call
for a text that is this line. -/
theorem read_entry (e : Entry) :
    (∀ (number : Nat) (others : List (List Char)) (c : Case),
      read ⟨number, e.line :: others⟩ c =
        (.found, e.expected (number + 1), ⟨number + 1, others⟩)) ∧
    ∀ c : Case, (ofText (String.ofList e.line)).read c = (.found, e.expected 1, ⟨1, []⟩) := by
  have hread : ∀ (number : Nat) (others : List (List Char)) (c : Case),
      read ⟨number, e.line :: others⟩ c =
        (.found, e.expected (number + 1), ⟨number + 1, others⟩) :=
    fun number _ c => read_of_some (e.readLine?_line (number + 1)) c
  have hlines : Text.lines e.line = [e.line] :=
    Text.lines_of_not_mem e.newline_not_mem_line e.line_ne_nil
  refine ⟨hread, fun c => ?_⟩
  rw [ofText, String.toList_ofList, hlines]
  exact hread 0 [] c

/-- The line of a call with everything that a line may have. -/
def callEntry : Entry where
  margin := .spaces 4
  label? := some (.lower 0x1000 (by decide) (.spaces 1))
  groups := [.lower [0x00, 0xf0] (by decide) (by decide),
    .lower [0x00, 0xf8] (by decide) (by decide)]
  groups_ne_nil := List.cons_ne_nil _ _
  gap := .spaces 3
  two_le_gap := by decide
  assembly := "bl .+0x4".toList
  assembly_ne_nil := by decide
  trim_assembly := by decide
  newline_not_mem_assembly := by decide
  at_not_mem_assembly := by decide
  colon_not_mem_assembly := nofun
  tail := .spaces 2
  comment? := some " +v4t".toList
  newline_not_mem_comment := by decide

/-- Both halfwords of a call are read lowest byte first, and the comment without its blank. -/
theorem read_entry_call :
    String.ofList callEntry.line = "    1000: f000 f800   bl .+0x4  @ +v4t" ∧
      (ofText "    1000: f000 f800   bl .+0x4  @ +v4t").read {} =
        (.found, ⟨1, "+v4t", 0x1000, [0x00, 0xf0, 0x00, 0xf8], "bl .+0x4"⟩, ⟨1, []⟩) := by
  have hline : String.ofList callEntry.line = "    1000: f000 f800   bl .+0x4  @ +v4t" := by
    decide +kernel
  have hexpected : callEntry.expected 1 =
      ⟨1, "+v4t", 0x1000, [0x00, 0xf0, 0x00, 0xf8], "bl .+0x4"⟩ := by
    decide +kernel
  have hread := (read_entry callEntry).2 {}
  rw [hline, hexpected] at hread
  exact ⟨hline, hread⟩

end Reader

end ArmListing.Suite
