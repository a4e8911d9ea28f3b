import ArmListing.Proofs.Suite.Address
import ArmListing.Proofs.Suite.Groups

/-!
# ArmListing.Proofs.Suite.Outcome

The **outcome of a line**, told from what stands in it.

The groups at the front of a text are read by a relation (`Scans`) that has one
rule for each way to go on or to end. It follows the text and not the course of
the reading: which rule applies is said by the run of digits that comes next,
with its length and its value. Every text is read by a rule (`exists_scans`),
and the reader does what the rule says (`scanGroups_of_scans`), so the two are
the same (`scans_iff`).

On top of it `Outcome` has one rule for each kind of line: an address that is
none, a group that is too large, one that breaks the reading off, no bytes at
all, and a case.
-/

namespace ArmListing.Suite

open Text (trim)

/-! ### Groups -/

/-- What the groups at the front of a text come to: their bytes, and how they end. -/
inductive Scans : List Char → List UInt8 → Scan → Prop
  /-- Two blanks end the groups. -/
  | twoBlanks {blanks rest : List Char} (hblanks : ∀ c ∈ blanks, Text.isBlank c = true)
      (htwo : 2 ≤ blanks.length) (hrest : NoBlankFirst rest) :
      Scans (blanks ++ rest) [] (.before rest)
  /-- So does a run of digits that is too short or not even, and the end of the text, where a run is
  empty. -/
  | noGroup {text run rest : List Char} (hrun : Leads text run rest)
      (hlength : run.length < 2 ∨ run.length % 2 = 1) : Scans text [] (.before (run ++ rest))
  /-- A run of up to sixteen digits is half as many bytes. -/
  | group {text run rest : List Char} {bytes more : List UInt8} {stop : Scan}
      (hrun : Leads text run rest) (htwo : 2 ≤ run.length) (hle : run.length ≤ 16)
      (hbytes : Spells run bytes) (hmore : Scans rest more stop) : Scans text (bytes ++ more) stop
  /-- A longer run is refused if its number is too large. -/
  | tooLarge {text run rest : List Char} (hrun : Leads text run rest) (hlong : 18 ≤ run.length)
      (heven : run.length % 2 = 0) (hvalue : 2 ^ 64 ≤ Hex.value run) : Scans text [] (.tooLarge run)
  /-- If zeroes in front keep its number small, it breaks the reading off. -/
  | overrun {text run rest : List Char} (hrun : Leads text run rest) (hlong : 18 ≤ run.length)
      (heven : run.length % 2 = 0) (hvalue : Hex.value run < 2 ^ 64) : Scans text [] .overrun

variable {text run rest line : List Char} {bytes more : List UInt8} {stop : Scan}

/-- **The reader does what the rules say.** -/
theorem scanGroups_of_scans (h : Scans text more stop) (bytes : List UInt8) :
    scanGroups bytes text = (bytes ++ more, stop) := by
  induction h generalizing bytes with
  | twoBlanks hblanks htwo hrest =>
    rw [scanGroups_of_blanks hblanks htwo, Text.trimStart_of_head hrest, List.append_nil]
  | noGroup hrun hlength =>
    rw [scanGroups_of_leads hrun, if_pos (by omega), List.append_nil]
  | group hrun htwo hle hbytes hmore ih =>
    have hlt : Hex.value _ < UInt64.size :=
      Nat.lt_of_lt_of_le (Hex.value_lt _) (Nat.pow_le_pow_right (by decide) hle)
    have heven := hbytes.length_eq
    rw [scanGroups_of_leads hrun, if_neg (by omega), if_neg (Nat.not_le.mpr hlt),
      if_neg (Nat.not_lt.mpr hle), ih, hbytes.groupBytes_eq, List.append_assoc]
  | tooLarge hrun hlong heven hvalue =>
    have hsize : UInt64.size ≤ Hex.value _ := hvalue
    rw [scanGroups_of_leads hrun, if_neg (by omega), if_pos hsize, List.append_nil]
  | overrun hrun hlong heven hvalue =>
    have hsize : ¬UInt64.size ≤ Hex.value _ := Nat.not_le.mpr hvalue
    rw [scanGroups_of_leads hrun, if_neg (by omega), if_neg hsize, if_pos (by omega),
      List.append_nil]

/-- A text starts with two blanks, or with a run of digits behind one blank at most. -/
theorem blanks_or_leads (text : List Char) :
    (∃ blanks rest, (∀ c ∈ blanks, Text.isBlank c = true) ∧ 2 ≤ blanks.length ∧
      NoBlankFirst rest ∧ text = blanks ++ rest) ∨ ∃ run rest, Leads text run rest := by
  have hblanks : ∀ c ∈ text.takeWhile Text.isBlank, Text.isBlank c = true :=
    List.all_eq_true.mp List.all_takeWhile
  have hbody : NoBlankFirst (Text.trimStart text) := noneFirst_dropWhile Text.isBlank text
  by_cases htwo : 2 ≤ (text.takeWhile Text.isBlank).length
  · exact .inl ⟨_, _, hblanks, htwo, hbody, List.takeWhile_append_dropWhile.symm⟩
  · let run := (Text.trimStart text).takeWhile Hex.isDigit
    let rest := (Text.trimStart text).dropWhile Hex.isDigit
    have hsplit : run ++ rest = Text.trimStart text := List.takeWhile_append_dropWhile
    refine .inr ⟨run, rest, ⟨_, hblanks, by omega, ?_⟩, List.all_eq_true.mp List.all_takeWhile,
      noneFirst_dropWhile Hex.isDigit _, hsplit ▸ hbody⟩
    rw [hsplit]
    exact List.takeWhile_append_dropWhile.symm

/-- **Every text is read**: the rules leave none out, and come to an end. -/
theorem exists_scans (text : List Char) : ∃ bytes stop, Scans text bytes stop := by
  -- on the length of the text, since behind a group it is shorter by the digits of the group
  induction hlength : text.length using Nat.strongRecOn generalizing text with
  | ind n ih =>
    rcases blanks_or_leads text with ⟨blanks, rest, hblanks, htwo, hrest, rfl⟩ | ⟨run, rest, hrun⟩
    · exact ⟨_, _, .twoBlanks hblanks htwo hrest⟩
    · by_cases hshort : run.length < 2 ∨ run.length % 2 = 1
      · exact ⟨_, _, .noGroup hrun hshort⟩
      obtain ⟨htwo, heven⟩ : 2 ≤ run.length ∧ run.length % 2 = 0 := by omega
      by_cases hle : run.length ≤ 16
      · have hless : rest.length < n := by
          obtain ⟨blanks, -, -, htext⟩ := hrun.eq_append
          rw [← hlength, htext, List.length_append, List.length_append]
          omega
        obtain ⟨more, stop, hmore⟩ := ih rest.length hless rest rfl
        exact ⟨_, _, .group hrun htwo hle (spells_groupBytes hrun.isDigit heven) hmore⟩
      · have hlong : 18 ≤ run.length := by omega
        by_cases hvalue : 2 ^ 64 ≤ Hex.value run
        · exact ⟨_, _, .tooLarge hrun hlong heven hvalue⟩
        · exact ⟨_, _, .overrun hrun hlong heven (Nat.not_le.mp hvalue)⟩

/-- **The rules are the reader**, in both directions. -/
theorem scans_iff : Scans text bytes stop ↔ scanGroups [] text = (bytes, stop) := by
  constructor
  · intro h
    rw [scanGroups_of_scans h, List.nil_append]
  · intro h
    obtain ⟨bytes', stop', hscan⟩ := exists_scans text
    rw [scanGroups_of_scans hscan, List.nil_append] at h
    cases h
    exact hscan

/-! ### Lines -/

/-- What a line with a case comes to, and the case if it is found. -/
inductive Outcome (number : Nat) (line : List Char) : Reading → Option Case → Prop
  /-- In front of the first colon stands no address. -/
  | invalidAddress {head tail : List Char} (hcontent : contentOf line = head ++ ':' :: tail)
      (hcolon : ':' ∉ head) (haddress : ∀ address, ¬IsAddress (trim head) address) :
      Outcome number line (.fault number (.invalidAddress (String.ofList head))) none
  | invalidBytes {address : Nat} {body run : List Char} {bytes : List UInt8}
      (hlocated : Located (contentOf line) address body)
      (hscan : Scans body bytes (.tooLarge run)) :
      Outcome number line (.fault number (.invalidBytes (String.ofList run))) none
  | overrun {address : Nat} {body : List Char} {bytes : List UInt8}
      (hlocated : Located (contentOf line) address body) (hscan : Scans body bytes .overrun) :
      Outcome number line .overrun none
  | noBytes {address : Nat} {body rest : List Char}
      (hlocated : Located (contentOf line) address body) (hscan : Scans body [] (.before rest)) :
      Outcome number line (.fault number .noBytes) none
  /-- Behind the bytes the rest of the line is the text. -/
  | found {address : Nat} {body rest : List Char} {bytes : List UInt8}
      (hlocated : Located (contentOf line) address body)
      (hscan : Scans body bytes (.before rest)) (hbytes : bytes ≠ []) :
      Outcome number line .found (some {
        line := number, comment := String.ofList (commentOf line), address, bytes,
        assembly := String.ofList rest })

/-- The case in a record, if the reading has found one. -/
def caseOf? : Reading × Case → Option Case
  | (.found, c) => some c
  | _ => none

/-- A line is read as its outcome says. -/
theorem fill_of_outcome {number : Nat} {reading : Reading} {case? : Option Case}
    (h : Outcome number line reading case?) :
    let filled :=
      fill { line := number, comment := String.ofList (commentOf line) } (contentOf line)
    filled.1 = reading ∧ caseOf? filled = case? := by
  intro filled
  cases h with
  | invalidAddress hcontent hcolon haddress =>
    have hfilled : filled = _ :=
      (congrArg (fill _) hcontent).trans (fill_of_not_address hcolon haddress _ _)
    rw [hfilled]
    exact ⟨rfl, rfl⟩
  | invalidBytes hlocated hscan =>
    have hfilled : filled = _ := fill_of_located hlocated rfl
    rw [hfilled, fillBody, scanGroups_of_scans hscan]
    exact ⟨rfl, rfl⟩
  | overrun hlocated hscan =>
    have hfilled : filled = _ := fill_of_located hlocated rfl
    rw [hfilled, fillBody, scanGroups_of_scans hscan]
    exact ⟨rfl, rfl⟩
  | noBytes hlocated hscan =>
    have hfilled : filled = _ := fill_of_located hlocated rfl
    rw [hfilled, fillBody, scanGroups_of_scans hscan]
    exact ⟨rfl, rfl⟩
  | found hlocated hscan hbytes =>
    have hfilled : filled = _ := fill_of_located hlocated rfl
    rw [hfilled, fillBody, scanGroups_of_scans hscan]
    have hnonempty : ¬List.isEmpty _ = true := fun h => hbytes (List.isEmpty_iff.mp h)
    dsimp only
    rw [List.nil_append, if_neg hnonempty]
    exact ⟨rfl, rfl⟩

/-- Every line has an outcome. -/
theorem exists_outcome (number : Nat) (line : List Char) :
    ∃ reading case?, Outcome number line reading case? := by
  rcases located_or_not_address (contentOf line) with ⟨address, body, hlocated⟩ |
    ⟨head, tail, hcontent, hcolon, haddress⟩
  · obtain ⟨bytes, stop, hscan⟩ := exists_scans body
    cases stop with
    | before rest =>
      by_cases hbytes : bytes = []
      · subst hbytes
        exact ⟨_, _, .noBytes hlocated hscan⟩
      · exact ⟨_, _, .found hlocated hscan hbytes⟩
    | tooLarge run => exact ⟨_, _, .invalidBytes hlocated hscan⟩
    | overrun => exact ⟨_, _, .overrun hlocated hscan⟩
  · exact ⟨_, _, .invalidAddress hcontent hcolon haddress⟩

/-- **The outcome of a line.** A call in front of a line with a case reads this line, and comes to
what the rules say and to nothing else: the text does not matter behind the line, nor does the
record. -/
theorem Reader.read_line_iff (h : hasCase line = true) (number : Nat) (others : List (List Char))
    (c : Case) (reading : Reading) (case? : Option Case) :
    let next := Reader.read ⟨number, line :: others⟩ c
    next.2.2 = ⟨number + 1, others⟩ ∧
      (next.1 = reading ∧ caseOf? (next.1, next.2.1) = case? ↔
        Outcome (number + 1) line reading case?) := by
  intro next
  have hnext : next = _ := read_of_some (readLine?_of_hasCase h (number + 1)) c
  rw [hnext]
  refine ⟨rfl, fun hresult => ?_, fill_of_outcome⟩
  -- the line has some outcome, and as it is read so, it is this one
  obtain ⟨reading', case?', houtcome⟩ := exists_outcome (number + 1) line
  obtain ⟨hreading, hcase⟩ := fill_of_outcome houtcome
  have hreading' : reading' = reading := hreading.symm.trans hresult.1
  have hcase' : case?' = case? := hcase.symm.trans hresult.2
  rwa [hreading', hcase'] at houtcome

/-- Behind an address with a plus and a group of one byte, eighteen zeroes are too long. -/
theorem Reader.read_line_iff_overrun :
    let line := "+2: 01 ".toList ++ List.replicate 18 '0'
    let next := Reader.read ⟨0, [line]⟩ {}
    hasCase line = true ∧ next.2.2 = ⟨1, []⟩ ∧ next.1 = .overrun ∧
      caseOf? (next.1, next.2.1) = none := by
  intro line next
  have hcase : hasCase line = true := rfl
  have hcontent : contentOf line =
      ['+', '2'] ++ ':' :: ([' ', '0', '1', ' '] ++ List.replicate 18 '0') := rfl
  have haddress : IsAddress (trim ['+', '2']) 2 :=
    ⟨['2'], .inr rfl, by decide, List.all_eq_true.mp rfl, rfl, by decide⟩
  have hlocated : Located (contentOf line) 2 (['0', '1', ' '] ++ List.replicate 18 '0') := by
    rw [hcontent]
    exact .present (by decide) haddress
  have hgroup : Leads (['0', '1', ' '] ++ List.replicate 18 '0') ['0', '1']
      (' ' :: List.replicate 18 '0') :=
    ⟨⟨[], nofun, by decide, rfl⟩, List.all_eq_true.mp rfl, noDigitFirst_cons rfl _,
      noBlankFirst_digits (by decide) (List.all_eq_true.mp rfl) _⟩
  have hbytes : Spells ['0', '1'] [0x01] := ⟨List.all_eq_true.mp rfl, rfl, rfl⟩
  have hlong : Leads (' ' :: List.replicate 18 '0') (List.replicate 18 '0') [] :=
    ⟨⟨[' '], List.all_eq_true.mp rfl, by decide, rfl⟩, List.all_eq_true.mp rfl, noDigitFirst_nil,
      noBlankFirst_digits (by decide) (List.all_eq_true.mp rfl) _⟩
  have hscan : Scans (['0', '1', ' '] ++ List.replicate 18 '0') [0x01] .overrun :=
    .group hgroup (by decide) (by decide) hbytes (.overrun hlong (by decide) rfl (by decide))
  obtain ⟨hnext, hresult⟩ := Reader.read_line_iff hcase 0 [] {} .overrun none
  exact ⟨hcase, hnext, hresult.mpr (.overrun hlocated hscan)⟩

end ArmListing.Suite
