import ArmListing.Suite.Case
import ArmListing.Text.Hex
import ArmListing.Text.Lines

/-!
# ArmListing.Suite.Reader

Reading the **lines of a test file**.

A line holds an address with a colon behind it, which may be left out, groups of
hexadecimal digits for the bytes, and the text that the instruction should have,
two blanks away. Behind an `@` stands a comment. Lines with nothing but a
comment are skipped.

Design points:

* A reader fills a record in place (`Reader.read`): it takes the record of the
  last call and overwrites it field by field, so a line that is refused leaves a
  record that is partly new.
* A group of digits is a number of at most 64 bits, the lowest byte first. A
  longer group is refused as long as its number says so. If zeroes in front hide
  its length, its bytes do not fit in the eight that the number has, and the
  reading breaks off (`Reading.overrun`).
-/

namespace ArmListing.Suite

/-! ## Groups of digits -/

/-- The bytes of a group, the lowest byte of its number first. -/
def groupBytes (digits : List Char) : List UInt8 :=
  (List.range (digits.length / 2)).map fun i => UInt8.ofNat (Hex.value digits >>> (8 * i))

/-- How the reading of groups ends. -/
inductive Scan
  /-- Before a text that is no group. -/
  | before (rest : List Char)
  /-- At a group whose number is too large. -/
  | tooLarge (digits : List Char)
  /-- At a group that is too long although its number is not too large. -/
  | overrun
  deriving DecidableEq, Repr

/-- The digits that a text starts with, and what stands behind them. -/
def splitDigits (text : List Char) : List Char × List Char :=
  (text.takeWhile Hex.isDigit, text.dropWhile Hex.isDigit)

theorem length_splitDigits (text : List Char) :
    (splitDigits text).1.length + (splitDigits text).2.length = text.length := by
  rw [← List.length_append]
  simp [splitDigits, List.takeWhile_append_dropWhile]

theorem length_trimStart_le (text : List Char) : (Text.trimStart text).length ≤ text.length :=
  (List.dropWhile_sublist _).length_le

/-- Reads groups, which at most one blank separates, and puts their bytes behind `bytes`. An even
number of digits, and at least two, make a group. -/
def scanGroups (bytes : List UInt8) (text : List Char) : List UInt8 × Scan :=
  let body := Text.trimStart text
  let digits := (splitDigits body).1
  if 1 < (text.takeWhile Text.isBlank).length then (bytes, .before body)
  else if _h : digits.length < 2 ∨ digits.length % 2 ≠ 0 then (bytes, .before body)
  else if UInt64.size ≤ Hex.value digits then (bytes, .tooLarge digits)
  else if 16 < digits.length then (bytes, .overrun)
  else scanGroups (bytes ++ groupBytes digits) (splitDigits body).2
termination_by text.length
decreasing_by
  have hsplit := length_splitDigits (Text.trimStart text)
  have htrim := length_trimStart_le text
  have hdigits : ¬((splitDigits (Text.trimStart text)).1.length < 2 ∨ _) := _h
  omega

/-! ## Addresses -/

/-- The number that digits stand for, which a plus may precede, if it has at most 64 bits. -/
def wordOfDigits? (text : List Char) : Option Nat :=
  let digits := match text with
    | '+' :: rest => rest
    | _ => text
  if digits.isEmpty || !digits.all Hex.isDigit then none
  else if Hex.value digits < UInt64.size then some (Hex.value digits)
  else none

/-! ## Lines -/

/-- What is wrong with a line. -/
inductive Fault
  | invalidAddress (text : String)
  | invalidBytes (digits : String)
  | noBytes
  deriving DecidableEq, Repr

namespace Fault

def description : Fault → String
  | invalidAddress text => "invalid address \"" ++ text ++ "\""
  | invalidBytes digits => "invalid bytes \"" ++ digits ++ "\""
  | noBytes => "no instruction bytes"

/-- The report of a fault at a line of a file. -/
def message (file : String) (line : Nat) (f : Fault) : String :=
  "error: " ++ f.description ++ ", " ++ file ++ ":" ++ toString line

end Fault

/-- What a call of a reader comes to. -/
inductive Reading
  /-- The record holds a case. -/
  | found
  /-- A line is refused. -/
  | fault (line : Nat) (f : Fault)
  /-- The reading of a line broke off. -/
  | overrun
  /-- There are no more lines. -/
  | finished
  deriving DecidableEq, Repr

/-- The parts of `text` before and behind the first `c`; all of it and nothing if there is none. -/
def splitAtOr (c : Char) (text : List Char) : List Char × List Char :=
  (Text.splitOnce [c] text).getD (text, [])

/-- Fills the bytes and the text of a record from what stands behind the address. -/
def fillBody (c : Case) (text : List Char) : Reading × Case :=
  match scanGroups c.bytes text with
  | (bytes, .tooLarge digits) =>
    (.fault c.line (.invalidBytes (String.ofList digits)), { c with bytes })
  | (bytes, .overrun) => (.overrun, { c with bytes })
  | (bytes, .before rest) =>
    if bytes.isEmpty then (.fault c.line .noBytes, { c with bytes })
    else (.found, { c with bytes, assembly := String.ofList rest })

/-- Fills a record from a line without its comment. -/
def fill (c : Case) (text : List Char) : Reading × Case :=
  match Text.splitOnce [':'] text with
  | none => fillBody c text
  | some (head, tail) =>
    match wordOfDigits? (Text.trim head) with
    | none => (.fault c.line (.invalidAddress (String.ofList head)), c)
    | some address => fillBody { c with address } (Text.trimStart tail)

/-- The lines of a test file that have not been read. -/
structure Reader where
  /-- The number of lines that have been read. -/
  line : Nat := 0
  lines : List (List Char)
  deriving DecidableEq, Repr

namespace Reader

/-- A reader in front of the first line. -/
def ofText (text : String) : Reader := { lines := Text.lines text.toList }

/-- Reads up to the next line with a case and fills the record, whose bytes and text are empty. -/
def advance (line : Nat) (c : Case) : List (List Char) → Reading × Case × Reader
  | [] => (.finished, c, ⟨line, []⟩)
  | head :: rest =>
    let (body, comment) := splitAtOr '@' (Text.trim head)
    let text := Text.trim body
    if text.isEmpty then advance (line + 1) c rest
    else
      let record := { c with
        line := line + 1, comment := String.ofList (Text.trim comment), address := 0 }
      let (reading, filled) := fill record text
      (reading, filled, ⟨line + 1, rest⟩)

/-- Reads the next case into the record of the last call. -/
def read (r : Reader) (c : Case) : Reading × Case × Reader :=
  advance r.line { c with bytes := [], assembly := "" } r.lines

theorem length_advance_lt {line : Nat} {c : Case} {lines : List (List Char)}
    (h : (advance line c lines).1 ≠ .finished) :
    (advance line c lines).2.2.lines.length < lines.length := by
  induction lines generalizing line with
  | nil => exact absurd rfl h
  | cons head rest ih =>
    unfold advance at h ⊢
    dsimp only at h ⊢
    split
    next hblank =>
      rw [if_pos hblank] at h
      exact Nat.lt_succ_of_lt (ih h)
    · exact Nat.lt_succ_self _

/-- Each call but the last one reads a line. -/
theorem length_read_lt {r : Reader} {c : Case} (h : (r.read c).1 ≠ .finished) :
    (r.read c).2.2.lines.length < r.lines.length :=
  length_advance_lt h

/-- What the calls come to, each with the record that it leaves, until there are no more lines. -/
def readAll (r : Reader) (c : Case) : List (Reading × Case) :=
  let next := r.read c
  if _h : next.1 = .finished then []
  else (next.1, next.2.1) :: next.2.2.readAll next.2.1
termination_by r.lines.length
decreasing_by exact length_read_lt _h

end Reader

end ArmListing.Suite
