/-!
# ArmListing.Text.Hex

**Hexadecimal numerals**: how numbers are written in listings and messages, and
how they are read from arguments and test files.

Writing uses as many digits as the number needs, or at least a given count with
zeroes in front. Reading accepts digits of either case; `Hex.value` is the
number that a run of digits stands for.
-/

namespace ArmListing.Hex

/-! ## Writing -/

/-- Lower-case digits, no more than needed. -/
def lowerDigits (n : Nat) : List Char := Nat.toDigits 16 n

/-- Upper-case digits, no more than needed. -/
def upperDigits (n : Nat) : List Char := (lowerDigits n).map Char.toUpper

/-- `n` in lower case. -/
def lower (n : Nat) : String := String.ofList (lowerDigits n)

/-- `n` in upper case. -/
def upper (n : Nat) : String := String.ofList (upperDigits n)

/-- `n` in lower case, with zeroes in front up to `width` digits. -/
def lowerPadded (width n : Nat) : String :=
  String.ofList ((lowerDigits n).leftpad width '0')

/-- `n` in upper case, with zeroes in front up to `width` digits. -/
def upperPadded (width n : Nat) : String :=
  String.ofList ((upperDigits n).leftpad width '0')

/-! ## Reading -/

/-- The value of a hexadecimal digit. -/
def digit? (c : Char) : Option Nat :=
  if '0' ≤ c ∧ c ≤ '9' then some (c.toNat - '0'.toNat)
  else if 'a' ≤ c ∧ c ≤ 'f' then some (c.toNat - 'a'.toNat + 10)
  else if 'A' ≤ c ∧ c ≤ 'F' then some (c.toNat - 'A'.toNat + 10)
  else none

/-- Whether `c` is one of `0-9`, `a-f`, `A-F`. -/
def isDigit (c : Char) : Bool := (digit? c).isSome

/-- The number that a run of digits stands for, read onto the value `high` of what precedes it. -/
def valueFrom (high : Nat) (digits : List Char) : Nat :=
  digits.foldl (fun n c => n * 16 + (digit? c).getD 0) high

/-- The number that a run of digits stands for. -/
def value (digits : List Char) : Nat := valueFrom 0 digits

@[simp] theorem valueFrom_nil (high : Nat) : valueFrom high [] = high := rfl

@[simp] theorem valueFrom_cons (high : Nat) (c : Char) (digits : List Char) :
    valueFrom high (c :: digits) = valueFrom (high * 16 + (digit? c).getD 0) digits := rfl

end ArmListing.Hex
