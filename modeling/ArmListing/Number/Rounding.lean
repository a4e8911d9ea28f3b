/-!
# ArmListing.Number.Rounding

**Rounding quotients** to whole numbers and to binary floating point.

`roundHalfEven` goes to the nearest whole number and from a half to the even
neighbour; `two_mul_roundHalfEven_le` and `le_two_mul_roundHalfEven` say that it
is never off by more than a half. `Binary.nearest` goes, by the same rule, to a
number with 53 significant bits, which is what the arithmetic of double
precision does to a quotient that neither overflows nor underflows.
-/

namespace ArmListing

/-- The whole number nearest to `num / den`; of two the even one. -/
def roundHalfEven (num den : Nat) : Nat :=
  let quotient := num / den
  let twice := 2 * (num % den)
  if twice < den then quotient
  else if den < twice then quotient + 1
  else if quotient % 2 = 0 then quotient
  else quotient + 1

/-- The rounded quotient is at most a half too large. -/
theorem two_mul_roundHalfEven_le (num den : Nat) :
    2 * (den * roundHalfEven num den) ≤ 2 * num + den := by
  have h := Nat.div_add_mod num den
  have hsucc : den * (num / den + 1) = den * (num / den) + den := Nat.mul_succ ..
  unfold roundHalfEven
  dsimp only
  repeat' split
  all_goals omega

/-- The rounded quotient is at most a half too small. -/
theorem le_two_mul_roundHalfEven (num : Nat) {den : Nat} (hden : 0 < den) :
    2 * num ≤ 2 * (den * roundHalfEven num den) + den := by
  have h := Nat.div_add_mod num den
  have hlt := Nat.mod_lt num hden
  have hsucc : den * (num / den + 1) = den * (num / den) + den := Nat.mul_succ ..
  unfold roundHalfEven
  dsimp only
  repeat' split
  all_goals omega

namespace Binary

/-- A positive number `significand * 2 ^ up / 2 ^ down`. -/
structure Value where
  significand : Nat
  up : Nat
  down : Nat
  deriving DecidableEq, Repr

namespace Value

def num (v : Value) : Nat := v.significand <<< v.up

def den (v : Value) : Nat := 1 <<< v.down

end Value

/-- The number of significant bits. -/
def precision : Nat := 53

/-- `num / den`, rounded to a whole number of units of `2 ^ up / 2 ^ down`. -/
def roundToUnit (num den up down : Nat) : Value :=
  ⟨roundHalfEven (num <<< down) (den <<< up), up, down⟩

/-- The number with 53 significant bits that is nearest to the quotient of two positive numbers.
The lengths of the two in bits tell the unit of the last place up to a factor of two. -/
def nearest (num den : Nat) : Value :=
  let up := num.log2 - (den.log2 + (precision - 1))
  let down := den.log2 + (precision - 1) - num.log2
  if den <<< (up + (precision - 1)) ≤ num <<< down then roundToUnit num den up down
  else if up = 0 then roundToUnit num den 0 (down + 1)
  else roundToUnit num den (up - 1) down

end Binary

end ArmListing
