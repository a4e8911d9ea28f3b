/-!
# ArmListing.Assembly.Condition

The **condition codes**, which nearly every ARM instruction and the short Thumb
branches carry. They are written as a suffix of the mnemonic, and *always* is
written by leaving it out.
-/

namespace ArmListing

/-- When an instruction is executed. -/
inductive Condition
  | equal
  | notEqual
  | carrySet
  | carryClear
  | minus
  | plus
  | overflow
  | noOverflow
  | higher
  | lowerOrSame
  | greaterOrEqual
  | less
  | greater
  | lessOrEqual
  | always
  deriving DecidableEq, Repr, Inhabited

namespace Condition

/-- The condition with the code `n`; all codes past the last test mean *always*. -/
def ofCode : Nat → Condition
  | 0 => equal
  | 1 => notEqual
  | 2 => carrySet
  | 3 => carryClear
  | 4 => minus
  | 5 => plus
  | 6 => overflow
  | 7 => noOverflow
  | 8 => higher
  | 9 => lowerOrSame
  | 10 => greaterOrEqual
  | 11 => less
  | 12 => greater
  | 13 => lessOrEqual
  | _ => always

/-- The suffix that the mnemonic takes. -/
def suffix : Condition → String
  | equal => "eq"
  | notEqual => "ne"
  | carrySet => "cs"
  | carryClear => "cc"
  | minus => "mi"
  | plus => "pl"
  | overflow => "vs"
  | noOverflow => "vc"
  | higher => "hi"
  | lowerOrSame => "ls"
  | greaterOrEqual => "ge"
  | less => "lt"
  | greater => "gt"
  | lessOrEqual => "le"
  | always => ""

/-- Different conditions have different suffixes. -/
theorem suffix_injective : Function.Injective suffix := by
  intro a b
  cases a <;> cases b <;> decide

end Condition

end ArmListing
