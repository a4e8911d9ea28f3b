/-!
# ArmListing.Target

What machine code is read for: the **instruction set state** and the
**architecture revision**. A `Target` is the pair of them, and the default
target is Thumb code for ARMv5TE.
-/

namespace ArmListing

/-- The instruction set state that the code runs in. -/
inductive Mode
  /-- Every instruction is one 32-bit word. -/
  | arm
  /-- Instructions are one or two 16-bit halfwords. -/
  | thumb
  deriving DecidableEq, Repr, Inhabited

/-- The architecture revision, which decides what encodings are defined. -/
inductive Revision
  | v4t
  | v5te
  deriving DecidableEq, Repr, Inhabited

namespace Mode

def name : Mode → String
  | arm => "arm"
  | thumb => "thumb"

end Mode

namespace Revision

/-- Whether the encodings that ARMv5TE adds are defined. -/
def isV5te : Revision → Bool
  | v4t => false
  | v5te => true

def name : Revision → String
  | v4t => "armv4t"
  | v5te => "armv5te"

@[simp] theorem isV5te_v4t : v4t.isV5te = false := rfl
@[simp] theorem isV5te_v5te : v5te.isV5te = true := rfl

theorem isV5te_iff {r : Revision} : r.isV5te = true ↔ r = v5te := by
  cases r <;> simp

end Revision

/-- Instruction set state and revision together. -/
structure Target where
  mode : Mode := .thumb
  revision : Revision := .v5te
  deriving DecidableEq, Repr, Inhabited

end ArmListing
