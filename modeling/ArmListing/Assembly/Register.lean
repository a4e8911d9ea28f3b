/-!
# ArmListing.Assembly.Register

The sixteen **registers** and sets of them, as assembler text writes them.

The three highest registers go by their role (`sp`, `lr`, `pc`). A register list
is a set: it is written in ascending order between braces, and the empty list is
a pair of braces.
-/

namespace ArmListing

/-- One of the sixteen registers. -/
structure Register where
  number : Fin 16
  deriving DecidableEq, Repr, Inhabited

namespace Register

/-- The register with the low four bits of `n` for its number. -/
def ofNat (n : Nat) : Register := ⟨Fin.ofNat 16 n⟩

/-- The stack pointer. -/
def sp : Register := ofNat 13

/-- The link register. -/
def lr : Register := ofNat 14

/-- The program counter. -/
def pc : Register := ofNat 15

/-- The names, in the order of the numbers. -/
def names : Vector String 16 :=
  #v["r0", "r1", "r2", "r3", "r4", "r5", "r6", "r7",
    "r8", "r9", "r10", "r11", "r12", "sp", "lr", "pc"]

def name (r : Register) : String := names[r.number]

/-- Different registers have different names. -/
theorem name_injective : Function.Injective name := by
  rintro ⟨a⟩ ⟨b⟩ h
  have names : ∀ a b : Fin 16, name ⟨a⟩ = name ⟨b⟩ → a = b := by decide
  rw [names a b h]

end Register

/-- A set of registers, one bit of the mask for each. -/
structure RegisterList where
  mask : BitVec 16
  deriving DecidableEq, Repr, Inhabited

namespace RegisterList

/-- The set that the low sixteen bits of `n` stand for. -/
def ofNat (n : Nat) : RegisterList := ⟨BitVec.ofNat 16 n⟩

/-- `list` and the register `r`. -/
def insert (list : RegisterList) (r : Register) : RegisterList :=
  ⟨list.mask ||| BitVec.twoPow 16 r.number⟩

/-- The members in ascending order. -/
def toList (list : RegisterList) : List Register :=
  ((List.finRange 16).filter fun i => list.mask.getLsb i).map Register.mk

theorem mem_toList {list : RegisterList} {r : Register} :
    r ∈ list.toList ↔ list.mask.getLsb r.number = true := by
  obtain ⟨i⟩ := r
  simp [toList]

/-- The members between braces. -/
def text (list : RegisterList) : String :=
  "\x7b" ++ ", ".intercalate (list.toList.map Register.name) ++ "\x7d"

end RegisterList

end ArmListing
