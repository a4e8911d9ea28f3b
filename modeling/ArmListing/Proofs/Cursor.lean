import Mathlib.Algebra.GroupWithZero.Nat
import ArmListing.Proofs.Code

/-!
# ArmListing.Proofs.Cursor

**Calls that advance a cursor**, one after the other.

Holding a sum back at the end of the data loses nothing: where all calls have an
answer, the position is the sum of the start and of all counts, held back once
(`eq_of_advanceAll?`). So the position never goes back, and the look-ahead from it
is known.

What can go wrong is the sum itself, which is formed before it is held back. A
call has no answer if its count and the position so far do not fit in a word, and
this is the only way to have none (`advanceAll?_eq_none_iff`).
-/

namespace ArmListing.Cursor

variable {c d : Cursor} {data : Array UInt8} {start : Nat} {counts : List UInt64}

/-- The cursor behind some calls that advance, if all of them have an answer. -/
def advanceAll? : Cursor → List UInt64 → Option Cursor
  | c, [] => some c
  | c, count :: rest => (c.advance? count).bind fun d => advanceAll? d rest

/-- What some calls advance by altogether, in numbers without a bound. -/
def distance (counts : List UInt64) : Nat := (counts.map UInt64.toNat).sum

@[simp] theorem distance_nil : distance [] = 0 := rfl

theorem distance_cons (count : UInt64) (rest : List UInt64) :
    distance (count :: rest) = count.toNat + distance rest := by
  rw [distance, List.map_cons, List.sum_cons, distance]

theorem distance_append (front back : List UInt64) :
    distance (front ++ back) = distance front + distance back := by
  rw [distance, List.map_append, List.sum_append, distance, distance]

/-! ### Single calls -/

/-- A position that is held back before a count is added ends where it would without that. -/
theorem atOffset_min_add (data : Array UInt8) (start count : Nat) :
    atOffset data (min start data.size + count) = atOffset data (start + count) := by
  have hmin : min (min start data.size + count) data.size = min (start + count) data.size := by
    omega
  simp only [atOffset, hmin]

/-- **One call**: position and count must fit in a word together. -/
theorem advance?_atOffset (data : Array UInt8) (start : Nat) (count : UInt64) :
    (atOffset data start).advance? count =
      if min start data.size + count.toNat < UInt64.size then
        some (atOffset data (start + count.toNat))
      else none := by
  rw [← atOffset_min_add]
  rfl

/-! ### Rows of calls -/

theorem advanceAll?_append (c : Cursor) (front back : List UInt64) :
    c.advanceAll? (front ++ back) = (c.advanceAll? front).bind fun d => d.advanceAll? back := by
  induction front generalizing c with
  | nil => rfl
  | cons count front ih =>
    rw [List.cons_append, advanceAll?, advanceAll?, Option.bind_assoc]
    exact congrArg (Option.bind _) (funext fun d => ih d)

/-- **Answers are exact**: the sum of the start and of all counts, held back once. -/
theorem eq_of_advanceAll? (h : (atOffset data start).advanceAll? counts = some c) :
    c = atOffset data (start + distance counts) := by
  induction counts generalizing start with
  | nil => exact (Option.some.inj h).symm
  | cons count rest ih =>
    obtain ⟨d, hd, hrest⟩ := Option.bind_eq_some_iff.mp h
    rw [advance?_atOffset] at hd
    obtain ⟨-, hnext⟩ := Option.ite_none_right_eq_some.mp hd
    rw [← Option.some.inj hnext] at hrest
    rw [ih hrest, distance_cons, Nat.add_assoc]

/-- **Only a sum that is too large has no answer.** -/
theorem advanceAll?_eq_none_iff :
    (atOffset data start).advanceAll? counts = none ↔
      ∃ front count back, counts = front ++ count :: back ∧
        UInt64.size ≤ min (start + distance front) data.size + count.toNat := by
  induction counts generalizing start with
  | nil =>
    constructor
    · exact fun h => nomatch h
    · rintro ⟨front, count, back, hnil, -⟩
      exact absurd hnil.symm (List.append_ne_nil_of_right_ne_nil _ (List.cons_ne_nil _ _))
  | cons first rest ih =>
    rw [advanceAll?, advance?_atOffset]
    split
    case isFalse hlarge =>
      -- the first call has none
      refine iff_of_true rfl ⟨[], first, rest, rfl, ?_⟩
      rw [distance_nil, Nat.add_zero]
      exact Nat.not_lt.mp hlarge
    case isTrue hfits =>
      rw [Option.bind_some, ih]
      constructor
      · rintro ⟨front, count, back, rfl, hlarge⟩
        refine ⟨first :: front, count, back, rfl, ?_⟩
        rwa [distance_cons, ← Nat.add_assoc]
      · rintro ⟨front, count, back, hcounts, hlarge⟩
        cases front with
        | nil =>
          obtain ⟨rfl, -⟩ := List.cons.inj hcounts
          rw [distance_nil, Nat.add_zero] at hlarge
          exact absurd hfits (Nat.not_lt.mpr hlarge)
        | cons first' front =>
          obtain ⟨rfl, hrest⟩ := List.cons.inj hcounts
          rw [distance_cons, ← Nat.add_assoc] at hlarge
          exact ⟨front, count, back, hrest, hlarge⟩

/-- **The position never goes back**: on the way there are answers, and none is behind the last. -/
theorem offset_le_of_advanceAll?
    (h : (atOffset data start).advanceAll? counts = some c) {front back : List UInt64}
    (hcounts : counts = front ++ back) :
    ∃ d, (atOffset data start).advanceAll? front = some d ∧ d.offset ≤ c.offset := by
  subst hcounts
  have hrun := h
  rw [advanceAll?_append] at hrun
  obtain ⟨d, hd, -⟩ := Option.bind_eq_some_iff.mp hrun
  refine ⟨d, hd, ?_⟩
  rw [eq_of_advanceAll? hd, eq_of_advanceAll? h, offset_atOffset, offset_atOffset, distance_append]
  omega

/-! ### Looking ahead -/

/-- A look-ahead without padding is the start of one with padding. -/
theorem peek_eq_take (c : Cursor) (count : Nat) :
    c.peek count = (c.peekPadded count).take (min count c.remaining) := by
  rw [peekPadded, List.rightpad, ← length_peek]
  exact List.take_left.symm

/-- With padding there is a byte at every place. -/
theorem getElem?_peekPadded (c : Cursor) {count i : Nat} (h : i < count) :
    (c.peekPadded count)[i]? = some (Code.byte c.data (c.offset + i)) := by
  have hi : i < (Code.window c.data c.offset count).length := by rwa [Code.length_window]
  rw [peekPadded_eq, List.getElem?_eq_getElem hi, Code.getElem_window]

/-- A word is four bytes, the lowest one first. -/
theorem toNat_peekWord (c : Cursor) :
    c.peekWord.toNat = (Code.byte c.data c.offset).toNat +
      2 ^ 8 * (Code.byte c.data (c.offset + 1)).toNat +
      2 ^ 16 * (Code.byte c.data (c.offset + 2)).toNat +
      2 ^ 24 * (Code.byte c.data (c.offset + 3)).toNat := by
  rw [peekWord_eq, Code.toNat_word_eq]
  simp only [Code.window, Code.littleEndian_cons, Code.littleEndian_nil, Nat.add_assoc,
    Nat.reduceAdd]
  omega

/-! ### Runs -/

/-- **A cursor only moves forward, and stops at the end of the data.** Calls that advance it have
an answer as long as the position so far and the count fit in a word together. The position is then
the exact sum, held back at the end, it never goes back, and the look-aheads from it agree with
each other and see zeroes past the end. -/
theorem advanceAll?_exact (data : Array UInt8) (start : Nat) (counts : List UInt64) :
    ((atOffset data start).advanceAll? counts = none ↔
      ∃ front count back, counts = front ++ count :: back ∧
        2 ^ 64 ≤ min (start + distance front) data.size + count.toNat) ∧
    ∀ c, (atOffset data start).advanceAll? counts = some c →
      (c.data = data ∧ c.offset = min (start + distance counts) data.size ∧
        c.offset ≤ data.size ∧ c.remaining = data.size - c.offset) ∧
      (∀ front back, counts = front ++ back →
        ∃ d, (atOffset data start).advanceAll? front = some d ∧ d.offset ≤ c.offset) ∧
      (∀ count, (c.peek count).length = min count c.remaining ∧
        c.peek count = (c.peekPadded count).take (min count c.remaining) ∧
        (c.peekPadded count).length = count ∧
        ∀ i < count, (c.peekPadded count)[i]? = some (Code.byte data (c.offset + i))) ∧
      c.peekWord.toNat = littleEndian (c.peekPadded 4) ∧
      c.peekWord.toNat = (Code.byte data c.offset).toNat +
        2 ^ 8 * (Code.byte data (c.offset + 1)).toNat +
        2 ^ 16 * (Code.byte data (c.offset + 2)).toNat +
        2 ^ 24 * (Code.byte data (c.offset + 3)).toNat := by
  refine ⟨advanceAll?_eq_none_iff, fun c hc => ?_⟩
  have hdata : c.data = data := by rw [eq_of_advanceAll? hc]; rfl
  have hoffset : c.offset = min (start + distance counts) data.size := by
    rw [eq_of_advanceAll? hc, offset_atOffset]
  refine ⟨⟨hdata, hoffset, hdata ▸ c.offset_le, hdata ▸ rfl⟩,
    fun front back hcounts => offset_le_of_advanceAll? hc hcounts, fun count => ?_, ?_,
    hdata ▸ c.toNat_peekWord⟩
  · refine ⟨c.length_peek count, c.peek_eq_take count, ?_, fun i hi => ?_⟩
    · rw [peekPadded_eq, Code.length_window]
    · rw [c.getElem?_peekPadded hi, hdata]
  · rw [peekWord_eq, Code.toNat_word_eq, peekPadded_eq]

/-- Two bytes forward, and then as far as a word goes. -/
theorem advanceAll?_exact_to_the_limit :
    let data : Array UInt8 := #[1, 2, 3, 4, 5, 6, 7, 8]
    let far : List UInt64 := [2, 18446744073709551610]
    ((atOffset data 3).advanceAll? far = some (atOffset data 8) ∧
      (atOffset data 8).offset = min (3 + distance far) data.size ∧
      ∃ d, (atOffset data 3).advanceAll? [2] = some d ∧ d.offset ≤ (atOffset data 8).offset) ∧
    (atOffset data 3).advanceAll? [2] = some (atOffset data 5) ∧
    ((atOffset data 5).peekPadded 4)[3]? = some (Code.byte data 8) ∧
    (atOffset data 5).peekWord.toNat = 6 + 2 ^ 8 * 7 + 2 ^ 16 * 8 := by
  intro data far
  have hfar : (atOffset data 3).advanceAll? far = some (atOffset data 8) := by
    rw [advanceAll?, advance?_atOffset, if_pos (by decide), Option.bind_some, advanceAll?,
      advance?_atOffset, if_pos (by decide), Option.bind_some, advanceAll?]
    rfl
  have hnear : (atOffset data 3).advanceAll? [2] = some (atOffset data 5) := rfl
  obtain ⟨⟨-, hoffset, -⟩, hforward, -⟩ := (advanceAll?_exact data 3 far).2 _ hfar
  obtain ⟨-, -, hpeek, -, hword⟩ := (advanceAll?_exact data 3 [2]).2 _ hnear
  have hlast : ((atOffset data 5).peekPadded 4)[3]? = some (Code.byte data 8) :=
    (hpeek 4).2.2.2 3 (by decide)
  exact ⟨⟨hfar, hoffset, hforward [2] _ rfl⟩, hnear, hlast, hword.trans (by decide)⟩

/-- At the end of a single byte the largest count has no answer, although the exact sum would be
held back to that end. -/
theorem advanceAll?_none_of_largest :
    (atOffset #[0] 1).advanceAll? [18446744073709551615] = none ∧
      min (1 + distance [18446744073709551615]) 1 = 1 := by
  constructor
  · rw [advanceAll?, advance?_atOffset, if_neg (by decide), Option.bind_none]
  · exact Nat.min_eq_right (Nat.le_add_right _ _)

end ArmListing.Cursor
