import ArmListing.Cursor
import ArmListing.Line
import ArmListing.Proofs.Word.Field

/-!
# ArmListing.Proofs.Code

**Code at an offset**: the bytes, halfwords and words that data holds, with
zeroes behind its end.

A cursor sees nothing else (`Cursor.peekWord_eq`), and a prefetched word is the
halfword at its offset followed by the next one (`toNat_word`).
The other way round, an encoding is a few bytes (`Encoding.bytes`), from which
its value is read back (`littleEndian_bytes`), and those of an encoding that is
cut out of a prefetch are the bytes that stand there (`bytes_ofPrefetch`).
-/

namespace ArmListing

namespace Code

variable (data : Array UInt8)

/-- The byte at `offset`, which is zero past the end of the data. -/
def byte (offset : Nat) : UInt8 := data[offset]?.getD 0

/-- The `count` bytes from `offset` upward. -/
def window (offset : Nat) : Nat → List UInt8
  | 0 => []
  | count + 1 => byte data offset :: window (offset + 1) count

/-- The two bytes from `offset` upward as a number, the lowest byte first. -/
def halfword (offset : Nat) : Nat := Cursor.littleEndian (window data offset 2)

/-- The four bytes from `offset` upward as a word, the lowest byte first. -/
def word (offset : Nat) : Word := BitVec.ofNat 32 (Cursor.littleEndian (window data offset 4))

@[simp] theorem length_window (offset count : Nat) : (window data offset count).length = count := by
  induction count generalizing offset with
  | zero => rfl
  | succ count ih => rw [window, List.length_cons, ih]

theorem getElem_window {offset count i : Nat} (h : i < (window data offset count).length) :
    (window data offset count)[i] = byte data (offset + i) := by
  induction count generalizing offset i with
  | zero => exact absurd h (Nat.not_lt_zero _)
  | succ count ih =>
    cases i with
    | zero => rfl
    | succ i =>
      simp only [window, List.getElem_cons_succ]
      rw [ih, Nat.add_assoc, Nat.add_comm 1 i]

/-- The start of a window is a shorter window. -/
theorem take_window {offset m n : Nat} (h : m ≤ n) :
    (window data offset n).take m = window data offset m := by
  apply List.ext_getElem
  · rw [List.length_take, length_window, length_window, Nat.min_eq_left h]
  · intro i hi hi'
    rw [List.getElem_take, getElem_window, getElem_window]

/-- Inside the data a window is a part of it. -/
theorem window_eq_extract {offset count : Nat} (h : offset + count ≤ data.size) :
    window data offset count = (data.extract offset (offset + count)).toList := by
  apply List.ext_getElem
  · simp only [length_window, Array.length_toList, Array.size_extract]
    omega
  · intro i hi hi'
    rw [length_window] at hi
    rw [getElem_window, Array.getElem_toList, Array.getElem_extract, byte,
      Array.getElem?_eq_getElem (by omega), Option.getD_some]

/-! ### Numbers and their bytes -/

/-- The lowest `count` bytes of a number, the lowest one first. -/
def bytesOf : Nat → Nat → List UInt8
  | 0, _ => []
  | count + 1, value => UInt8.ofNat value :: bytesOf count (value / 256)

theorem littleEndian_nil : Cursor.littleEndian [] = 0 := rfl

theorem littleEndian_cons (b : UInt8) (bytes : List UInt8) :
    Cursor.littleEndian (b :: bytes) = b.toNat + 256 * Cursor.littleEndian bytes := rfl

theorem littleEndian_lt (bytes : List UInt8) :
    Cursor.littleEndian bytes < 256 ^ bytes.length := by
  induction bytes with
  | nil => decide
  | cons b bytes ih =>
    have hb := b.toNat_lt
    rw [littleEndian_cons, List.length_cons, Nat.pow_succ]
    omega

/-- The lowest bytes of a number are the first of those that it was read from. -/
theorem bytesOf_littleEndian {count : Nat} {bytes : List UInt8} (h : count ≤ bytes.length) :
    bytesOf count (Cursor.littleEndian bytes) = bytes.take count := by
  induction count generalizing bytes with
  | zero => rfl
  | succ count ih =>
    cases bytes with
    | nil => exact absurd h (Nat.not_succ_le_zero _)
    | cons b bytes =>
      have hb := b.toNat_lt
      -- the lowest byte is the remainder, and the others have the quotient for their number
      have hlow : UInt8.ofNat (b.toNat + 256 * Cursor.littleEndian bytes) = b := by
        apply UInt8.toNat_inj.mp
        rw [UInt8.toNat_ofNat']
        omega
      have hhigh : (b.toNat + 256 * Cursor.littleEndian bytes) / 256 =
          Cursor.littleEndian bytes := by omega
      rw [littleEndian_cons, bytesOf, hlow, hhigh, ih (Nat.le_of_succ_le_succ h),
        List.take_succ_cons]

/-- Bytes above the lowest `count` do not matter. -/
theorem bytesOf_mod (count value : Nat) :
    bytesOf count (value % 256 ^ count) = bytesOf count value := by
  induction count generalizing value with
  | zero => rfl
  | succ count ih =>
    have hlow : UInt8.ofNat (value % 256 ^ (count + 1)) = UInt8.ofNat value := by
      apply UInt8.toNat_inj.mp
      rw [UInt8.toNat_ofNat', UInt8.toNat_ofNat', Nat.pow_succ, Nat.mul_comm]
      exact Nat.mod_mul_right_mod ..
    have hhigh : value % 256 ^ (count + 1) / 256 = value / 256 % 256 ^ count := by
      rw [Nat.pow_succ, Nat.mul_comm, Nat.mod_mul_right_div_self]
    rw [bytesOf, bytesOf, hlow, hhigh, ih]

/-- A number is read back from its bytes, as far as they go. -/
theorem littleEndian_bytesOf (count value : Nat) :
    Cursor.littleEndian (bytesOf count value) = value % 256 ^ count := by
  induction count generalizing value with
  | zero => exact (Nat.mod_one value).symm
  | succ count ih =>
    have hlow : (UInt8.ofNat value).toNat = value % 256 := UInt8.toNat_ofNat'
    rw [bytesOf, littleEndian_cons, ih, hlow, Nat.pow_succ', Nat.mod_mul]

/-- The bytes of a number are its lowest ones and those of what stands above them. -/
theorem bytesOf_add (low high value : Nat) :
    bytesOf (low + high) value = bytesOf low value ++ bytesOf high (value / 256 ^ low) := by
  induction low generalizing value with
  | zero => rw [Nat.zero_add, Nat.pow_zero, Nat.div_one]; rfl
  | succ low ih =>
    rw [Nat.succ_add, bytesOf, bytesOf, ih, Nat.div_div_eq_div_mul, ← Nat.pow_succ']
    rfl

@[simp] theorem length_bytesOf (count value : Nat) : (bytesOf count value).length = count := by
  induction count generalizing value with
  | zero => rfl
  | succ count ih => rw [bytesOf, List.length_cons, ih]

/-! ### Prefetched words -/

theorem toNat_word_eq (offset : Nat) :
    (word data offset).toNat = Cursor.littleEndian (window data offset 4) := by
  have hlt := littleEndian_lt (window data offset 4)
  rw [length_window] at hlt
  rw [word, BitVec.toNat_ofNat]
  exact Nat.mod_eq_of_lt hlt

theorem halfword_lt (offset : Nat) : halfword data offset < 2 ^ 16 := by
  have hlt := littleEndian_lt (window data offset 2)
  rwa [length_window] at hlt

/-- A prefetched word is two halfwords, the one at its offset below the next one. -/
theorem toNat_word (offset : Nat) :
    (word data offset).toNat = halfword data offset + 2 ^ 16 * halfword data (offset + 2) := by
  rw [toNat_word_eq]
  simp only [halfword, window, littleEndian_nil, littleEndian_cons, Nat.add_assoc, Nat.reduceAdd]
  omega

/-- The high half of a prefetched word is the low half of the one that is prefetched behind it. -/
theorem unsignedField_high (offset : Nat) :
    (word data offset).unsignedField 16 16 = (word data (offset + 2)).unsignedField 0 16 := by
  have hlt := halfword_lt data offset
  have hlt' := halfword_lt data (offset + 2)
  apply BitVec.eq_of_toNat_eq
  rw [Word.toNat_unsignedField _ (by decide), Word.toNat_unsignedField _ (by decide), toNat_word,
    toNat_word]
  omega

end Code

/-- Past the end of the data a cursor sees zeroes. -/
theorem Cursor.peekPadded_eq (c : Cursor) (count : Nat) :
    c.peekPadded count = Code.window c.data c.offset count := by
  have hle := c.offset_le
  apply List.ext_getElem
  · simp only [peekPadded, List.rightpad, List.length_append, List.length_replicate, length_peek,
      remaining, Code.length_window]
    omega
  · intro i hi hi'
    rw [Code.getElem_window, Code.byte]
    -- inside the data the byte is looked ahead at, behind its end it is padding
    simp only [peekPadded, List.rightpad, List.getElem_append]
    split
    case isTrue hin =>
      simp only [length_peek, remaining] at hin
      simp only [peek, Array.getElem_toList, Array.getElem_extract]
      rw [Array.getElem?_eq_getElem (by omega), Option.getD_some]
    case isFalse hout =>
      simp only [length_peek, remaining] at hout
      rw [Code.length_window] at hi'
      rw [List.getElem_replicate, Array.getElem?_eq_none (by omega), Option.getD_none]

theorem Cursor.peekWord_eq (c : Cursor) : c.peekWord = Code.word c.data c.offset := by
  rw [peekWord, peekPadded_eq, Code.word]

namespace Encoding

/-- The bytes of the code, the lowest one first. -/
def bytes : Encoding → List UInt8
  | halfword value => Code.bytesOf 2 value.toNat
  | word value => Code.bytesOf 4 value.toNat

/-- The value as a word, with zeroes above a halfword. -/
def code : Encoding → Word
  | halfword value => value.setWidth 32
  | word value => value

/-- An encoding is cut out of its own code. -/
theorem ofPrefetch_code (e : Encoding) : ofPrefetch e.code e.width = e := by
  cases e with
  | halfword value =>
    have hcut : (value.setWidth 32).setWidth 16 = value := by
      apply BitVec.eq_of_toNat_eq
      have hlt := value.isLt
      rw [BitVec.toNat_setWidth, BitVec.toNat_setWidth]
      omega
    exact congrArg halfword hcut
  | word value => rfl

@[simp] theorem length_bytes (e : Encoding) : e.bytes.length = e.width.bytes := by
  cases e <;> exact Code.length_bytesOf ..

/-- The bytes of an encoding make up its value again. -/
theorem littleEndian_bytes (e : Encoding) : Cursor.littleEndian e.bytes = e.code.toNat := by
  cases e with
  | halfword value =>
    have hlt := value.isLt
    rw [bytes, Code.littleEndian_bytesOf, code, BitVec.toNat_setWidth]
    omega
  | word value =>
    rw [bytes, Code.littleEndian_bytesOf]
    exact Nat.mod_eq_of_lt value.isLt

/-- The encoding of an instruction is made of the bytes at its offset. -/
theorem bytes_ofPrefetch (data : Array UInt8) (offset : Nat) (width : Width) :
    (ofPrefetch (Code.word data offset) width).bytes = Code.window data offset width.bytes := by
  cases width with
  | narrow =>
    rw [ofPrefetch, bytes, BitVec.toNat_setWidth, Code.toNat_word_eq]
    rw [show 2 ^ 16 = 256 ^ 2 from rfl, Code.bytesOf_mod,
      Code.bytesOf_littleEndian (by simp), Code.take_window _ (by decide)]
    rfl
  | wide =>
    rw [ofPrefetch, bytes, Code.toNat_word_eq, Code.bytesOf_littleEndian (by simp),
      Code.take_window _ (by decide)]
    rfl

end Encoding

end ArmListing
