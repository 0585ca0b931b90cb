import Mathlib.Data.List.Rotate
import Mathlib.Data.UInt

/-!
# Memory as lists: copies, and 32-bit integers in memory

A block of memory is the list of its cells. `memcpy` overwrites a range of a
block, and is described cell by cell (`memcpy_getElem?`). A 32-bit signed
integer is stored in four bytes, the least significant first
(`int32Bytes`, `int32OfBytes`), and read back unchanged
(`int32OfBytes_int32Bytes`).
-/

namespace Ydx

/-- A byte of memory. -/
abbrev Byte := UInt8

section Copy

variable {α : Type*}

/-- `memcpy(dst + off, src, src.length)`: the block `dst` with the cells from
`off` on overwritten by `src`. What does not fit the block is lost. -/
def memcpy (dst : List α) (off : Nat) (src : List α) : List α :=
  (dst.take off ++ src ++ dst.drop (off + src.length)).take dst.length

@[simp] theorem length_memcpy (dst : List α) (off : Nat) (src : List α) :
    (memcpy dst off src).length = dst.length := by
  simp only [memcpy, List.length_append, List.length_take, List.length_drop]
  omega

/-- A copy inside the block. -/
theorem memcpy_of_le {dst : List α} {off : Nat} {src : List α} (h : off + src.length ≤ dst.length) :
    memcpy dst off src = dst.take off ++ src ++ dst.drop (off + src.length) := by
  rw [memcpy, List.take_of_length_le]
  simp only [List.length_append, List.length_take, List.length_drop]
  omega

/-- A block after a copy inside it, cell by cell. -/
theorem memcpy_getElem? {dst : List α} {off : Nat} {src : List α} (h : off + src.length ≤ dst.length)
    (j : Nat) : (memcpy dst off src)[j]? =
      if off ≤ j ∧ j < off + src.length then src[j - off]? else dst[j]? := by
  have hl : (dst.take off).length = off := by rw [List.length_take]; omega
  simp only [memcpy_of_le h, List.append_assoc]
  by_cases h₁ : j < off
  · rw [List.getElem?_append_left (by omega), List.getElem?_take_of_lt h₁, if_neg (by omega)]
  · rw [List.getElem?_append_right (by omega), hl]
    by_cases h₂ : j < off + src.length
    · rw [List.getElem?_append_left (by omega), if_pos ⟨by omega, h₂⟩]
    · rw [List.getElem?_append_right (by omega), List.getElem?_drop, if_neg (by omega)]
      congr 1; omega

/-- A copy behind the end of a block. -/
theorem memcpy_of_length_le {dst : List α} {off : Nat} (h : dst.length ≤ off) (src : List α) :
    memcpy dst off src = dst := by
  rw [memcpy, List.take_of_length_le h, List.append_assoc, List.take_left]

/-- Copying over a whole block. -/
theorem memcpy_zero_of_ge {dst src : List α} (h : dst.length ≤ src.length) :
    memcpy dst 0 src = src.take dst.length := by
  rw [memcpy, List.take_zero, List.nil_append, List.take_append_of_le_length h]

/-- A copy right behind another one. -/
theorem memcpy_memcpy (dst xs ys : List α) :
    memcpy (memcpy dst 0 xs) xs.length ys = memcpy dst 0 (xs ++ ys) := by
  by_cases h : xs.length ≤ dst.length
  · rw [memcpy, length_memcpy, memcpy_of_le (by omega), memcpy]
    simp [List.drop_append, List.drop_of_length_le]
  · rw [memcpy_of_length_le (by rw [length_memcpy]; omega), memcpy_zero_of_ge (by omega),
      memcpy_zero_of_ge (by rw [List.length_append]; omega), List.take_append_of_le_length (by omega)]

end Copy

/-! ## 32-bit integers -/

/-- The four bytes of an `int` in memory, the least significant first. -/
def int32Bytes (n : Int32) : List Byte :=
  let u := n.toUInt32.toNat
  [UInt8.ofNat u, UInt8.ofNat (u / 2 ^ 8), UInt8.ofNat (u / 2 ^ 16), UInt8.ofNat (u / 2 ^ 24)]

/-- The `int` whose four bytes start a block. -/
def int32OfBytes (bs : List Byte) : Int32 :=
  (UInt32.ofNat ((bs.getD 0 0).toNat + 2 ^ 8 * (bs.getD 1 0).toNat + 2 ^ 16 * (bs.getD 2 0).toNat +
    2 ^ 24 * (bs.getD 3 0).toNat)).toInt32

@[simp] theorem length_int32Bytes (n : Int32) : (int32Bytes n).length = 4 := rfl

/-- An `int` stored and read back. -/
theorem int32OfBytes_int32Bytes (n : Int32) (rest : List Byte) :
    int32OfBytes (int32Bytes n ++ rest) = n := by
  have hu : n.toUInt32.toNat < 2 ^ 32 := n.toUInt32.toNat_lt
  have e : UInt32.ofNat n.toUInt32.toNat = n.toUInt32 := UInt32.ofNat_toNat
  simp only [int32OfBytes, int32Bytes, List.cons_append, List.nil_append, List.getD_cons_zero,
    List.getD_cons_succ, UInt8.toNat_ofNat']
  rw [show n.toUInt32.toNat % 2 ^ 8 + 2 ^ 8 * (n.toUInt32.toNat / 2 ^ 8 % 2 ^ 8) +
      2 ^ 16 * (n.toUInt32.toNat / 2 ^ 16 % 2 ^ 8) + 2 ^ 24 * (n.toUInt32.toNat / 2 ^ 24 % 2 ^ 8) =
      n.toUInt32.toNat by omega, e]
  exact Int32.toInt32_toUInt32 n

/-- Only the first four bytes of a block make up its `int`. -/
theorem int32OfBytes_take (bs : List Byte) : int32OfBytes (bs.take 4) = int32OfBytes bs := by
  simp [int32OfBytes, List.getD_eq_getElem?_getD]

/-! ## Texts -/

/-- `snprintf(buf, size, ...)`: the part of the text that goes before the NUL. -/
def snprintf (size : Nat) (text : String) : String := String.ofList (text.toList.take (size - 1))

/-- The bytes of a text. -/
def textBytes (text : String) : List Byte := text.toList.map fun c => UInt8.ofNat c.toNat

/-! ## Conversions between the integer types -/

/-- An `int` used where a `size_t` is expected: converted to 64 bits with its
sign, then taken modulo 2⁶⁴. -/
def sizeT (n : Int32) : UInt64 := n.toInt64.toUInt64

/-- The `int` of a length. -/
def lenInt (n : Nat) : Int32 := Int32.ofNat n

theorem toInt_lenInt {n : Nat} (h : n < 2 ^ 31) : (lenInt n).toInt = n := by
  rw [lenInt, Int32.toInt_ofNat_of_lt h]

theorem sizeT_of_nonneg {n : Int32} (h : 0 ≤ n.toInt) : (sizeT n).toNat = n.toInt.toNat := by
  have h64 : (0 : Int64) ≤ n.toInt64 := by
    rw [Int64.le_iff_toInt_le, Int32.toInt_toInt64]; exact h
  rw [sizeT, Int64.toNat_toUInt64_of_le h64, Int64.toNatClampNeg, Int32.toInt_toInt64]

theorem sizeT_lenInt {n : Nat} (h : n < 2 ^ 31) : (sizeT (lenInt n)).toNat = n := by
  rw [sizeT_of_nonneg (by rw [toInt_lenInt h]; omega), toInt_lenInt h, Int.toNat_natCast]

/-- A negative `int` is just below 2⁶⁴ as a `size_t`. -/
theorem sizeT_of_neg {n : Int32} (h : n.toInt < 0) : ((sizeT n).toNat : Int) = 2 ^ 64 + n.toInt := by
  have hb := n.le_toInt
  have hx := BitVec.toInt_eq_toNat_cond n.toInt64.toBitVec
  rw [show n.toInt64.toBitVec.toInt = n.toInt from Int32.toInt_toInt64 n] at hx
  show ((n.toInt64.toBitVec.toNat : Nat) : Int) = 2 ^ 64 + n.toInt
  split at hx <;> omega

/-- A 64-bit word is negative as an `int64_t` when its top bit is set. -/
theorem toInt64_neg_iff (x : UInt64) : x.toInt64 < 0 ↔ 2 ^ 63 ≤ x.toNat := by
  rw [Int64.lt_iff_toInt_lt, show (0 : Int64).toInt = 0 from rfl,
    show x.toInt64.toInt = x.toBitVec.toInt from rfl, BitVec.toInt_eq_toNat_cond]
  have := x.toNat_lt
  rw [show x.toBitVec.toNat = x.toNat from rfl]
  split <;> omega

/-- A 32-bit word taken as an `int`. -/
theorem toInt_toInt32 (x : UInt32) :
    x.toInt32.toInt = if x.toNat < 2 ^ 31 then (x.toNat : Int) else x.toNat - 2 ^ 32 := by
  rw [show x.toInt32.toInt = x.toBitVec.toInt from rfl, BitVec.toInt_eq_toNat_cond,
    show x.toBitVec.toNat = x.toNat from rfl]
  split <;> split <;> omega

end Ydx
