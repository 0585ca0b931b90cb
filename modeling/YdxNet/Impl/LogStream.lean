import YdxNet.Impl.StringPiece

/-!
# `log_stream.h`, `log_stream.cpp`

Texts and numbers are written into an array of a fixed size. A text is copied
when it is shorter than the room, which `append` tests; a number is written where
the next byte goes, by `convert`, which knows nothing of the array. What is
undefined, a byte written or a position outside of the array, is `none` here.

`convert` is a template over the integer types; `Integral` is what it uses of them.
-/

namespace Ydx

/-- `kSmallBuffer`. -/
def kSmallBuffer : Nat := 4000

/-- `kLargeBuffer`. -/
def kLargeBuffer : Nat := 4000 * 1000

/-- `template<int SIZE> class FixedBuffer`. -/
structure FixedBuffer (SIZE : Nat) where
  data_ : List Byte
  /-- `cur_ - data_`. -/
  cur_ : Nat
  length_data : data_.length = SIZE
  cur_le : cur_ ≤ SIZE

namespace FixedBuffer

variable {SIZE : Nat}

/-- The constructor, in memory that holds `mem`. -/
def new (SIZE : Nat) (mem : Nat → Byte) : FixedBuffer SIZE where
  data_ := (List.range SIZE).map mem
  cur_ := 0
  length_data := by rw [List.length_map, List.length_range]
  cur_le := Nat.zero_le SIZE

/-- `avail()`. -/
def avail (b : FixedBuffer SIZE) : Nat := SIZE - b.cur_

/-- `append(buf, len)`: all of it, or nothing. -/
def append (b : FixedBuffer SIZE) (buf : List Byte) : FixedBuffer SIZE :=
  if h : b.avail > buf.length then
    { data_ := memcpy b.data_ b.cur_ buf
      cur_ := b.cur_ + buf.length
      length_data := by rw [length_memcpy, b.length_data]
      cur_le := by
        unfold avail at h
        omega }
  else b

/-- `reset()`. -/
def reset (b : FixedBuffer SIZE) : FixedBuffer SIZE := { b with cur_ := 0, cur_le := Nat.zero_le SIZE }

/-- `bzero()`. -/
def bzero (b : FixedBuffer SIZE) : FixedBuffer SIZE :=
  { b with data_ := List.replicate SIZE 0, length_data := List.length_replicate }

/-- The `length()` bytes at `data()`. -/
def content (b : FixedBuffer SIZE) : List Byte := b.data_.take b.cur_

/-- Bytes are written from `current()` on. -/
def write (b : FixedBuffer SIZE) (bytes : List Byte) : Option (FixedBuffer SIZE) :=
  if b.cur_ + bytes.length ≤ SIZE then
    some { b with data_ := memcpy b.data_ b.cur_ bytes, length_data := by rw [length_memcpy, b.length_data] }
  else none

/-- `add(len)`. -/
def add (b : FixedBuffer SIZE) (len : Nat) : Option (FixedBuffer SIZE) :=
  if h : b.cur_ + len ≤ SIZE then some { b with cur_ := b.cur_ + len, cur_le := h } else none

/-- `append(buf, len)`, where more than `len` bytes may lie at `buf`. -/
def appendLen (b : FixedBuffer SIZE) (buf : List Byte) (len : Nat) : Option (FixedBuffer SIZE) :=
  if b.avail > len then (b.write (buf.take len)).bind fun b => b.add len else some b

end FixedBuffer

/-! ## Numbers -/

/-- An integer type, with the operations of `convert`; `/` and `%` truncate. -/
class Integral (T : Type) where
  /-- The number. -/
  val : T → Int
  /-- `i / 10`. -/
  div10 : T → T
  /-- `i % 10`. -/
  mod10 : T → T
  val_div10 : ∀ i, val (div10 i) = (val i).tdiv 10
  val_mod10 : ∀ i, val (mod10 i) = (val i).tmod 10

instance : Integral Int32 where
  val := Int32.toInt
  div10 i := i / 10
  mod10 i := i % 10
  val_div10 i := Int32.toInt_div_of_ne_right i 10 (by decide)
  val_mod10 i := Int32.toInt_mod i 10

instance : Integral Int64 where
  val := Int64.toInt
  div10 i := i / 10
  mod10 i := i % 10
  val_div10 i := Int64.toInt_div_of_ne_right i 10 (by decide)
  val_mod10 i := Int64.toInt_mod i 10

instance : Integral UInt32 where
  val i := i.toNat
  div10 i := i / 10
  mod10 i := i % 10
  val_div10 i := by
    rw [UInt32.toNat_div]
    exact Int.ofNat_tdiv i.toNat 10
  val_mod10 i := by
    rw [UInt32.toNat_mod]
    exact Int.ofNat_tmod i.toNat 10

instance : Integral UInt64 where
  val i := i.toNat
  div10 i := i / 10
  mod10 i := i % 10
  val_div10 i := by
    rw [UInt64.toNat_div]
    exact Int.ofNat_tdiv i.toNat 10
  val_mod10 i := by
    rw [UInt64.toNat_mod]
    exact Int.ofNat_tmod i.toNat 10

/-- `digits`. -/
def digits : List Byte := textBytes "9876543210123456789"

/-- `zero[lsd]`, where `zero` is `digits + 9`. -/
def zero (lsd : Int) : Byte := digits.getD (9 + lsd).toNat 0

/-- `digitsHex`. -/
def digitsHex : List Byte := textBytes "0123456789ABCDEF"

/-- What `convert` and `convertHex` leave at `buf`, and what they return. -/
structure Formatted where
  bytes : List Byte
  len : Nat
  deriving DecidableEq, Repr

open Integral in
theorem natAbs_div10_lt {T : Type} [Integral T] {i : T} (h : val (div10 i) ≠ 0) :
    (val (div10 i)).natAbs < (val i).natAbs := by
  rw [val_div10] at h ⊢
  rw [Int.natAbs_tdiv]
  have h0 : (val i).natAbs ≠ 0 := fun h0 => h (by rw [Int.natAbs_eq_zero.mp h0, Int.zero_tdiv])
  exact Nat.div_lt_self (by omega) (by decide)

open Integral in
/-- The loop of `convert`, with the bytes from `buf` up to `p`. -/
def convertLoop {T : Type} [Integral T] (i : T) (p : List Byte) : List Byte :=
  let lsd := val (mod10 i)
  let p := p ++ [zero lsd]
  if _h : val (div10 i) ≠ 0 then convertLoop (div10 i) p else p
termination_by (val i).natAbs
decreasing_by exact natAbs_div10_lt _h

/-- `convert(buf, value)`. -/
def convert {T : Type} [Integral T] (value : T) : Formatted :=
  let p := convertLoop value []
  let p := if Integral.val value < 0 then p ++ textBytes "-" else p
  ⟨p.reverse ++ [0], p.length⟩

/-- The loop of `convertHex`. -/
def convertHexLoop (i : UInt64) (p : List Byte) : List Byte :=
  let lsd := (i % 16).toNat
  let p := p ++ [digitsHex.getD lsd 0]
  if _h : i / 16 ≠ 0 then convertHexLoop (i / 16) p else p
termination_by i.toNat
decreasing_by
  have h0 : i.toNat ≠ 0 := by
    intro h0
    refine _h (UInt64.toNat_inj.mp ?_)
    rw [UInt64.toNat_div, h0]
    rfl
  rw [UInt64.toNat_div]
  exact Nat.div_lt_self (by omega) (by decide)

/-- `convertHex(buf, value)`. -/
def convertHex (value : UInt64) : Formatted :=
  let p := convertHexLoop value []
  ⟨p.reverse ++ [0], p.length⟩

/-! ## The stream -/

/-- `class LogStream`. -/
structure LogStream where
  buffer_ : FixedBuffer kSmallBuffer

/-- The overloads of `operator<<` that are defined, and `append`. -/
inductive Insertion
  | bool (v : Bool)
  | char (v : Byte)
  /-- `const char*` and `const unsigned char*`. -/
  | cstr (str : Option (List Byte))
  | string (v : List Byte)
  | stringPiece (v : StringPiece)
  | buffer (v : FixedBuffer kSmallBuffer)
  | short (v : Int16)
  | ushort (v : UInt16)
  | int (v : Int32)
  | uint (v : UInt32)
  | long (v : Int64)
  | ulonglong (v : UInt64)
  /-- `const void*`. -/
  | ptr (p : UInt64)
  | append (data : List Byte) (len : Int32)

namespace LogStream

/-- `kMaxNumericSize`. -/
def kMaxNumericSize : Nat := 32

/-- The constructor. -/
def new (mem : Nat → Byte) : LogStream := ⟨.new kSmallBuffer mem⟩

/-- `buffer_.append(buf, len)`. -/
def appendLen (s : LogStream) (buf : List Byte) (len : Nat) : Option LogStream :=
  (s.buffer_.appendLen buf len).map LogStream.mk

/-- `convert` has been called with `current()`, and `add` with what it returns. -/
def format (s : LogStream) (r : Formatted) : Option LogStream :=
  (s.buffer_.write r.bytes).bind fun b => (b.add r.len).map LogStream.mk

/-- `formatInteger(v)`. -/
def formatInteger {T : Type} [Integral T] (s : LogStream) (v : T) : Option LogStream :=
  if s.buffer_.avail ≥ kMaxNumericSize then s.format (convert v) else some s

/-- `operator<<(const void*)`: two characters in front of what `convertHex` writes. -/
def formatPtr (s : LogStream) (p : UInt64) : Option LogStream :=
  if s.buffer_.avail ≥ kMaxNumericSize then
    let r := convertHex p
    s.format ⟨textBytes "0x" ++ r.bytes, r.len + 2⟩
  else some s

/-- `*this << v`, or `append(data, len)`. -/
def insert (s : LogStream) : Insertion → Option LogStream
  | .bool v => s.appendLen (textBytes (if v then "1" else "0")) 1
  | .char v => s.appendLen [v] 1
  | .cstr (some str) => s.appendLen str (strlen str)
  | .cstr none => s.appendLen (textBytes "(null)") 6
  | .string v => s.appendLen v v.length
  | .stringPiece v => s.appendLen v.ptr_ (sizeT v.length_).toNat
  | .buffer v => s.appendLen v.data_ (sizeT (lenInt v.cur_)).toNat
  | .short v => s.formatInteger v.toInt32
  | .ushort v => s.formatInteger v.toUInt32
  | .int v => s.formatInteger v
  | .uint v => s.formatInteger v
  | .long v => s.formatInteger v
  | .ulonglong v => s.formatInteger v
  | .ptr p => s.formatPtr p
  | .append data len => s.appendLen data (sizeT len).toNat

/-- A chain of insertions. -/
def insertAll (s : LogStream) : List Insertion → Option LogStream
  | [] => some s
  | x :: xs => (s.insert x).bind fun s => s.insertAll xs

end LogStream

end Ydx
