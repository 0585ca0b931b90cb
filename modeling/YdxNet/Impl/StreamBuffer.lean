import YdxNet.Framework.Bytes

/-!
# `stream_buffer.h`, `stream_buffer.cpp`

The ring between the network side and the application: `size_ + 1` bytes
obtained from `malloc`, with the offsets at which the next byte goes in and
out. Offsets and counts are `uint64_t`, lengths of messages are `int`. A
pointer argument is `none` for `NULL`, else the memory it points to; a
destination is returned as it is after the call. What `printf` writes is left
out.

`alloc(UINT64_MAX)` asks `malloc` for no bytes, and from then on the remainders by
`size_ + 1` divide by zero, which ends the program. `Call.Defined` says that a
call takes none of them, and copies nothing to or from such a block.
-/

namespace Ydx

/-- `sizeof(int)`. -/
def sizeofInt : UInt64 := 4

/-- `MIN(a, b)`. -/
def MIN (a b : UInt64) : UInt64 := if a > b then b else a

/-- `class StreamBuffer`. -/
structure StreamBuffer where
  /-- The offset the next byte is put at. -/
  in_ : UInt64
  /-- The offset of the oldest byte. -/
  out_ : UInt64
  /-- The size asked for; the block has one byte more. -/
  size_ : UInt64
  /-- The block, `none` for `NULL`. -/
  data_ : Option (List Byte)
  deriving DecidableEq, Repr

namespace StreamBuffer

/-- The constructor. -/
def new : StreamBuffer := ⟨0, 0, 0, none⟩

/-- `alloc(size)`, with `malloc` giving a block of the length asked for or
`NULL`: the return value and the buffer. -/
def alloc (malloc : Nat → Option (List Byte)) (b : StreamBuffer) (size : UInt64) : Int32 × StreamBuffer :=
  let data := malloc (size + 1).toNat
  (if data = none then -1 else 0, { b with data_ := data, size_ := size })

/-- `clear()`. -/
def clear (b : StreamBuffer) : StreamBuffer := { b with in_ := 0, out_ := 0 }

/-- `used()`: the difference of the offsets as an `int64_t`, with `size_`
added to it when it is negative. -/
def used (b : StreamBuffer) : UInt64 :=
  let n : Int64 := (b.in_ - b.out_).toInt64
  if n < 0 then n.toUInt64 + b.size_ else n.toUInt64

/-- `unused()`. -/
def unused (b : StreamBuffer) : UInt64 := b.size_ - b.used

/-- `copy_in(data, len)`: two copies, up to the end of the block and from its
start. -/
def copyIn (b : StreamBuffer) (data : List Byte) (len : UInt64) : StreamBuffer :=
  let l := MIN len ((b.size_ + 1) - b.in_)
  { b with data_ := b.data_.map fun d =>
      memcpy (memcpy d b.in_.toNat (data.take l.toNat)) 0 ((data.drop l.toNat).take (len - l).toNat) }

/-- `copy_out(buf, len)`: the memory at `buf` afterwards. -/
def copyOut (b : StreamBuffer) (buf : List Byte) (len : UInt64) : List Byte :=
  let l := MIN len ((b.size_ + 1) - b.out_)
  let d := b.data_.getD []
  memcpy (memcpy buf 0 ((d.drop b.out_.toNat).take l.toNat)) l.toNat (d.take (len - l).toNat)

/-- `copy_in_must(data, len)`: all of it, or nothing. -/
def copyInMust (b : StreamBuffer) (data : Option (List Byte)) (len : UInt64) : UInt64 × StreamBuffer :=
  let l := b.unused
  match data with
  | none => (0, b)
  | some data =>
    if len > l then (0, b)
    else (len, { b.copyIn data len with in_ := (b.in_ + len) % (b.size_ + 1) })

/-- `copy_out_must(buf, len)`: the return value, the memory at `buf` and the
buffer. -/
def copyOutMust (b : StreamBuffer) (buf : Option (List Byte)) (len : UInt64) :
    UInt64 × Option (List Byte) × StreamBuffer :=
  let l := b.used
  match buf with
  | none => (0, none, b)
  | some mem =>
    if len > l then (0, some mem, b)
    else (len, some (b.copyOut mem len), { b with out_ := (b.out_ + len) % (b.size_ + 1) })

/-- `peek_out_must(buf, len)`: the return value and the memory at `buf`. -/
def peekOutMust (b : StreamBuffer) (buf : Option (List Byte)) (len : UInt64) :
    UInt64 × Option (List Byte) :=
  let l := b.used
  if len > l then (0, buf) else (len, buf.map fun mem => b.copyOut mem len)

/-- `has_writen(len)`. -/
def hasWriten (b : StreamBuffer) (len : UInt64) : Bool × StreamBuffer :=
  if len > b.unused then (false, b) else (true, { b with in_ := (b.in_ + len) % (b.size_ + 1) })

/-- `has_read(len)`. -/
def hasRead (b : StreamBuffer) (len : UInt64) : Bool × StreamBuffer :=
  if len > b.used then (false, b) else (true, { b with out_ := (b.out_ + len) % (b.size_ + 1) })

/-- `write_buffer(buf, len)`: the length, then the bytes at `buf`. -/
def writeBuffer (b : StreamBuffer) (buf : Option (List Byte)) (len : Int32) : Bool × StreamBuffer :=
  let totb := sizeT len + sizeofInt
  if b.unused < totb then (false, b)
  else
    let r₁ := b.copyInMust (some (int32Bytes len)) sizeofInt
    let r₂ := r₁.2.copyInMust buf (sizeT len)
    (if r₁.1 + r₂.1 ≠ totb then false else true, r₂.2)

/-- What `read_buffer(buf, len)` leaves behind. -/
structure ReadResult where
  ret : Bool
  /-- The memory at `buf`. -/
  buf : Option (List Byte)
  /-- The reference argument `len`. -/
  len : Int32
  sb : StreamBuffer
  deriving DecidableEq, Repr

/-- `read_buffer(buf, len)`: the length is looked at before anything is taken
out. -/
def readBuffer (b : StreamBuffer) (buf : Option (List Byte)) (len : Int32) : ReadResult :=
  let p := b.peekOutMust (some (int32Bytes len)) sizeofInt
  if p.1 = 0 then ⟨false, buf, 0, b⟩
  else
    let len := int32OfBytes (p.2.getD [])
    let totb := sizeT len + sizeofInt
    if b.used < totb then ⟨false, buf, 0, b⟩
    else
      let h := b.hasRead sizeofInt
      let outb := if h.1 then sizeofInt else 0
      let r := h.2.copyOutMust buf (sizeT len)
      ⟨if outb + r.1 ≠ totb then false else true, r.2.1, len, r.2.2⟩

/-- A call of the public interface, less `alloc`. -/
inductive Call
  | clear
  | copyInMust (data : Option (List Byte)) (len : UInt64)
  | copyOutMust (buf : Option (List Byte)) (len : UInt64)
  | peekOutMust (buf : Option (List Byte)) (len : UInt64)
  | hasWriten (len : UInt64)
  | hasRead (len : UInt64)
  | writeBuffer (buf : Option (List Byte)) (len : Int32)
  | readBuffer (buf : Option (List Byte)) (len : Int32)
  deriving DecidableEq, Repr

/-- The buffer after the call. -/
def Call.apply (b : StreamBuffer) : Call → StreamBuffer
  | .clear => b.clear
  | .copyInMust data len => (b.copyInMust data len).2
  | .copyOutMust buf len => (b.copyOutMust buf len).2.2
  | .peekOutMust .. => b
  | .hasWriten len => (b.hasWriten len).2
  | .hasRead len => (b.hasRead len).2
  | .writeBuffer buf len => (b.writeBuffer buf len).2
  | .readBuffer buf len => (b.readBuffer buf len).sb

/-- The call does not divide by zero, nor use a block of no bytes. -/
def Call.Defined (b : StreamBuffer) : Call → Prop
  | .clear => True
  | .peekOutMust buf len => buf ≠ none → len ≤ b.used → len ≠ 0 → b.size_ + 1 ≠ 0
  | .copyInMust data len => data ≠ none → len ≤ b.unused → b.size_ + 1 ≠ 0
  | .copyOutMust buf len => buf ≠ none → len ≤ b.used → b.size_ + 1 ≠ 0
  | .hasWriten len => len ≤ b.unused → b.size_ + 1 ≠ 0
  | .hasRead len => len ≤ b.used → b.size_ + 1 ≠ 0
  | .writeBuffer buf len =>
    ¬ b.unused < sizeT len + sizeofInt →
      (sizeofInt ≤ b.unused → b.size_ + 1 ≠ 0) ∧ (buf ≠ none → sizeT len ≤ b.unused → b.size_ + 1 ≠ 0)
  | .readBuffer .. => sizeofInt ≤ b.used → b.size_ + 1 ≠ 0

instance (b : StreamBuffer) : ∀ c : Call, Decidable (c.Defined b)
  | .clear => inferInstanceAs (Decidable True)
  | .peekOutMust .. => inferInstanceAs (Decidable (_ → _ → _ → _))
  | .copyInMust .. | .copyOutMust .. => inferInstanceAs (Decidable (_ → _ → _))
  | .hasWriten _ | .hasRead _ | .readBuffer .. => inferInstanceAs (Decidable (_ → _))
  | .writeBuffer .. => inferInstanceAs (Decidable (_ → (_ → _) ∧ (_ → _ → _)))

end StreamBuffer

end Ydx
