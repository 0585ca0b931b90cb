import YdxNet.Impl.StreamBuffer

/-!
# `stream_buffer.cpp`, with checks

The operations of `StreamBuffer` once more, each giving nothing where the code
would go wrong: where a range of the block that a `memcpy` reads or writes is not
inside the block, where an offset plus a length wraps around, and where more bytes
are counted than the ring has room for.
-/

namespace Ydx.StreamBuffer.Checked

/-- The `n` bytes of the block from `off` on are allocated. -/
def Allocated (b : StreamBuffer) (off n : UInt64) : Prop :=
  ∃ d, b.data_ = some d ∧ d.length = b.size_.toNat + 1 ∧ off.toNat + n.toNat ≤ d.length

instance (b : StreamBuffer) (off n : UInt64) : Decidable (Allocated b off n) :=
  match h : b.data_ with
  | none => .isFalse fun ⟨_, hd, _⟩ => by
      rw [h] at hd
      cases hd
  | some d => decidable_of_iff (d.length = b.size_.toNat + 1 ∧ off.toNat + n.toNat ≤ d.length)
      ⟨fun hn => ⟨d, h, hn⟩, fun ⟨e, he, hn⟩ => by
        rw [h, Option.some.injEq] at he
        rwa [he]⟩

/-- `used()`. -/
def used (b : StreamBuffer) : Option UInt64 := if b.used ≤ b.size_ then some b.used else none

/-- `unused()`: the difference must not be negative. -/
def unused (b : StreamBuffer) : Option UInt64 := (used b).map fun u => b.size_ - u

/-- `copy_in(data, len)`. -/
def copyIn (b : StreamBuffer) (data : List Byte) (len : UInt64) : Option StreamBuffer :=
  let l := MIN len ((b.size_ + 1) - b.in_)
  if Allocated b b.in_ l ∧ Allocated b 0 (len - l) then some (b.copyIn data len) else none

/-- `copy_out(buf, len)`. -/
def copyOut (b : StreamBuffer) (buf : List Byte) (len : UInt64) : Option (List Byte) :=
  let l := MIN len ((b.size_ + 1) - b.out_)
  if Allocated b b.out_ l ∧ Allocated b 0 (len - l) then some (b.copyOut buf len) else none

/-- `(off + len) % (size_ + 1)`, where the sum must not wrap around. -/
def advance (b : StreamBuffer) (off len : UInt64) : Option UInt64 :=
  if off.toNat + len.toNat < 2 ^ 64 then some ((off + len) % (b.size_ + 1)) else none

/-- `copy_in_must(data, len)`. -/
def copyInMust (b : StreamBuffer) (data : Option (List Byte)) (len : UInt64) : Option (UInt64 × StreamBuffer) := do
  let l ← unused b
  match data with
  | none => some (0, b)
  | some data =>
    if len > l then some (0, b)
    else
      let b ← copyIn b data len
      let i ← advance b b.in_ len
      some (len, { b with in_ := i })

/-- `copy_out_must(buf, len)`. -/
def copyOutMust (b : StreamBuffer) (buf : Option (List Byte)) (len : UInt64) :
    Option (UInt64 × Option (List Byte) × StreamBuffer) := do
  let l ← used b
  match buf with
  | none => some (0, none, b)
  | some mem =>
    if len > l then some (0, some mem, b)
    else
      let m ← copyOut b mem len
      let o ← advance b b.out_ len
      some (len, some m, { b with out_ := o })

/-- `peek_out_must(buf, len)`. -/
def peekOutMust (b : StreamBuffer) (buf : Option (List Byte)) (len : UInt64) : Option (UInt64 × Option (List Byte)) := do
  let l ← used b
  if len > l then some (0, buf)
  else
    match buf with
    | none => some (len, none)
    | some mem => do
      let m ← copyOut b mem len
      some (len, some m)

/-- `has_writen(len)`. -/
def hasWriten (b : StreamBuffer) (len : UInt64) : Option (Bool × StreamBuffer) := do
  let l ← unused b
  if len > l then some (false, b)
  else
    let i ← advance b b.in_ len
    some (true, { b with in_ := i })

/-- `has_read(len)`. -/
def hasRead (b : StreamBuffer) (len : UInt64) : Option (Bool × StreamBuffer) := do
  let l ← used b
  if len > l then some (false, b)
  else
    let o ← advance b b.out_ len
    some (true, { b with out_ := o })

/-- `write_buffer(buf, len)`. -/
def writeBuffer (b : StreamBuffer) (buf : Option (List Byte)) (len : Int32) : Option (Bool × StreamBuffer) := do
  let totb := sizeT len + sizeofInt
  let l ← unused b
  if l < totb then some (false, b)
  else
    let r₁ ← copyInMust b (some (int32Bytes len)) sizeofInt
    let r₂ ← copyInMust r₁.2 buf (sizeT len)
    some (if r₁.1 + r₂.1 ≠ totb then false else true, r₂.2)

/-- `read_buffer(buf, len)`. -/
def readBuffer (b : StreamBuffer) (buf : Option (List Byte)) (len : Int32) : Option ReadResult := do
  let p ← peekOutMust b (some (int32Bytes len)) sizeofInt
  if p.1 = 0 then some ⟨false, buf, 0, b⟩
  else
    let len := int32OfBytes (p.2.getD [])
    let totb := sizeT len + sizeofInt
    let l ← used b
    if l < totb then some ⟨false, buf, 0, b⟩
    else
      let h ← hasRead b sizeofInt
      let outb := if h.1 then sizeofInt else 0
      let r ← copyOutMust h.2 buf (sizeT len)
      some ⟨if outb + r.1 ≠ totb then false else true, r.2.1, len, r.2.2⟩

end Ydx.StreamBuffer.Checked
