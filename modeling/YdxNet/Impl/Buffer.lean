import YdxNet.Impl.StringPiece

/-!
# `buffer.h`, `buffer.cpp`

The byte buffer of a connection: a vector, and the indices between which the
readable bytes lie. A pointer into the vector is the part of it behind the
index. Sizes are natural numbers; an `int` appears where `StringPiece` keeps
its length in one. The result of `readv` is an argument: the bytes it
delivered, or the error.
-/

namespace Ydx

/-- What `readv` did: the bytes it delivered, or `errno`. -/
inductive ReadvResult
  | error (errno : Nat)
  | ok (bytes : List Byte)
  deriving DecidableEq, Repr

/-- `class Buffer`. -/
structure Buffer where
  buffer_ : List Byte
  reader_index_ : Nat
  writer_index_ : Nat
  deriving DecidableEq, Repr

namespace Buffer

/-- `head_space`. -/
def headSpace : Nat := 0

/-- `init_space`. -/
def initSpace : Nat := 2048

/-- The constructor. -/
def new (initSize : Nat) : Buffer := ⟨List.replicate (headSpace + initSize) 0, headSpace, headSpace⟩

/-- `readable_bytes()`. -/
def readableBytes (b : Buffer) : Nat := b.writer_index_ - b.reader_index_

/-- `writeable_bytes()`. -/
def writeableBytes (b : Buffer) : Nat := b.buffer_.length - b.writer_index_

/-- `prepend_bytes()`. -/
def prependBytes (b : Buffer) : Nat := b.reader_index_

/-- `peek()`. -/
def peek (b : Buffer) : List Byte := b.buffer_.drop b.reader_index_

/-- `begin_write()`. -/
def beginWrite (b : Buffer) : List Byte := b.buffer_.drop b.writer_index_

/-- `retrieve_all()`. -/
def retrieveAll (b : Buffer) : Buffer := { b with reader_index_ := headSpace, writer_index_ := headSpace }

/-- `retrieve(len)`. -/
def retrieve (b : Buffer) (len : Nat) : Buffer :=
  if len < b.readableBytes then { b with reader_index_ := b.reader_index_ + len } else b.retrieveAll

/-- `retrieve_string(len)`: the string and the buffer. -/
def retrieveString (b : Buffer) (len : Nat) : List Byte × Buffer := (b.peek.take len, b.retrieve len)

/-- `to_string_piece()`: `readable_bytes()` is cast to an `int`. -/
def toStringPiece (b : Buffer) : StringPiece := ⟨b.peek, lenInt b.readableBytes⟩

/-- `has_written(len)`, for `len <= writeable_bytes()`. -/
def hasWritten (b : Buffer) (len : Nat) : Buffer := { b with writer_index_ := b.writer_index_ + len }

/-- `unwrite(len)`, for `len <= readable_bytes()`. -/
def unwrite (b : Buffer) (len : Nat) : Buffer := { b with writer_index_ := b.writer_index_ - len }

/-- `buffer_.resize(n)`. -/
def resize (d : List Byte) (n : Nat) : List Byte := d.take n ++ List.replicate (n - d.length) 0

/-- `make_space(len)`: the vector grows, or the readable bytes slide to its
start. -/
def makeSpace (b : Buffer) (len : Nat) : Buffer :=
  if b.writeableBytes + b.prependBytes < len + headSpace then
    { b with buffer_ := resize b.buffer_ (b.writer_index_ + len) }
  else
    let readableLen := b.readableBytes
    { buffer_ := memcpy b.buffer_ headSpace (b.peek.take readableLen)
      reader_index_ := headSpace
      writer_index_ := headSpace + readableLen }

/-- `ensure_writeable_bytes(len)`. -/
def ensureWriteableBytes (b : Buffer) (len : Nat) : Buffer :=
  if b.writeableBytes < len then b.makeSpace len else b

/-- `append(data, len)`. -/
def append (b : Buffer) (data : List Byte) (len : Nat) : Buffer :=
  let b₁ := b.ensureWriteableBytes len
  { b₁ with buffer_ := memcpy b₁.buffer_ b₁.writer_index_ (data.take len) }.hasWritten len

/-- `append(str)`: the length goes from `int` to `size_t`. -/
def appendPiece (b : Buffer) (str : StringPiece) : Buffer := b.append str.ptr_ (sizeT str.length_).toNat

/-- `swap(rhs)`: both buffers. -/
def swap (b rhs : Buffer) : Buffer × Buffer := (rhs, b)

/-- `shrink(reserve)`. -/
def shrink (b : Buffer) (reserve : Nat) : Buffer :=
  let other := (new initSpace).ensureWriteableBytes (b.readableBytes + reserve)
  (b.swap (other.appendPiece b.toStringPiece)).1

/-- `sizeof(extra_buf)` in `read_fd`. -/
def extraBufSize : Nat := 65535

/-- The total length of the vectors `read_fd` gives to `readv`: the writeable
bytes, and `extra_buf` when these are fewer than it holds. -/
def readvCapacity (b : Buffer) : Nat :=
  if b.writeableBytes < extraBufSize then b.writeableBytes + extraBufSize else b.writeableBytes

/-- `read_fd(fd, savedErrno)`: the return value, `*savedErrno` if it is set,
and the buffer. `readv` fills the writeable bytes first. -/
def readFd (b : Buffer) : ReadvResult → Int × Option Nat × Buffer
  | .error errno => (-1, some errno, b)
  | .ok bytes =>
    let writeable := b.writeableBytes
    let b₁ := { b with buffer_ := memcpy b.buffer_ b.writer_index_ (bytes.take writeable) }
    let extraBuf := bytes.drop writeable
    if bytes.length ≤ writeable then
      (bytes.length, none, { b₁ with writer_index_ := b.writer_index_ + bytes.length })
    else
      (bytes.length, none,
        { b₁ with writer_index_ := b₁.buffer_.length }.append extraBuf (bytes.length - writeable))

end Buffer

end Ydx
