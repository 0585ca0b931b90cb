import YdxNet.Impl.StreamBuffer

/-!
# The array of `thread_start_epoll` in `ydx_sender.cpp`

`Sender::send` and the `read_buffer` of the drain loop on the ring itself, which
the sender gets from `alloc()`. The drain loop reads into one array, and passes
one variable `nLen` by reference to every call: it holds the size of the array
before the first one, and the length of the last message afterwards. What the
loop does with a message, and when it gets to the call, is in `Impl.Sender`.
-/

namespace Ydx

/-- What the two sides share, and the locals of the drain loop. -/
structure SenderDrain where
  stream_buffer_ : StreamBuffer
  buf : List Byte
  nLen : Int32
  deriving DecidableEq, Repr

namespace SenderDrain

/-- The size that `alloc()` asks for, `_megabyte(16)`. -/
def ringSize : UInt64 := 16 * 1024 * 1024

/-- `int nLen = 8192`, the size of the array. -/
def arraySize : Nat := 8192

/-- The drain loop before its first turn. -/
def start (stream_buffer_ : StreamBuffer) (buf : List Byte) : SenderDrain := ⟨stream_buffer_, buf, lenInt arraySize⟩

/-- The `write_buffer` of `send(buf, len)`: `bRet`. -/
def send (s : SenderDrain) (buf : List Byte) (len : Int32) : Bool × SenderDrain :=
  let r := s.stream_buffer_.writeBuffer (some buf) len
  (r.1, { s with stream_buffer_ := r.2 })

/-- `stream_buffer_->read_buffer(buf, nLen)`. -/
def read (s : SenderDrain) : StreamBuffer.ReadResult := s.stream_buffer_.readBuffer (some s.buf) s.nLen

/-- The bytes that this call copies to `buf`; one that gives `false` copies
nothing. -/
def copied (s : SenderDrain) : Nat := if s.read.ret then (sizeT s.read.len).toNat else 0

/-- The ring and the locals after the call. -/
def drained (s : SenderDrain) : SenderDrain := ⟨s.read.sb, s.read.buf.getD [], s.read.len⟩

end SenderDrain

end Ydx
