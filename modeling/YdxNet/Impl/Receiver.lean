import YdxNet.Impl.Buffer
import YdxNet.Impl.StreamBuffer

/-!
# `Receiver::onMessage` of `ydx_receiver.cpp`

The decoder that cuts the bytes of a connection into messages, called by
`TcpConnection::handleRead` (`tcp_connection.cpp`) after each `read_fd`. Its
loop is bounded by `fuel`, since it need not end; the four bytes it copies
from `peek()` may lie outside the vector, which ends the model's run. The
calls of `stream_buffer_->write_buffer` are returned in their order.
-/

namespace Ydx

/-- `class Receiver`, as far as `onMessage` uses it. -/
structure Receiver where
  stream_buffer_ : StreamBuffer
  msg_count_ : UInt32
  /-- How often `cond_.notify()` was called. -/
  notified : Nat
  deriving DecidableEq, Repr

/-- A call `write_buffer(buf, len)`: `len`, and the bytes at `buf` that it
asks for. -/
structure WriteCall where
  len : Int32
  payload : List Byte
  deriving DecidableEq, Repr

/-- Why the model's run stops before the code is done. -/
inductive Stop
  | outOfBounds
  | outOfFuel
  | closed
  deriving DecidableEq, Repr

/-- What `onMessage` leaves behind. -/
structure Decoded where
  calls : List WriteCall
  receiver : Receiver
  buf : Buffer

namespace Receiver

/-- `(int)(buf->readable_bytes() - sizeof(int))`: the difference modulo 2⁶⁴,
its low 32 bits taken as an `int`. -/
def payloadBytes (buf : Buffer) : Int32 :=
  (UInt64.ofNat buf.readableBytes - sizeofInt).toUInt32.toInt32

/-- The effect of one turn of the loop on the receiver: `write_buffer`, whose
result is ignored, and the counter. -/
def deliver (r : Receiver) (payload : List Byte) (messageLen : Int32) : Receiver where
  stream_buffer_ := (r.stream_buffer_.writeBuffer (some payload) messageLen).2
  msg_count_ := r.msg_count_ + 1
  notified := if r.msg_count_ = 0 then r.notified + 1 else r.notified

/-- `onMessage(conn, buf)`, for at most `fuel` turns of its loop. -/
def onMessage : Nat → Receiver → Buffer → Except Stop Decoded
  | 0, _, _ => .error .outOfFuel
  | fuel + 1, r, buf =>
    if buf.readableBytes = 0 then .ok ⟨[], r, buf⟩
    else if buf.peek.length < 4 then .error .outOfBounds
    else
      let messageLen := int32OfBytes buf.peek
      if payloadBytes buf < messageLen then .ok ⟨[], r, buf⟩
      else
        let payload := buf.peek.drop 4
        match onMessage fuel (r.deliver payload messageLen)
            (buf.retrieve (sizeofInt + sizeT messageLen).toNat) with
        | .error e => .error e
        | .ok d => .ok { d with calls := ⟨messageLen, payload.take messageLen.toInt.toNat⟩ :: d.calls }

/-- `TcpConnection::handleRead` with `onMessage` as its message callback, when
`readv` delivers `chunk`: no bytes mean that the peer has closed. -/
def handleRead (fuel : Nat) (r : Receiver) (inputBuffer : Buffer) (chunk : List Byte) :
    Except Stop Decoded :=
  let n := inputBuffer.readFd (.ok chunk)
  if n.1 > 0 then r.onMessage fuel n.2.2 else .error .closed

/-- `receive(pData, nSize)` behind its wait: what `read_buffer` leaves behind, and the receiver. -/
def receive (r : Receiver) (pData : Option (List Byte)) (nSize : Int32) : StreamBuffer.ReadResult × Receiver :=
  let q := r.stream_buffer_.readBuffer pData nSize
  (q, { r with stream_buffer_ := q.sb, msg_count_ := if q.ret then r.msg_count_ - 1 else r.msg_count_ })

end Receiver

end Ydx
