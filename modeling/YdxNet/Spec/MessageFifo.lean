import YdxNet.Framework.Bytes
import YdxNet.Framework.Machine

/-!
# Bounded queues of messages

What a message queue of a given capacity is for: a message goes in when the
frames queued and its own (four bytes of length, then the message) take at
most `cap` bytes together, and the oldest message comes out first.
-/

namespace Ydx.Spec

/-- A message: its bytes. -/
abbrev Message := List Byte

/-- A message as it is queued and sent: its length, then its bytes. -/
def frame (m : Message) : List Byte := int32Bytes (lenInt m.length) ++ m

@[simp] theorem length_frame (m : Message) : (frame m).length = 4 + m.length := by
  simp [frame]

/-- The bytes that the frames of the messages `q` take. -/
def framesSize (q : List Message) : Nat := (q.flatMap frame).length

theorem framesSize_cons (m : Message) (q : List Message) :
    framesSize (m :: q) = 4 + m.length + framesSize q := by
  simp [framesSize]

/-- A call of a message queue: `write buf len` offers the first `len` bytes at
`buf`, `read buf len` asks for a message at `buf`, in front of the value that
`len` had. -/
inductive FifoOp
  | write (buf : List Byte) (len : Int32)
  | read (buf : List Byte) (len : Int32)
  deriving DecidableEq, Repr

/-- What a call gives back: for a read also the memory at `buf` and `len`. -/
inductive FifoOut
  | wrote (ret : Bool)
  | read (ret : Bool) (buf : List Byte) (len : Int32)
  deriving DecidableEq, Repr

/-- The calls a caller may make: the bytes offered lie at `buf`. -/
def FifoOp.Valid : FifoOp → Prop
  | .write buf len => 0 ≤ len.toInt ∧ len.toInt.toNat ≤ buf.length
  | .read _ _ => True

/-- The queue of capacity `cap`. -/
def fifo (cap : Nat) : Machine (List Message) FifoOp FifoOut where
  step
    | q, .write buf len =>
      let m := buf.take len.toInt.toNat
      if framesSize q + (4 + m.length) ≤ cap then (q ++ [m], .wrote true) else (q, .wrote false)
    | [], .read buf _ => ([], .read false buf 0)
    | m :: q, .read buf _ => (q, .read true (memcpy buf 0 m) (lenInt m.length))

end Ydx.Spec
