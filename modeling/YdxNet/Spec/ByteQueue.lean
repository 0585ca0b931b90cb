import YdxNet.Framework.Bytes

/-!
# Queues of bytes

What a byte buffer is for: bytes go in at the end and come out at the front,
and the last ones put in may be taken back. A bounded queue refuses what it has
no room for, or does not have.
-/

namespace Ydx.Spec

/-- What can happen to a queue of bytes. -/
inductive QueueOp
  | push (bytes : List Byte)
  | pop (len : Nat)
  | clear
  | unpush (len : Nat)
  | keep
  deriving DecidableEq, Repr

/-- The queue afterwards. -/
def queueStep (q : List Byte) : QueueOp → List Byte
  | .push bytes => q ++ bytes
  | .pop len => q.drop (min len q.length)
  | .clear => []
  | .unpush len => q.take (q.length - len)
  | .keep => q

/-- A call of a bounded queue of bytes. The bytes offered lie at `data`, those
asked for go to `buf`; `hasWriten` takes in bytes that already lie in the
queue's memory. -/
inductive ByteOp
  | copyInMust (data : List Byte) (len : UInt64)
  | copyOutMust (buf : List Byte) (len : UInt64)
  | peekOutMust (buf : List Byte) (len : UInt64)
  | hasWriten (len : UInt64)
  | hasRead (len : UInt64)
  | clear
  deriving DecidableEq, Repr

/-- What a call gives back: a count, a count and the memory at `buf`, or a
flag. -/
inductive ByteOut
  | count (ret : UInt64)
  | copied (ret : UInt64) (buf : List Byte)
  | flag (ret : Bool)
  | cleared
  deriving DecidableEq, Repr

/-- A call on the queue of capacity `cap` that holds `q`, with `lying` the
bytes behind it in memory: whether it is let through, the queue and what is
given back. -/
def byteStep (cap : Nat) (lying q : List Byte) : ByteOp → Bool × List Byte × ByteOut
  | .copyInMust data len =>
    if len.toNat ≤ cap - q.length then (true, q ++ data.take len.toNat, .count len) else (false, q, .count 0)
  | .copyOutMust buf len =>
    if len.toNat ≤ q.length then (true, q.drop len.toNat, .copied len (memcpy buf 0 (q.take len.toNat)))
    else (false, q, .copied 0 buf)
  | .peekOutMust buf len =>
    if len.toNat ≤ q.length then (true, q, .copied len (memcpy buf 0 (q.take len.toNat)))
    else (false, q, .copied 0 buf)
  | .hasWriten len =>
    if len.toNat ≤ cap - q.length then (true, q ++ lying.take len.toNat, .flag true) else (false, q, .flag false)
  | .hasRead len => if len.toNat ≤ q.length then (true, q.drop len.toNat, .flag true) else (false, q, .flag false)
  | .clear => (true, [], .cleared)

end Ydx.Spec
