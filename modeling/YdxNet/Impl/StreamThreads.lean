import YdxNet.Framework.Machine
import YdxNet.Impl.StreamBuffer
import YdxNet.Spec.MessageFifo

/-!
# `write_buffer` and `read_buffer` in two threads

`Sender::send` writes to the ring in the thread of the program and the drain loop reads from
it in another, without a mutex. One thread that writes and one that reads, both through the
same memory: a step looks at the offsets once, copies one byte, or stores one offset. A
thread's own offset is changed by no other. `written` and `received` keep the messages of the
calls that have returned true, and `errors` how often "error.." was printed.
-/

namespace Ydx

open Spec

namespace StreamBuffer

/-- The cell to which `copy_in` copies byte `i` of `len`. -/
def cellIn (b : StreamBuffer) (len : UInt64) (i : Nat) : Nat :=
  let l := MIN len ((b.size_ + 1) - b.in_)
  if i < l.toNat then b.in_.toNat + i else i - l.toNat

/-- The cell from which `copy_out` copies byte `i` of `len`. -/
def cellOut (b : StreamBuffer) (len : UInt64) (i : Nat) : Nat :=
  let l := MIN len ((b.size_ + 1) - b.out_)
  if i < l.toNat then b.out_.toNat + i else i - l.toNat

/-- `copy_in` copies byte `i` of `data`. -/
def putByte (b : StreamBuffer) (data : List Byte) (len : UInt64) (i : Nat) : StreamBuffer :=
  { b with data_ := b.data_.map fun d => d.set (b.cellIn len i) (data.getD i 0) }

/-- `copy_out` copies byte `i` to `buf`. -/
def getByte (b : StreamBuffer) (buf : List Byte) (len : UInt64) (i : Nat) : List Byte :=
  buf.set i ((b.data_.getD []).getD (b.cellOut len i) 0)

end StreamBuffer

/-- Where `copy_in_must` or `copy_out_must` is. -/
inductive CopyPc
  /-- About to compare `len` with `unused()` or `used()`. -/
  | testing
  /-- The bytes before `i` are copied; behind the last one the offset is stored. -/
  | copying (i : Nat)
  deriving DecidableEq, Repr

/-- Where the writing thread is. -/
inductive WriterPc
  | idle
  /-- In `copy_in_must((void *)&len, sizeof(int))`. -/
  | header (buf : Option (List Byte)) (len : Int32) (pc : CopyPc)
  /-- In `copy_in_must(buf, len)`. -/
  | payload (buf : Option (List Byte)) (len : Int32) (inb : UInt64) (pc : CopyPc)
  deriving DecidableEq, Repr

/-- Where the reading thread is. -/
inductive ReaderPc
  | idle
  /-- In `peek_out_must((void *)&len, sizeof(int))`, with the bytes of `len` and `i` of them copied. -/
  | peeking (buf : Option (List Byte)) (len : List Byte) (i : Nat)
  /-- About to compare `totb` with `used()`. -/
  | testing (buf : Option (List Byte)) (len : Int32)
  /-- In `has_read(sizeof(int))`. -/
  | skipping (buf : Option (List Byte)) (len : Int32)
  /-- It is about to store `out_`. -/
  | skipped (buf : Option (List Byte)) (len : Int32)
  /-- In `copy_out_must(buf, len)`. -/
  | payload (buf : Option (List Byte)) (len : Int32) (outb : UInt64) (pc : CopyPc)
  deriving DecidableEq, Repr

/-- The ring and its two threads. -/
structure StreamThreads where
  ring : StreamBuffer
  writer : WriterPc
  reader : ReaderPc
  written : List Message
  received : List Message
  errors : Nat

namespace StreamThreads

/-- Before the first call, with this ring. -/
def start (ring : StreamBuffer) : StreamThreads := ⟨ring, .idle, .idle, [], [], 0⟩

/-- `write_buffer(buf, len)` is called, and compares `unused()` with `totb`. -/
def writeBuffer (s : StreamThreads) (buf : Option (List Byte)) (len : Int32) : StreamThreads :=
  let totb := sizeT len + sizeofInt
  if s.ring.unused < totb then s else { s with writer := .header buf len .testing }

/-- It returns, with `inb` bytes copied. -/
def wrote (s : StreamThreads) (buf : Option (List Byte)) (len : Int32) (inb : UInt64) : StreamThreads :=
  let totb := sizeT len + sizeofInt
  if inb ≠ totb then { s with writer := .idle, errors := s.errors + 1 }
  else { s with writer := .idle, written := s.written ++ [(buf.getD []).take len.toInt.toNat] }

/-- `in_ = (in_ + len) % (size_ + 1)`. -/
def storeIn (s : StreamThreads) (len : UInt64) : StreamThreads :=
  { s with ring := { s.ring with in_ := (s.ring.in_ + len) % (s.ring.size_ + 1) } }

/-- `out_ = (out_ + len) % (size_ + 1)`. -/
def storeOut (s : StreamThreads) (len : UInt64) : StreamThreads :=
  { s with ring := { s.ring with out_ := (s.ring.out_ + len) % (s.ring.size_ + 1) } }

/-- The writing thread goes on. -/
def write (s : StreamThreads) : StreamThreads :=
  match s.writer with
  | .idle => s
  | .header buf len .testing =>
    if sizeofInt > s.ring.unused then { s with writer := .payload buf len 0 .testing }
    else { s with writer := .header buf len (.copying 0) }
  | .header buf len (.copying i) =>
    if i < sizeofInt.toNat then
      { s with ring := s.ring.putByte (int32Bytes len) sizeofInt i, writer := .header buf len (.copying (i + 1)) }
    else { s.storeIn sizeofInt with writer := .payload buf len sizeofInt .testing }
  | .payload none len inb _ => s.wrote none len inb
  | .payload (some data) len inb .testing =>
    if sizeT len > s.ring.unused then s.wrote (some data) len inb
    else { s with writer := .payload (some data) len inb (.copying 0) }
  | .payload (some data) len inb (.copying i) =>
    if i < (sizeT len).toNat then
      { s with ring := s.ring.putByte data (sizeT len) i, writer := .payload (some data) len inb (.copying (i + 1)) }
    else (s.storeIn (sizeT len)).wrote (some data) len (inb + sizeT len)

/-- `read_buffer(buf, len)` is called, and `peek_out_must` compares `sizeof(int)` with `used()`. -/
def readBuffer (s : StreamThreads) (buf : Option (List Byte)) (len : Int32) : StreamThreads :=
  if sizeofInt > s.ring.used then s else { s with reader := .peeking buf (int32Bytes len) 0 }

/-- It returns, with `outb` bytes passed over or copied. -/
def gave (s : StreamThreads) (buf : Option (List Byte)) (len : Int32) (outb : UInt64) : StreamThreads :=
  let totb := sizeT len + sizeofInt
  if outb ≠ totb then { s with reader := .idle, errors := s.errors + 1 }
  else { s with reader := .idle, received := s.received ++ [(buf.getD []).take len.toInt.toNat] }

/-- The reading thread goes on. -/
def read (s : StreamThreads) : StreamThreads :=
  match s.reader with
  | .idle => s
  | .peeking buf len i =>
    if i < sizeofInt.toNat then { s with reader := .peeking buf (s.ring.getByte len sizeofInt i) (i + 1) }
    else { s with reader := .testing buf (int32OfBytes len) }
  | .testing buf len =>
    let totb := sizeT len + sizeofInt
    if s.ring.used < totb then { s with reader := .idle } else { s with reader := .skipping buf len }
  | .skipping buf len =>
    if sizeofInt > s.ring.used then { s with reader := .payload buf len 0 .testing }
    else { s with reader := .skipped buf len }
  | .skipped buf len => { s.storeOut sizeofInt with reader := .payload buf len sizeofInt .testing }
  | .payload none len outb _ => s.gave none len outb
  | .payload (some mem) len outb .testing =>
    if sizeT len > s.ring.used then s.gave (some mem) len outb
    else { s with reader := .payload (some mem) len outb (.copying 0) }
  | .payload (some mem) len outb (.copying i) =>
    if i < (sizeT len).toNat then
      { s with reader := .payload (some (s.ring.getByte mem (sizeT len) i)) len outb (.copying (i + 1)) }
    else (s.storeOut (sizeT len)).gave (some mem) len (outb + sizeT len)

/-- The cell of the block that the next step of the writing thread stores to. -/
def putCell (s : StreamThreads) : Option Nat :=
  match s.writer with
  | .header _ _ (.copying i) => if i < sizeofInt.toNat then some (s.ring.cellIn sizeofInt i) else none
  | .payload (some _) len _ (.copying i) => if i < (sizeT len).toNat then some (s.ring.cellIn (sizeT len) i) else none
  | _ => none

/-- The cell of the block that the next step of the reading thread loads. -/
def getCell (s : StreamThreads) : Option Nat :=
  match s.reader with
  | .peeking _ _ i => if i < sizeofInt.toNat then some (s.ring.cellOut sizeofInt i) else none
  | .payload (some _) len _ (.copying i) => if i < (sizeT len).toNat then some (s.ring.cellOut (sizeT len) i) else none
  | _ => none

/-- A step of one of the threads. -/
inductive Action
  /-- The writing thread calls `write_buffer`. -/
  | writeBuffer (buf : Option (List Byte)) (len : Int32)
  /-- It goes on. -/
  | write
  /-- The reading thread calls `read_buffer`. -/
  | readBuffer (buf : Option (List Byte)) (len : Int32)
  /-- It goes on. -/
  | read
  deriving DecidableEq

/-- One step. A thread that is in a call does not begin another one. -/
def step (s : StreamThreads) : Action → StreamThreads
  | .writeBuffer buf len => if s.writer = .idle then s.writeBuffer buf len else s
  | .write => s.write
  | .readBuffer buf len => if s.reader = .idle then s.readBuffer buf len else s
  | .read => s.read

/-- Both threads, interleaved in any way. -/
def machine : Machine StreamThreads Action Unit where
  step s a := (s.step a, ())

end StreamThreads

end Ydx
