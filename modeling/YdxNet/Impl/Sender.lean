import YdxNet.Impl.TcpClient
import YdxNet.Spec.MessageFifo
import Mathlib.Logic.Function.Basic

/-!
# `ydx_sender.cpp`

Any number of threads that call `Sender::send`, and the thread that drains the
queue (`thread_start_epoll`), step by step: `write_buffer`, `read_buffer` and
the sections under the mutex are one step each. The queue is a FIFO of
messages whose frames take at most `cap` bytes. The drain thread polls its own
loop, so the connection comes and goes while it is in `run_one_poll()`.

A message carries a number that tells it from others with the same bytes; the
code does not see it.
-/

namespace Ydx

open Spec

/-- A message, and its number. -/
structure Numbered where
  id : Nat
  bytes : Message
  deriving DecidableEq, Repr

/-- A call `connection()->send(data, len)` for a message. -/
structure SendCall where
  conn : Nat
  id : Nat
  data : List Byte
  deriving DecidableEq, Repr

/-- Where a thread is in `Sender::send`. -/
inductive SendPc
  /-- Outside. -/
  | idle
  /-- After `write_buffer`, which returned `bRet`. -/
  | wrote (m : Numbered) (bRet : Bool)
  /-- Before `return true`. -/
  | done (m : Numbered)
  deriving DecidableEq, Repr

/-- Where the drain thread is in its loop. -/
inductive DrainPc
  /-- In `run_one_poll()`, or at the end of an iteration. -/
  | poll
  /-- Before the test of `msg_count_`. -/
  | test
  /-- In `cond_.wait()`. -/
  | wait (signalled : Bool)
  /-- Before `read_buffer`. -/
  | read
  /-- Before `client_->is_connected()`; `read_buffer` has returned the message,
  or false. -/
  | check (m : Option Numbered)
  /-- Before the `send` of the length. -/
  | sendLen (m : Numbered)
  /-- Before the `send` of the bytes. -/
  | sendBuf (m : Numbered)
  /-- Before `msg_count_.decrement()`. -/
  | decrement
  /-- A null pointer was used. -/
  | crashed
  deriving DecidableEq, Repr

/-- `class Sender`, with its threads, and what they have done: the messages for
which `send` returned true, and the calls of the connections' `send`. -/
structure Sender where
  stream_buffer_ : List Numbered
  msg_count_ : Int
  client_ : TcpClient
  threads : Nat → SendPc
  drain : DrainPc
  nextId : Nat
  returned : List Numbered
  sends : List SendCall

namespace Sender

/-- A step of a thread. -/
inductive Action
  /-- A thread calls `send(buf, len)` and `write_buffer` in it. -/
  | write (thread : Nat) (buf : Message)
  /-- The section of `send` under the mutex. -/
  | count (thread : Nat)
  /-- `return true`. -/
  | ret (thread : Nat)
  /-- In `run_one_poll()`, a connection is made. -/
  | newConnection
  /-- In `run_one_poll()`, the connection is lost. -/
  | removeConnection
  /-- `run_one_poll()` returns. -/
  | polled
  /-- The section of the drain loop under the mutex, up to `cond_.wait()`. -/
  | test
  /-- `cond_.wait()` returns, signalled or not. -/
  | wakeup
  | read
  | check
  | sendLen
  | sendBuf
  | decrement
  deriving DecidableEq, Repr

/-- `thread_start_epoll` before its loop. -/
def start : Sender := ⟨[], 0, TcpClient.new.enableRetry, fun _ => .idle, .poll, 0, [], []⟩

/-- `write_buffer` finds room. -/
def Room (cap : Nat) (s : Sender) (buf : Message) : Prop :=
  framesSize (s.stream_buffer_.map Numbered.bytes) + (4 + buf.length) ≤ cap

instance (cap : Nat) (s : Sender) (buf : Message) : Decidable (s.Room cap buf) := inferInstanceAs (Decidable (_ ≤ _))

/-- `cond_.notify()`. -/
def notify : DrainPc → DrainPc
  | .wait _ => .wait true
  | pc => pc

/-- A call of the connection's `send`, which moves the drain thread on. -/
def callSend (s : Sender) (m : Numbered) (data : List Byte) (next : DrainPc) : Sender :=
  match s.client_.connection_ with
  | none => { s with drain := .crashed }
  | some c => { s with sends := s.sends ++ [⟨c, m.id, data⟩], drain := next }

/-- One step of one thread. A thread that is elsewhere does not take it. -/
def step (cap : Nat) (s : Sender) : Action → Sender
  | .write i buf =>
    match s.threads i with
    | .idle =>
      let m : Numbered := ⟨s.nextId, buf⟩
      let bRet := decide (s.Room cap buf)
      { s with
        stream_buffer_ := if bRet then s.stream_buffer_ ++ [m] else s.stream_buffer_
        threads := Function.update s.threads i (.wrote m bRet)
        nextId := s.nextId + 1 }
    | _ => s
  | .count i =>
    match s.threads i with
    | .wrote m true =>
      let first := s.msg_count_ == 0
      { s with
        msg_count_ := if first then s.msg_count_ + 1 + 1 else s.msg_count_ + 1
        drain := if first then notify s.drain else s.drain
        threads := Function.update s.threads i (.done m) }
    | .wrote m false => { s with threads := Function.update s.threads i (.done m) }
    | _ => s
  | .ret i =>
    match s.threads i with
    | .done m => { s with threads := Function.update s.threads i .idle, returned := s.returned ++ [m] }
    | _ => s
  | .newConnection =>
    match s.drain with
    | .poll => { s with client_ := s.client_.newConnection }
    | _ => s
  | .removeConnection =>
    match s.drain with
    | .poll => { s with client_ := s.client_.removeConnection }
    | _ => s
  | .polled =>
    match s.drain with
    | .poll => { s with drain := .test }
    | _ => s
  | .test =>
    match s.drain with
    | .test => { s with drain := if s.msg_count_ = 0 then .wait false else .read }
    | _ => s
  | .wakeup =>
    match s.drain with
    | .wait _ => { s with drain := .read }
    | _ => s
  | .read =>
    match s.drain with
    | .read =>
      match s.stream_buffer_ with
      | [] => { s with drain := .check none }
      | m :: q => { s with stream_buffer_ := q, drain := .check (some m) }
    | _ => s
  | .check =>
    match s.drain with
    | .check (some m) => { s with drain := if s.client_.isConnected then .sendLen m else .poll }
    | .check none => { s with drain := .poll }
    | _ => s
  | .sendLen =>
    match s.drain with
    | .sendLen m => s.callSend m (int32Bytes (lenInt m.bytes.length)) (.sendBuf m)
    | _ => s
  | .sendBuf =>
    match s.drain with
    | .sendBuf m => s.callSend m m.bytes .decrement
    | _ => s
  | .decrement =>
    match s.drain with
    | .decrement => { s with msg_count_ := s.msg_count_ - 1, drain := .poll }
    | _ => s

/-- The threads, interleaved in any way. -/
def machine (cap : Nat) : Machine Sender Action Unit where
  step s a := (s.step cap a, ())

end Sender

end Ydx
