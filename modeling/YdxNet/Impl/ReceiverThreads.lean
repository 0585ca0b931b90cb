import YdxNet.Framework.Condition
import YdxNet.Spec.MessageFifo
import Mathlib.Logic.Function.Basic

/-!
# `ydx_receiver.cpp`: `receive` and `onMessage` under the mutex

`n` threads that call `Receiver::receive`, and the loops that call
`onMessage`, critical section by critical section: a turn of the loop of
`onMessage` that delivers a message is one step, `receive` is one step unless
it waits, and then its return from `cond_.wait()` is another. The queue is a
FIFO of messages whose frames take at most `cap` bytes.
-/

namespace Ydx

open Spec

/-- Where a thread is in `Receiver::receive`. -/
inductive ReceivePc
  /-- Outside. -/
  | idle
  /-- In `cond_.wait()`. -/
  | waiting (signalled : Bool)
  deriving DecidableEq, Repr

/-- `cond_`. -/
def ReceivePc.cond : Condition ReceivePc where
  blocked
    | .waiting signalled => !signalled
    | .idle => false
  signalled
    | .waiting signalled => signalled
    | .idle => false
  signal _ := .waiting true
  signalled_of_blocked {a} h := by
    cases a with
    | idle => rfl
    | waiting b => simpa using h
  blocked_signal _ := rfl
  signalled_signal _ := rfl

/-- `class Receiver`, with the threads that receive. -/
structure ReceiverThreads (n : Nat) where
  stream_buffer_ : List Message
  msg_count_ : UInt32
  receivers : Fin n → ReceivePc

namespace ReceiverThreads

variable {n : Nat}

/-- The bytes that the queue has room for: the constructor calls
`stream_buffer_->alloc()`, which asks for sixteen megabytes. -/
def capacity : Nat := 16 * 1024 * 1024

/-- A critical section. -/
inductive Action (n : Nat)
  /-- `onMessage` delivers a message of a connection; a notification looks for
  a thread from `pick` on. -/
  | onMessage (conn : Nat) (m : Message) (pick : Nat)
  /-- A thread calls `receive`. -/
  | receive (thread : Fin n)
  /-- `cond_.wait()` returns, signalled or not. -/
  | resume (thread : Fin n)
  deriving DecidableEq, Repr

/-- The receiver before the first call. -/
def start : ReceiverThreads n := ⟨[], 0, fun _ => .idle⟩

/-- `write_buffer` finds room. -/
def Room (cap : Nat) (s : ReceiverThreads n) (m : Message) : Prop :=
  framesSize s.stream_buffer_ + (4 + m.length) ≤ cap

instance (cap : Nat) (s : ReceiverThreads n) (m : Message) : Decidable (s.Room cap m) :=
  inferInstanceAs (Decidable (_ ≤ _))

/-- The result of `write_buffer` is ignored. -/
def onMessage (cap : Nat) (s : ReceiverThreads n) (m : Message) (pick : Nat) : ReceiverThreads n where
  stream_buffer_ := if s.Room cap m then s.stream_buffer_ ++ [m] else s.stream_buffer_
  msg_count_ := s.msg_count_ + 1
  receivers := if s.msg_count_ = 0 then ReceivePc.cond.notify pick s.receivers else s.receivers

/-- `receive` from its `read_buffer` on, and what it returns. -/
def readBuffer (s : ReceiverThreads n) (i : Fin n) : ReceiverThreads n × Bool :=
  let s' := { s with receivers := Function.update s.receivers i .idle }
  match s.stream_buffer_ with
  | [] => (s', false)
  | _ :: q => ({ s' with stream_buffer_ := q, msg_count_ := s.msg_count_ - 1 }, true)

/-- One critical section, and what `receive` returns if it returns. A thread
that is elsewhere does not take it. -/
def step (cap : Nat) (s : ReceiverThreads n) : Action n → ReceiverThreads n × Option Bool
  | .onMessage _ m pick => (s.onMessage cap m pick, none)
  | .receive i =>
    match s.receivers i with
    | .idle =>
      if s.msg_count_ = 0 then ({ s with receivers := Function.update s.receivers i (.waiting false) }, none)
      else ((s.readBuffer i).1, some (s.readBuffer i).2)
    | .waiting _ => (s, none)
  | .resume i =>
    match s.receivers i with
    | .waiting _ => ((s.readBuffer i).1, some (s.readBuffer i).2)
    | .idle => (s, none)

/-- The threads, interleaved in any way. -/
def machine (cap n : Nat) : Machine (ReceiverThreads n) (Action n) (Option Bool) where
  step := step cap

end ReceiverThreads

end Ydx
