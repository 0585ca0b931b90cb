import YdxNet.Framework.Machine
import YdxNet.Impl.LogStream

/-!
# `async_logging.h`, `async_logging.cpp`

Any number of threads that call `append`, the thread that writes (`threadFunc`),
and `stop`. The sections under the mutex are one step each, and between them the
writing thread goes from one statement to the next; `waitForSeconds` may return
at any time. The files that `LogFile` writes one after another are one sequence
of bytes. A call that makes a buffer brings along what lies in its memory.

`appended` is the sequence of the lines passed to `append`, in the order of its
sections. The program does not see it.
-/

namespace Ydx

/-- Where the writing thread is. -/
inductive LoggingPc
  /-- Before the test of `running_`. -/
  | test
  /-- Before the section under the mutex. -/
  | lock
  /-- In `condition_.waitForSeconds(flush_interval_)`. -/
  | wait
  /-- Before the test of `buffer_to_write.size() > 25`. -/
  | drop
  /-- Before turn `i` of the `for` loop. -/
  | write (i : Nat)
  /-- Behind the `for` loop. -/
  | recycle
  /-- `threadFunc` has returned. -/
  | exited
  /-- A null pointer was used. -/
  | crashed
  deriving DecidableEq, Repr

/-- `class AsyncLogging`, with the locals of `threadFunc`. -/
structure AsyncLogging (SIZE : Nat) where
  running_ : Bool
  current_buf_ : Option (FixedBuffer SIZE)
  next_buf_ : Option (FixedBuffer SIZE)
  buffer_vector_ : List (FixedBuffer SIZE)
  output_file : List Byte
  new_buffer1 : Option (FixedBuffer SIZE)
  new_buffer2 : Option (FixedBuffer SIZE)
  buffer_to_write : List (FixedBuffer SIZE)
  thread : LoggingPc
  appended : List (List Byte)

namespace AsyncLogging

variable {SIZE : Nat}

/-- After the constructor and `start()`, with the writing thread before its loop. -/
def start (SIZE : Nat) (mem : Nat → Byte) : AsyncLogging SIZE where
  running_ := true
  current_buf_ := some (FixedBuffer.new SIZE mem).bzero
  next_buf_ := some (FixedBuffer.new SIZE mem).bzero
  buffer_vector_ := []
  output_file := []
  new_buffer1 := some (FixedBuffer.new SIZE mem).bzero
  new_buffer2 := some (FixedBuffer.new SIZE mem).bzero
  buffer_to_write := []
  thread := .test
  appended := []

/-- `append(logline, len)`. -/
def append (s : AsyncLogging SIZE) (logline : List Byte) (mem : Nat → Byte) : AsyncLogging SIZE :=
  match s.current_buf_ with
  | none => { s with thread := .crashed }
  | some buf =>
    let s := { s with appended := s.appended ++ [logline] }
    if buf.avail > logline.length then { s with current_buf_ := some (buf.append logline) }
    else
      let next := match s.next_buf_ with
        | some next => next
        | none => FixedBuffer.new SIZE mem
      { s with
        buffer_vector_ := s.buffer_vector_ ++ [buf]
        next_buf_ := none
        current_buf_ := some (next.append logline) }

/-- The section of the writing thread under the mutex, behind the wait. -/
def swap (s : AsyncLogging SIZE) : AsyncLogging SIZE :=
  match s.current_buf_ with
  | none => { s with thread := .crashed }
  | some buf =>
    { s with
      buffer_to_write := s.buffer_vector_ ++ [buf]
      buffer_vector_ := s.buffer_to_write
      current_buf_ := s.new_buffer1
      new_buffer1 := none
      next_buf_ := if s.next_buf_.isSome then s.next_buf_ else s.new_buffer2
      new_buffer2 := if s.next_buf_.isSome then s.new_buffer2 else none
      thread := .drop }

/-- The line that takes the place of the buffers dropped. -/
def notice (n : Nat) : List Byte :=
  textBytes (snprintf 64 ("Dropped log messages " ++ toString n ++ " larger buffers\n"))

/-- `if (!spare) { spare = bufs.pop_back(); spare->reset(); }` -/
def refill (bufs : List (FixedBuffer SIZE)) :
    Option (FixedBuffer SIZE) → Option (FixedBuffer SIZE × List (FixedBuffer SIZE))
  | some spare => some (spare, bufs)
  | none => bufs.getLast?.map fun buf => (buf.reset, bufs.dropLast)

/-- The part of an iteration behind the `for` loop. -/
def recycle (s : AsyncLogging SIZE) : AsyncLogging SIZE :=
  match refill (if s.buffer_to_write.length > 2 then s.buffer_to_write.take 2 else s.buffer_to_write) s.new_buffer1 with
  | none => { s with thread := .crashed }
  | some (buf₁, bufs) =>
    match refill bufs s.new_buffer2 with
    | none => { s with thread := .crashed }
    | some (buf₂, _) =>
      { s with new_buffer1 := some buf₁, new_buffer2 := some buf₂, buffer_to_write := [], thread := .test }

/-- The next step of `threadFunc`. -/
def threadFunc (s : AsyncLogging SIZE) : AsyncLogging SIZE :=
  match s.thread with
  | .test => { s with thread := if s.running_ then .lock else .exited }
  | .lock => if s.buffer_vector_.isEmpty then { s with thread := .wait } else s.swap
  | .wait => s.swap
  | .drop =>
    if s.buffer_to_write.length > 25 then
      { s with
        output_file := s.output_file ++ notice (s.buffer_to_write.length - 2)
        buffer_to_write := s.buffer_to_write.take 2
        thread := .write 0 }
    else { s with thread := .write 0 }
  | .write i =>
    match s.buffer_to_write[i]? with
    | some buf => { s with output_file := s.output_file ++ buf.content, thread := .write (i + 1) }
    | none => { s with thread := .recycle }
  | .recycle => s.recycle
  | .exited | .crashed => s

/-- `stop()` up to `thread_.join()`, which returns when `threadFunc` has. -/
def stop (s : AsyncLogging SIZE) : AsyncLogging SIZE := { s with running_ := false }

/-- A step of one of the threads. -/
inductive Action
  | append (logline : List Byte) (mem : Nat → Byte)
  | threadFunc
  | stop

/-- One step. -/
def step (s : AsyncLogging SIZE) : Action → AsyncLogging SIZE
  | .append logline mem => s.append logline mem
  | .threadFunc => s.threadFunc
  | .stop => s.stop

/-- The threads, interleaved in any way. -/
def machine (SIZE : Nat) : Machine (AsyncLogging SIZE) Action Unit where
  step s a := (s.step a, ())

end AsyncLogging

end Ydx
