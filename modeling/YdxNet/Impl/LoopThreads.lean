import YdxNet.Framework.Machine
import YdxNet.Impl.Poller

/-!
# `epoller.cpp` among threads

One loop with every thread that calls it. `queueInLoop` is two steps, its
`push_back` under the lock and its `wakeup()`, so that the loop and the other
threads run between them. The loop thread is at one place of `poll()`; inside
an event handler or a functor it makes calls of its own. Only the loop thread
reads `callingPendingFunctors_` (for another thread `!isInLoopThread()` is
true already), so that what it does between two accesses to `pendingFunctors_`
or to the eventfd is one step with the access. Which functors were pushed and
which of them were called is recorded.
-/

namespace Ydx

/-- An entry of `activeChannels_`: the one of the eventfd, or another. -/
inductive ActiveChannel
  | wakeupChannel_
  | other
  deriving DecidableEq, Repr

/-- Where the loop thread is. -/
inductive LoopPc (φ : Type)
  /-- Before `poll()`; whether `enable_wakeup()` is called first. -/
  | starting (wakeup : Bool)
  /-- At `while (!quit_)`. -/
  | testing
  /-- At `epoll_wait`. -/
  | waiting
  /-- In the loop over the active channels: those that are left behind the one
  that is handled. -/
  | handling (active : List ActiveChannel)
  /-- In the loop of `doPendingFunctors()`: the functors that are left behind the
  one that is called. -/
  | calling (functors : List φ)
  /-- `poll()` has returned. -/
  | stopped
  deriving DecidableEq, Repr

/-- Where another thread is. -/
inductive Caller
  | idle
  /-- In `queueInLoop`, before its `wakeup()`. -/
  | queueInLoop
  /-- In `quit`, before its `wakeup()`. -/
  | quit
  deriving DecidableEq, Repr

/-- `class EPollPoller` and the threads that call it. -/
structure LoopThreads (φ : Type) where
  poller : EPollPoller
  wakeupChannel_ : Channel
  /-- The counter of the eventfd `wakeupFd_`. -/
  wakeupFd_ : Nat
  quit_ : Bool
  callingPendingFunctors_ : Bool
  pendingFunctors_ : List φ
  pc : LoopPc φ
  /-- The loop thread is in `queueInLoop`, behind the `push_back`. -/
  queueing : Bool
  threads : Nat → Caller
  /-- The functors of all `push_back`s, in their order. -/
  pushed : List φ
  /-- The functors `doPendingFunctors()` has called, in their order. -/
  executed : List φ
  /-- How many `push_back`s there were before the last swap. -/
  swapped : Nat

namespace LoopThreads

variable {φ : Type}

/-- The constructor, which leaves `callingPendingFunctors_` as it is in memory;
`wakeup` says whether `enable_wakeup()` is called before `poll()`. -/
def new (this : Nat) (wakeupFd : Fd) (calling wakeup : Bool) : LoopThreads φ where
  poller := .new
  wakeupChannel_ := .new this wakeupFd
  wakeupFd_ := 0
  quit_ := false
  callingPendingFunctors_ := calling
  pendingFunctors_ := []
  pc := .starting wakeup
  queueing := false
  threads := fun _ => .idle
  pushed := []
  executed := []
  swapped := 0

/-- The loop thread is in code that calls the loop: a handler, a functor, or
what comes before `poll()`. -/
def calls (s : LoopThreads φ) : Bool :=
  !s.queueing && match s.pc with
    | .starting _ | .handling _ | .calling _ => true
    | _ => false

/-- `pendingFunctors_.push_back(cb)`. -/
def pushBack (s : LoopThreads φ) (cb : φ) : LoopThreads φ :=
  { s with pendingFunctors_ := s.pendingFunctors_ ++ [cb], pushed := s.pushed ++ [cb] }

/-- `queueInLoop(cb)` up to its `wakeup()`, by another thread or, for `none`, by
the loop thread. -/
def queueInLoop (s : LoopThreads φ) (thread : Option Nat) (cb : φ) : LoopThreads φ :=
  match thread with
  | none => if s.calls then { s.pushBack cb with queueing := true } else s
  | some t =>
    if s.threads t = .idle then { s.pushBack cb with threads := Function.update s.threads t .queueInLoop } else s

/-- `runInLoop(cb)`. In the loop thread `cb` is called at once; the calls it
makes are those of the handler or functor it is called from. -/
def runInLoop (s : LoopThreads φ) (thread : Option Nat) (cb : φ) : LoopThreads φ :=
  match thread with
  | none => s
  | some _ => s.queueInLoop thread cb

/-- `quit()` up to its `wakeup()`, which the loop thread does not call. -/
def quit (s : LoopThreads φ) (thread : Option Nat) : LoopThreads φ :=
  match thread with
  | none => if s.calls then { s with quit_ := true } else s
  | some t =>
    if s.threads t = .idle then { s with quit_ := true, threads := Function.update s.threads t .quit } else s

/-- The end of `queueInLoop`, and of `quit` by another thread: `wakeup()`, which
the loop thread calls only while it calls functors. -/
def wakeup (s : LoopThreads φ) (thread : Option Nat) : LoopThreads φ :=
  match thread with
  | none =>
    if s.queueing then
      { s with
        wakeupFd_ := if s.callingPendingFunctors_ then s.wakeupFd_ + 1 else s.wakeupFd_
        queueing := false }
    else s
  | some t =>
    if s.threads t = .idle then s
    else { s with wakeupFd_ := s.wakeupFd_ + 1, threads := Function.update s.threads t .idle }

/-- `enable_wakeup()`. -/
def enableWakeup (s : LoopThreads φ) : LoopThreads φ :=
  let pc := s.wakeupChannel_.enableReading s.poller
  { s with poller := pc.1, wakeupChannel_ := pc.2 }

/-- The eventfd is registered for reading. -/
def listens (s : LoopThreads φ) : Bool :=
  ((s.poller.interest s.wakeupChannel_.fd_).map fun i => i.1.epollin && i.2 == s.wakeupChannel_.this) == some true

/-- `epoll_wait` returns with the channels `ready`, or with none: the eventfd is
ready when it is registered and its counter is positive. -/
def epollWait (s : LoopThreads φ) (ready : List ActiveChannel) : LoopThreads φ :=
  match s.pc with
  | .waiting =>
    match ready.filter fun c => c == .other || (s.listens && decide (0 < s.wakeupFd_)) with
    | [] => { s with pc := .testing }
    | active => { s with pc := .handling active }
  | _ => s

/-- The loop thread goes on when the handler or the functor has returned:
`handleRead()` of the eventfd resets its counter, `doPendingFunctors()` swaps
the vectors and calls one functor after another. -/
def next (s : LoopThreads φ) : LoopThreads φ :=
  if s.queueing then s
  else match s.pc with
    | .starting true => { s.enableWakeup with pc := .testing }
    | .starting false => { s with pc := .testing }
    | .testing => { s with pc := if s.quit_ then .stopped else .waiting }
    | .handling (.wakeupChannel_ :: active) => { s with wakeupFd_ := 0, pc := .handling active }
    | .handling (.other :: active) => { s with pc := .handling active }
    | .handling [] =>
      { s with
        callingPendingFunctors_ := true
        pendingFunctors_ := []
        swapped := s.pushed.length
        pc := .calling s.pendingFunctors_ }
    | .calling (f :: functors) => { s with executed := s.executed ++ [f], pc := .calling functors }
    | .calling [] => { s with callingPendingFunctors_ := false, pc := .testing }
    | .waiting | .stopped => s

/-- `updateChannel` or `removeChannel` for a channel of another descriptor. -/
def registers (s : LoopThreads φ) (remove : Bool) (c : Channel) : LoopThreads φ :=
  if c.fd_ = s.wakeupChannel_.fd_ then s
  else { s with poller := if remove then (s.poller.removeChannel c).1 else (s.poller.updateChannel c).1 }

/-- A step of the loop or of a thread. -/
inductive Step (φ : Type)
  | queueInLoop (thread : Option Nat) (cb : φ)
  | runInLoop (thread : Option Nat) (cb : φ)
  | quit (thread : Option Nat)
  | wakeup (thread : Option Nat)
  | epollWait (ready : List ActiveChannel)
  | next
  | registers (remove : Bool) (c : Channel)

/-- The loop among threads, one step of any of them after another. -/
def machine : Machine (LoopThreads φ) (Step φ) Unit where
  step s a := (match a with
    | .queueInLoop thread cb => s.queueInLoop thread cb
    | .runInLoop thread cb => s.runInLoop thread cb
    | .quit thread => s.quit thread
    | .wakeup thread => s.wakeup thread
    | .epollWait ready => s.epollWait ready
    | .next => s.next
    | .registers remove c => s.registers remove c, ())

end LoopThreads

end Ydx
