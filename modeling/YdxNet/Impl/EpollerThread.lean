import YdxNet.Impl.LoopThreads

/-!
# `epoller_thread.cpp`

An `EPollerThread`: its owner, which calls `startEpoll()` and the destructor, and the
thread that it starts, whose loop is a local of `threadFunc()`. `epoller_` points to this
local from the section under the mutex on until `poll()` has returned; the destructor and the
last statement of `startEpoll()` read it without the mutex. The loop is that of
`Impl/LoopThreads`, where the owner is thread 0.
-/

namespace Ydx

/-- Where `threadFunc()` is. -/
inductive ThreadFuncPc
  /-- `thread_.start()` has not been called. -/
  | created
  /-- Before the constructor of `epoller`. -/
  | entering
  /-- Before the section under the mutex. -/
  | publishing
  /-- From `enable_wakeup()` on until `poll()` has returned. -/
  | polling
  /-- Behind `epoller_ = NULL`, where `epoller` goes out of scope. -/
  | leaving
  | finished
  deriving DecidableEq, Repr

/-- Where the owner is. -/
inductive OwnerPc
  | constructed
  /-- In `startEpoll()`, behind `thread_.start()`. -/
  | locking
  /-- In `cond_.wait()`, signalled or not. -/
  | waiting (signalled : Bool)
  /-- Before `return epoller_`. -/
  | returning
  | started
  /-- In the destructor, behind its test of `epoller_`. -/
  | quitting
  /-- In `epoller_->quit()`, before its `wakeup()`. -/
  | waking
  | joining
  | destroyed
  deriving DecidableEq, Repr

/-- `class EPollerThread` and its two threads. -/
structure EpollerThread (φ : Type) where
  /-- Whether `epoller_` points to `epoller`; else it is null. -/
  epoller_ : Bool
  exiting_ : Bool
  /-- `epoller` of `threadFunc()`, while it is in scope. -/
  epoller : Option (LoopThreads φ)
  threadFunc : ThreadFuncPc
  owner : OwnerPc
  /-- Whether what `startEpoll()` returned is a loop. -/
  returned : Option Bool
  /-- Something was called through a null pointer, or on a loop that is out of scope. -/
  crashed : Bool

namespace EpollerThread

variable {φ : Type}

/-- The constructor. -/
def new : EpollerThread φ where
  epoller_ := false
  exiting_ := false
  epoller := none
  threadFunc := .created
  owner := .constructed
  returned := none
  crashed := false

/-- `while (epoller_ == NULL) cond_.wait();` with the mutex locked. -/
def awaitLoop (s : EpollerThread φ) : EpollerThread φ :=
  { s with owner := if s.epoller_ then .returning else .waiting false }

/-- The next step of `startEpoll()`. In `cond_.wait()` the owner resumes when it is signalled, or for
no reason. -/
def startEpoll (s : EpollerThread φ) : EpollerThread φ :=
  match s.owner with
  | .constructed => { s with threadFunc := .entering, owner := .locking }
  | .locking | .waiting _ => s.awaitLoop
  | .returning => { s with returned := some s.epoller_, owner := .started }
  | _ => s

/-- `cond_.notify()`. -/
def notify : OwnerPc → OwnerPc
  | .waiting _ => .waiting true
  | pc => pc

/-- The next step of `threadFunc()` outside of `poll()`. What the constructor of the loop finds in
memory is left in `callingPendingFunctors_`. -/
def runThread (s : EpollerThread φ) (this : Nat) (wakeupFd : Fd) (calling : Bool) : EpollerThread φ :=
  match s.threadFunc with
  | .entering => { s with epoller := some (.new this wakeupFd calling true), threadFunc := .publishing }
  | .publishing => { s with epoller_ := true, owner := notify s.owner, threadFunc := .polling }
  | .polling =>
    if (s.epoller.map LoopThreads.pc) matches some .stopped then { s with epoller_ := false, threadFunc := .leaving }
    else s
  | .leaving => { s with epoller := none, threadFunc := .finished }
  | .created | .finished => s

/-- A step of the loop thread in `poll()`, or of a thread that calls the loop. -/
def runLoop (s : EpollerThread φ) (a : LoopThreads.Step φ) : EpollerThread φ :=
  match s.threadFunc with
  | .polling => { s with epoller := s.epoller.map fun l => (LoopThreads.machine.step l a).1 }
  | _ => s

/-- A call on the loop that `epoller_` points to. -/
def onLoop (s : EpollerThread φ) (call : LoopThreads φ → LoopThreads φ) (pc : OwnerPc) : EpollerThread φ :=
  match s.epoller with
  | some l => { s with epoller := some (call l), owner := pc }
  | none => { s with crashed := true, owner := pc }

/-- The next step of the destructor. -/
def destruct (s : EpollerThread φ) : EpollerThread φ :=
  match s.owner with
  | .constructed | .started => { s with exiting_ := true, owner := if s.epoller_ then .quitting else .destroyed }
  | .quitting => if s.epoller_ then s.onLoop (·.quit (some 0)) .waking else { s with crashed := true, owner := .joining }
  | .waking => s.onLoop (·.wakeup (some 0)) .joining
  | .joining => if s.threadFunc = .finished then { s with owner := .destroyed } else s
  | _ => s

/-- A step of the owner, or of the thread. -/
inductive Action (φ : Type)
  | startEpoll
  | runThread (this : Nat) (wakeupFd : Fd) (calling : Bool)
  | runLoop (a : LoopThreads.Step φ)
  | destruct

/-- The threads, interleaved in any way. -/
def machine : Machine (EpollerThread φ) (Action φ) Unit where
  step s a := (match a with
    | .startEpoll => s.startEpoll
    | .runThread this wakeupFd calling => s.runThread this wakeupFd calling
    | .runLoop a => s.runLoop a
    | .destruct => s.destruct, ())

end EpollerThread

end Ydx
