import YdxNet.Impl.Poller

/-!
# The loop of `epoller.cpp`, and `Channel::handleEvent`

An `EPollPoller` is also the loop of one thread: `poll()` waits for events,
calls the callbacks of the active channels one after another, and then the
functors that were queued. Each of these calls is one step, so that other
threads run between any two of them; where the loop is, is its `Phase`. The
functors are of any type `φ`.
-/

namespace Ydx

/-- The callbacks of a channel. -/
inductive Callback
  | closeCallback_
  | errorCallback_
  | readCallback_
  | writeCallback_
  deriving DecidableEq, Repr

/-- `handleEvent()`: the callbacks it calls for `revents_`, in this order. -/
def Channel.handleEvent (revents : Events) : List Callback :=
  (if revents.epollhup && !revents.epollin then [.closeCallback_] else []) ++
  (if revents.epollerr then [.errorCallback_] else []) ++
  (if revents.epollin || revents.epollpri || revents.epollrdhup then [.readCallback_] else []) ++
  (if revents.epollout then [.writeCallback_] else [])

/-- What `epoll_wait` may report. -/
inductive Ready
  /-- The eventfd `wakeupFd_`. -/
  | wakeup
  /-- The listening socket. -/
  | listen
  /-- Another descriptor, with its events. -/
  | socket (fd : Fd) (revents : Events)
  deriving DecidableEq, Repr

/-- An entry of `activeChannels_`. -/
inductive Active
  | wakeupChannel_
  | acceptChannel_
  /-- The channel of a connection, at `this`, with its `revents_`. -/
  | connection (this : Nat) (revents : Events)
  deriving DecidableEq, Repr

/-- Where a loop is. -/
inductive Phase (φ : Type)
  /-- In `epoll_wait`. -/
  | waiting
  /-- In the loop over the active channels: the callbacks that are left of the
  current channel, and the channels that are left. -/
  | handling (callbacks : List (Nat × Callback)) (active : List Active)
  /-- In `doPendingFunctors()`: the functors that are left. -/
  | calling (functors : List φ)
  deriving DecidableEq, Repr

/-- `class EPollPoller` as a loop. -/
structure EventLoop (φ : Type) where
  poller : EPollPoller
  /-- `enable_wakeup()` was called. -/
  wakeupEnabled : Bool
  /-- The channel of an acceptor reads on this loop. -/
  listening : Bool
  /-- The count in the eventfd `wakeupFd_`. -/
  wakeupFd_ : Nat
  pendingFunctors_ : List φ
  phase : Phase φ

namespace EventLoop

variable {φ : Type}

/-- The constructor. -/
def new (wakeupEnabled listening : Bool) : EventLoop φ := ⟨.new, wakeupEnabled, listening, 0, [], .waiting⟩

/-- `callingPendingFunctors_`. -/
def callingPendingFunctors (e : EventLoop φ) : Bool :=
  match e.phase with
  | .calling _ => true
  | _ => false

/-- `queueInLoop(cb)`, with its `wakeup()`. -/
def queueInLoop (e : EventLoop φ) (isInLoopThread : Bool) (cb : φ) : EventLoop φ :=
  { e with
    pendingFunctors_ := e.pendingFunctors_ ++ [cb]
    wakeupFd_ := if !isInLoopThread || e.callingPendingFunctors then e.wakeupFd_ + 1 else e.wakeupFd_ }

/-- `fillActiveChannels`: only what is registered is reported, with the address
that was given for it. -/
def fillActiveChannels (e : EventLoop φ) (ready : List Ready) : List Active :=
  ready.filterMap fun
    | .wakeup => if e.wakeupEnabled && 0 < e.wakeupFd_ then some .wakeupChannel_ else none
    | .listen => if e.listening then some .acceptChannel_ else none
    | .socket fd revents => (e.poller.interest fd).map fun i => .connection i.2 revents

/-- `epoll_wait` returns. Without events the loop waits again. -/
def epollWait (e : EventLoop φ) (ready : List Ready) : EventLoop φ :=
  match e.phase with
  | .waiting =>
    match e.fillActiveChannels ready with
    | [] => e
    | active => { e with phase := .handling [] active }
  | _ => e

/-- The next active channel, unless it is the acceptor's: the callbacks of a
connection are called in later steps, that of `wakeupChannel_` at once. -/
def nextChannel (e : EventLoop φ) : EventLoop φ :=
  match e.phase with
  | .handling [] (.wakeupChannel_ :: active) => { e with wakeupFd_ := 0, phase := .handling [] active }
  | .handling [] (.connection this revents :: active) =>
    { e with phase := .handling ((Channel.handleEvent revents).map (this, ·)) active }
  | _ => e

/-- `doPendingFunctors()` up to its loop. -/
def doPendingFunctors (e : EventLoop φ) : EventLoop φ :=
  match e.phase with
  | .handling [] [] => { e with pendingFunctors_ := [], phase := .calling e.pendingFunctors_ }
  | _ => e

end EventLoop

end Ydx
