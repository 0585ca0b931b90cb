import YdxNet.Framework.Condition
import YdxNet.Framework.Machine
import Mathlib.Logic.Function.Basic

/-!
# `thread_pool.cpp`

A pool whose `start` has started `n` workers, `k` threads that call `run`, and
the thread that calls `stop`, critical section by critical section: `run` and
`take` are one step each unless they wait, and then the return from `wait()`
is another. What the tasks do is left open. A task that itself calls `run` is
one of the `k` callers, and ends only when that caller is back; the steps allow
it to end at any time. The tasks put into the queue and taken out of it are
recorded in their order.
-/

namespace Ydx

/-- Where a worker is in `runInThread`; `τ` are the tasks. -/
inductive WorkerPc (τ : Type)
  /-- Before the test of `running_`. -/
  | loop
  /-- Before `take()`. -/
  | take
  /-- In `notEmpty_.wait()`. -/
  | waiting (signalled : Bool)
  /-- `take()` has returned a task, or an empty one. -/
  | task (task : Option τ)
  /-- The thread has ended. -/
  | exited
  deriving DecidableEq, Repr

/-- Where a caller is in `run`. -/
inductive ProducerPc (τ : Type)
  /-- Outside. -/
  | idle
  /-- In `notFull_.wait()`. -/
  | waiting (task : τ) (signalled : Bool)
  deriving DecidableEq, Repr

/-- Where the caller of `stop` is. -/
inductive StopPc
  | notCalled
  /-- Before `join` of the thread `next`. -/
  | joining (next : Nat)
  | returned
  deriving DecidableEq, Repr

/-- `notEmpty_`. -/
def WorkerPc.notEmpty_ (τ : Type) : Condition (WorkerPc τ) where
  blocked
    | .waiting signalled => !signalled
    | _ => false
  signalled
    | .waiting signalled => signalled
    | _ => false
  signal _ := .waiting true
  signalled_of_blocked {a} h := by
    cases a with
    | waiting b => simpa using h
    | loop | take | task _ | exited => rfl
  blocked_signal _ := rfl
  signalled_signal _ := rfl

/-- `notFull_`. -/
def ProducerPc.notFull_ (τ : Type) : Condition (ProducerPc τ) where
  blocked
    | .waiting _ signalled => !signalled
    | .idle => false
  signalled
    | .waiting _ signalled => signalled
    | .idle => false
  signal
    | .waiting task _ => .waiting task true
    | .idle => .idle
  signalled_of_blocked {a} h := by
    cases a with
    | waiting t b => simpa using h
    | idle => rfl
  blocked_signal {a} _ := by cases a <;> rfl
  signalled_signal {a} h := by
    cases a with
    | waiting t b => rfl
    | idle => exact absurd h Bool.noConfusion

/-- `class ThreadPool`, with its workers and its callers. -/
structure ThreadPool (τ : Type) (n k : Nat) where
  maxQueueSize_ : Nat
  running_ : Bool
  queue_ : List τ
  workers : Fin n → WorkerPc τ
  producers : Fin k → ProducerPc τ
  stopping : StopPc
  enqueued : List τ
  dequeued : List τ

namespace ThreadPool

variable {τ : Type} {n k : Nat}

/-- `setMaxQueueSize(maxSize)` and `start(n)`. -/
def start (maxSize : Nat) : ThreadPool τ n k :=
  ⟨maxSize, true, [], fun _ => .loop, fun _ => .idle, .notCalled, [], []⟩

/-- A step of a thread; a notification looks for a thread from `pick` on. -/
inductive Action (τ : Type) (n k : Nat)
  /-- A caller calls `run(task)`. -/
  | run (caller : Fin k) (task : τ) (pick : Nat)
  /-- A caller's `notFull_.wait()` returns, signalled or not. -/
  | resume (caller : Fin k) (pick : Nat)
  /-- A worker tests `running_`. -/
  | test (worker : Fin n)
  /-- A worker calls `take()`. -/
  | take (worker : Fin n) (pick : Nat)
  /-- A worker's `notEmpty_.wait()` returns, signalled or not. -/
  | wakeup (worker : Fin n) (pick : Nat)
  /-- A worker has run its task. -/
  | done (worker : Fin n)
  /-- The section of `stop()` under the mutex. -/
  | stop
  /-- `stop()` joins the next thread, or returns. -/
  | join
  deriving DecidableEq, Repr

def isFull (s : ThreadPool τ n k) : Bool := decide (0 < s.maxQueueSize_) && decide (s.maxQueueSize_ ≤ s.queue_.length)

/-- `run` under the mutex, up to its end or to `notFull_.wait()`. -/
def enqueue (s : ThreadPool τ n k) (i : Fin k) (task : τ) (pick : Nat) : ThreadPool τ n k :=
  if s.isFull then { s with producers := Function.update s.producers i (.waiting task false) }
  else
    { s with
      queue_ := s.queue_ ++ [task]
      workers := (WorkerPc.notEmpty_ τ).notify pick s.workers
      producers := Function.update s.producers i .idle
      enqueued := s.enqueued ++ [task] }

/-- `take` under the mutex, up to its end or to `notEmpty_.wait()`. -/
def dequeue (s : ThreadPool τ n k) (j : Fin n) (pick : Nat) : ThreadPool τ n k :=
  match s.queue_ with
  | [] => { s with workers := Function.update s.workers j (if s.running_ then .waiting false else .task none) }
  | task :: q =>
    { s with
      queue_ := q
      workers := Function.update s.workers j (.task (some task))
      producers := if 0 < s.maxQueueSize_ then (ProducerPc.notFull_ τ).notify pick s.producers else s.producers
      dequeued := s.dequeued ++ [task] }

/-- One step of one thread. A thread that is elsewhere does not take it. -/
def step (s : ThreadPool τ n k) : Action τ n k → ThreadPool τ n k
  | .run i task pick =>
    match s.producers i with
    -- without workers, `run` calls the task itself
    | .idle => if n = 0 then s else s.enqueue i task pick
    | .waiting .. => s
  | .resume i pick =>
    match s.producers i with
    | .waiting task _ => s.enqueue i task pick
    | .idle => s
  | .test j =>
    match s.workers j with
    | .loop => { s with workers := Function.update s.workers j (if s.running_ then .take else .exited) }
    | _ => s
  | .take j pick =>
    match s.workers j with
    | .take => s.dequeue j pick
    | _ => s
  | .wakeup j pick =>
    match s.workers j with
    | .waiting _ => s.dequeue j pick
    | _ => s
  | .done j =>
    match s.workers j with
    | .task _ => { s with workers := Function.update s.workers j .loop }
    | _ => s
  | .stop =>
    match s.stopping with
    | .notCalled =>
      { s with running_ := false, workers := (WorkerPc.notEmpty_ τ).notifyAll s.workers, stopping := .joining 0 }
    | _ => s
  | .join =>
    match s.stopping with
    | .joining next =>
      if h : next < n then
        match s.workers ⟨next, h⟩ with
        | .exited => { s with stopping := .joining (next + 1) }
        | _ => s
      else { s with stopping := .returned }
    | _ => s

/-- The threads, interleaved in any way. -/
def machine (τ : Type) (n k : Nat) : Machine (ThreadPool τ n k) (Action τ n k) Unit where
  step s a := (s.step a, ())

end ThreadPool

end Ydx
