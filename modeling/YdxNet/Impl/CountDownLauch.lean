import YdxNet.Framework.Condition
import YdxNet.Framework.Machine
import Mathlib.Logic.Function.Basic

/-!
# `ydx_countdown_lauch.cpp`

`n` threads that call `wait()`, and any others that call `countDown()`. The sections
under the mutex are one step each, and the return from `condition_.wait()` is another.
-/

namespace Ydx

/-- Where a thread is in `wait()`. -/
inductive LauchPc
  /-- Outside. -/
  | idle
  /-- In `condition_.wait()`. -/
  | waiting (signalled : Bool)
  /-- `wait()` has returned. -/
  | returned
  deriving DecidableEq, Repr

/-- `condition_`. -/
def LauchPc.condition_ : Condition LauchPc where
  blocked
    | .waiting signalled => !signalled
    | _ => false
  signalled
    | .waiting signalled => signalled
    | _ => false
  signal _ := .waiting true
  signalled_of_blocked {a} h := by
    cases a with
    | waiting b => simpa using h
    | idle | returned => rfl
  blocked_signal _ := rfl
  signalled_signal _ := rfl

/-- `class CountDownLauch`, and the threads. -/
structure CountDownLauch (n : Nat) where
  count_ : Int32
  threads : Fin n → LauchPc
  /-- How often `countDown()` has been called. -/
  called : Nat

namespace CountDownLauch

variable {n : Nat}

/-- The constructor. -/
def new (n : Nat) (count : Int32) : CountDownLauch n := ⟨count, fun _ => .idle, 0⟩

/-- `countDown()`. -/
def countDown (s : CountDownLauch n) : CountDownLauch n where
  count_ := s.count_ - 1
  threads := if s.count_ - 1 = 0 then LauchPc.condition_.notifyAll s.threads else s.threads
  called := s.called + 1

/-- `while (count_ > 0) condition_.wait();` in thread `i`, with the mutex locked. -/
def await (s : CountDownLauch n) (i : Fin n) : CountDownLauch n :=
  { s with threads := Function.update s.threads i (if s.count_ > 0 then .waiting false else .returned) }

/-- A step of one of the threads. -/
inductive Action (n : Nat)
  | countDown
  /-- Thread `i` calls `wait()`. -/
  | wait (i : Fin n)
  /-- It returns from `condition_.wait()`, signalled or for no reason. -/
  | resume (i : Fin n)
  deriving DecidableEq

/-- One step. A thread that is elsewhere does not take it. -/
def step (s : CountDownLauch n) : Action n → CountDownLauch n
  | .countDown => s.countDown
  | .wait i => if s.threads i = .idle then s.await i else s
  | .resume i =>
    match s.threads i with
    | .waiting _ => s.await i
    | _ => s

/-- The threads, interleaved in any way. -/
def machine (n : Nat) : Machine (CountDownLauch n) (Action n) Unit where
  step s a := (s.step a, ())

end CountDownLauch

end Ydx
