import YdxNet.Framework.Machine
import YdxNet.Framework.OrderedSet
import Mathlib.Algebra.Group.Nat.Defs
import Mathlib.Data.Prod.Lex
import Mathlib.Logic.Function.Basic

/-!
# `ydx_timer_set.cpp`, `ydx_timer.cpp`, `timestamp.h`

The timers of one loop, with every call made in the thread of the loop, where
`runInLoop` calls at once. A time is an integer, the microseconds of a
`Timestamp`; the sums and differences of the code do not leave the range of
`int64_t`, which would be undefined. Of an interval, a `double` of seconds, the
code uses the sign and the whole microseconds, which may be none.

The memory behind `Timer*` is part of the state: `delete` leaves the contents
in place, so that the model can follow the code past the use of a deleted
timer, and `Event.dangling` records that use. The address `new` returns, the
value of the clock at each call of `Timestamp::now()`, and what a callback
does are arguments.
-/

namespace Ydx

/-- An address. -/
abbrev Addr := Nat

/-- `UINTPTR_MAX`. -/
def UINTPTR_MAX : Addr := 2 ^ 64 - 1

/-- `Timestamp::valid()`. -/
def validTimestamp (t : Int) : Bool := 0 < t

/-- A `double` of seconds: whether it is greater than 0.0, and
`static_cast<int64_t>(seconds * micro_seconds_per_sec)`, which rounds towards 0. -/
structure Interval where
  positive : Bool
  delta : Int
  sign : if positive then 0 ≤ delta else delta ≤ 0
  deriving DecidableEq, Repr

/-- Whole microseconds. -/
def Interval.micro (delta : Int) : Interval where
  positive := 0 < delta
  delta := delta
  sign := by
    split
    · exact Int.le_of_lt (of_decide_eq_true ‹_›)
    · exact Int.not_lt.mp (of_decide_eq_false (Bool.eq_false_iff.mpr ‹_›))

instance (n : Nat) : OfNat Interval n where
  ofNat := .micro n

/-- `addTime(timestamp, seconds)`. -/
def addTime (timestamp : Int) (seconds : Interval) : Int := timestamp + seconds.delta

/-- `class Timer`. -/
structure Timer where
  expiration_ : Int
  interval_ : Interval
  repeat_ : Bool
  sequence_ : Nat
  deriving DecidableEq, Repr

/-- The constructor. -/
def Timer.new (when : Int) (interval : Interval) (sequence : Nat) : Timer :=
  ⟨when, interval, interval.positive, sequence⟩

/-- `restart(now)`. -/
def Timer.restart (t : Timer) (now : Int) : Timer :=
  { t with expiration_ := if t.repeat_ then addTime now t.interval_ else 0 }

/-- `class TimerId`. -/
@[ext]
structure TimerId where
  timer_ : Addr
  sequence_ : Nat
  deriving DecidableEq, Repr

/-- The memory of a timer, before and after `delete`. -/
inductive Cell
  | live (timer : Timer)
  | freed (timer : Timer)
  deriving DecidableEq, Repr

/-- What is in the memory. -/
def Cell.timer : Cell → Timer
  | .live t => t
  | .freed t => t

/-- `Entry`, a pair, with the order of `std::pair`. -/
abbrev Entry := Int ×ₗ Addr

/-- `Entry(first, second)`. -/
def entry (first : Int) (second : Addr) : Entry := toLex (first, second)

/-- The expiration in an entry. -/
def Entry.first (e : Entry) : Int := (ofLex e).1

/-- The timer in an entry. -/
def Entry.second (e : Entry) : Addr := (ofLex e).2

/-- `struct timespec`. -/
structure Timespec where
  tv_sec : Int
  tv_nsec : Int
  deriving DecidableEq, Repr

/-- A timerfd that is armed, or has expired and is not read: when it was set,
and when it expires, both in microseconds. -/
structure Armed where
  setAt : Int
  instant : Int
  deriving DecidableEq, Repr

/-- What the timers do, in the order in which they do it. -/
inductive Event
  /-- `new Timer(cb, when, interval)`. -/
  | added (id : TimerId) (when : Int) (interval : Interval)
  /-- `cancelInLoop(id)`. -/
  | cancelled (id : TimerId)
  /-- `run()` of a timer, in the batch of `now`. -/
  | ran (sequence : Nat) (now : Int)
  /-- `delete` of an address. -/
  | deleted (timer : Addr)
  /-- A timer is used, or deleted, that is not there. -/
  | dangling (timer : Addr)
  /-- An assertion failed. -/
  | assertFailed
  deriving DecidableEq, Repr

/-- `class TimerSet`, with the memory and the counter of `Timer`. -/
structure TimerSet where
  timer_container_ : List Entry
  timerfd_ : Option Armed
  heap : Addr → Option Cell
  timer_sequence_creater : Nat

/-- `micro_seconds_per_sec`. -/
def microSecondsPerSec : Int := 1000 * 1000

/-- `howMuchTimeFromNow(when)` at the time `now`. -/
def howMuchTimeFromNow (when now : Int) : Timespec :=
  let microseconds := if when - now < 100 then 100 else when - now
  ⟨microseconds / microSecondsPerSec, microseconds % microSecondsPerSec * 1000⟩

/-- `resetTimerfd(timerfd, expiration)` at the time `now`: the relative time
given to `timerfd_settime` starts there. -/
def resetTimerfd (expiration now : Int) : Armed :=
  let newValue := howMuchTimeFromNow expiration now
  ⟨now, now + newValue.tv_sec * microSecondsPerSec + newValue.tv_nsec / 1000⟩

/-- `readTimerfd(timerfd, now)`: a read of a timerfd that has expired. -/
def readTimerfd (timerfd : Option Armed) (now : Int) : Option Armed :=
  match timerfd with
  | some armed => if armed.instant ≤ now then none else some armed
  | none => none

namespace TimerSet

/-- No timers, and no memory for them. -/
def new : TimerSet := ⟨[], none, fun _ => none, 0⟩

/-- The timer behind a pointer, and the events of looking at it. -/
def deref (s : TimerSet) (a : Addr) : Timer × List Event :=
  match s.heap a with
  | some (.live t) => (t, [])
  | some (.freed t) => (t, [.dangling a])
  | none => (⟨0, 0, false, 0⟩, [.dangling a])

/-- The memory after a change of the timer at `a`. -/
def store (s : TimerSet) (a : Addr) (t : Timer) : TimerSet :=
  match s.heap a with
  | some (.live _) => { s with heap := Function.update s.heap a (some (.live t)) }
  | some (.freed _) => { s with heap := Function.update s.heap a (some (.freed t)) }
  | none => s

/-- `delete`. -/
def delete (s : TimerSet) (a : Addr) : TimerSet × List Event :=
  match s.heap a with
  | some (.live t) => ({ s with heap := Function.update s.heap a (some (.freed t)) }, [.deleted a])
  | _ => (s, [.deleted a, .dangling a])

/-- `earliestChanged` of `insert`: nothing in the container expires at `when`
or before. -/
def earliestChanged (s : TimerSet) (when : Int) : Bool :=
  match s.timer_container_.head? with
  | none => true
  | some it => when < it.first

/-- `insert(timer)`: whether it is the earliest, and the set. -/
def insert (s : TimerSet) (timer : Addr) : Bool × TimerSet × List Event :=
  let (t, used) := s.deref timer
  let result := OrderedSet.insert (entry t.expiration_ timer) s.timer_container_
  (s.earliestChanged t.expiration_, { s with timer_container_ := result.1 },
    used ++ if result.2 then [] else [.assertFailed])

/-- `addTimerInLoop(timer)` at the time `now`. -/
def addTimerInLoop (s : TimerSet) (timer : Addr) (now : Int) : TimerSet × List Event :=
  let (earliestChanged, s, events) := s.insert timer
  if earliestChanged then
    let (t, used) := s.deref timer
    ({ s with timerfd_ := some (resetTimerfd t.expiration_ now) }, events ++ used)
  else (s, events)

/-- `addTimer(cb, when, interval)`, where `new` returns `timer`. -/
def addTimer (s : TimerSet) (timer : Addr) (when : Int) (interval : Interval) (now : Int) : TimerSet × List Event :=
  let sequence := s.timer_sequence_creater + 1
  let s := { s with
    heap := Function.update s.heap timer (some (.live (.new when interval sequence)))
    timer_sequence_creater := sequence }
  let r := s.addTimerInLoop timer now
  (r.1, .added ⟨timer, sequence⟩ when interval :: r.2)

/-- `cancelInLoop(timerId)`. -/
def cancelInLoop (s : TimerSet) (timerId : TimerId) : TimerSet × List Event :=
  let (t, used) := s.deref timerId.timer_
  let s := { s with timer_container_ := OrderedSet.erase (entry t.expiration_ timerId.timer_) s.timer_container_ }
  let r := s.delete timerId.timer_
  (r.1, .cancelled timerId :: used ++ r.2)

/-- `getExpired(now)`: the expired entries, and the set. -/
def getExpired (s : TimerSet) (now : Int) : List Entry × TimerSet × List Event :=
  let sentry := entry now UINTPTR_MAX
  let expired := OrderedSet.before sentry s.timer_container_
  let rest := OrderedSet.notBefore sentry s.timer_container_
  let asserted : List Event := match rest.head? with
    | none => []
    | some it => if now < it.first then [] else [.assertFailed]
  (expired, { s with timer_container_ := rest }, asserted)

/-- A call that a callback makes. -/
inductive Action
  | addTimer (timer : Addr) (when : Int) (interval : Interval) (now : Int)
  | cancel (timerId : TimerId)
  deriving DecidableEq, Repr

/-- A step of the loop of `handleRead`: `run()` of an expired timer, or a call
its callback makes. -/
inductive Turn
  | run (it : Entry)
  | call (action : Action)

/-- The effect of a call from a callback. -/
def Action.apply (s : TimerSet) : Action → TimerSet × List Event
  | .addTimer timer when interval now => s.addTimer timer when interval now
  | .cancel timerId => s.cancelInLoop timerId

/-- The loop of `handleRead` at `now`, turn by turn. -/
def turns (now : Int) : Machine TimerSet Turn (List Event) where
  step s
    | .run it => (s, (s.deref it.second).2 ++ [.ran (s.deref it.second).1.sequence_ now])
    | .call action => action.apply s

/-- The turns of a batch: each timer, followed by the calls of its callback. -/
def script : List Entry → List (List Action) → List Turn
  | [], _ => []
  | it :: expired, callbacks =>
    .run it :: (callbacks.headD []).map .call ++ script expired callbacks.tail

/-- One turn of the loop of `reset`. -/
def resetOne (s : TimerSet) (now : Int) (it : Entry) : TimerSet × List Event :=
  let (t, used) := s.deref it.second
  if t.repeat_ then
    let r := (s.store it.second (t.restart now)).insert it.second
    (r.2.1, used ++ r.2.2)
  else
    let r := s.delete it.second
    (r.1, used ++ r.2)

/-- The loop of `reset`. -/
def resetAll (now : Int) : Machine TimerSet Entry (List Event) where
  step s it := s.resetOne now it

/-- The end of `reset`, at the time `later`. -/
def rearm (s : TimerSet) (later : Int) : TimerSet × List Event :=
  let (nextExpire, used) : Int × List Event := match s.timer_container_.head? with
    | none => (0, [])
    | some it => ((s.deref it.second).1.expiration_, (s.deref it.second).2)
  (if validTimestamp nextExpire then { s with timerfd_ := some (resetTimerfd nextExpire later) } else s, used)

/-- `reset(expired, now)`, which looks at the clock again at `later`. -/
def reset (s : TimerSet) (expired : List Entry) (now later : Int) : TimerSet × List Event :=
  let r := ((resetAll now).final s expired).rearm later
  (r.1, ((resetAll now).outputs s expired).flatten ++ r.2)

/-- `handleRead()` at the time `now`, where the callbacks of the batch make
the calls `callbacks`, one list for each. -/
def handleRead (s : TimerSet) (now : Int) (callbacks : List (List Action)) (later : Int) : TimerSet × List Event :=
  let (expired, s₁, asserted) := { s with timerfd_ := readTimerfd s.timerfd_ now }.getExpired now
  let r := ((turns now).final s₁ (script expired callbacks)).reset expired now later
  (r.1, asserted ++ ((turns now).outputs s₁ (script expired callbacks)).flatten ++ r.2)

end TimerSet

end Ydx
