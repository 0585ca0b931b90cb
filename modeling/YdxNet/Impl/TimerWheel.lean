import YdxNet.Framework.Machine
import Mathlib.Logic.Function.Basic

/-!
# `ydx_timer_wheel.cpp`

A ring of buckets of shared pointers to nodes. A `boost::circular_buffer` at
its capacity drops its front element on `push_back`; the destructor of a node
calls its callback, so a callback runs when the last pointer to its node goes.
The callbacks do not use the wheel, and nobody else holds a pointer to a node.
Times are microseconds, and their differences do not leave the range of
`int64_t`. Nodes are numbered in the order in which `addNode` makes them.
-/

namespace Ydx

/-- `int64_t timeDifferenceMicro(high, low)`: milliseconds, rounded towards 0. -/
def timeDifferenceMicro (high low : Int) : Int := (high - low).tdiv 1000

/-- A `Bucket`: the nodes to which it has a pointer. -/
abbrev Bucket := List Nat

/-- A `boost::circular_buffer<Bucket>` at its capacity. -/
structure CircleBuff where
  buckets : List Bucket
  capacity : Nat
  full : buckets.length = capacity

namespace CircleBuff

/-- `resize(bucket_num)`. -/
def new (bucketNum : Nat) : CircleBuff := ⟨List.replicate bucketNum [], bucketNum, List.length_replicate ..⟩

/-- `front()`. -/
def front (b : CircleBuff) : Bucket := b.buckets.headD []

/-- `push_back(Bucket())`, less the destructor of the bucket it drops. -/
def pushBack (b : CircleBuff) : CircleBuff :=
  ⟨(b.buckets ++ [[]]).tail, b.capacity, by rw [List.length_tail, List.length_append, b.full]; rfl⟩

/-- `back().push_back(node)`. -/
def backPushBack (b : CircleBuff) (node : Nat) : CircleBuff :=
  ⟨b.buckets.modify (b.capacity - 1) (· ++ [node]), b.capacity, by rw [List.length_modify, b.full]⟩

/-- Some bucket has a pointer to the node. -/
def holds (b : CircleBuff) (node : Nat) : Bool := b.buckets.any (·.contains node)

/-- The destructor of a bucket: the nodes whose last pointer goes with it,
neither in what is left of the bucket nor in the buffer. -/
def destroy (b : CircleBuff) : Bucket → List Nat
  | [] => []
  | node :: more => if more.contains node || b.holds node then destroy b more else node :: destroy b more

end CircleBuff

/-- A callback: its node, and the number of the last push. -/
structure Ran where
  node : Nat
  push : Nat
  deriving DecidableEq, Repr

/-- `class TimerWheel`, and what has happened: the nodes made, the buckets
pushed, the push after which a node was last put into a bucket, and the
callbacks. -/
structure TimerWheel where
  node_circle_buf_ : CircleBuff
  time_ : Int
  nodes : Nat
  pushes : Nat
  touched : Nat → Option Nat
  ran : List Ran

namespace TimerWheel

/-- `TimerWheel(bucket_num)` at the time `now`. -/
def new (bucketNum : Nat) (now : Int) : TimerWheel := ⟨.new bucketNum, now, 0, 0, fun _ => none, []⟩

/-- `weak_ptr_node.lock()` gives a pointer. -/
def lock (w : TimerWheel) (node : Nat) : Bool := w.node_circle_buf_.holds node

/-- A turn of the loop of `addNode`. -/
def pushBack (w : TimerWheel) : TimerWheel :=
  { w with
    node_circle_buf_ := w.node_circle_buf_.pushBack
    pushes := w.pushes + 1
    ran := w.ran ++ (w.node_circle_buf_.pushBack.destroy w.node_circle_buf_.front).map (⟨·, w.pushes + 1⟩) }

/-- The loop of `addNode`. -/
def pushBacks : Nat → TimerWheel → TimerWheel
  | 0, w => w
  | i + 1, w => pushBacks i w.pushBack

/-- `node_circle_buf_.back().push_back(ptr_node)`. -/
def put (w : TimerWheel) (node : Nat) : TimerWheel :=
  { w with
    node_circle_buf_ := w.node_circle_buf_.backPushBack node
    touched := Function.update w.touched node (some w.pushes) }

/-- `addNode(time, cb, weak_ptr)`: what it returns, and the node that `weak_ptr`
then points to. A node that is turned down is destroyed at once. -/
def addNode (w : TimerWheel) (time : Int) (weakPtr : Option Nat) : TimerWheel × Bool × Option Nat :=
  let diffTime := timeDifferenceMicro time w.time_
  let made := { w with nodes := w.nodes + 1 }
  if diffTime < 0 then ({ made with ran := w.ran ++ [⟨w.nodes, w.pushes⟩] }, false, weakPtr)
  else
    let set := { made with time_ := if diffTime > 0 then time else w.time_ }
    ((pushBacks diffTime.toNat set).put w.nodes, true, some w.nodes)

/-- `refreshNode(weak_ptr_node)`. -/
def refreshNode (w : TimerWheel) (node : Nat) : TimerWheel := if w.lock node then w.put node else w

/-- A call. -/
inductive Op
  | addNode (time : Int) (weakPtr : Option Nat)
  | refreshNode (node : Nat)
  deriving DecidableEq, Repr

/-- The wheel and its calls; `addNode` gives its result and what the caller's
pointer is then. -/
def machine : Machine TimerWheel Op (Option (Bool × Option Nat)) where
  step
    | w, .addNode time weakPtr =>
      let r := w.addNode time weakPtr
      (r.1, some r.2)
    | w, .refreshNode node => (w.refreshNode node, none)

end TimerWheel

end Ydx
