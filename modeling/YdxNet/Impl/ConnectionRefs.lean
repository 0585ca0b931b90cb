import YdxNet.Impl.TcpServer
import YdxNet.Impl.TcpClient
import Mathlib.Algebra.BigOperators.Group.Finset.Basic

/-!
# Who holds a connection

`TcpConnection`s are held by `shared_ptr`s: the owner's, which is an entry of
`connections_` of a server or `connection_` of a client; those bound into
functors, which `shutdownInLoop` is not; `guardThis` of `handleClose`; and the
copies of users. When the last one goes, so does the connection with its
channel, though `Channel::handleEvent` may still be at work on it: `tie` is
commented out.
-/

namespace Ydx

/-- The functor holds connection `c`. -/
def Functor.holds (c : Nat) : Functor → Bool
  | .connectEstablished c' | .connectDestroyed c' | .removeConnectionInLoop c' => c' == c
  | .shutdownInLoop _ => false

namespace TcpServer

/-- The functors of a loop that have not run. Those that have run are left out,
though `doPendingFunctors` keeps them until it returns. -/
def functors (s : TcpServer) (l : Nat) : List Functor :=
  match (s.loops l).phase with
  | .calling functors => functors ++ (s.loops l).pendingFunctors_
  | _ => (s.loops l).pendingFunctors_

/-- The references to connection `c` while no user has one, between the steps of
the threads: that of `connections_`, and those of the functors. -/
def references (s : TcpServer) (c : Nat) : Nat :=
  (match s.conns[c]? with
    | some C => if s.connections_ C.name_ = some c then 1 else 0
    | none => 0) +
  ∑ l ∈ Finset.range (s.threadPool_.numThreads_ + 1), (s.functors l).countP (Functor.holds c)

/-- The connection that the next callback of the loop `l` closes. -/
def closing (s : TcpServer) (l : Nat) (readv : ReadvResult) (write : WriteResult) : Option Nat :=
  match (s.loops l).phase with
  | .handling ((c, cb) :: _) _ =>
    match s.conns[c]? with
    | some C => if .closeCallback ∈ (handler readv write cb (s.loops C.epoller_).poller C.conn).2.2 then some c else none
    | none => none
  | _ => none

/-- The loop `l` has called all callbacks of its channel. -/
def returned (s : TcpServer) (l : Nat) : Bool :=
  match (s.loops l).phase with
  | .handling [] _ => true
  | _ => false

/-- A server, and for each loop the connection, if any, whose `handleEvent` it is
in and has run `handleClose`. -/
structure Dispatching where
  server : TcpServer
  closed : Nat → Option Nat

/-- The threads of a server. A loop has left `handleEvent` at the latest when it
takes its next step after the callbacks. -/
def dispatching : Machine Dispatching Action Unit where
  step s a :=
    let closed := match a with
      | .callback l readv write =>
        match s.server.closing l readv write with
        | some c => Function.update s.closed l (some c)
        | none => s.closed
      | .nextChannel l | .doPendingFunctors l =>
        if s.server.returned l then Function.update s.closed l none else s.closed
      | .accept _ => if s.server.returned 0 then Function.update s.closed 0 none else s.closed
      | _ => s.closed
    (⟨s.server.step a, closed⟩, ())

end TcpServer

/-- Where the loop of a client is with a connection's channel. -/
inductive DispatchPc
  /-- Outside of its `handleEvent`. -/
  | outside
  /-- In `handleEvent`, with these callbacks left. -/
  | handling (callbacks : List Callback)
  /-- In `handleClose`, before `closeCallback_`. -/
  | closing (callbacks : List Callback)
  /-- In `handleClose`, after `closeCallback_`. -/
  | removed (callbacks : List Callback)
  deriving DecidableEq, Repr

/-- A client, one of its connections, whether the poller still has its channel,
the copies that users hold of it, and where the loop is; `closed` says that
`handleClose` has run in this `handleEvent`. -/
structure ClientRefs where
  client : TcpClient
  conn : Nat
  registered : Bool
  users : Nat
  pc : DispatchPc
  closed : Bool
  deriving DecidableEq, Repr

namespace ClientRefs

/-- A step of the loop, or of a user. -/
inductive Action
  | handleEvent (revents : Events)
  /-- The next callback; what `readv` gives in it. -/
  | callback (readv : ReadvResult)
  /-- `closeCallback_`, which is `TcpClient::removeConnection`. It calls
  `connectDestroyed`, and `restart` of the connector. -/
  | closeCallback
  /-- `handleClose` returns. -/
  | endClose
  /-- `handleEvent` returns. -/
  | endEvent
  /-- The client has a new connection. -/
  | newConnection
  /-- A user copies a pointer. -/
  | copy
  /-- A user drops one. -/
  | drop
  deriving DecidableEq, Repr

/-- A client, after `newConnection` has made the connection. -/
def start (client : TcpClient) : ClientRefs := ⟨client.newConnection, client.nextConnId_, true, 0, .outside, false⟩

/-- `guardThis`. -/
def guardThis : DispatchPc → Nat
  | .closing _ | .removed _ => 1
  | _ => 0

/-- The references to the connection. -/
def references (s : ClientRefs) : Nat :=
  (if s.client.connection_ = some s.conn then 1 else 0) + guardThis s.pc + s.users

/-- The callback calls `handleClose`. -/
def closes (readv : ReadvResult) : Callback → Bool
  | .closeCallback_ => true
  | .readCallback_ => readv == .ok []
  | _ => false

/-- One step. The loop takes it only where it is due, and comes only to a
channel that exists and is registered. -/
def step (s : ClientRefs) : Action → ClientRefs
  | .handleEvent revents =>
    match s.pc with
    | .outside =>
      if s.registered && decide (0 < s.references) then
        { s with pc := .handling (Channel.handleEvent revents), closed := false }
      else s
    | _ => s
  | .callback readv =>
    match s.pc with
    | .handling (cb :: callbacks) =>
      if closes readv cb then { s with pc := .closing callbacks, closed := true }
      else { s with pc := .handling callbacks }
    | _ => s
  | .closeCallback =>
    match s.pc with
    | .closing callbacks =>
      { s with client := s.client.removeConnection, registered := false, pc := .removed callbacks }
    | _ => s
  | .endClose =>
    match s.pc with
    | .removed callbacks => { s with pc := .handling callbacks }
    | _ => s
  | .endEvent =>
    match s.pc with
    | .handling [] => { s with pc := .outside }
    | _ => s
  | .newConnection =>
    match s.pc with
    | .outside => { s with client := s.client.newConnection }
    | _ => s
  | .copy => if 0 < s.references then { s with users := s.users + 1 } else s
  | .drop => { s with users := s.users - 1 }

/-- The loop and the users, interleaved in any way. -/
def machine : Machine ClientRefs Action Unit where
  step s a := (s.step a, ())

end ClientRefs

end Ydx
