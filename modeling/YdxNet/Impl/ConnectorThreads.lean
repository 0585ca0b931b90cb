import YdxNet.Impl.Connector
import YdxNet.Framework.Machine

/-!
# `connector.cpp`: `stop` from another thread

The operations of a connector in the steps of the loop thread that runs them:
`start` up to its call of `connect`, `connect` up to its end or into `retry`,
and in `retry` the test of `connect_`, the `sleep` and the call of `start`.
`handleWrite` and `handleError` are one step up to their `retry`. Another
thread calls `stop`, which is one step, between any two of them.
-/

namespace Ydx

/-- Where the loop thread is in the connector. -/
inductive ConnectPc
  /-- Outside. -/
  | idle
  /-- Before `connect()`. -/
  | connect
  /-- In `retry`, before the test of `connect_`. -/
  | test
  /-- In `sleep`. -/
  | sleep
  /-- In `retry`, before `start()`. -/
  | again
  deriving DecidableEq, Repr

/-- A connector, and its loop thread. -/
structure ConnectorThreads where
  connector : Connector
  loop : ConnectPc

namespace ConnectorThreads

/-- A step of the loop thread, or `stop()` of another. -/
inductive Action
  /-- The user calls `start()`. -/
  | start
  /-- The user calls `restart()`. -/
  | restart
  /-- `connect()`, with the result of the system's `connect`. -/
  | connect (savedErrno : Nat)
  /-- `retry` tests `connect_`. -/
  | test
  /-- `sleep` is over. -/
  | wake
  /-- `retry` calls `start()`. -/
  | again
  /-- The channel's event, with the error of the socket, and whether it is
  connected to itself. -/
  | handleWrite (err : Nat) (isSelfConnect : Bool)
  | handleError
  | stop
  deriving DecidableEq, Repr

/-- A connector that nobody has started. -/
def new (p : EPollPoller) : ConnectorThreads := ⟨.new p, .idle⟩

/-- `retry(sockfd)` up to its test of `connect_`. -/
def retry (c : Connector) (sockfd : Fd) : ConnectorThreads × List ConnectorAct :=
  (⟨c.setState .kDisconnected, .test⟩, [.retry sockfd, .close sockfd])

/-- `connect()`. -/
def connect (c : Connector) (savedErrno : Nat) : ConnectorThreads × List ConnectorAct :=
  let sockfd := c.sockets
  let c := { c with sockets := c.sockets + 1 }
  let r : ConnectorThreads × List ConnectorAct := match ConnectCase.ofErrno savedErrno with
    | .connecting => (⟨(c.connecting sockfd).1, .idle⟩, (c.connecting sockfd).2)
    | .retry => retry c sockfd
    | .close => (⟨c, .idle⟩, [.close sockfd])
  (r.1, .connect sockfd savedErrno :: r.2)

/-- `handleWrite()`. -/
def handleWrite (c : Connector) (err : Nat) (isSelfConnect : Bool) : ConnectorThreads × List ConnectorAct :=
  match c.state_, c.channel_ with
  | .kConnecting, some ch =>
    let r := c.removeAndResetChannel ch
    let t : ConnectorThreads × List ConnectorAct :=
      if err ≠ 0 then retry r.2 r.1
      else if isSelfConnect then retry r.2 r.1
      else (⟨r.2.setState .kConnected, .idle⟩, if r.2.connect_ then [.newConnection r.1] else [.close r.1])
    (t.1, .query r.1 :: t.2)
  | _, _ => (⟨c, .idle⟩, [])

/-- `handleError()`. -/
def handleError (c : Connector) : ConnectorThreads × List ConnectorAct :=
  match c.state_, c.channel_ with
  | .kConnecting, some ch =>
    let r := c.removeAndResetChannel ch
    let t := retry r.2 r.1
    (t.1, .query r.1 :: t.2)
  | _, _ => (⟨c, .idle⟩, [])

/-- One step, and what it does with sockets. The loop thread takes it only
where it is due. -/
def step (s : ConnectorThreads) : Action → ConnectorThreads × List ConnectorAct
  | .start =>
    match s.loop with
    | .idle => (⟨{ s.connector with connect_ := true }, .connect⟩, [])
    | _ => (s, [])
  | .restart =>
    match s.loop with
    | .idle => (⟨{ s.connector.setState .kDisconnected with connect_ := true }, .connect⟩, [])
    | _ => (s, [])
  | .connect savedErrno =>
    match s.loop with
    | .connect => connect s.connector savedErrno
    | _ => (s, [])
  | .test =>
    match s.loop with
    | .test => ({ s with loop := if s.connector.connect_ then .sleep else .idle }, [])
    | _ => (s, [])
  | .wake =>
    match s.loop with
    | .sleep => ({ s with loop := .again }, [])
    | _ => (s, [])
  | .again =>
    match s.loop with
    | .again => (⟨{ s.connector with connect_ := true }, .connect⟩, [])
    | _ => (s, [])
  | .handleWrite err isSelfConnect =>
    match s.loop with
    | .idle => handleWrite s.connector err isSelfConnect
    | _ => (s, [])
  | .handleError =>
    match s.loop with
    | .idle => handleError s.connector
    | _ => (s, [])
  | .stop => ({ s with connector := s.connector.stop.1 }, s.connector.stop.2)

/-- The loop thread and the other, interleaved in any way. -/
def machine : Machine ConnectorThreads Action (List ConnectorAct) where
  step := step

end ConnectorThreads

end Ydx
