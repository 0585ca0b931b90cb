import YdxNet.Impl.Connector
import YdxNet.Impl.TcpClient

/-!
# `tcp_client.cpp`: a client and its connector

What the user asks of a client, and the events that reach it: those of the
connector's channel, and the end of a connection. The connector calls
`newConnection` when an attempt has succeeded, a connection calls
`removeConnection` when it is closed. A call that starts an attempt takes the
results of `connect`, at least one, as the connector's operations do.
-/

namespace Ydx

/-- A client, its connector, and the connections that are not closed. `final`
says that the user has called `stop()` or `disconnect()` and not yet
`connect()` again. -/
structure ClientConnector where
  client : TcpClient
  connector_ : Connector
  conns : List Nat
  final : Bool

namespace ClientConnector

/-- A call of the user, or an event; `errno` and `errnos` are what `connect`
gives if it is called. -/
inductive Event
  | connect (errno : Nat) (errnos : List Nat)
  | stop
  | disconnect
  /-- The connector's channel is writable. -/
  | handleWrite (err : Nat) (isSelfConnect : Bool) (errno : Nat) (errnos : List Nat)
  /-- The connector's channel has an error. -/
  | handleError (errno : Nat) (errnos : List Nat)
  /-- A connection is closed. -/
  | close (conn : Nat) (errno : Nat) (errnos : List Nat)
  deriving DecidableEq, Repr

/-- The constructor, with `enableRetry()` or without. -/
def new (p : EPollPoller) (retry : Bool) : ClientConnector := ⟨{ TcpClient.new with retry_ := retry }, .new p, [], false⟩

/-- What the connector did, with `newConnection` if it called it. -/
def connected (s : ClientConnector) (r : Connector × List ConnectorAct) : ClientConnector × List ConnectorAct :=
  if r.2.any fun a => a matches .newConnection _ then
    ({ s with client := s.client.newConnection, connector_ := r.1, conns := s.client.nextConnId_ :: s.conns }, r.2)
  else ({ s with connector_ := r.1 }, r.2)

/-- `removeConnection(conn)`. The test of `connect_` is commented out. -/
def removeConnection (s : ClientConnector) (conn : Nat) (errnos : List Nat) : ClientConnector × List ConnectorAct :=
  let s := { s with client := s.client.removeConnection, conns := s.conns.erase conn }
  if s.client.retry_ then
    let r := s.connector_.restart errnos
    ({ s with connector_ := r.1 }, r.2)
  else (s, [])

/-- What an event does, and what the connector does with sockets. -/
def step (s : ClientConnector) : Event → ClientConnector × List ConnectorAct
  | .connect errno errnos =>
    let r := s.connector_.start (errno :: errnos)
    ({ s with connector_ := r.1, final := false }, r.2)
  | .stop =>
    let r := s.connector_.stop
    ({ s with client := s.client.stop, connector_ := r.1, final := true }, r.2)
  | .disconnect => ({ s with client := s.client.disconnect, final := true }, [])
  | .handleWrite err isSelfConnect errno errnos =>
    s.connected (s.connector_.handleWrite err isSelfConnect (errno :: errnos))
  | .handleError errno errnos => s.connected (s.connector_.handleError (errno :: errnos))
  | .close conn errno errnos => if conn ∈ s.conns then s.removeConnection conn (errno :: errnos) else (s, [])

/-- A client and its events. -/
def machine : Machine ClientConnector Event (List ConnectorAct) where
  step := step

end ClientConnector

end Ydx
