import YdxNet.Framework.Machine

/-!
# `tcp_client.cpp`

The connection of a client, as far as its users see it: `connection_`, here
the number in the name of the connection, and the flag that `is_connected()`
returns. The flag is set by the constructor, before there is a connection.
-/

namespace Ydx

/-- `class TcpClient`. -/
structure TcpClient where
  retry_ : Bool
  connect_ : Bool
  nextConnId_ : Nat
  connection_ : Option Nat
  deriving DecidableEq, Repr

namespace TcpClient

/-- The constructor. -/
def new : TcpClient := ⟨false, true, 1, none⟩

/-- `enableRetry()`. -/
def enableRetry (c : TcpClient) : TcpClient := { c with retry_ := true }

/-- `is_connected()`. -/
def isConnected (c : TcpClient) : Bool := c.connect_

/-- `stop()`, less its call of the connector. -/
def stop (c : TcpClient) : TcpClient := { c with connect_ := false }

/-- `disconnect()`, less its call of the connection's `shutdown`. -/
def disconnect (c : TcpClient) : TcpClient := { c with connect_ := false }

/-- `newConnection(sockfd)`, called by the connector. -/
def newConnection (c : TcpClient) : TcpClient :=
  { c with connection_ := some c.nextConnId_, nextConnId_ := c.nextConnId_ + 1, connect_ := true }

/-- `removeConnection(conn)`, the close callback of the connection. -/
def removeConnection (c : TcpClient) : TcpClient := { c with connection_ := none, connect_ := false }

/-- A call, of the user, the connector or a connection. -/
inductive Op
  | connect
  | disconnect
  | stop
  | newConnection
  | removeConnection
  deriving DecidableEq, Repr

/-- What a call does to the client. `connect()` only starts the connector. -/
def step (c : TcpClient) : Op → TcpClient
  | .connect => c
  | .disconnect => c.disconnect
  | .stop => c.stop
  | .newConnection => c.newConnection
  | .removeConnection => c.removeConnection

/-- A client and its calls. -/
def machine : Machine TcpClient Op Unit where
  step c op := (c.step op, ())

end TcpClient

end Ydx
