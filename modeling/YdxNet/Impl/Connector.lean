import YdxNet.Impl.EventLoop
import YdxNet.Impl.TcpConnection

/-!
# `connector.cpp`

The side of a client that makes connections. A socket is known by its number
in the order they are created. The results of `connect`, one for each call in
the order of the calls, and those of the queries of a socket are arguments. As
`retry` calls `start` and that `connect` again, an operation takes as many of
them as it needs; while they do not suffice, it is in the `sleep` of `retry`.
An operation returns the connector, and what it did with sockets.
-/

namespace Ydx

/-- `errno` of `connect`, by its values on Linux. -/
def EINPROGRESS : Nat := 115
def EINTR : Nat := 4
def EISCONN : Nat := 106
def EADDRINUSE : Nat := 98
def EADDRNOTAVAIL : Nat := 99
def ECONNREFUSED : Nat := 111
def ENETUNREACH : Nat := 101
def EACCES : Nat := 13
def EPERM : Nat := 1
def EAFNOSUPPORT : Nat := 97
def EALREADY : Nat := 114
def EBADF : Nat := 9
def EFAULT : Nat := 14
def ENOTSOCK : Nat := 88

/-- What `Connector::connect` does after the system call. -/
inductive ConnectCase
  | connecting
  | retry
  | close
  deriving DecidableEq, Repr

/-- The `switch` of `connect()`. -/
def ConnectCase.ofErrno (savedErrno : Nat) : ConnectCase :=
  if savedErrno ∈ [0, EINPROGRESS, EINTR, EISCONN] then .connecting
  else if savedErrno ∈ [EWOULDBLOCK, EADDRINUSE, EADDRNOTAVAIL, ECONNREFUSED, ENETUNREACH] then .retry
  else if savedErrno ∈ [EACCES, EPERM, EAFNOSUPPORT, EALREADY, EBADF, EFAULT, ENOTSOCK] then .close
  else .close

/-- `enum States`. -/
inductive ConnectorState
  | kDisconnected
  | kConnecting
  | kConnected
  deriving DecidableEq, Repr

/-- What a connector does with sockets. -/
inductive ConnectorAct
  /-- `connect` of a new socket. -/
  | connect (sockfd : Fd) (savedErrno : Nat)
  /-- `connecting(sockfd)` is entered; whether `channel_` still holds a channel. -/
  | connecting (sockfd : Fd) (held : Bool)
  /-- `retry(sockfd)` is entered. -/
  | retry (sockfd : Fd)
  /-- The error of the socket is asked for. -/
  | query (sockfd : Fd)
  /-- `sockets::close(sockfd)`. -/
  | close (sockfd : Fd)
  /-- `newConnectionCallback_(sockfd)`. -/
  | newConnection (sockfd : Fd)
  deriving DecidableEq, Repr

/-- `class Connector`, with the poller it registers its channel with. -/
structure Connector where
  state_ : ConnectorState
  connect_ : Bool
  channel_ : Option Channel
  epoller_ : EPollPoller
  /-- How many sockets have been created. -/
  sockets : Nat

namespace Connector

/-- The constructor. -/
def new (p : EPollPoller) : Connector := ⟨.kDisconnected, false, none, p, 0⟩

/-- `setState(s)`. -/
def setState (c : Connector) (s : ConnectorState) : Connector := { c with state_ := s }

/-- `connecting(sockfd)`. The channel that `channel_` held is deleted. -/
def connecting (c : Connector) (sockfd : Fd) : Connector × List ConnectorAct :=
  let pc := (Channel.new sockfd sockfd).enableWriting c.epoller_
  ({ c.setState .kConnecting with channel_ := some pc.2, epoller_ := pc.1 }, [.connecting sockfd c.channel_.isSome])

/-- `retry(sockfd)`, given its call of `start`. -/
def retryWith (start : Connector → Connector × List ConnectorAct) (c : Connector) (sockfd : Fd) :
    Connector × List ConnectorAct :=
  let c := c.setState .kDisconnected
  if c.connect_ then
    let r := start c
    (r.1, .retry sockfd :: .close sockfd :: r.2)
  else (c, [.retry sockfd, .close sockfd])

/-- `connect()`, where `errnos` are the results of this and the following calls
of the system's `connect`. -/
def connect (c : Connector) : List Nat → Connector × List ConnectorAct
  | [] => (c, [])
  | savedErrno :: errnos =>
    let sockfd := c.sockets
    let c := { c with sockets := c.sockets + 1 }
    let r : Connector × List ConnectorAct := match ConnectCase.ofErrno savedErrno with
      | .connecting => c.connecting sockfd
      | .retry => c.retryWith (fun c => connect { c with connect_ := true } errnos) sockfd
      | .close => (c, [.close sockfd])
    (r.1, .connect sockfd savedErrno :: r.2)

/-- `start()`. -/
def start (c : Connector) (errnos : List Nat) : Connector × List ConnectorAct :=
  connect { c with connect_ := true } errnos

/-- `retry(sockfd)`. -/
def retry (c : Connector) (sockfd : Fd) (errnos : List Nat) : Connector × List ConnectorAct :=
  c.retryWith (fun c => c.start errnos) sockfd

/-- `restart()`. -/
def restart (c : Connector) (errnos : List Nat) : Connector × List ConnectorAct :=
  connect { c.setState .kDisconnected with connect_ := true } errnos

/-- `removeAndResetChannel()`, for the channel `ch`; it returns its descriptor. -/
def removeAndResetChannel (c : Connector) (ch : Channel) : Fd × Connector :=
  let pc := ch.disableAll c.epoller_
  let pc := pc.2.remove pc.1
  (pc.2.fd_, { c with channel_ := none, epoller_ := pc.1 })

/-- `stop()`. -/
def stop (c : Connector) : Connector × List ConnectorAct :=
  let c := { c with connect_ := false }
  match c.state_, c.channel_ with
  | .kConnecting, some ch =>
    let r := (c.setState .kDisconnected).removeAndResetChannel ch
    r.2.retry r.1 []
  | _, _ => (c, [])

/-- `handleWrite()`, with the error of the socket, and whether it is connected to
itself. In the state `kConnecting` there is a channel. -/
def handleWrite (c : Connector) (err : Nat) (isSelfConnect : Bool) (errnos : List Nat) :
    Connector × List ConnectorAct :=
  match c.state_, c.channel_ with
  | .kConnecting, some ch =>
    let r := c.removeAndResetChannel ch
    let t : Connector × List ConnectorAct :=
      if err ≠ 0 then r.2.retry r.1 errnos
      else if isSelfConnect then r.2.retry r.1 errnos
      else (r.2.setState .kConnected, if r.2.connect_ then [.newConnection r.1] else [.close r.1])
    (t.1, .query r.1 :: t.2)
  | _, _ => (c, [])

/-- `handleError()`. -/
def handleError (c : Connector) (errnos : List Nat) : Connector × List ConnectorAct :=
  match c.state_, c.channel_ with
  | .kConnecting, some ch =>
    let r := c.removeAndResetChannel ch
    let t := r.2.retry r.1 errnos
    (t.1, .query r.1 :: t.2)
  | _, _ => (c, [])

end Connector

end Ydx
