import YdxNet.Impl.Buffer
import YdxNet.Impl.Poller

/-!
# `tcp_connection.cpp`

One connection on the poller of its loop. The results of `write` and `readv`
are arguments, so that every behaviour of the kernel is covered, and so is what
`errno` is behind the `printf` that follows a failed `write`. An operation
returns the poller, the connection, and what it did to the outside in the
order of the calls: `write` and `shutdown` of the socket, and the callbacks.
What a callback does with the connection is a further call on it.
-/

namespace Ydx

/-- `errno` of a write that would block, `EAGAIN`. -/
def EWOULDBLOCK : Nat := 11

/-- `errno` of a write to a socket that is shut down. -/
def EPIPE : Nat := 32

/-- `errno` of a socket that was reset by the peer. -/
def ECONNRESET : Nat := 104

/-- What `write` did: how many bytes the kernel would take, of which it takes
at most those it is given, or `errno`, with its value behind the `printf` that
tells of the failure, which leaves it alone unless it fails itself. -/
inductive WriteResult
  | accepted (n : Nat)
  | error (errno printed : Nat)
  deriving DecidableEq, Repr

/-- What `write` of `count` bytes returns. -/
def WriteResult.value (count : Nat) : WriteResult → Int
  | .accepted n => ((min n count : Nat) : Int)
  | .error .. => -1

/-- `enum StateE`. -/
inductive StateE
  | kDisconnected
  | kConnecting
  | kConnected
  | kDisconnecting
  deriving DecidableEq, Repr

/-- What a connection does to the outside, and its calls of `handleClose`. -/
inductive Act
  /-- `sockets::write` of `data`. -/
  | write (data : List Byte) (result : WriteResult)
  /-- `socket_->shutdownWrite()`. -/
  | shutdownWrite
  /-- `connectionCallback_`, and the state it is called in. -/
  | connectionCallback (state : StateE)
  /-- `messageCallback_`. -/
  | messageCallback
  /-- `handleClose()` is called. -/
  | handleClose
  /-- `closeCallback_`. -/
  | closeCallback
  /-- The assertion of `handleClose` failed. -/
  | assertFailed
  deriving DecidableEq, Repr

/-- `class TcpConnection`. -/
structure TcpConnection where
  state_ : StateE
  channel_ : Channel
  inputBuffer_ : Buffer
  outputBuffer_ : Buffer
  deriving DecidableEq, Repr

namespace TcpConnection

/-- The constructor, for the socket `sockfd`; the channel is new, at `this`. -/
def new (this : Nat) (sockfd : Fd) : TcpConnection :=
  ⟨.kConnecting, .new this sockfd, .new Buffer.initSpace, .new Buffer.initSpace⟩

/-- `setState(s)`. -/
def setState (c : TcpConnection) (s : StateE) : TcpConnection := { c with state_ := s }

/-- The locals of `send` after the direct write. -/
structure DirectWrite where
  nwrote : Nat
  remaining : Nat
  faultError : Bool

/-- The direct write of `send`, of `count` bytes. `errno` is tested a second time
behind the `printf`. -/
def directWrite (count : Nat) : WriteResult → DirectWrite
  | .accepted n => ⟨min n count, count - min n count, false⟩
  | .error errno printed => ⟨0, count, errno != EWOULDBLOCK && (printed == EPIPE || printed == ECONNRESET)⟩

/-- The second half of `send`: what is left goes to `outputBuffer_`. -/
def enqueue (p : EPollPoller) (c : TcpConnection) (data : List Byte) (w : DirectWrite) :
    EPollPoller × TcpConnection :=
  if !w.faultError && w.remaining > 0 then
    let c := { c with outputBuffer_ := c.outputBuffer_.append (data.drop w.nwrote) w.remaining }
    if c.channel_.isWriting then (p, c)
    else
      let pc := c.channel_.enableWriting p
      (pc.1, { c with channel_ := pc.2 })
  else (p, c)

/-- `send(data, len)`: a direct write if nothing is buffered. -/
def send (p : EPollPoller) (c : TcpConnection) (data : List Byte) (len : Int32) (result : WriteResult) :
    EPollPoller × TcpConnection × List Act :=
  let count := (sizeT len).toNat
  if c.outputBuffer_.readableBytes = 0 then
    let pc := c.enqueue p data (directWrite count result)
    (pc.1, pc.2, [.write (data.take count) result])
  else
    let pc := c.enqueue p data ⟨0, count, false⟩
    (pc.1, pc.2, [])

/-- `shutdown()`: whether `shutdownInLoop` is given to the loop. -/
def shutdown (c : TcpConnection) : TcpConnection × Bool :=
  if c.state_ = .kConnected then (c.setState .kDisconnecting, true) else (c, false)

/-- `shutdownInLoop()`. -/
def shutdownInLoop (c : TcpConnection) : List Act :=
  if c.channel_.isWriting then [] else [.shutdownWrite]

/-- `connectEstablished()`. -/
def connectEstablished (p : EPollPoller) (c : TcpConnection) : EPollPoller × TcpConnection × List Act :=
  let c := c.setState .kConnected
  let pc := c.channel_.enableReading p
  (pc.1, { c with channel_ := pc.2 }, [.connectionCallback c.state_])

/-- `connectDestroyed()`. -/
def connectDestroyed (p : EPollPoller) (c : TcpConnection) : EPollPoller × TcpConnection × List Act :=
  let (p, c, acts) : EPollPoller × TcpConnection × List Act :=
    if c.state_ = .kConnected then
      let c := c.setState .kDisconnected
      let pc := c.channel_.disableAll p
      (pc.1, { c with channel_ := pc.2 }, [.connectionCallback c.state_])
    else (p, c, [])
  let pc := c.channel_.remove p
  (pc.1, { c with channel_ := pc.2 }, acts)

/-- `handleClose()`. -/
def handleClose (p : EPollPoller) (c : TcpConnection) : EPollPoller × TcpConnection × List Act :=
  if c.state_ = .kConnected ∨ c.state_ = .kDisconnecting then
    let c := c.setState .kDisconnected
    let pc := c.channel_.disableAll p
    (pc.1, { c with channel_ := pc.2 }, [.handleClose, .connectionCallback c.state_, .closeCallback])
  else (p, c, [.handleClose, .assertFailed])

/-- `handleError()`: it prints the error of the socket. -/
def handleError (p : EPollPoller) (c : TcpConnection) : EPollPoller × TcpConnection × List Act := (p, c, [])

/-- `handleRead()`. -/
def handleRead (p : EPollPoller) (c : TcpConnection) (result : ReadvResult) :
    EPollPoller × TcpConnection × List Act :=
  let n := c.inputBuffer_.readFd result
  let c := { c with inputBuffer_ := n.2.2 }
  if n.1 > 0 then (p, c, [.messageCallback])
  else if n.1 = 0 then c.handleClose p
  else c.handleError p

/-- `handleWrite()`. -/
def handleWrite (p : EPollPoller) (c : TcpConnection) (result : WriteResult) :
    EPollPoller × TcpConnection × List Act :=
  if c.channel_.isWriting then
    let count := c.outputBuffer_.readableBytes
    let acts := [.write (c.outputBuffer_.peek.take count) result]
    let n := result.value count
    if n > 0 then
      let c := { c with outputBuffer_ := c.outputBuffer_.retrieve n.toNat }
      if c.outputBuffer_.readableBytes = 0 then
        let pc := c.channel_.disableWriting p
        (pc.1, { c with channel_ := pc.2 }, acts)
      else (p, c, acts)
    else (p, c, acts)
  else (p, c, [])

end TcpConnection

end Ydx
