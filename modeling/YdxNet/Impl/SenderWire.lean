import YdxNet.Impl.Sender
import YdxNet.Impl.TcpServer

/-!
# The connections of `ydx_sender.cpp`

The sender of `Impl.Sender` with the connections that its client makes, all of
them on the poller of the drain thread. In `run_one_poll()` connections are
made and the callbacks of any of them are called; otherwise the drain thread
sends to the current one. For each connection the model keeps what it has done
to the outside, and the messages that were taken out of the queue while it was
the current one. The number of a connection stands for the address of its
channel.
-/

namespace Ydx

open Spec

/-- A connection of the client, what it has done, and the messages taken out of
the queue while it was the current one. -/
structure WireConn where
  conn : TcpConnection
  acts : List Act
  dequeued : List Message
  deriving DecidableEq, Repr

/-- The sender, its poller and its connections, by their numbers. -/
structure SenderWire where
  sender : Sender
  epoller_ : EPollPoller
  conns : Nat → Option WireConn

namespace SenderWire

/-- The bytes that the queue has room for: `stream_buffer_->alloc()` asks for
sixteen megabytes. -/
def capacity : Nat := 16 * 1024 * 1024

/-- A step of the drain thread or of a thread that sends. -/
inductive Action
  /-- A step of a thread; `result` is what `write` gives if it is called. -/
  | thread (a : Sender.Action) (result : WriteResult)
  /-- In `run_one_poll()`, the connector has a new connection. -/
  | newConnection (sockfd : Fd)
  /-- In `run_one_poll()`, a callback of connection `c`; what `readv` and
  `write` will return in it. -/
  | callback (c : Nat) (cb : Callback) (readv : ReadvResult) (write : WriteResult)
  /-- The other users of the poller change it. -/
  | others (epoller_ : EPollPoller)

/-- `thread_start_epoll` before its loop. -/
def start (epoller_ : EPollPoller) : SenderWire := ⟨Sender.start, epoller_, fun _ => none⟩

/-- An operation of connection `c`. -/
def onConn (s : SenderWire) (c : Nat) (op : EPollPoller → TcpConnection → EPollPoller × TcpConnection × List Act) :
    SenderWire :=
  match s.conns c with
  | none => s
  | some w =>
    let r := op s.epoller_ w.conn
    { s with
      epoller_ := r.1
      conns := Function.update s.conns c (some { w with conn := r.2.1, acts := w.acts ++ r.2.2 }) }

/-- A message is taken out of the queue while `c` is the current connection. -/
def dequeue (s : SenderWire) (c : Nat) (m : Message) : SenderWire :=
  match s.conns c with
  | none => s
  | some w => { s with conns := Function.update s.conns c (some { w with dequeued := w.dequeued ++ [m] }) }

/-- A step of a thread, with what it does to the current connection. The client
gets and loses its connection in `run_one_poll()` only. -/
def thread (s : SenderWire) (a : Sender.Action) (result : WriteResult) : SenderWire :=
  let s' := { s with sender := s.sender.step capacity a }
  match a with
  | .newConnection | .removeConnection => s
  | .read =>
    match s.sender.drain, s.sender.stream_buffer_, s.sender.client_.connection_ with
    | .read, m :: _, some c => s'.dequeue c m.bytes
    | _, _, _ => s'
  | .sendLen =>
    match s.sender.drain, s.sender.client_.connection_ with
    | .sendLen m, some c => s'.onConn c fun p conn => conn.send p (int32Bytes (lenInt m.bytes.length)) 4 result
    | _, _ => s'
  | .sendBuf =>
    match s.sender.drain, s.sender.client_.connection_ with
    | .sendBuf m, some c => s'.onConn c fun p conn => conn.send p m.bytes (lenInt m.bytes.length) result
    | _, _ => s'
  | _ => s'

/-- `TcpClient::newConnection(sockfd)`. -/
def newConnection (s : SenderWire) (sockfd : Fd) : SenderWire :=
  match s.sender.drain with
  | .poll =>
    let id := s.sender.client_.nextConnId_
    let r := (TcpConnection.new id sockfd).connectEstablished s.epoller_
    { sender := s.sender.step capacity .newConnection
      epoller_ := r.1
      conns := Function.update s.conns id (some ⟨r.2.1, r.2.2, []⟩) }
  | _ => s

/-- `TcpClient::removeConnection(conn)`. -/
def removeConnection (s : SenderWire) (c : Nat) : SenderWire :=
  { s with sender := s.sender.step capacity .removeConnection }.onConn c fun p conn => conn.connectDestroyed p

/-- A callback of connection `c`, and `removeConnection` as its close callback. -/
def callback (s : SenderWire) (c : Nat) (cb : Callback) (readv : ReadvResult) (write : WriteResult) : SenderWire :=
  match s.sender.drain, s.conns c with
  | .poll, some w =>
    let s' := s.onConn c (TcpServer.handler readv write cb)
    if Act.closeCallback ∈ (TcpServer.handler readv write cb s.epoller_ w.conn).2.2 then s'.removeConnection c else s'
  | _, _ => s

/-- The threads, interleaved in any way. -/
def machine : Machine SenderWire Action Unit where
  step s
    | .thread a result => (s.thread a result, ())
    | .newConnection sockfd => (s.newConnection sockfd, ())
    | .callback c cb readv write => (s.callback c cb readv write, ())
    | .others epoller_ => ({ s with epoller_ }, ())

end SenderWire

end Ydx
