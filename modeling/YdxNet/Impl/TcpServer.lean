import YdxNet.Framework.Machine
import YdxNet.Impl.EventLoop
import YdxNet.Impl.TcpConnection

/-!
# `tcp_server.cpp`, `epoller_thread_pool.cpp`, and `Acceptor::handleRead`

A server, its loops, and every connection it has made. Loop 0 is the base
loop, which accepts; loops 1 to `numThreads_` are those of the pool. A
connection is known by its number in the order of the accepts, which is also
the address of its channel. Functions of one thread run to their end in one
step; functors that they give to other loops are queued there.

`history` keeps for each connection which of its functions ran and what they
did. The program sees none of it.
-/

namespace Ydx

/-- The functors of a server and its connections. -/
inductive Functor
  | connectEstablished (conn : Nat)
  | connectDestroyed (conn : Nat)
  | removeConnectionInLoop (conn : Nat)
  | shutdownInLoop (conn : Nat)
  deriving DecidableEq, Repr

/-- What happened to a connection. -/
inductive Note
  | connectEstablished
  | connectDestroyed
  /-- `removeConnectionInLoop` ran, and `find` gave this entry. -/
  | removeConnectionInLoop (entry : Option Nat)
  /-- One of the connection's functions did this. -/
  | act (a : Act)
  deriving DecidableEq, Repr

/-- A connection of a server: its loop, its name, the connection itself, and
what happened to it. -/
structure ServerConn where
  epoller_ : Nat
  name_ : String
  conn : TcpConnection
  history : List Note

/-- `class EPollerThreadPool`: the loops `epolls_` are 1 to `numThreads_`. -/
structure EPollerThreadPool where
  numThreads_ : Nat
  next_ : Nat

/-- `getNextLoop()`. -/
def EPollerThreadPool.getNextLoop (t : EPollerThreadPool) : Nat × EPollerThreadPool :=
  if t.numThreads_ = 0 then (0, t)
  else (t.next_ + 1, { t with next_ := if t.next_ + 1 ≥ t.numThreads_ then 0 else t.next_ + 1 })

/-- `class TcpServer`, with all loops and all connections. -/
structure TcpServer where
  hostport_ : String
  name_ : String
  threadPool_ : EPollerThreadPool
  nextConnId_ : Int32
  connections_ : String → Option Nat
  loops : Nat → EventLoop Functor
  conns : List ServerConn

namespace TcpServer

/-- A server after `start()`. The base loop need not have its eventfd enabled. -/
def start (name hostport : String) (numThreads : Nat) (baseWakeup : Bool) : TcpServer where
  hostport_ := hostport
  name_ := name
  threadPool_ := ⟨numThreads, 0⟩
  nextConnId_ := 1
  connections_ _ := none
  loops l := if l = 0 then .new baseWakeup true else .new true false
  conns := []

/-- The name of the next connection: `name_`, and what `snprintf` writes into
`buf[32]`. -/
def connName (s : TcpServer) : String :=
  s.name_ ++ String.ofList ((":" ++ s.hostport_ ++ "#" ++ toString s.nextConnId_.toInt).toList.take 31)

/-- A server with another state of a loop. -/
def setLoop (s : TcpServer) (l : Nat) (e : EventLoop Functor) : TcpServer :=
  { s with loops := Function.update s.loops l e }

/-- `loop->queueInLoop(cb)`, in the thread of the loop `caller`. -/
def queueInLoop (s : TcpServer) (caller l : Nat) (cb : Functor) : TcpServer :=
  s.setLoop l ((s.loops l).queueInLoop (caller == l) cb)

/-- `loop->runInLoop(cb)`, in the thread of the loop `caller`; `run` is what `cb`
does. -/
def runInLoop (s : TcpServer) (caller l : Nat) (cb : Functor) (run : TcpServer → TcpServer) : TcpServer :=
  if caller = l then run s else s.queueInLoop caller l cb

/-- `removeConnectionInLoop(conn)`. -/
def removeConnectionInLoop (s : TcpServer) (caller c : Nat) : TcpServer :=
  match s.conns[c]? with
  | none => s
  | some C =>
    let s := s.queueInLoop caller C.epoller_ (.connectDestroyed c)
    let entry := s.connections_ C.name_
    { s with
      connections_ := Function.update s.connections_ C.name_ none
      conns := s.conns.set c { C with history := C.history ++ [.removeConnectionInLoop entry] } }

/-- `removeConnection(conn)`. -/
def removeConnection (s : TcpServer) (caller c : Nat) : TcpServer :=
  s.runInLoop caller 0 (.removeConnectionInLoop c) fun s => s.removeConnectionInLoop caller c

/-- A server with another state of a connection and of the poller of its loop. -/
def store (s : TcpServer) (c : Nat) (p : EPollPoller) (C : ServerConn) : TcpServer :=
  { s.setLoop C.epoller_ { s.loops C.epoller_ with poller := p } with conns := s.conns.set c C }

/-- A function of a connection runs. Its `closeCallback_`, which it calls last,
is `removeConnection`. -/
def call (s : TcpServer) (caller c : Nat) (entry : List Note)
    (f : EPollPoller → TcpConnection → EPollPoller × TcpConnection × List Act) : TcpServer :=
  match s.conns[c]? with
  | none => s
  | some C =>
    let r := f (s.loops C.epoller_).poller C.conn
    let s := s.store c r.1 { C with conn := r.2.1, history := C.history ++ entry ++ r.2.2.map .act }
    if .closeCallback ∈ r.2.2 then s.removeConnection caller c else s

/-- A functor runs, on the loop `l`. -/
def exec (s : TcpServer) (l : Nat) : Functor → TcpServer
  | .connectEstablished c => s.call l c [.connectEstablished] TcpConnection.connectEstablished
  | .connectDestroyed c => s.call l c [.connectDestroyed] TcpConnection.connectDestroyed
  | .removeConnectionInLoop c => s.removeConnectionInLoop l c
  | .shutdownInLoop c => s.call l c [] fun p conn => (p, conn, conn.shutdownInLoop)

/-- `newConnection(sockfd)`, on the base loop. -/
def newConnection (s : TcpServer) (sockfd : Fd) : TcpServer :=
  let r := s.threadPool_.getNextLoop
  let c := s.conns.length
  let C : ServerConn := ⟨r.1, s.connName, .new c sockfd, []⟩
  let s := { s with
    threadPool_ := r.2
    nextConnId_ := s.nextConnId_ + 1
    conns := s.conns ++ [C]
    connections_ := Function.update s.connections_ C.name_ (some c) }
  s.runInLoop 0 r.1 (.connectEstablished c) fun s => s.exec 0 (.connectEstablished c)

/-- `conn->shutdown()`, in the thread of the loop `caller`, or in another thread. -/
def shutdown (s : TcpServer) (caller c : Nat) : TcpServer :=
  match s.conns[c]? with
  | none => s
  | some C =>
    let r := C.conn.shutdown
    let s := { s with conns := s.conns.set c { C with conn := r.1 } }
    if r.2 then s.runInLoop caller C.epoller_ (.shutdownInLoop c) fun s => s.exec caller (.shutdownInLoop c)
    else s

/-- What a callback of a connection's channel runs. -/
def handler (readv : ReadvResult) (write : WriteResult) :
    Callback → EPollPoller → TcpConnection → EPollPoller × TcpConnection × List Act
  | .closeCallback_, p, conn => conn.handleClose p
  | .errorCallback_, p, conn => conn.handleError p
  | .readCallback_, p, conn => conn.handleRead p readv
  | .writeCallback_, p, conn => conn.handleWrite p write

/-- A step of one of the threads. -/
inductive Action
  /-- `epoll_wait` of a loop returns. -/
  | epollWait (l : Nat) (ready : List Ready)
  /-- A loop comes to its next active channel. -/
  | nextChannel (l : Nat)
  /-- The base loop comes to the acceptor's channel: `accept` succeeds or fails. -/
  | accept (connfd : Option Fd)
  /-- A loop calls the next callback of the current channel; what `readv` and
  `write` will return in it. -/
  | callback (l : Nat) (readv : ReadvResult) (write : WriteResult)
  /-- A loop has called all callbacks, and takes its functors out. -/
  | doPendingFunctors (l : Nat)
  /-- A loop runs the next functor, or is done with them. -/
  | functor (l : Nat)
  /-- The program calls `shutdown()` on a connection. -/
  | shutdown (caller c : Nat)
  /-- The program calls `send(data, len)` on a connection. -/
  | send (caller c : Nat) (data : List Byte) (len : Int32) (result : WriteResult)
  deriving DecidableEq, Repr

/-- One step. A loop that is elsewhere does not take it. -/
def step (s : TcpServer) : Action → TcpServer
  | .epollWait l ready => s.setLoop l ((s.loops l).epollWait ready)
  | .nextChannel l => s.setLoop l (s.loops l).nextChannel
  | .accept connfd =>
    match (s.loops 0).phase with
    | .handling [] (.acceptChannel_ :: active) =>
      let s := s.setLoop 0 { s.loops 0 with phase := .handling [] active }
      match connfd with
      | some fd => s.newConnection fd
      | none => s
    | _ => s
  | .callback l readv write =>
    match (s.loops l).phase with
    | .handling ((c, cb) :: callbacks) active =>
      let s := s.setLoop l { s.loops l with phase := .handling callbacks active }
      s.call l c [] (handler readv write cb)
    | _ => s
  | .doPendingFunctors l => s.setLoop l (s.loops l).doPendingFunctors
  | .functor l =>
    match (s.loops l).phase with
    | .calling (f :: functors) => (s.setLoop l { s.loops l with phase := .calling functors }).exec l f
    | .calling [] => s.setLoop l { s.loops l with phase := .waiting }
    | _ => s
  | .shutdown caller c => s.shutdown caller c
  | .send caller c data len result => s.call caller c [] fun p conn => conn.send p data len result

/-- The threads of a server, interleaved in any way. -/
def machine : Machine TcpServer Action Unit where
  step s a := (s.step a, ())

end TcpServer

end Ydx
