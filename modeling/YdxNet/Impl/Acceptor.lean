import YdxNet.Framework.Machine
import YdxNet.Impl.Connector

/-!
# `acceptor.cpp`

The acceptor, the descriptors of its process, and the connections that wait in the kernel. A
process may have `limit` descriptors, of which the kernel gives out the lowest free one; the
rest of the program opens and closes descriptors of its own at any time, also between two
system calls of `handleRead`. The counts at the end tell what became of the connections, and
`foreign` whether the acceptor has closed a descriptor of someone else.
-/

namespace Ydx

/-- `errno` of `accept`, by its values on Linux. -/
def EMFILE : Nat := 24
def ECONNABORTED : Nat := 103
def EPROTO : Nat := 71

/-- Who has to close a descriptor. A connection handed over belongs to the program. -/
inductive Owner
  | acceptor
  | program
  deriving DecidableEq, Repr

/-- Where `handleRead()` is. -/
inductive HandleReadPc
  /-- Outside. -/
  | idle
  /-- About to close `idleFd_`, after `EMFILE`. -/
  | closingIdle
  /-- About to call `accept` again. -/
  | accepting
  /-- About to close what it gave. -/
  | closing
  /-- About to open `/dev/null`. -/
  | opening
  /-- About to close a connection that nobody wants. -/
  | dropping (connfd : Fd)
  /-- The destructor has run. -/
  | destroyed
  deriving DecidableEq, Repr

/-- `class Acceptor`, its process and the connections that wait. `idleFd_` is `none` for -1. -/
structure Acceptor where
  limit : Nat
  owner : Fd → Option Owner
  backlog : Nat
  acceptSocket_ : Fd
  /-- Whether `newConnectionCallback_` is set. -/
  newConnectionCallback_ : Bool
  idleFd_ : Option Fd
  handleRead : HandleReadPc
  aborted : Bool
  arrived : Nat
  handed : Nat
  closed : Nat
  left : Nat
  foreign : Bool

namespace Acceptor

/-- The lowest free descriptor. -/
def free (s : Acceptor) : Option Fd := (List.range s.limit).find? fun fd => s.owner fd = none

/-- A system call gives a descriptor, if there is one. -/
def openFd (s : Acceptor) (o : Owner) : Option Fd × Acceptor :=
  match s.free with
  | none => (none, s)
  | some fd => (some fd, { s with owner := Function.update s.owner fd (some o) })

/-- `close(fd)`. It fails for -1. -/
def closeFd (s : Acceptor) (fd : Option Fd) : Acceptor :=
  { s with
    owner := fd.elim s.owner fun fd => Function.update s.owner fd none
    foreign := fd.elim s.foreign fun fd => s.foreign || decide (s.owner fd ≠ some .acceptor) }

/-- `accept` on the listening socket, which may fail in other ways with `error`. -/
def accept (s : Acceptor) (error : Option Nat) (o : Owner) : Except Nat Fd × Acceptor :=
  match s.free, s.backlog, error with
  | none, _, _ => (.error EMFILE, s)
  | _, 0, _ => (.error EWOULDBLOCK, s)
  | _, _, some e => (.error e, s)
  | some fd, backlog + 1, none => (.ok fd, { s with owner := Function.update s.owner fd (some o), backlog })

/-- The constructor, in a process that has the descriptors `taken`. It aborts without a socket. -/
def new (limit : Nat) (taken : Fd → Bool) (callback : Bool) : Option Acceptor :=
  let s : Acceptor :=
    { limit
      owner := fun fd => if taken fd then some .program else none
      backlog := 0
      acceptSocket_ := 0
      newConnectionCallback_ := callback
      idleFd_ := none
      handleRead := .idle
      aborted := false
      arrived := 0
      handed := 0
      closed := 0
      left := 0
      foreign := false }
  match s.openFd .acceptor with
  | (none, _) => none
  | (some fd, s) =>
    let r := s.openFd .acceptor
    some { r.2 with acceptSocket_ := fd, idleFd_ := r.1 }

/-- The `switch` of `sockets::accept`: the errors after which the program goes on. -/
def expected (savedErrno : Nat) : Bool :=
  savedErrno ∈ [EWOULDBLOCK, ECONNABORTED, EINTR, EPROTO, EPERM, EMFILE]

/-- `handleRead()` is called; `error` is how `accept` fails if it could give a connection. -/
def read (s : Acceptor) (error : Option Nat) : Acceptor :=
  let r := s.accept error (if s.newConnectionCallback_ then .program else .acceptor)
  match r.1 with
  | .ok connfd =>
    if s.newConnectionCallback_ then { r.2 with handed := s.handed + 1 }
    else { r.2 with handleRead := .dropping connfd }
  | .error e =>
    if !expected e then { s with aborted := true }
    else if e = EMFILE then { s with handleRead := .closingIdle }
    else s

/-- It goes on to its next system call, which may fail with `error`. -/
def goOn (s : Acceptor) (error : Option Nat) : Acceptor :=
  match s.handleRead with
  | .idle | .destroyed => s
  | .closingIdle => { s.closeFd s.idleFd_ with handleRead := .accepting }
  | .accepting =>
    let r := s.accept error .acceptor
    match r.1 with
    | .ok fd => { r.2 with idleFd_ := some fd, handleRead := .closing }
    | .error _ => { s with idleFd_ := none, handleRead := .closing }
  | .closing =>
    { s.closeFd s.idleFd_ with closed := s.closed + s.idleFd_.toList.length, handleRead := .opening }
  | .opening =>
    match error with
    | some _ => { s with idleFd_ := none, handleRead := .idle }
    | none => { (s.openFd .acceptor).2 with idleFd_ := (s.openFd .acceptor).1, handleRead := .idle }
  | .dropping connfd => { s.closeFd (some connfd) with closed := s.closed + 1, handleRead := .idle }

/-- The destructor, and that of `acceptSocket_`. -/
def destroy (s : Acceptor) : Acceptor :=
  { (s.closeFd s.idleFd_).closeFd (some s.acceptSocket_) with handleRead := .destroyed }

inductive Action
  /-- The loop calls `handleRead()`. -/
  | read (error : Option Nat)
  /-- `handleRead()` goes on. -/
  | goOn (error : Option Nat)
  | destroy
  /-- The rest of the program opens a descriptor. -/
  | openFd
  /-- It closes one of its own. -/
  | closeFd (fd : Fd)
  /-- A connection comes. -/
  | arrive
  /-- A connection that waits goes away. -/
  | leave
  deriving DecidableEq

/-- One step. What is elsewhere does not take it, and nothing happens after `abort()`. -/
def step (s : Acceptor) (a : Action) : Acceptor :=
  if s.aborted then s
  else
    match a with
    | .read error => if s.handleRead = .idle then s.read error else s
    | .goOn error => s.goOn error
    | .destroy => if s.handleRead = .idle then s.destroy else s
    | .openFd => (s.openFd .program).2
    | .closeFd fd => if s.owner fd = some .program then { s with owner := Function.update s.owner fd none } else s
    | .arrive => { s with backlog := s.backlog + 1, arrived := s.arrived + 1 }
    | .leave => if 0 < s.backlog then { s with backlog := s.backlog - 1, left := s.left + 1 } else s

/-- The acceptor and the rest of the program, interleaved in any way. -/
def machine : Machine Acceptor Action Unit where
  step s a := (s.step a, ())

end Acceptor

end Ydx
