import Mathlib.Logic.Function.Basic

/-!
# `channel.h`, `channel.cpp`, and the registration part of `epoller.cpp`

A channel is the interest of one object in the events of one descriptor. The
poller keeps the channels it knows in `channels_`, and tells the kernel with
`epoll_ctl`; the interest set of the kernel is part of the model. A channel
lives inside its owner, so the poller's maps hold its address.
-/

namespace Ydx

/-- A set of `EPOLL…` flags. -/
structure Events where
  epollin : Bool
  epollpri : Bool
  epollout : Bool
  epollerr : Bool
  epollhup : Bool
  epollrdhup : Bool
  deriving DecidableEq, Repr

namespace Events

/-- `kNoneEvent`. -/
def kNoneEvent : Events := ⟨false, false, false, false, false, false⟩

/-- `kReadEvent`, `EPOLLIN | EPOLLPRI`. -/
def kReadEvent : Events := ⟨true, true, false, false, false, false⟩

/-- `kWriteEvent`, `EPOLLOUT`. -/
def kWriteEvent : Events := ⟨false, false, true, false, false, false⟩

/-- `a | b`. -/
def union (a b : Events) : Events :=
  ⟨a.epollin || b.epollin, a.epollpri || b.epollpri, a.epollout || b.epollout, a.epollerr || b.epollerr,
    a.epollhup || b.epollhup, a.epollrdhup || b.epollrdhup⟩

/-- `a & ~b`. -/
def diff (a b : Events) : Events :=
  ⟨a.epollin && !b.epollin, a.epollpri && !b.epollpri, a.epollout && !b.epollout, a.epollerr && !b.epollerr,
    a.epollhup && !b.epollhup, a.epollrdhup && !b.epollrdhup⟩

end Events

/-- A descriptor. -/
abbrev Fd := Nat

/-- The values of `index_`: `kNew`, `kAdded`, `kDeleted`. -/
inductive Index
  | kNew
  | kAdded
  | kDeleted
  deriving DecidableEq, Repr

/-- `class Channel`: its address, and its fields. The events received,
`revents_`, go with the channel in the list of active channels. -/
structure Channel where
  this : Nat
  fd_ : Fd
  events_ : Events
  index_ : Index
  deriving DecidableEq, Repr

/-- The operations of `epoll_ctl`. -/
inductive CtlOp
  | add
  | mod
  | del
  deriving DecidableEq, Repr

/-- `class EPollPoller`, the part that registers channels, and the kernel's
interest set behind `epollfd_`: for each descriptor the events asked for and
the address given with them. -/
structure EPollPoller where
  channels_ : Fd → Option Nat
  interest : Fd → Option (Events × Nat)
  /-- How often `epoll_ctl` failed. -/
  ctlErrors : Nat

namespace EPollPoller

/-- A poller without channels. -/
def new : EPollPoller := ⟨fun _ => none, fun _ => none, 0⟩

/-- `update(operation, channel)`: `epoll_ctl`, which adds only an absent
descriptor and changes or deletes only a present one. -/
def update (p : EPollPoller) (operation : CtlOp) (c : Channel) : EPollPoller :=
  match operation, p.interest c.fd_ with
  | .add, none | .mod, some _ =>
    { p with interest := Function.update p.interest c.fd_ (some (c.events_, c.this)) }
  | .del, some _ => { p with interest := Function.update p.interest c.fd_ none }
  | _, _ => { p with ctlErrors := p.ctlErrors + 1 }

/-- `updateChannel(channel)`: the poller and the channel. -/
def updateChannel (p : EPollPoller) (c : Channel) : EPollPoller × Channel :=
  match c.index_ with
  | .kNew =>
    let c := { c with index_ := .kAdded }
    ({ p with channels_ := Function.update p.channels_ c.fd_ (some c.this) }.update .add c, c)
  | .kDeleted =>
    let c := { c with index_ := .kAdded }
    (p.update .add c, c)
  | .kAdded =>
    if c.events_ = .kNoneEvent then (p.update .del c, { c with index_ := .kDeleted })
    else (p.update .mod c, c)

/-- `removeChannel(channel)`. -/
def removeChannel (p : EPollPoller) (c : Channel) : EPollPoller × Channel :=
  let p := { p with channels_ := Function.update p.channels_ c.fd_ none }
  let p := if c.index_ = .kAdded then p.update .del c else p
  (p, { c with index_ := .kNew })

end EPollPoller

namespace Channel

/-- The constructor. -/
def new (this : Nat) (fd : Fd) : Channel := ⟨this, fd, .kNoneEvent, .kNew⟩

/-- `enableReading()`. -/
def enableReading (p : EPollPoller) (c : Channel) : EPollPoller × Channel :=
  p.updateChannel { c with events_ := c.events_.union .kReadEvent }

/-- `disableReading()`. -/
def disableReading (p : EPollPoller) (c : Channel) : EPollPoller × Channel :=
  p.updateChannel { c with events_ := c.events_.diff .kReadEvent }

/-- `enableWriting()`. -/
def enableWriting (p : EPollPoller) (c : Channel) : EPollPoller × Channel :=
  p.updateChannel { c with events_ := c.events_.union .kWriteEvent }

/-- `disableWriting()`. -/
def disableWriting (p : EPollPoller) (c : Channel) : EPollPoller × Channel :=
  p.updateChannel { c with events_ := c.events_.diff .kWriteEvent }

/-- `disableAll()`. -/
def disableAll (p : EPollPoller) (c : Channel) : EPollPoller × Channel :=
  p.updateChannel { c with events_ := .kNoneEvent }

/-- `isWriting()`. -/
def isWriting (c : Channel) : Bool := c.events_.epollout

/-- `remove()`. -/
def remove (p : EPollPoller) (c : Channel) : EPollPoller × Channel := p.removeChannel c

end Channel

end Ydx
