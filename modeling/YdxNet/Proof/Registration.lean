import YdxNet.Proof.OutputStream

/-!
# What the poller knows of a connection

The kernel's interest set holds at most one entry for a descriptor. A channel
that is not added and has no entry is added (`updateChannel_add`), one that is
added is changed (`updateChannel_mod`) or, without events, deleted
(`updateChannel_del`). From this, an established connection stays registered
for reading whatever is sent or written (`send_kept`, `handleWrite_kept`),
until `handleClose` (`handleClose_ok`).
-/

namespace Ydx

namespace EPollPoller

variable {p : EPollPoller} {c : Channel} {i : Events × Nat}

theorem updateChannel_add (h : c.index_ ≠ .kAdded) (hi : p.interest c.fd_ = none) :
    (p.updateChannel c).1.interest = Function.update p.interest c.fd_ (some (c.events_, c.this)) ∧
      (p.updateChannel c).2 = { c with index_ := .kAdded } := by
  unfold updateChannel
  cases hx : c.index_ with
  | kAdded => exact absurd hx h
  | kNew | kDeleted => simp only [update, hi, and_self]

theorem updateChannel_mod (h : c.index_ = .kAdded) (hi : p.interest c.fd_ = some i) (he : c.events_ ≠ .kNoneEvent) :
    (p.updateChannel c).1.interest = Function.update p.interest c.fd_ (some (c.events_, c.this)) ∧
      (p.updateChannel c).2 = c := by
  unfold updateChannel
  simp only [h, he, if_false, update, hi, and_self]

theorem updateChannel_del (h : c.index_ = .kAdded) (hi : p.interest c.fd_ = some i) (he : c.events_ = .kNoneEvent) :
    (p.updateChannel c).1.interest = Function.update p.interest c.fd_ none ∧
      (p.updateChannel c).2 = { c with index_ := .kDeleted } := by
  unfold updateChannel
  simp only [h, he, if_true, update, hi, and_self]

end EPollPoller

namespace TcpConnection

open EPollPoller

/-- The connection is registered for reading, and the kernel has its events. -/
structure Registered (p : EPollPoller) (c : TcpConnection) : Prop where
  index : c.channel_.index_ = .kAdded
  reading : c.channel_.events_.epollin = true
  interest : p.interest c.channel_.fd_ = some (c.channel_.events_, c.channel_.this)

/-- From one state to another a connection stays as it is, up to its buffers
and the events the kernel is asked for. -/
structure Kept (p : EPollPoller) (c : TcpConnection) (p' : EPollPoller) (c' : TcpConnection) : Prop where
  state : c'.state_ = c.state_
  this : c'.channel_.this = c.channel_.this
  fd : c'.channel_.fd_ = c.channel_.fd_
  index : c'.channel_.index_ = .kAdded
  reading : c'.channel_.events_.epollin = true
  interest : p'.interest =
    Function.update p.interest c.channel_.fd_ (some (c'.channel_.events_, c'.channel_.this))

variable {p : EPollPoller} {c c' : TcpConnection}

theorem Registered.kept (h : Registered p c) (hs : c'.state_ = c.state_) (hc : c'.channel_ = c.channel_) :
    Kept p c p c' where
  state := hs
  this := by rw [hc]
  fd := by rw [hc]
  index := by rw [hc]; exact h.index
  reading := by rw [hc]; exact h.reading
  interest := by rw [hc, ← h.interest, Function.update_eq_self]

/-- Other events, among them those for reading. -/
theorem Registered.update (h : Registered p c) {e : Events} (he : e.epollin = true) (hs : c'.state_ = c.state_)
    (hc : c'.channel_ = (p.updateChannel { c.channel_ with events_ := e }).2) :
    Kept p c (p.updateChannel { c.channel_ with events_ := e }).1 c' := by
  have hne : e ≠ .kNoneEvent := by
    intro hn
    rw [hn] at he
    exact absurd he Bool.false_ne_true
  obtain ⟨h₁, h₂⟩ := updateChannel_mod (c := { c.channel_ with events_ := e }) h.index h.interest hne
  rw [h₂] at hc
  refine ⟨hs, ?_, ?_, ?_, ?_, ?_⟩
  · rw [hc]
  · rw [hc]
  · rw [hc]; exact h.index
  · rw [hc]; exact he
  · rw [hc]; exact h₁

theorem enqueue_kept (h : Registered p c) (data : List Byte) (w : DirectWrite) :
    Kept p c (c.enqueue p data w).1 (c.enqueue p data w).2 := by
  unfold enqueue
  dsimp only
  split
  · split
    · exact h.kept rfl rfl
    · exact h.update (by simp [Events.union, h.reading]) rfl rfl
  · exact h.kept rfl rfl

theorem send_kept (h : Registered p c) (data : List Byte) (len : Int32) (result : WriteResult) :
    Kept p c (c.send p data len result).1 (c.send p data len result).2.1 := by
  unfold send
  dsimp only
  split
  · exact enqueue_kept h _ _
  · exact enqueue_kept h _ _

theorem handleWrite_kept (h : Registered p c) (result : WriteResult) :
    Kept p c (c.handleWrite p result).1 (c.handleWrite p result).2.1 := by
  unfold handleWrite
  dsimp only
  split
  · split
    · split
      · exact h.update (by simp [Events.diff, Events.kWriteEvent, h.reading]) rfl rfl
      · exact h.kept rfl rfl
    · exact h.kept rfl rfl
  · exact h.kept rfl rfl

theorem connectEstablished_ok (hx : c.channel_.index_ = .kNew) (he : c.channel_.events_ = .kNoneEvent)
    (hi : p.interest c.channel_.fd_ = none) :
    (c.connectEstablished p).1.interest =
        Function.update p.interest c.channel_.fd_ (some (.kReadEvent, c.channel_.this)) ∧
      (c.connectEstablished p).2.1 =
        { c with state_ := .kConnected, channel_ := { c.channel_ with index_ := .kAdded, events_ := .kReadEvent } } ∧
      (c.connectEstablished p).2.2 = [.connectionCallback .kConnected] := by
  have hn : ({ c.channel_ with events_ := .kReadEvent } : Channel).index_ ≠ .kAdded := by
    rw [show ({ c.channel_ with events_ := .kReadEvent } : Channel).index_ = .kNew from hx]
    exact Index.noConfusion
  obtain ⟨h₁, h₂⟩ := updateChannel_add hn hi
  have hr : Events.kNoneEvent.union .kReadEvent = .kReadEvent := by decide
  simp only [connectEstablished, setState, Channel.enableReading, he, hr]
  exact ⟨h₁, by rw [h₂], trivial⟩

theorem handleClose_ok (h : Registered p c) (hs : c.state_ = .kConnected ∨ c.state_ = .kDisconnecting) :
    (c.handleClose p).1.interest = Function.update p.interest c.channel_.fd_ none ∧
      (c.handleClose p).2.1 =
        { c with
          state_ := .kDisconnected
          channel_ := { c.channel_ with index_ := .kDeleted, events_ := .kNoneEvent } } ∧
      (c.handleClose p).2.2 = [.handleClose, .connectionCallback .kDisconnected, .closeCallback] := by
  obtain ⟨h₁, h₂⟩ := updateChannel_del (c := { c.channel_ with events_ := .kNoneEvent }) h.index h.interest rfl
  simp only [handleClose, hs, if_true, setState, Channel.disableAll]
  exact ⟨h₁, by rw [h₂], trivial⟩

/-- A connection that is closed leaves the interest set alone. -/
theorem connectDestroyed_ok (hs : c.state_ ≠ .kConnected) (hx : c.channel_.index_ ≠ .kAdded) :
    (c.connectDestroyed p).1.interest = p.interest ∧
      (c.connectDestroyed p).2.1 = { c with channel_ := { c.channel_ with index_ := .kNew } } ∧
      (c.connectDestroyed p).2.2 = [] := by
  simp only [connectDestroyed, hs, if_false, Channel.remove, removeChannel, hx, and_self]

/-- `handleRead` of a connection: a message, the end of the input, or an error. -/
theorem handleRead_cases (p : EPollPoller) (c : TcpConnection) (result : ReadvResult) :
    ∃ b, c.handleRead p result = (p, { c with inputBuffer_ := b }, [.messageCallback]) ∨
      c.handleRead p result = handleClose p { c with inputBuffer_ := b } ∨
      c.handleRead p result = (p, { c with inputBuffer_ := b }, []) := by
  refine ⟨(c.inputBuffer_.readFd result).2.2, ?_⟩
  unfold handleRead
  dsimp only
  split
  · exact .inl rfl
  · split
    · exact .inr (.inl rfl)
    · exact .inr (.inr rfl)

end TcpConnection

end Ydx
