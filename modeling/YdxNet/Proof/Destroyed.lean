import YdxNet.Proof.OutputStream
import YdxNet.Proof.Poller

/-!
# A destroyed connection and the poller

`connectDestroyed` takes the channel of a connection out of the poller, but
whoever still holds the connection can call it. `updateChannel` takes a channel
that was removed for a new one, so every call that gets to `channel_->update()`
puts it back (`held_step`). The connection stays out of the poller exactly
when, once it is destroyed, no call gets there (`destroyed_iff`).
-/

namespace Ydx.TcpConnection

open EPollPoller

/-- A call on a connection that somebody holds. -/
inductive HeldCall
  | call (call : Call)
  | handleClose
  | connectDestroyed
  deriving DecidableEq, Repr

/-- A connection, its poller, and whether `connectDestroyed` has run. -/
structure Held where
  poller : EPollPoller
  conn : TcpConnection
  destroyed : Bool

/-- The connection, one call after another. -/
def held : Machine Held HeldCall (List Act) where
  step s
    | .call call =>
      let r := machine.step (s.poller, s.conn) call
      (⟨r.1.1, r.1.2, s.destroyed⟩, r.2)
    | .handleClose =>
      let r := s.conn.handleClose s.poller
      (⟨r.1, r.2.1, s.destroyed⟩, r.2.2)
    | .connectDestroyed =>
      let r := s.conn.connectDestroyed s.poller
      (⟨r.1, r.2.1, true⟩, r.2.2)

/-- Once it is destroyed, the connection's channel is neither in `channels_`
nor in the kernel's interest set. -/
def Held.OutOfPoller (s : Held) : Prop :=
  s.destroyed = true →
    s.poller.channels_ s.conn.channel_.fd_ ≠ some s.conn.channel_.this ∧
    (s.poller.interest s.conn.channel_.fd_).map Prod.snd ≠ some s.conn.channel_.this

/-- A `send` of `count` bytes leaves bytes for `outputBuffer_`, and the channel
is not writing. -/
def sendUpdates (c : TcpConnection) (count : Nat) (result : WriteResult) : Bool :=
  !c.channel_.isWriting && (if c.outputBuffer_.readableBytes = 0 then
    match result with
    | .accepted n => decide (n < count)
    | .error errno printed =>
      !(errno != EWOULDBLOCK && (printed == EPIPE || printed == ECONNRESET)) && decide (0 < count)
  else decide (0 < count))

/-- The connection may be closed. -/
def closable (c : TcpConnection) : Bool := c.state_ == .kConnected || c.state_ == .kDisconnecting

/-- The call gets to `channel_->update()`. -/
def HeldCall.updates (c : TcpConnection) : HeldCall → Bool
  | .call (.send _ len result) => c.sendUpdates (sizeT len).toNat result
  | .call (.handleWrite result) => c.channel_.isWriting && decide (0 < c.outputBuffer_.readableBytes) &&
      decide (result.value c.outputBuffer_.readableBytes = c.outputBuffer_.readableBytes)
  | .call (.handleRead (.ok [])) | .handleClose => c.closable
  | _ => false

/-- A destroyed connection is not called so that its channel is updated. -/
def NoLateUpdate (s : Held) (call : HeldCall) : Prop := s.destroyed = true → call.updates s.conn = false

/-! ## One step -/

/-- The channel after an operation: with other events if `b`, else as it was. -/
def Touched (p : EPollPoller) (c : Channel) (b : Bool) (r : EPollPoller × Channel) : Prop :=
  if b = true then ∃ e, r = p.updateChannel { c with events_ := e } else r = (p, c)

theorem Touched.agrees {p : EPollPoller} {c : Channel} {b : Bool} {r : EPollPoller × Channel} (ha : Agrees p c)
    (h : Touched p c b r) :
    Agrees r.1 r.2 ∧ r.2.fd_ = c.fd_ ∧ r.2.this = c.this ∧
      (b = true → r.2.index_ ≠ .kNew) ∧ (b = false → r.2.index_ = c.index_) := by
  cases b with
  | true =>
    obtain ⟨e, rfl⟩ := h
    obtain ⟨h₁, h₂, -, h₃⟩ := updateChannel_agrees ha e
    exact ⟨h₁, h₂.fd, h₂.this, fun _ => h₃, fun h => absurd h Bool.false_ne_true.symm⟩
  | false =>
    obtain rfl : r = (p, c) := h
    exact ⟨ha, rfl, rfl, fun h => absurd h Bool.false_ne_true, fun _ => rfl⟩

variable (p : EPollPoller) (c : TcpConnection)

theorem touched_enqueue (data : List Byte) (w : DirectWrite) :
    Touched p c.channel_ (!c.channel_.isWriting && (!w.faultError && decide (0 < w.remaining)))
      ((c.enqueue p data w).1, (c.enqueue p data w).2.channel_) := by
  unfold enqueue Touched
  dsimp only
  by_cases hr : (!w.faultError && decide (0 < w.remaining)) = true
  · rw [if_pos hr, hr]
    by_cases hw : c.channel_.isWriting = true
    · rw [if_pos hw, hw]
      exact rfl
    · rw [if_neg hw, if_pos (by simp [hw])]
      exact ⟨_, rfl⟩
  · rw [if_neg hr, if_neg (by simp only [Bool.and_eq_true, not_and]; exact fun _ => by simpa using hr)]

theorem touched_send (data : List Byte) (len : Int32) (result : WriteResult) :
    Touched p c.channel_ (c.sendUpdates (sizeT len).toNat result)
      ((c.send p data len result).1, (c.send p data len result).2.1.channel_) := by
  unfold send sendUpdates
  dsimp only
  by_cases hr : c.outputBuffer_.readableBytes = 0
  · rw [if_pos hr, if_pos hr]
    have h := touched_enqueue p c data (directWrite (sizeT len).toNat result)
    cases result with
    | accepted n =>
      have hn : (0 < (sizeT len).toNat - min n (sizeT len).toNat) = (n < (sizeT len).toNat) := by
        rw [eq_iff_iff]
        omega
      simp only [directWrite, Bool.not_false, Bool.true_and, hn] at h
      exact h
    | error errno printed => exact h
  · rw [if_neg hr, if_neg hr]
    have h := touched_enqueue p c data ⟨0, (sizeT len).toNat, false⟩
    simp only [Bool.not_false, Bool.true_and] at h
    exact h

theorem readableBytes_retrieve (b : Buffer) (n : Nat) : (b.retrieve n).readableBytes = b.readableBytes - n := by
  unfold Buffer.retrieve
  split
  · simp only [Buffer.readableBytes]
    omega
  · simp only [Buffer.retrieveAll, Buffer.readableBytes] at *
    omega

theorem touched_handleWrite (result : WriteResult) :
    Touched p c.channel_ (HeldCall.updates c (.call (.handleWrite result)))
      ((c.handleWrite p result).1, (c.handleWrite p result).2.1.channel_) := by
  unfold handleWrite HeldCall.updates
  dsimp only
  by_cases hw : c.channel_.isWriting = true
  · rw [if_pos hw, hw, Bool.true_and, ← Bool.decide_and, readableBytes_retrieve]
    have hv : result.value c.outputBuffer_.readableBytes ≤ c.outputBuffer_.readableBytes := by
      cases result with
      | accepted n => exact Int.ofNat_le.mpr (Nat.min_le_right ..)
      | error errno =>
        show (-1 : Int) ≤ _
        omega
    split
    · rename_i hn
      split
      · rename_i hz
        rw [Touched, if_pos (decide_eq_true (by omega))]
        exact ⟨_, rfl⟩
      · rename_i hz
        rw [Touched, if_neg (by rw [decide_eq_true_eq]; omega)]
    · rename_i hn
      rw [Touched, if_neg (by rw [decide_eq_true_eq]; omega)]
  · rw [if_neg hw, Bool.eq_false_iff.mpr hw]
    exact rfl

theorem touched_handleClose :
    Touched p c.channel_ c.closable ((c.handleClose p).1, (c.handleClose p).2.1.channel_) := by
  unfold handleClose closable Touched
  by_cases h : c.state_ = .kConnected ∨ c.state_ = .kDisconnecting
  · rw [if_pos h, if_pos (by simpa using h)]
    exact ⟨.kNoneEvent, rfl⟩
  · rw [if_neg h, if_neg (by simpa using h)]

theorem touched_handleRead (result : ReadvResult) :
    Touched p c.channel_ (HeldCall.updates c (.call (.handleRead result)))
      ((c.handleRead p result).1, (c.handleRead p result).2.1.channel_) := by
  cases result with
  | error errno => exact rfl
  | ok bytes =>
    cases bytes with
    | nil => exact touched_handleClose p { c with inputBuffer_ := (c.inputBuffer_.readFd (.ok [])).2.2 }
    | cons byte bytes =>
      unfold handleRead
      simp only [Buffer.readFd_count, List.length_cons]
      rw [if_pos (by omega)]
      exact rfl

/-- What a run keeps: the poller agrees with the channel, which is as a new one
once the connection is destroyed. -/
structure Held.Inv (s : Held) : Prop where
  agrees : Agrees s.poller s.conn.channel_
  removed : s.destroyed = true → s.conn.channel_.index_ = .kNew

variable {s : Held}

/-- The channel is out of the poller when it is as a new one. -/
theorem outOfPoller_iff (h : Agrees s.poller s.conn.channel_) :
    s.OutOfPoller ↔ (s.destroyed = true → s.conn.channel_.index_ = .kNew) := by
  unfold Held.OutOfPoller
  rw [h.interest, h.channels]
  cases s.conn.channel_.index_ <;> simp

theorem held_touched {call : HeldCall} (hc : call ≠ .connectDestroyed) :
    (held.step s call).1.destroyed = s.destroyed ∧
    Touched s.poller s.conn.channel_ (call.updates s.conn)
      ((held.step s call).1.poller, (held.step s call).1.conn.channel_) := by
  obtain ⟨p, c, d⟩ := s
  cases call with
  | connectDestroyed => exact absurd rfl hc
  | handleClose => exact ⟨rfl, touched_handleClose p c⟩
  | call call =>
    refine ⟨rfl, ?_⟩
    cases call with
    | send data len result => exact touched_send p c data len result
    | handleWrite result => exact touched_handleWrite p c result
    | handleRead result => exact touched_handleRead p c result
    | shutdown inLoop =>
      show Touched p c.channel_ false (p, c.shutdown.1.channel_)
      unfold shutdown
      split <;> rfl
    | shutdownInLoop => exact rfl

theorem connectDestroyed_agrees (h : Agrees p c.channel_) :
    Agrees (c.connectDestroyed p).1 (c.connectDestroyed p).2.1.channel_ ∧
      (c.connectDestroyed p).2.1.channel_.index_ = .kNew := by
  have hr : ∀ {p : EPollPoller} {c : Channel}, Agrees p c → Agrees (c.remove p).1 (c.remove p).2 ∧
      (c.remove p).2.index_ = .kNew := by
    intro p c h
    obtain ⟨h₁, -, h₂⟩ := removeChannel_agrees h
    exact ⟨h₁, by rw [Channel.remove, h₂]⟩
  unfold connectDestroyed
  by_cases hs : c.state_ = .kConnected
  · simp only [if_pos hs]
    exact hr (updateChannel_agrees h .kNoneEvent).1
  · simp only [if_neg hs]
    exact hr h

/-- One call keeps the channel and the poller in agreement, and a destroyed
connection out of the poller, exactly if it does not update its channel. -/
theorem held_step (h : s.Inv) (call : HeldCall) :
    Agrees (held.step s call).1.poller (held.step s call).1.conn.channel_ ∧
      ((held.step s call).1.OutOfPoller ↔ NoLateUpdate s call) := by
  by_cases hc : call = .connectDestroyed
  · subst hc
    obtain ⟨h₁, h₂⟩ := connectDestroyed_agrees s.poller s.conn h.agrees
    exact ⟨h₁, iff_of_true ((outOfPoller_iff h₁).mpr fun _ => h₂) fun _ => rfl⟩
  · obtain ⟨hd, ht⟩ := held_touched (s := s) hc
    obtain ⟨h₁, -, -, hnew, hsame⟩ := ht.agrees h.agrees
    refine ⟨h₁, ?_⟩
    rw [outOfPoller_iff h₁, hd, NoLateUpdate]
    refine forall_congr' fun hdes => ?_
    constructor
    · intro hk
      exact Bool.eq_false_iff.mpr fun hu => hnew hu hk
    · intro hu
      rw [← h.removed hdes]
      exact hsame hu

/-- For every run of a connection on a descriptor that is new to the kernel: in
every state reached after `connectDestroyed` the channel is neither in
`channels_` nor in the interest set, if and only if no call after
`connectDestroyed` gets to `channel_->update()`. -/
theorem destroyed_iff (this : Nat) (sockfd : Fd) (hi : p.interest sockfd = none) (calls : List HeldCall) :
    let s : Held := ⟨(established p this sockfd).1, (established p this sockfd).2, false⟩
    held.Along (fun s call => (held.step s call).1.OutOfPoller) s calls ↔ held.Along NoLateUpdate s calls := by
  intro s
  have h₀ : s.Inv := by
    refine ⟨?_, fun h => absurd h Bool.false_ne_true⟩
    constructor <;>
      simp [s, established, connectEstablished, new, Channel.new, setState, Channel.enableReading, updateChannel, update, hi]
  refine Machine.along_iff_of_inv (I := Held.Inv) ?_ ?_ calls s h₀
  · intro s call h
    exact (held_step h call).2
  · intro s call h hc
    obtain ⟨h₁, h₂⟩ := held_step h call
    exact ⟨h₁, (outOfPoller_iff h₁).mp (h₂.mpr hc)⟩

instance (s : Held) : Decidable s.OutOfPoller := inferInstanceAs (Decidable (_ → _ ∧ _))

instance (s : Held) (call : HeldCall) : Decidable (NoLateUpdate s call) := inferInstanceAs (Decidable (_ → _))

/-- A connection is closed and destroyed with output left, and the last calls
on it find nothing to write. -/
theorem destroyed_iff_farewell :
    held.Along (fun s call => (held.step s call).1.OutOfPoller)
      ⟨(established .new 0 5).1, (established .new 0 5).2, false⟩
      [.call (.send [1, 2] 2 (.accepted 1)), .handleClose, .connectDestroyed, .call (.shutdown true),
        .call (.handleWrite (.accepted 1))] :=
  (destroyed_iff .new 0 5 rfl _).mpr (by decide +kernel)

/-- A connection is closed by the peer and destroyed, and then a short write of
a late `send` puts its channel back. -/
theorem destroyed_readded :
    ¬ held.Along (fun s call => (held.step s call).1.OutOfPoller)
      ⟨(established .new 0 5).1, (established .new 0 5).2, false⟩
      [.handleClose, .connectDestroyed, .call (.send [1, 2] 2 (.accepted 1))] := by
  decide +kernel

end Ydx.TcpConnection
