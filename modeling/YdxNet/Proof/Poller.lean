import YdxNet.Framework.Machine
import YdxNet.Impl.Poller

/-!
# The poller and the kernel agree

A channel is `kNew`, `kAdded` or `kDeleted`; `Agrees` says what `channels_`
and the kernel's interest set hold for its descriptor in each case. An
operation on a channel keeps this and touches no other descriptor
(`updateChannel_agrees`, `removeChannel_agrees`), so any number of channels
with descriptors of their own stay in agreement (`registration_ok`). A channel
that has no events when it is added is polled without events; this is the only
way (`unpolled_iff`).
-/

namespace Ydx

namespace EPollPoller

/-- The poller, the kernel and a channel agree: an added channel is in the
interest set with its events, and one that is not new is in `channels_`. -/
structure Agrees (p : EPollPoller) (c : Channel) : Prop where
  interest : p.interest c.fd_ = if c.index_ = .kAdded then some (c.events_, c.this) else none
  channels : p.channels_ c.fd_ = if c.index_ = .kNew then none else some c.this

/-- An operation on `c` is legal to the kernel and touches no other
descriptor. -/
structure Frame (p : EPollPoller) (c : Channel) (r : EPollPoller × Channel) : Prop where
  this : r.2.this = c.this
  fd : r.2.fd_ = c.fd_
  errors : r.1.ctlErrors = p.ctlErrors
  interest : ∀ fd, fd ≠ c.fd_ → r.1.interest fd = p.interest fd
  channels : ∀ fd, fd ≠ c.fd_ → r.1.channels_ fd = p.channels_ fd

variable {p : EPollPoller} {c : Channel}

/-- `epoll_ctl` touches one descriptor. -/
theorem interest_update_of_ne {fd : Fd} (h : fd ≠ c.fd_) (op : CtlOp) :
    (p.update op c).interest fd = p.interest fd := by
  unfold update
  split <;> first | exact Function.update_of_ne h .. | rfl

theorem interest_updateChannel_of_ne {fd : Fd} (h : fd ≠ c.fd_) :
    (p.updateChannel c).1.interest fd = p.interest fd := by
  unfold updateChannel
  split
  · exact interest_update_of_ne h .add
  · exact interest_update_of_ne h .add
  · split <;> exact interest_update_of_ne h _

theorem interest_removeChannel_of_ne {fd : Fd} (h : fd ≠ c.fd_) :
    (p.removeChannel c).1.interest fd = p.interest fd := by
  unfold removeChannel
  dsimp only
  split
  · exact interest_update_of_ne h .del
  · rfl

@[simp] theorem fd_updateChannel (p : EPollPoller) (c : Channel) : (p.updateChannel c).2.fd_ = c.fd_ := by
  unfold updateChannel
  split
  · rfl
  · rfl
  · split <;> rfl

/-- `updateChannel` after a change of the events. -/
theorem updateChannel_agrees (h : Agrees p c) (e : Events) :
    let r := p.updateChannel { c with events_ := e }
    Agrees r.1 r.2 ∧ Frame p c r ∧ r.2.events_ = e ∧ r.2.index_ ≠ .kNew := by
  obtain ⟨hi, hc⟩ := h
  have hne : ∀ {α : Type} (f : Fd → α) (v : α) (fd : Fd), fd ≠ c.fd_ → Function.update f c.fd_ v fd = f fd :=
    fun f v fd hfd => Function.update_of_ne hfd v f
  cases hx : c.index_ with
  | kNew =>
    rw [hx, if_neg (by decide)] at hi
    simp only [updateChannel, update, hi]
    exact ⟨⟨by simp, by simp⟩, ⟨rfl, rfl, rfl, hne _ _, hne _ _⟩, trivial, by decide⟩
  | kDeleted =>
    rw [hx, if_neg (by decide)] at hi hc
    simp only [updateChannel, update, hi]
    exact ⟨⟨by simp, by simpa using hc⟩, ⟨rfl, rfl, rfl, hne _ _, fun _ _ => rfl⟩, trivial, by decide⟩
  | kAdded =>
    rw [hx, if_pos rfl] at hi
    rw [hx, if_neg (by decide)] at hc
    by_cases he : e = .kNoneEvent
    · simp only [updateChannel, he, if_true, update, hi]
      exact ⟨⟨by simp, by simpa using hc⟩, ⟨rfl, rfl, rfl, hne _ _, fun _ _ => rfl⟩, trivial, by decide⟩
    · simp only [updateChannel, he, if_false, update, hi]
      exact ⟨⟨by simp, by simpa using hc⟩, ⟨rfl, rfl, rfl, hne _ _, fun _ _ => rfl⟩, trivial, by decide⟩

/-- `removeChannel`: the channel is as a new one, and known to nobody. -/
theorem removeChannel_agrees (h : Agrees p c) :
    let r := p.removeChannel c
    Agrees r.1 r.2 ∧ Frame p c r ∧ r.2 = { c with index_ := .kNew } := by
  have hne : ∀ {α : Type} (f : Fd → α) (v : α) (fd : Fd), fd ≠ c.fd_ → Function.update f c.fd_ v fd = f fd :=
    fun f v fd hfd => Function.update_of_ne hfd v f
  have hi := h.interest
  by_cases hx : c.index_ = .kAdded
  · rw [if_pos hx] at hi
    simp only [removeChannel, hx, if_true, update, hi]
    exact ⟨⟨by simp, by simp⟩, ⟨rfl, rfl, rfl, hne _ _, hne _ _⟩, trivial⟩
  · rw [if_neg hx] at hi
    simp only [removeChannel, hx, if_false]
    exact ⟨⟨by simpa using hi, by simp⟩, ⟨rfl, rfl, rfl, fun _ _ => rfl, hne _ _⟩, trivial⟩

/-- A channel with another descriptor stays in agreement. -/
theorem Agrees.other {r : EPollPoller × Channel} {d : Channel} (h : Agrees p d) (hf : Frame p c r)
    (hd : d.fd_ ≠ c.fd_) : Agrees r.1 d where
  interest := (hf.interest _ hd).trans h.interest
  channels := (hf.channels _ hd).trans h.channels

end EPollPoller

namespace Channel

open EPollPoller

/-- The operations that register a channel. -/
inductive Op
  | enableReading
  | disableReading
  | enableWriting
  | disableWriting
  | disableAll
  | remove
  deriving DecidableEq, Repr

/-- The operation on the channel and its poller. -/
def Op.apply : Op → EPollPoller → Channel → EPollPoller × Channel
  | .enableReading => Channel.enableReading
  | .disableReading => Channel.disableReading
  | .enableWriting => Channel.enableWriting
  | .disableWriting => Channel.disableWriting
  | .disableAll => Channel.disableAll
  | .remove => Channel.remove

/-- What the operation makes of the events. -/
def Op.events : Op → Events → Events
  | .enableReading, e => e.union .kReadEvent
  | .disableReading, e => e.diff .kReadEvent
  | .enableWriting, e => e.union .kWriteEvent
  | .disableWriting, e => e.diff .kWriteEvent
  | .disableAll, _ => .kNoneEvent
  | .remove, e => e

theorem Op.apply_agrees {p : EPollPoller} {c : Channel} (h : Agrees p c) (op : Op) :
    Agrees (op.apply p c).1 (op.apply p c).2 ∧ Frame p c (op.apply p c) := by
  cases op with
  | remove => exact ⟨(removeChannel_agrees h).1, (removeChannel_agrees h).2.1⟩
  | _ => exact ⟨(updateChannel_agrees h _).1, (updateChannel_agrees h _).2.1⟩

end Channel

namespace EPollPoller

variable {κ : Type} [DecidableEq κ]

/-- A poller and its channels, one operation after another. -/
def registrations : Machine (EPollPoller × (κ → Channel)) (κ × Channel.Op) Unit where
  step s call :=
    let r := call.2.apply s.1 (s.2 call.1)
    ((r.1, Function.update s.2 call.1 r.2), ())

/-- A new poller, and the channel of each `k` as it is constructed. -/
def unregistered (this : κ → Nat) (fd : κ → Fd) : EPollPoller × (κ → Channel) :=
  (.new, fun k => .new (this k) (fd k))

/-- All channels are where they were, in agreement, and nothing failed. -/
structure AllAgree (this : κ → Nat) (fd : κ → Fd) (s : EPollPoller × (κ → Channel)) : Prop where
  this : ∀ k, (s.2 k).this = this k
  fd : ∀ k, (s.2 k).fd_ = fd k
  agrees : ∀ k, Agrees s.1 (s.2 k)
  errors : s.1.ctlErrors = 0

theorem AllAgree.step {this : κ → Nat} {fd : κ → Fd} (hfd : Function.Injective fd) {s : EPollPoller × (κ → Channel)}
    (h : AllAgree this fd s) (call : κ × Channel.Op) : AllAgree this fd (registrations.step s call).1 := by
  obtain ⟨k, op⟩ := call
  obtain ⟨ha, hf⟩ := op.apply_agrees (h.agrees k)
  refine ⟨fun j => ?_, fun j => ?_, fun j => ?_, hf.errors.trans h.errors⟩ <;>
    simp only [registrations] <;> by_cases hj : j = k
  · subst hj
    rw [Function.update_self, hf.this, h.this]
  · rw [Function.update_of_ne hj, h.this]
  · subst hj
    rw [Function.update_self, hf.fd, h.fd]
  · rw [Function.update_of_ne hj, h.fd]
  · subst hj
    rw [Function.update_self]
    exact ha
  · have hd : (s.2 j).fd_ ≠ (s.2 k).fd_ := by
      rw [h.fd, h.fd]
      exact fun he => hj (hfd he)
    rw [Function.update_of_ne hj]
    exact (h.agrees j).other hf hd

omit [DecidableEq κ] in
theorem unregistered_allAgree (this : κ → Nat) (fd : κ → Fd) : AllAgree this fd (unregistered this fd) :=
  ⟨fun _ => rfl, fun _ => rfl, fun _ => ⟨rfl, rfl⟩, rfl⟩

/-- Whatever is called on channels with descriptors of their own, `epoll_ctl`
never fails; afterwards a channel is `kAdded` exactly when its descriptor is in
the interest set, which then has its events; and `channels_` has the channel
exactly when it is not `kNew`. -/
theorem registration_ok (this : κ → Nat) (fd : κ → Fd) (hfd : Function.Injective fd)
    (calls : List (κ × Channel.Op)) :
    let s := registrations.final (unregistered this fd) calls
    s.1.ctlErrors = 0 ∧
    ∀ k, ((s.2 k).index_ = .kAdded ↔ (s.1.interest (fd k)).isSome) ∧
      ((s.2 k).index_ = .kAdded → s.1.interest (fd k) = some ((s.2 k).events_, this k)) ∧
      (s.1.channels_ (fd k) = some (this k) ↔ (s.2 k).index_ ≠ .kNew) ∧
      ((s.2 k).index_ = .kNew → s.1.channels_ (fd k) = none) := by
  intro s
  have h : AllAgree this fd s :=
    Machine.always (fun _ call h => h.step hfd call) calls _ (unregistered_allAgree this fd)
  refine ⟨h.errors, fun k => ?_⟩
  obtain ⟨hi, hc⟩ := h.agrees k
  rw [h.fd, h.this] at hi hc
  rw [hi, hc]
  cases (s.2 k).index_ <;> simp

/-- Two channels: one is disabled, removed and disabled again, which adds it
without events, while the other writes. -/
theorem registration_ok_twice :
    let s := registrations.final (unregistered (fun b : Bool => if b then 7 else 8) fun b => if b then 3 else 4)
      [(true, .enableReading), (false, .enableWriting), (true, .disableAll), (true, .remove), (true, .disableAll)]
    s.1.interest 3 = some (.kNoneEvent, 7) ∧ s.1.interest 4 = some (.kWriteEvent, 8) ∧ s.1.ctlErrors = 0 := by
  intro s
  have hfd : Function.Injective fun b : Bool => if b then 3 else 4 := by
    unfold Function.Injective
    decide
  have h := registration_ok (fun b : Bool => if b then 7 else 8) _ hfd
    [(true, .enableReading), (false, .enableWriting), (true, .disableAll), (true, .remove), (true, .disableAll)]
  exact ⟨(h.2 true).2.1 (by decide), (h.2 false).2.1 (by decide), h.1⟩

/-- A channel without events is not in the interest set. -/
def Unpolled (fd : κ → Fd) (s : EPollPoller × (κ → Channel)) : Prop :=
  ∀ k, (s.2 k).events_ = .kNoneEvent → s.1.interest (fd k) = none

/-- An operation that leaves the channel without events, `remove()` apart, finds
it added. -/
def DropsAdded (s : EPollPoller × (κ → Channel)) (call : κ × Channel.Op) : Prop :=
  call.2 ≠ .remove → call.2.events (s.2 call.1).events_ = .kNoneEvent → (s.2 call.1).index_ = .kAdded

/-- `updateChannel` after a change of the events: only an added channel that has
no events any more is not added afterwards. -/
theorem updateChannel_added (p : EPollPoller) (c : Channel) (e : Events) :
    let r := p.updateChannel { c with events_ := e }
    r.2.events_ = e ∧ (r.2.index_ = .kAdded ↔ (e = .kNoneEvent → c.index_ ≠ .kAdded)) := by
  cases c.index_ with
  | kNew => simp [updateChannel]
  | kDeleted => simp [updateChannel]
  | kAdded => by_cases he : e = .kNoneEvent <;> simp [updateChannel, he]

/-- The events of the channel after its operation, and whether it is added. -/
theorem apply_added (p : EPollPoller) (c : Channel) (op : Channel.Op) :
    (op.apply p c).2.events_ = op.events c.events_ ∧
    ((op.apply p c).2.index_ = .kAdded ↔
      op ≠ .remove ∧ (op.events c.events_ = .kNoneEvent → c.index_ ≠ .kAdded)) := by
  by_cases hr : op = .remove
  · subst hr
    exact ⟨rfl, iff_of_false Index.noConfusion fun h => h.1 rfl⟩
  · rw [and_iff_right hr]
    cases op with
    | remove => exact absurd rfl hr
    | _ => exact updateChannel_added p c _

/-- From a state in which nothing is polled without events, an operation leads to
such a state exactly if it drops the events of an added channel, or none. -/
theorem unpolled_step_iff {this : κ → Nat} {fd : κ → Fd} (hfd : Function.Injective fd)
    {s : EPollPoller × (κ → Channel)} (h : AllAgree this fd s) (hu : Unpolled fd s) (call : κ × Channel.Op) :
    Unpolled fd (registrations.step s call).1 ↔ DropsAdded s call := by
  obtain ⟨k, op⟩ := call
  have h' := h.step hfd (k, op)
  have hk := (h'.agrees k).interest
  rw [h'.fd] at hk
  obtain ⟨he, hx⟩ := apply_added s.1 (s.2 k) op
  have hself : (registrations.step s (k, op)).1.2 k = (op.apply s.1 (s.2 k)).2 := Function.update_self ..
  rw [hself] at hk
  constructor
  · intro hq hr hn
    have hi := hq k (by rw [hself, he, hn])
    rw [hk] at hi
    by_contra hna
    rw [if_pos (hx.mpr ⟨hr, fun _ => hna⟩)] at hi
    cases hi
  · intro hp j hj
    by_cases hjk : j = k
    · subst hjk
      rw [hself, he] at hj
      rw [hk, if_neg]
      exact fun ha => (hx.mp ha).2 hj (hp (hx.mp ha).1 hj)
    · -- the operation does not touch the descriptor of another channel
      have hother : (registrations.step s (k, op)).1.2 j = s.2 j := Function.update_of_ne hjk ..
      have hd : fd j ≠ (s.2 k).fd_ := by
        rw [h.fd]
        exact fun he => hjk (hfd he)
      rw [hother] at hj
      exact ((op.apply_agrees (h.agrees k)).2.interest _ hd).trans (hu j hj)

/-- After every operation no channel without events is in the interest set,
exactly if every operation that leaves a channel without events finds it added,
or is `remove()`. -/
theorem unpolled_iff (this : κ → Nat) (fd : κ → Fd) (hfd : Function.Injective fd) (calls : List (κ × Channel.Op)) :
    registrations.Along (fun s call => Unpolled fd (registrations.step s call).1) (unregistered this fd) calls ↔
    registrations.Along DropsAdded (unregistered this fd) calls := by
  refine Machine.along_iff_of_inv (I := fun s => AllAgree this fd s ∧ Unpolled fd s) ?_ ?_ calls _ ?_
  · intro s call h
    exact unpolled_step_iff hfd h.1 h.2 call
  · intro s call h hp
    exact ⟨h.1.step hfd call, (unpolled_step_iff hfd h.1 h.2 call).mpr hp⟩
  · exact ⟨unregistered_allAgree this fd, fun _ _ => rfl⟩

/-- An acceptor that listens, and is destroyed. -/
theorem unpolled_iff_listened :
    registrations.Along (fun s call => Unpolled (fun _ : Unit => 3) (registrations.step s call).1)
      (unregistered (fun _ => 7) fun _ => 3) [((), .enableReading), ((), .disableAll), ((), .remove)] :=
  (unpolled_iff (fun _ => 7) _ (fun _ _ _ => rfl) _).mpr
    ⟨fun _ => by decide, fun _ => by decide, fun h => absurd rfl h, trivial⟩

/-- An acceptor that has not listened is added, without events, when it is
destroyed. -/
theorem unpolled_added :
    let s := registrations.final (unregistered (fun _ : Unit => 7) fun _ => 3) [((), .disableAll)]
    (s.2 ()).events_ = .kNoneEvent ∧ s.1.interest 3 = some (.kNoneEvent, 7) := by
  decide

end EPollPoller

end Ydx
