import YdxNet.Impl.ReceiverThreads
import YdxNet.Impl.Receiver
import YdxNet.Proof.StreamFifo

/-!
# Receivers, the counter and the notifications

`msg_count_` is the number of messages queued as long as `write_buffer` has
room for what `onMessage` delivers, and only then (`counts_iff`). `onMessage`
notifies one thread when it finds a count of 0, and nobody otherwise: a
receiver is left asleep beside a message exactly when a message arrives while
others are queued, a thread is blocked, and no signalled thread is to spare
(`awake_iff`). `receive` tests the count with `if`, so a signalled thread
returns false when another thread was faster; `honest_of_leaves` asks that
nobody takes a message that a signalled thread was woken for.
-/

namespace Ydx.ReceiverThreads

open Spec Condition

variable {n : Nat} {s : ReceiverThreads n} {a : Action n} {m : Message} {i : Fin n}

/-- The counter is the number of messages queued. -/
def Counts (s : ReceiverThreads n) : Prop := s.msg_count_.toNat = s.stream_buffer_.length

/-- The counter is right, and what is queued fits. -/
structure Sound (s : ReceiverThreads n) : Prop where
  counts : s.Counts
  fits : framesSize s.stream_buffer_ ≤ capacity

/-- `write_buffer` has room for a message that is delivered. -/
def Roomy (s : ReceiverThreads n) : Action n → Prop
  | .onMessage _ m _ => s.Room capacity m
  | _ => True

instance (s : ReceiverThreads n) : Decidable s.Counts := inferInstanceAs (Decidable (_ = _))

instance (s : ReceiverThreads n) : ∀ a : Action n, Decidable (s.Roomy a)
  | .onMessage .. => inferInstanceAs (Decidable (Room ..))
  | .receive _ | .resume _ => inferInstanceAs (Decidable True)

theorem start_sound : Sound (start : ReceiverThreads n) := ⟨rfl, Nat.zero_le _⟩

theorem length_le_framesSize (q : List Message) : q.length ≤ framesSize q := by
  induction q with
  | nil => exact Nat.le_refl _
  | cons m q ih =>
    rw [framesSize_cons, List.length_cons]
    omega

theorem framesSize_append (q : List Message) (m : Message) : framesSize (q ++ [m]) = framesSize q + (4 + m.length) := by
  simp [framesSize]

theorem Sound.length_lt (h : Sound s) : s.stream_buffer_.length + 1 < 2 ^ 32 := by
  have := length_le_framesSize s.stream_buffer_
  have := h.fits
  have : capacity + 1 < 2 ^ 32 := by decide
  omega

theorem Sound.zero_iff (h : Sound s) : s.msg_count_ = 0 ↔ s.stream_buffer_ = [] := by
  rw [← UInt32.toNat_inj, ← List.length_eq_zero_iff, h.counts, UInt32.toNat_zero]

theorem Sound.toNat_succ (h : Sound s) : (s.msg_count_ + 1).toNat = s.stream_buffer_.length + 1 := by
  have := h.length_lt
  rw [UInt32.toNat_add, h.counts, UInt32.toNat_one]
  omega

/-- A turn of the loop of `onMessage` on the ring itself is the step on the
queue, wherever the ring counts its bytes right. -/
theorem deliver_ok {cap : Nat} {r : Receiver} {payload : List Byte} (hq : r.stream_buffer_.Queues cap s.stream_buffer_)
    (hc : r.msg_count_ = s.msg_count_) (hm : m.length < 2 ^ 31)
    (hb : StreamBuffer.Counted (r.stream_buffer_, s.stream_buffer_) (.write (m ++ payload) (lenInt m.length)))
    (pick : Nat) :
    (r.deliver (m ++ payload) (lenInt m.length)).stream_buffer_.Queues cap (s.onMessage cap m pick).stream_buffer_ ∧
      (r.deliver (m ++ payload) (lenInt m.length)).msg_count_ = (s.onMessage cap m pick).msg_count_ := by
  refine ⟨?_, by rw [Receiver.deliver, onMessage, hc]⟩
  have hlen : (lenInt m.length).toInt.toNat = m.length := by rw [toInt_lenInt hm, Int.toNat_natCast]
  have hvalid : (FifoOp.write (m ++ payload) (lenInt m.length)).Valid := by
    refine ⟨by rw [toInt_lenInt hm]; exact Int.natCast_nonneg _, ?_⟩
    rw [hlen, List.length_append]
    exact Nat.le_add_right _ _
  obtain ⟨-, hstep⟩ := StreamBuffer.step_counted hq hvalid hb
  have hfifo : ((fifo cap).step s.stream_buffer_ (.write (m ++ payload) (lenInt m.length))).1 =
      (s.onMessage cap m pick).stream_buffer_ := by
    simp only [fifo, onMessage, Room, hlen, List.take_left]
    by_cases hr : framesSize s.stream_buffer_ + (4 + m.length) ≤ cap
    · simp only [hr, if_true]
    · simp only [hr, if_false]
  rw [← hfifo]
  exact hstep

/-! ## The counter -/

theorem Sound.counts_onMessage_iff (h : Sound s) (pick : Nat) :
    (s.onMessage capacity m pick).Counts ↔ s.Room capacity m := by
  unfold Counts onMessage
  dsimp only
  rw [h.toNat_succ]
  split
  · rename_i hr
    exact iff_of_true (by rw [List.length_append, List.length_singleton]) hr
  · rename_i hr
    exact iff_of_false (by omega) hr

theorem Sound.onMessage (h : Sound s) (hr : s.Room capacity m) (pick : Nat) :
    Sound (s.onMessage capacity m pick) := by
  refine ⟨(h.counts_onMessage_iff pick).mpr hr, ?_⟩
  unfold ReceiverThreads.onMessage
  dsimp only
  rw [if_pos hr, framesSize_append]
  exact hr

theorem Sound.readBuffer (h : Sound s) (i : Fin n) : Sound (s.readBuffer i).1 := by
  obtain ⟨hc, hf⟩ := h
  unfold Counts at hc
  unfold ReceiverThreads.readBuffer
  split
  · exact ⟨hc, hf⟩
  · rename_i m q hq
    rw [hq, framesSize_cons] at hf
    rw [hq, List.length_cons] at hc
    refine ⟨?_, ?_⟩
    · have hle : (1 : UInt32) ≤ s.msg_count_ := by
        rw [UInt32.le_iff_toNat_le, hc, UInt32.toNat_one]
        omega
      show (s.msg_count_ - 1).toNat = q.length
      rw [UInt32.toNat_sub_of_le _ _ hle, hc, UInt32.toNat_one]
      omega
    · change framesSize q ≤ capacity
      omega

/-- A thread that receives: it is elsewhere, it begins to wait, or it reads. -/
theorem step_thread (cap : Nat) (ha : a = .receive i ∨ a = .resume i) :
    step cap s a = (s, none) ∨
      (a = .receive i ∧ s.receivers i = .idle ∧ s.msg_count_ = 0 ∧
        step cap s a = ({ s with receivers := Function.update s.receivers i (.waiting false) }, none)) ∨
      (a = .receive i ∧ s.receivers i = .idle ∧ s.msg_count_ ≠ 0 ∨ ∃ b, a = .resume i ∧ s.receivers i = .waiting b) ∧
        step cap s a = ((s.readBuffer i).1, some (s.readBuffer i).2) := by
  rcases ha with rfl | rfl
  · unfold step
    dsimp only
    split
    · rename_i hi
      by_cases hz : s.msg_count_ = 0
      · exact .inr (.inl ⟨rfl, hi, hz, if_pos hz⟩)
      · exact .inr (.inr ⟨.inl ⟨rfl, hi, hz⟩, if_neg hz⟩)
    · exact .inl rfl
  · unfold step
    dsimp only
    split
    · rename_i b hi
      exact .inr (.inr ⟨.inr ⟨b, rfl, hi⟩, rfl⟩)
    · exact .inl rfl

theorem Sound.step_thread (h : Sound s) (ha : a = .receive i ∨ a = .resume i) : Sound (step capacity s a).1 := by
  rcases ReceiverThreads.step_thread capacity (s := s) ha with he | ⟨-, -, -, he⟩ | ⟨-, he⟩
  · rw [he]
    exact h
  · rw [he]
    exact ⟨h.counts, h.fits⟩
  · rw [he]
    exact h.readBuffer i

theorem Sound.step (h : Sound s) (hr : s.Roomy a) : Sound (step capacity s a).1 := by
  cases a with
  | onMessage conn m pick => exact h.onMessage hr pick
  | receive i => exact h.step_thread (.inl rfl)
  | resume i => exact h.step_thread (.inr rfl)

theorem Sound.counts_step_iff (h : Sound s) : (ReceiverThreads.step capacity s a).1.Counts ↔ s.Roomy a := by
  cases a with
  | onMessage conn m pick => exact h.counts_onMessage_iff pick
  | receive i => exact iff_of_true (h.step_thread (.inl rfl)).counts trivial
  | resume i => exact iff_of_true (h.step_thread (.inr rfl)).counts trivial

theorem counts_iff (actions : List (Action n)) :
    (machine capacity n).Along (fun s a => (step capacity s a).1.Counts) start actions ↔
      (machine capacity n).Along Roomy start actions :=
  Machine.along_iff_of_inv (I := Sound) (fun _ _ h => h.counts_step_iff) (fun _ _ h hr => h.step hr) actions start start_sound

/-! ## Blocked receivers -/

/-- While a receiver is blocked, there is a signalled one for each message. -/
def Awake (s : ReceiverThreads n) : Prop := ReceivePc.cond.Served s.stream_buffer_.length s.receivers

/-- A message that is delivered finds the queue empty, nobody blocked, or a
signalled receiver to spare. -/
def Attended (s : ReceiverThreads n) : Action n → Prop
  | .onMessage _ _ _ =>
    s.stream_buffer_ = [] ∨ count ReceivePc.cond.blocked s.receivers = 0 ∨
      s.stream_buffer_.length < count ReceivePc.cond.signalled s.receivers
  | _ => True

instance (s : ReceiverThreads n) : Decidable s.Awake := inferInstanceAs (Decidable (Served ..))

instance (s : ReceiverThreads n) : ∀ a : Action n, Decidable (s.Attended a)
  | .onMessage .. => inferInstanceAs (Decidable (_ ∨ _ ∨ _))
  | .receive _ | .resume _ => inferInstanceAs (Decidable True)

theorem start_awake : (start : ReceiverThreads n).Awake := fun _ => Nat.zero_le _

theorem Awake.onMessage_iff (ha : s.Awake) (h : Sound s) (hr : s.Room capacity m) (conn pick : Nat) :
    (s.onMessage capacity m pick).Awake ↔ s.Attended (.onMessage conn m pick) := by
  unfold Awake onMessage Attended
  dsimp only
  rw [if_pos hr, List.length_append, List.length_singleton]
  by_cases hq : s.stream_buffer_ = []
  · rw [if_pos (h.zero_iff.mpr hq)]
    exact iff_of_true (ha.notify pick) (.inl hq)
  · rw [if_neg fun hz => hq (h.zero_iff.mp hz)]
    constructor
    · intro hs
      by_cases hb : count ReceivePc.cond.blocked s.receivers = 0
      · exact .inr (.inl hb)
      · exact .inr (.inr (hs (Nat.pos_of_ne_zero hb)))
    · rintro (hq' | hb | hlt) hpos
      · exact absurd hq' hq
      · omega
      · exact hlt

theorem Awake.readBuffer (ha : s.Awake) (i : Fin n) : (s.readBuffer i).1.Awake := by
  unfold ReceiverThreads.readBuffer
  split
  · rename_i hq
    refine Served.move ha i (.inl ?_)
    rw [hq]
    rfl
  · rename_i m q hq
    unfold Awake at ha
    rw [hq] at ha
    exact Served.move ha i (.inr ⟨rfl, Nat.add_le_add_left (Bool.toNat_le _) _⟩)

theorem Awake.step_thread (ha : s.Awake) (h : Sound s) (hi : a = .receive i ∨ a = .resume i) :
    (step capacity s a).1.Awake := by
  rcases ReceiverThreads.step_thread capacity (s := s) hi with he | ⟨-, -, hz, he⟩ | ⟨-, he⟩
  · rw [he]
    exact ha
  · rw [he]
    refine Served.move ha i (.inl ?_)
    rw [h.zero_iff.mp hz]
    rfl
  · rw [he]
    exact ha.readBuffer i

theorem Awake.step_iff (ha : s.Awake) (h : Sound s) (hr : s.Roomy a) :
    (ReceiverThreads.step capacity s a).1.Awake ↔ s.Attended a := by
  cases a with
  | onMessage conn m pick => exact ha.onMessage_iff h hr conn pick
  | receive i => exact iff_of_true (ha.step_thread h (.inl rfl)) trivial
  | resume i => exact iff_of_true (ha.step_thread h (.inr rfl)) trivial

/-- While the queue never fills up, no receiver sleeps beside a message that
no signalled one will take, exactly when every message that is delivered is
attended. -/
theorem awake_iff (actions : List (Action n)) (hr : (machine capacity n).Along Roomy start actions) :
    (machine capacity n).Along (fun s a => (step capacity s a).1.Awake) start actions ↔
      (machine capacity n).Along Attended start actions := by
  refine Machine.along_iff (V := Roomy) (I := fun s => Sound s ∧ s.Awake) ?_ ?_ actions start ⟨start_sound, start_awake⟩ hr
  · intro s a h hr
    exact h.2.step_iff h.1 hr
  · intro s a h hr hp
    have ha : (step capacity s a).1.Awake := (h.2.step_iff h.1 hr).mpr hp
    exact ⟨h.1.step hr, ha⟩

/-- Two threads wait and two messages arrive. -/
def sleepless (i j : Fin n) (first : Message) : List (Action n) :=
  [.receive i, .receive j, .onMessage 0 first 0, .resume i, .onMessage 0 [2] 1, .resume j]

theorem awake_iff_attended :
    (machine capacity 2).Along Roomy start (sleepless 0 1 [1]) ∧
      (machine capacity 2).Along (fun s a => (step capacity s a).1.Awake) start (sleepless 0 1 [1]) :=
  have hr : (machine capacity 2).Along Roomy start (sleepless 0 1 [1]) := by decide +kernel
  ⟨hr, (awake_iff (sleepless 0 1 [1]) hr).mpr (by decide +kernel)⟩

/-- The second of two messages wakes nobody. -/
theorem awake_lost :
    let actions : List (Action 2) := [.receive 0, .receive 1, .onMessage 0 [1] 0, .onMessage 0 [2] 1]
    let s := (machine capacity 2).final start actions
    (machine capacity 2).Along Roomy start actions ∧ s.receivers 1 = .waiting false ∧
      s.stream_buffer_.length = 2 ∧ count ReceivePc.cond.signalled s.receivers = 1 := by
  decide +kernel

/-! ## What `receive` does -/

/-- The counter is right after the step; `receive` blocks exactly when nothing
is queued, and returns true unless it was woken without a signal. -/
def Honest (s : ReceiverThreads n) (a : Action n) : Prop :=
  (step capacity s a).1.Counts ∧
    match a with
    | .onMessage _ _ _ => True
    | .receive i => s.receivers i = .idle →
      ((step capacity s a).1.receivers i = .waiting false ↔ s.stream_buffer_ = []) ∧ (step capacity s a).2 ≠ some false
    | .resume i => s.receivers i = .waiting true → (step capacity s a).2 = some true

/-- A thread that takes a message without having been signalled leaves one for
each thread that was. -/
def Leaves (s : ReceiverThreads n) : Action n → Prop
  | .onMessage _ _ _ => True
  | .receive i => s.receivers i = .idle → s.stream_buffer_ ≠ [] →
    count ReceivePc.cond.signalled s.receivers < s.stream_buffer_.length
  | .resume i => s.receivers i = .waiting false → s.stream_buffer_ ≠ [] →
    count ReceivePc.cond.signalled s.receivers < s.stream_buffer_.length

instance (s : ReceiverThreads n) : ∀ a : Action n, Decidable (s.Leaves a)
  | .onMessage .. => inferInstanceAs (Decidable True)
  | .receive _ | .resume _ => inferInstanceAs (Decidable (_ → _ → _))

/-- The counter is right, and there is a message for each signalled thread. -/
structure Fair (s : ReceiverThreads n) : Prop where
  sound : Sound s
  enough : count ReceivePc.cond.signalled s.receivers ≤ s.stream_buffer_.length

theorem start_fair : Fair (start : ReceiverThreads n) where
  sound := start_sound
  enough := Nat.le_of_eq (count_eq_zero.mpr fun _ => rfl)

theorem Fair.onMessage (h : Fair s) (hr : s.Room capacity m) (pick : Nat) : Fair (s.onMessage capacity m pick) := by
  refine ⟨h.sound.onMessage hr pick, ?_⟩
  have hle := h.enough
  have hn : count ReceivePc.cond.signalled (ReceivePc.cond.notify pick s.receivers) ≤
      count ReceivePc.cond.signalled s.receivers + 1 := by
    rcases ReceivePc.cond.notify_cases pick s.receivers with ⟨-, he⟩ | ⟨i, -, he⟩
    · rw [he]
      exact Nat.le_succ _
    · have := count_update ReceivePc.cond.signalled s.receivers i (ReceivePc.cond.signal (s.receivers i))
      have := Bool.toNat_le (ReceivePc.cond.signalled (ReceivePc.cond.signal (s.receivers i)))
      rw [he]
      omega
  unfold ReceiverThreads.onMessage
  dsimp only
  rw [if_pos hr, List.length_append, List.length_singleton]
  split
  · omega
  · omega

/-- A thread reads: it was signalled, it finds the queue empty, or it leaves
enough. -/
theorem Fair.readBuffer (h : Fair s)
    (hi : ReceivePc.cond.signalled (s.receivers i) = true ∨ s.stream_buffer_ = [] ∨
      count ReceivePc.cond.signalled s.receivers < s.stream_buffer_.length) : Fair (s.readBuffer i).1 := by
  refine ⟨h.sound.readBuffer i, ?_⟩
  have hle := h.enough
  have hu := count_update ReceivePc.cond.signalled s.receivers i .idle
  rw [show ReceivePc.cond.signalled .idle = false from rfl, Bool.toNat_false] at hu
  unfold ReceiverThreads.readBuffer
  split
  · dsimp only
    omega
  · rename_i m q hq
    rw [hq, List.length_cons] at hle hi
    dsimp only
    rcases hi with hs | hq' | hlt
    · rw [hs, Bool.toNat_true] at hu
      omega
    · exact absurd hq' (List.cons_ne_nil _ _)
    · omega

theorem Fair.step_thread (h : Fair s) (hi : a = .receive i ∨ a = .resume i) (hl : s.Leaves a) :
    Fair (step capacity s a).1 := by
  rcases ReceiverThreads.step_thread capacity (s := s) hi with he | ⟨-, hidle, -, he⟩ | ⟨hread, he⟩
  · rw [he]
    exact h
  · rw [he]
    refine ⟨⟨h.sound.counts, h.sound.fits⟩, ?_⟩
    have hu := count_update ReceivePc.cond.signalled s.receivers i (.waiting false)
    rw [hidle] at hu
    have hle := h.enough
    show count ReceivePc.cond.signalled (Function.update s.receivers i (.waiting false)) ≤ _
    exact Nat.le_trans (Nat.le_of_eq (Nat.add_right_cancel hu)) hle
  · rw [he]
    refine h.readBuffer ?_
    rcases hread with ⟨rfl, hidle, hne⟩ | ⟨b, rfl, hw⟩
    · exact .inr (.inr (hl hidle fun hq => hne (h.sound.zero_iff.mpr hq)))
    · cases b with
      | true => exact .inl (by rw [hw]; rfl)
      | false =>
        by_cases hq : s.stream_buffer_ = []
        · exact .inr (.inl hq)
        · exact .inr (.inr (hl hw hq))

theorem Fair.step (h : Fair s) (hr : s.Roomy a) (hl : s.Leaves a) : Fair (step capacity s a).1 := by
  cases a with
  | onMessage conn m pick => exact h.onMessage hr pick
  | receive i => exact h.step_thread (.inl rfl) hl
  | resume i => exact h.step_thread (.inr rfl) hl

theorem readBuffer_ret (hq : s.stream_buffer_ ≠ []) (i : Fin n) : (s.readBuffer i).2 = true := by
  unfold readBuffer
  split
  · rename_i hnil
    exact absurd hnil hq
  · rfl

theorem readBuffer_receivers (s : ReceiverThreads n) (i : Fin n) :
    (s.readBuffer i).1.receivers = Function.update s.receivers i .idle := by
  unfold readBuffer
  split
  · rfl
  · rfl

theorem Fair.honest (h : Fair s) (hr : s.Roomy a) : s.Honest a := by
  refine ⟨h.sound.counts_step_iff.mpr hr, ?_⟩
  cases a with
  | onMessage conn m pick => trivial
  | receive i =>
    intro hidle
    by_cases hq : s.stream_buffer_ = []
    · simp [ReceiverThreads.step, hidle, h.sound.zero_iff.mpr hq, hq]
    · have hz : s.msg_count_ ≠ 0 := fun hz => hq (h.sound.zero_iff.mp hz)
      simp [ReceiverThreads.step, hidle, hz, hq, readBuffer_ret hq, readBuffer_receivers]
  | resume i =>
    intro hw
    have hpos : 0 < count ReceivePc.cond.signalled s.receivers := count_pos i (by rw [hw]; rfl)
    have hq : s.stream_buffer_ ≠ [] := List.length_pos_iff.mp (Nat.lt_of_lt_of_le hpos h.enough)
    simp [ReceiverThreads.step, hw, readBuffer_ret hq]

theorem honest_of_leaves (actions : List (Action n))
    (h : (machine capacity n).Along (fun s a => s.Roomy a ∧ s.Leaves a) start actions) :
    (machine capacity n).Along Honest start actions :=
  Machine.Along.imp (I := Fair) (fun _ _ hf hp => ⟨hf.honest hp.1, hf.step hp.1 hp.2⟩) actions start start_fair h

/-- The counter is right all along exactly when there is room for every message
that is delivered; and then `receive` blocks exactly when nothing is queued,
and returns true whenever it was signalled, if nobody takes a message that a
signalled thread was woken for. -/
theorem counter_iff (actions : List (Action n)) :
    ((machine capacity n).Along (fun s a => (step capacity s a).1.Counts) start actions ↔
        (machine capacity n).Along Roomy start actions) ∧
      ((machine capacity n).Along (fun s a => s.Roomy a ∧ s.Leaves a) start actions →
        (machine capacity n).Along Honest start actions) :=
  ⟨counts_iff actions, honest_of_leaves actions⟩

theorem counter_iff_sleepless :
    (machine capacity 2).Along (fun s a => s.Roomy a ∧ s.Leaves a) start (sleepless 0 1 [1]) ∧
      (machine capacity 2).Along Honest start (sleepless 0 1 [1]) :=
  have h : (machine capacity 2).Along (fun s a => s.Roomy a ∧ s.Leaves a) start (sleepless 0 1 [1]) := by decide +kernel
  ⟨h, (counter_iff (sleepless 0 1 [1])).2 h⟩

/-- After a message that fills the queue, the next one is refused and counted. -/
theorem final_full (hm : m.length = capacity - 4) :
    (machine capacity 1).final start [.onMessage 0 m 0, .onMessage 1 [7] 0] = ⟨[m], 2, fun _ => .idle⟩ := by
  have hlen : framesSize [m] = capacity := by
    rw [framesSize_cons, hm]
    rfl
  have hfits : Room capacity (start : ReceiverThreads 1) m := by
    rw [framesSize_cons] at hlen
    simp only [Room, start]
    omega
  have hfull : ¬ Room capacity (⟨[m], 1, fun _ => .idle⟩ : ReceiverThreads 1) [7] := by
    simp only [Room, hlen, List.length_singleton]
    omega
  have h₁ : (start : ReceiverThreads 1).onMessage capacity m 0 = ⟨[m], 1, fun _ => .idle⟩ := by
    rw [onMessage, if_pos hfits]
    rfl
  have h₂ : onMessage capacity ⟨[m], 1, fun _ => .idle⟩ [7] 0 = (⟨[m], 2, fun _ => .idle⟩ : ReceiverThreads 1) := by
    rw [onMessage, if_neg hfull]
    rfl
  show ((start : ReceiverThreads 1).onMessage capacity m 0).onMessage capacity [7] 0 = _
  rw [h₁, h₂]

/-- A message that fills the queue. -/
def filling : Message := List.replicate (capacity - 4) 0

/-- A message that the full queue refuses is counted. -/
theorem counter_full :
    let s := (machine capacity 1).final start [.onMessage 0 filling 0, .onMessage 1 [7] 0]
    s.msg_count_ = 2 ∧ s.stream_buffer_.length = 1 ∧
      (machine capacity 1).outputs s [.receive 0, .receive 0] = [some true, some false] := by
  have hs := final_full (show filling.length = capacity - 4 from List.length_replicate)
  rw [hs]
  exact ⟨rfl, rfl, rfl⟩

end Ydx.ReceiverThreads
