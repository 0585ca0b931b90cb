import YdxNet.Impl.Sender
import Mathlib.Data.Finset.Card

/-!
# The drain thread does not sleep on a message

`msg_count_` is not the length of the queue: it is raised after the message
can be read, twice for the first one, and lowered only when a message went to
a connection. `Credit` says that it is high enough all the same: what is in
the queue, and the message that still has to be taken off the count, is
covered by the count and by the threads on their way from `write_buffer` to
the end of their locked section. A drain thread that waits and was not
signalled saw a count of 0, so what is in the queue is such a thread's
(`drain_awake_ok`).
-/

namespace Ydx.Sender

open Spec

variable {s s' : Sender} {cap : Nat} {T : Finset Nat} {i : Nat}

/-- The message for which the drain thread may yet call `decrement()`. -/
def owes : DrainPc → Nat
  | .check (some _) | .sendLen _ | .sendBuf _ | .decrement => 1
  | _ => 0

/-- The threads of `T` have written a message and not yet counted it. -/
def Writing (s : Sender) (T : Finset Nat) : Prop := ∀ i ∈ T, ∃ m, s.threads i = .wrote m true

/-- The count and the threads of `T` cover the messages. -/
def Covers (s : Sender) (T : Finset Nat) : Prop :=
  (s.stream_buffer_.length + owes s.drain : Int) ≤ s.msg_count_ + T.card

/-- The count is high enough, and 0 while the drain thread waits unsignalled. -/
structure Credit (s : Sender) : Prop where
  covered : ∃ T, s.Writing T ∧ s.Covers T
  zero : s.drain = .wait false → s.msg_count_ = 0

theorem start_credit : Credit start where
  covered := ⟨∅, fun _ h => absurd h (Finset.notMem_empty _), Int.le_refl _⟩
  zero h := absurd h DrainPc.noConfusion

theorem owes_notify (pc : DrainPc) : owes (notify pc) = owes pc := by
  cases pc <;> rfl

theorem notify_ne_wait_false (pc : DrainPc) : notify pc ≠ .wait false := by
  cases pc <;> simp [notify]

/-- A thread that has not just written a message is not in `T`. -/
theorem Writing.notMem (h : s.Writing T) (hi : ∀ m, s.threads i ≠ .wrote m true) : i ∉ T := by
  intro hT
  obtain ⟨m, hm⟩ := h i hT
  exact hi m hm

/-- A thread outside of `T` moves. -/
theorem Writing.update (h : s.Writing T) (hi : i ∉ T) {pc : SendPc}
    (ht : s'.threads = Function.update s.threads i pc) : s'.Writing T := by
  intro j hj
  have hne : j ≠ i := fun he => hi (he ▸ hj)
  rw [ht, Function.update_of_ne hne]
  exact h j hj

/-- A step of a sending thread that has no message to count. -/
theorem Credit.move (h : Credit s) (hi : ∀ m, s.threads i ≠ .wrote m true) {pc : SendPc}
    (ht : s'.threads = Function.update s.threads i pc) (hq : s'.stream_buffer_ = s.stream_buffer_)
    (hc : s'.msg_count_ = s.msg_count_) (hd : s'.drain = s.drain) : Credit s' := by
  obtain ⟨T, hT, hle⟩ := h.covered
  refine ⟨⟨T, hT.update (hT.notMem hi) ht, ?_⟩, ?_⟩
  · rw [Covers, hq, hd, hc]
    exact hle
  · rw [hd, hc]
    exact h.zero

/-- A step of the drain thread. -/
theorem Credit.drain (h : Credit s) (ht : s'.threads = s.threads)
    (hle : (s'.stream_buffer_.length + owes s'.drain : Int) - s'.msg_count_ ≤
      s.stream_buffer_.length + owes s.drain - s.msg_count_)
    (hz : s'.drain = .wait false → s'.msg_count_ = 0) : Credit s' := by
  obtain ⟨T, hT, hc⟩ := h.covered
  refine ⟨⟨T, ?_, ?_⟩, hz⟩
  · rw [Writing, ht]
    exact hT
  · unfold Covers at hc ⊢
    omega

/-! ## The steps of `send` -/

theorem Credit.write (h : Credit s) (buf : Message) : Credit (s.step cap (.write i buf)) := by
  unfold step
  dsimp only
  split
  · rename_i hi
    have hne : ∀ m, s.threads i ≠ .wrote m true := fun m hm => absurd (hi.symm.trans hm) SendPc.noConfusion
    by_cases hroom : s.Room cap buf
    · obtain ⟨T, hT, hle⟩ := h.covered
      have hmem := hT.notMem hne
      simp only [hroom, decide_true, if_true]
      refine ⟨⟨insert i T, ?_, ?_⟩, h.zero⟩
      · intro j hj
        rcases Finset.mem_insert.mp hj with rfl | hj
        · exact ⟨_, Function.update_self ..⟩
        · exact hT.update hmem rfl j hj
      · unfold Covers at hle ⊢
        rw [Finset.card_insert_of_notMem hmem, List.length_append, List.length_singleton]
        push_cast
        omega
    · simp only [hroom, decide_false, Bool.false_eq_true, if_false]
      exact h.move hne rfl rfl rfl rfl
  · exact h

theorem Credit.count (h : Credit s) : Credit (s.step cap (.count i)) := by
  unfold step
  dsimp only
  split
  · rename_i m hi
    obtain ⟨T, hT, hle⟩ := h.covered
    have hcard := Finset.pred_card_le_card_erase (s := T) (a := i)
    have hT' : ({ s with threads := Function.update s.threads i (.done m) } : Sender).Writing (T.erase i) :=
      have hsub : s.Writing (T.erase i) := fun j hj => hT j (Finset.mem_of_mem_erase hj)
      hsub.update (Finset.notMem_erase i T) rfl
    by_cases hfirst : s.msg_count_ = 0
    · have hb : (s.msg_count_ == 0) = true := beq_iff_eq.mpr hfirst
      simp only [hb, if_true]
      refine ⟨⟨T.erase i, hT', ?_⟩, fun hw => absurd hw (notify_ne_wait_false _)⟩
      unfold Covers at hle ⊢
      rw [owes_notify]
      dsimp only
      omega
    · have hb : (s.msg_count_ == 0) = false := beq_eq_false_iff_ne.mpr hfirst
      simp only [hb, Bool.false_eq_true, if_false]
      refine ⟨⟨T.erase i, hT', ?_⟩, fun hw => absurd (h.zero hw) hfirst⟩
      unfold Covers at hle ⊢
      dsimp only
      omega
  · rename_i m hi
    refine h.move (fun m' hm => ?_) rfl rfl rfl rfl
    exact absurd (SendPc.wrote.inj (hi.symm.trans hm)).2 Bool.noConfusion
  · exact h

theorem Credit.ret (h : Credit s) : Credit (s.step cap (.ret i)) := by
  unfold step
  dsimp only
  split
  · rename_i m hi
    exact h.move (fun m' hm => absurd (hi.symm.trans hm) SendPc.noConfusion) rfl rfl rfl rfl
  · exact h

/-! ## The steps of the drain thread -/

theorem Credit.poll (h : Credit s) (client : TcpClient) : Credit { s with client_ := client } :=
  ⟨h.covered, h.zero⟩

theorem Credit.test (h : Credit s) : Credit (s.step cap .test) := by
  unfold step
  dsimp only
  split
  · rename_i hd
    refine h.drain rfl ?_ ?_
    · dsimp only
      split <;> simp [hd, owes]
    · dsimp only
      split
      · rename_i hz
        exact fun _ => hz
      · exact fun hw => absurd hw DrainPc.noConfusion
  · exact h

theorem Credit.read (h : Credit s) : Credit (s.step cap .read) := by
  unfold step
  dsimp only
  split
  · rename_i hd
    split
    · rename_i hq
      refine h.drain rfl ?_ fun hw => absurd hw DrainPc.noConfusion
      simp [hd, owes]
    · rename_i m q hq
      refine h.drain rfl ?_ fun hw => absurd hw DrainPc.noConfusion
      simp [hd, hq, owes]
  · exact h

theorem Credit.check (h : Credit s) : Credit (s.step cap .check) := by
  unfold step
  dsimp only
  split
  · rename_i m hd
    refine h.drain rfl ?_ ?_
    · dsimp only
      split <;> simp [hd, owes]
    · dsimp only
      split
      · exact fun hw => absurd hw DrainPc.noConfusion
      · exact fun hw => absurd hw DrainPc.noConfusion
  · rename_i hd
    refine h.drain rfl ?_ fun hw => absurd hw DrainPc.noConfusion
    simp [hd, owes]
  · exact h

theorem Credit.callSend (h : Credit s) {m : Numbered} {data : List Byte} {next : DrainPc} (hd : owes s.drain = 1)
    (hn : owes next = 1) (hw : next ≠ .wait false) : Credit (s.callSend m data next) := by
  unfold Sender.callSend
  split
  · refine h.drain rfl ?_ fun hw => absurd hw DrainPc.noConfusion
    simp only [owes]
    omega
  · refine h.drain rfl ?_ fun he => absurd he hw
    simp only [hd, hn]
    omega

theorem Credit.decrement (h : Credit s) : Credit (s.step cap .decrement) := by
  unfold step
  dsimp only
  split
  · rename_i hd
    refine h.drain rfl ?_ fun hw => absurd hw DrainPc.noConfusion
    simp only [hd, owes]
    omega
  · exact h

/-! ## Every step, and every run -/

theorem Credit.step (h : Credit s) (a : Action) : Credit (s.step cap a) := by
  cases a with
  | write i buf => exact h.write buf
  | count i => exact h.count
  | ret i => exact h.ret
  | newConnection | removeConnection =>
    unfold Sender.step
    dsimp only
    split
    · exact h.poll _
    · exact h
  | polled | wakeup =>
    unfold Sender.step
    dsimp only
    split
    · rename_i hd
      refine h.drain rfl ?_ fun hw => absurd hw DrainPc.noConfusion
      simp [hd, owes]
    · exact h
  | test => exact h.test
  | read => exact h.read
  | check => exact h.check
  | sendLen =>
    unfold Sender.step
    dsimp only
    split
    · rename_i m hd
      exact h.callSend (by rw [hd, owes]) rfl DrainPc.noConfusion
    · exact h
  | sendBuf =>
    unfold Sender.step
    dsimp only
    split
    · rename_i m hd
      exact h.callSend (by rw [hd, owes]) rfl DrainPc.noConfusion
    · exact h
  | decrement => exact h.decrement

theorem run_credit (cap : Nat) (actions : List Action) : Credit ((machine cap).final start actions) :=
  Machine.always (I := Credit) (fun _ a h => h.step a) actions start start_credit

/-- When the drain thread waits unsignalled and the queue holds a message, some
thread is between its successful `write_buffer` and the end of its locked
section. -/
theorem drain_awake_ok (cap : Nat) (actions : List Action) :
    let s := (machine cap).final start actions
    s.drain = .wait false → s.stream_buffer_ ≠ [] → ∃ i m, s.threads i = .wrote m true := by
  intro s hw hq
  obtain ⟨⟨T, hT, hle⟩, hz⟩ := run_credit cap actions
  have hlen := List.length_pos_iff.mpr hq
  have hzero := hz hw
  have hcard : 0 < T.card := by
    have : (s.stream_buffer_.length + owes s.drain : Int) ≤ s.msg_count_ + T.card := hle
    rw [show s.msg_count_ = 0 from hzero] at this
    omega
  obtain ⟨i, hi⟩ := Finset.card_pos.mp hcard
  exact ⟨i, hT i hi⟩

theorem drain_awake_on_first_message :
    let s := (machine 64).final start [.polled, .test, .write 0 [7]]
    s.drain = .wait false ∧ s.stream_buffer_ ≠ [] ∧ ∃ i m, s.threads i = .wrote m true :=
  ⟨rfl, by decide, drain_awake_ok 64 [.polled, .test, .write 0 [7]] rfl (by decide)⟩

end Ydx.Sender
