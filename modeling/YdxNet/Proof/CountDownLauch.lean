import YdxNet.Impl.CountDownLauch

/-!
# The latch opens once, and for all

As long as `count_` does not overflow, it is the count that the latch was made with, less the
calls of `countDown()`. A thread sleeps only before as many calls, and `wait()` returns only
behind them (`lauch_ok`).
-/

namespace Ydx

namespace CountDownLauch

variable {n : Nat} {s : CountDownLauch n} {count : Int32}

/-- `count_` has not gone below the range of `int`. -/
def InRange (count : Int32) (s : CountDownLauch n) : Prop := (s.called : Int) ≤ count.toInt + 2 ^ 31

instance (count : Int32) (s : CountDownLauch n) : Decidable (InRange count s) := inferInstanceAs (Decidable (_ ≤ _))

/-- What holds before every step, of a latch made with `count`. -/
structure Inv (count : Int32) (s : CountDownLauch n) : Prop where
  counts : InRange count s → s.count_.toInt = count.toInt - s.called
  asleep : InRange count s → ∀ i, LauchPc.condition_.blocked (s.threads i) = true → (s.called : Int) < count.toInt
  returned : InRange count s → ∀ i, s.threads i = .returned → count.toInt ≤ s.called

theorem new_inv (n : Nat) (count : Int32) : Inv count (new n count) where
  counts _ := by
    show count.toInt = count.toInt - ((0 : Nat) : Int)
    omega
  asleep _ i hi := by cases hi
  returned _ i hi := by cases hi

theorem zero_lt_iff (c : Int32) : c > 0 ↔ 0 < c.toInt := Int32.lt_iff_toInt_lt

/-- Before the overflow, `--count_` counts down. -/
theorem Inv.counts_countDown (h : Inv count s) (hr : InRange count s.countDown) :
    InRange count s ∧ (s.count_ - 1).toInt = count.toInt - (s.called + 1) := by
  have hr' : ((s.called + 1 : Nat) : Int) ≤ count.toInt + 2 ^ 31 := hr
  have hin : InRange count s := by
    unfold InRange
    omega
  have hc := h.counts hin
  have hlt := s.count_.toInt_lt
  refine ⟨hin, ?_⟩
  rw [Int32.toInt_sub, hc, show (1 : Int32).toInt = 1 from rfl, Int.bmod_eq_of_le]
  · omega
  · omega
  · omega

theorem Inv.countDown (h : Inv count s) : Inv count s.countDown where
  counts hr := (h.counts_countDown hr).2
  asleep hr i hi := by
    obtain ⟨hin, hc⟩ := h.counts_countDown hr
    show ((s.called + 1 : Nat) : Int) < count.toInt
    by_cases h0 : s.count_ - 1 = 0
    · -- The last call has signalled all threads.
      simp only [CountDownLauch.countDown, if_pos h0, Condition.notifyAll] at hi
      split at hi
      · rename_i hb
        rw [LauchPc.condition_.blocked_signal hb] at hi
        cases hi
      · rename_i hb
        exact absurd hi hb
    · simp only [CountDownLauch.countDown, if_neg h0] at hi
      have hlt := h.asleep hin i hi
      have hne : (s.count_ - 1).toInt ≠ 0 := fun he => h0 (Int32.toInt_inj.mp he)
      omega
  returned hr i hi := by
    obtain ⟨hin, -⟩ := h.counts_countDown hr
    have hi' : s.threads i = .returned := by
      simp only [CountDownLauch.countDown] at hi
      split at hi
      · simp only [Condition.notifyAll] at hi
        split at hi
        · cases hi
        · exact hi
      · exact hi
    show count.toInt ≤ ((s.called + 1 : Nat) : Int)
    have := h.returned hin i hi'
    omega

theorem Inv.await (h : Inv count s) (i : Fin n) : Inv count (s.await i) where
  counts hr := h.counts hr
  asleep hr j hj := by
    by_cases hji : j = i
    · subst hji
      simp only [CountDownLauch.await, Function.update_self] at hj
      split at hj
      · rename_i hpos
        rw [zero_lt_iff, h.counts hr] at hpos
        show (s.called : Int) < count.toInt
        omega
      · cases hj
    · simp only [CountDownLauch.await, Function.update_of_ne hji] at hj
      exact h.asleep hr j hj
  returned hr j hj := by
    by_cases hji : j = i
    · subst hji
      simp only [CountDownLauch.await, Function.update_self] at hj
      split at hj
      · cases hj
      · rename_i hpos
        rw [zero_lt_iff, h.counts hr] at hpos
        show count.toInt ≤ (s.called : Int)
        omega
    · simp only [CountDownLauch.await, Function.update_of_ne hji] at hj
      exact h.returned hr j hj

theorem step_inv (h : Inv count s) (a : Action n) : Inv count ((machine n).step s a).1 := by
  cases a with
  | countDown => exact h.countDown
  | wait i =>
    simp only [machine, step]
    split
    · exact h.await i
    · exact h
  | resume i =>
    simp only [machine, step]
    split
    · exact h.await i
    · exact h

/-- In every run, as long as `count_` has not overflown: a thread that sleeps without a signal waits
for a call of `countDown()` that is still to come, so that the last of `count` calls wakes all, and a
thread that has returned has seen `count` calls. A thread that is signalled returns when it
resumes. -/
theorem lauch_ok (n : Nat) (count : Int32) (actions : List (Action n)) :
    let s := (machine n).final (new n count) actions
    InRange count s →
      s.count_.toInt = count.toInt - s.called ∧
      (∀ i, s.threads i = .waiting false → (s.called : Int) < count.toInt) ∧
      (∀ i, s.threads i = .returned → count.toInt ≤ s.called) ∧
      ∀ i signalled, s.threads i = .waiting signalled → count.toInt ≤ s.called →
        ((machine n).step s (.resume i)).1.threads i = .returned := by
  intro s hr
  have h : Inv count s := Machine.always (I := Inv count) (fun _ a h => step_inv h a) actions _ (new_inv n count)
  refine ⟨h.counts hr, fun i hi => h.asleep hr i (by rw [hi]; rfl), h.returned hr, fun i signalled hi hc => ?_⟩
  have hpos : ¬ s.count_ > 0 := by
    rw [zero_lt_iff, h.counts hr]
    omega
  simp only [machine, step, hi, CountDownLauch.await, if_neg hpos, Function.update_self]

/-- Two threads wait for two calls. -/
theorem lauch_ok_two :
    let s := (machine 2).final (new 2 2) [.wait 0, .countDown, .wait 1, .countDown, .resume 1]
    s.threads 0 = .waiting true ∧ (∀ i, s.threads i = .waiting false → (2 : Int) < 2) ∧
      ((machine 2).step s (.resume 0)).1.threads 0 = .returned := by
  intro s
  obtain ⟨-, hasleep, -, hresume⟩ := lauch_ok 2 2 [.wait 0, .countDown, .wait 1, .countDown, .resume 1] (by decide)
  have h0 : s.threads 0 = .waiting true := by decide
  exact ⟨h0, hasleep, hresume 0 true h0 (by decide)⟩

end CountDownLauch

end Ydx
