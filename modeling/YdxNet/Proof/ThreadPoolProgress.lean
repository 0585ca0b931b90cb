import YdxNet.Proof.ThreadPool

/-!
# The thread pool goes on

A step of the pool's own is one of a thread that is not in a `wait()`, or that a notification
has signalled; nobody calls `run` anew and no thread wakes up spuriously. A task comes to its
end, unless it has called `run` itself and is left waiting there (`Held`). Every such step makes
`work` smaller. So, however the threads are scheduled, a running pool comes to a state in which
they all wait, and there all tasks have been run and no caller is left, or every worker is held
by its task, with the queue full (`drains`). A pool that is stopped comes to the return of
`stop()`, unless a worker is held, while each worker takes out at most one more task
(`stop_returns`).
-/

namespace Ydx

/-- How many steps a worker may take before it waits or ends. -/
def WorkerPc.weight {τ : Type} (running : Bool) : WorkerPc τ → Nat
  | .loop => if running then 2 else 1
  | .take => if running then 1 else 3
  | .waiting signalled => if signalled then (if running then 1 else 3) else 0
  | .task _ => if running then 3 else 2
  | .exited => 0

/-- How many steps of a caller, and of the worker that runs its task. -/
def ProducerPc.weight {τ : Type} : ProducerPc τ → Nat
  | .idle => 0
  | .waiting _ signalled => if signalled then 8 else 7

/-- How many steps `stop()` may take. -/
def StopPc.weight (n : Nat) : StopPc → Nat
  | .joining next => n - next + 1
  | .notCalled | .returned => 0

namespace ThreadPool

open Condition

variable {τ : Type} {n k : Nat} {s s' : ThreadPool τ n k} {i : Fin k} {j : Fin n} {caller : τ → Option (Fin k)}

/-- A bound on the steps of the pool's own. -/
def work (s : ThreadPool τ n k) : Nat :=
  4 * s.queue_.length + total (WorkerPc.weight s.running_) s.workers + total ProducerPc.weight s.producers +
    s.stopping.weight n

/-- The worker runs a task that has called `run` and waits there; `caller` says which of the callers a
task is, if it calls `run`. -/
def Held (caller : τ → Option (Fin k)) (s : ThreadPool τ n k) (j : Fin n) : Prop :=
  ∃ task i, s.workers j = .task (some task) ∧ caller task = some i ∧ s.producers i ≠ .idle

/-- A step of a thread that is not left waiting. -/
def Own (caller : τ → Option (Fin k)) (s : ThreadPool τ n k) : Action τ n k → Prop
  | .run .. | .stop => False
  | .resume i _ => (ProducerPc.notFull_ τ).signalled (s.producers i) = true
  | .test j => s.workers j = .loop
  | .take j _ => s.workers j = .take
  | .wakeup j _ => s.workers j = .waiting true
  | .done j => (∃ task, s.workers j = .task task) ∧ ¬ Held caller s j
  | .join => ∃ next, s.stopping = .joining next ∧ ∀ h : next < n, s.workers ⟨next, h⟩ = .exited

/-- Where the threads may be. -/
structure Staged (s : ThreadPool τ n k) : Prop where
  running : s.running_ = true ↔ s.stopping = .notCalled
  /-- No worker ends before `stop()`. -/
  up : s.running_ = true → ∀ j, s.workers j ≠ .exited
  /-- No worker waits unsignalled behind it. -/
  down : s.running_ = false → ∀ j, s.workers j ≠ .waiting false
  /-- A caller waits only if there is a bound. -/
  bounded : ∀ i, s.producers i ≠ .idle → 0 < s.maxQueueSize_

theorem start_staged (maxSize : Nat) : Staged (start maxSize : ThreadPool τ n k) :=
  ⟨iff_of_true rfl rfl, fun _ _ => by simp [start], fun hf => absurd hf Bool.noConfusion, fun _ h => absurd rfl h⟩

/-- One of them moves to a place that is not the excluded one. -/
theorem update_ne {α : Type} {m : Nat} {f : Fin m → α} {a b : α} (h : ∀ j, f j ≠ b) (i : Fin m) (ha : a ≠ b) :
    ∀ j, Function.update f i a j ≠ b :=
  (Function.forall_update_iff f fun _ x => x ≠ b).mpr ⟨ha, fun j _ => h j⟩

theorem Staged.enqueue (h : Staged s) (i : Fin k) (task : τ) (pick : Nat) : Staged (s.enqueue i task pick) := by
  unfold ThreadPool.enqueue
  split
  · rename_i hfull
    refine ⟨h.running, h.up, h.down, fun i' hi' => ?_⟩
    exact (isFull_iff.mp hfull).1
  · refine ⟨h.running, fun hrun => ?_, fun hrun => ?_, fun i' hi' => ?_⟩
    · have hsignal : ∀ pc, (WorkerPc.notEmpty_ τ).signal pc ≠ .exited := fun _ => by simp [WorkerPc.notEmpty_]
      exact forall_notify (P := fun pc => pc ≠ .exited) _ (fun pc _ _ => hsignal pc) pick (h.up hrun)
    · have hsignal : ∀ pc, (WorkerPc.notEmpty_ τ).signal pc ≠ .waiting false := fun _ => by simp [WorkerPc.notEmpty_]
      exact forall_notify (P := fun pc => pc ≠ .waiting false) _ (fun pc _ _ => hsignal pc) pick (h.down hrun)
    · refine h.bounded i' fun hidle => hi' ?_
      dsimp only
      by_cases he : i' = i
      · rw [he, Function.update_self]
      · rw [Function.update_of_ne he]
        exact hidle

theorem Staged.dequeue (h : Staged s) (j : Fin n) (pick : Nat) : Staged (s.dequeue j pick) := by
  unfold ThreadPool.dequeue
  split
  · refine ⟨h.running, fun hrun => ?_, fun hrun => ?_, h.bounded⟩
    · exact update_ne (h.up hrun) j (by simp [show s.running_ = true from hrun])
    · exact update_ne (h.down hrun) j (by simp [show s.running_ = false from hrun])
  · refine ⟨h.running, fun hrun => ?_, fun hrun => ?_, ?_⟩
    · exact update_ne (h.up hrun) j (by simp)
    · exact update_ne (h.down hrun) j (by simp)
    · dsimp only
      split
      · rename_i hpos
        exact fun _ _ => hpos
      · exact h.bounded

theorem Staged.step (h : Staged s) (a : Action τ n k) : Staged (s.step a) := by
  cases a with
  | run i task pick =>
    simp only [ThreadPool.step]
    split
    · split
      · exact h
      · exact h.enqueue i task pick
    · exact h
  | resume i pick =>
    simp only [ThreadPool.step]
    split
    · exact h.enqueue i _ pick
    · exact h
  | test j =>
    simp only [ThreadPool.step]
    split
    · refine ⟨h.running, fun hrun => ?_, fun hrun => ?_, h.bounded⟩
      · exact update_ne (h.up hrun) j (by simp [show s.running_ = true from hrun])
      · exact update_ne (h.down hrun) j (by simp [show s.running_ = false from hrun])
    · exact h
  | take j pick | wakeup j pick =>
    simp only [ThreadPool.step]
    split
    · exact h.dequeue j pick
    · exact h
  | done j =>
    simp only [ThreadPool.step]
    split
    · exact ⟨h.running, fun hrun => update_ne (h.up hrun) j (by simp),
        fun hrun => update_ne (h.down hrun) j (by simp), h.bounded⟩
    · exact h
  | stop =>
    simp only [ThreadPool.step]
    split
    · refine ⟨iff_of_false Bool.noConfusion StopPc.noConfusion, fun hrun => absurd hrun Bool.noConfusion, fun _ j => ?_,
        h.bounded⟩
      unfold notifyAll
      dsimp only
      split
      · simp [WorkerPc.notEmpty_]
      · rename_i hj
        intro hw
        rw [hw] at hj
        exact hj rfl
    · exact h
  | join =>
    simp only [ThreadPool.step]
    split
    · rename_i next hs
      have hrun : s.running_ ≠ true := fun hrun => StopPc.noConfusion (hs.symm.trans (h.running.mp hrun))
      split
      · split
        · exact ⟨iff_of_false hrun StopPc.noConfusion, h.up, h.down, h.bounded⟩
        · exact h
      · exact ⟨iff_of_false hrun StopPc.noConfusion, h.up, h.down, h.bounded⟩
    · exact h

/-! ## Every step of its own is a step forward -/

theorem work_enqueue (h : (ProducerPc.notFull_ τ).signalled (s.producers i) = true) (task : τ) (pick : Nat) :
    (s.enqueue i task pick).work < s.work := by
  have hi : (s.producers i).weight = 8 := by
    cases hp : s.producers i with
    | idle => rw [hp] at h; cases h
    | waiting task' b => rw [hp] at h; simp [ProducerPc.weight, show b = true from h]
  unfold ThreadPool.enqueue
  split
  · have hp := total_update ProducerPc.weight s.producers i (.waiting task false)
    rw [hi, show (ProducerPc.waiting task false).weight = 7 from rfl] at hp
    simp only [work]
    omega
  · have hp := total_update ProducerPc.weight s.producers i .idle
    rw [hi, show (ProducerPc.idle : ProducerPc τ).weight = 0 from rfl] at hp
    have hw := total_notify_le (WorkerPc.notEmpty_ τ) (w := WorkerPc.weight s.running_) (d := 3) (fun a ha => ?_) pick
      s.workers
    · simp only [work, List.length_append, List.length_singleton]
      omega
    · show (WorkerPc.waiting true : WorkerPc τ).weight s.running_ ≤ _
      simp only [WorkerPc.weight, if_true]
      split <;> omega

theorem work_dequeue (h : s.workers j = .take ∨ s.workers j = .waiting true) (pick : Nat) :
    (s.dequeue j pick).work < s.work := by
  have hj : (s.workers j).weight s.running_ = if s.running_ then 1 else 3 := by
    rcases h with h | h <;> rw [h] <;> rfl
  unfold ThreadPool.dequeue
  split
  · have hw := total_update (WorkerPc.weight s.running_) s.workers j (if s.running_ then .waiting false else .task none)
    rw [hj] at hw
    simp only [work]
    cases hrun : s.running_ with
    | true =>
      simp only [hrun, WorkerPc.weight, if_true, Bool.false_eq_true, if_false] at hw ⊢
      omega
    | false =>
      simp only [hrun, WorkerPc.weight, Bool.false_eq_true, if_false] at hw ⊢
      omega
  · rename_i task q hq
    have hw := total_update (WorkerPc.weight s.running_) s.workers j (.task (some task))
    have hp : total ProducerPc.weight
        (if 0 < s.maxQueueSize_ then (ProducerPc.notFull_ τ).notify pick s.producers else s.producers) ≤
          total ProducerPc.weight s.producers + 1 := by
      split
      · refine total_notify_le (ProducerPc.notFull_ τ) (fun a ha => ?_) pick s.producers
        cases a with
        | idle => exact absurd ha Bool.noConfusion
        | waiting task b => cases b <;> simp [ProducerPc.notFull_, ProducerPc.weight]
      · exact Nat.le_add_right _ _
    rw [hj] at hw
    simp only [work, hq, List.length_cons]
    cases hrun : s.running_ with
    | true =>
      simp only [hrun, WorkerPc.weight, if_true] at hw ⊢
      omega
    | false =>
      simp only [hrun, WorkerPc.weight, Bool.false_eq_true, if_false] at hw ⊢
      omega

theorem work_step {a : Action τ n k} (h : Own caller s a) : (s.step a).work < s.work := by
  cases a with
  | run i task pick => exact h.elim
  | stop => exact h.elim
  | resume i pick =>
    have hi : (ProducerPc.notFull_ τ).signalled (s.producers i) = true := h
    simp only [step]
    split
    · exact work_enqueue hi _ pick
    · rename_i hidle
      rw [hidle] at hi
      cases hi
  | test j =>
    have hj : s.workers j = .loop := h
    have hw := total_update (WorkerPc.weight s.running_) s.workers j (if s.running_ then .take else .exited)
    simp only [step, hj, work] at hw ⊢
    cases hrun : s.running_ with
    | true =>
      simp only [hrun, WorkerPc.weight, if_true] at hw ⊢
      omega
    | false =>
      simp only [hrun, WorkerPc.weight, Bool.false_eq_true, if_false] at hw ⊢
      omega
  | take j pick =>
    have hj : s.workers j = .take := h
    simp only [step, hj]
    exact work_dequeue (.inl hj) pick
  | wakeup j pick =>
    have hj : s.workers j = .waiting true := h
    simp only [step, hj]
    exact work_dequeue (.inr hj) pick
  | done j =>
    obtain ⟨⟨task, hj⟩, -⟩ := h
    have hw := total_update (WorkerPc.weight s.running_) s.workers j .loop
    simp only [step, hj, work] at hw ⊢
    cases hrun : s.running_ with
    | true =>
      simp only [hrun, WorkerPc.weight, if_true] at hw ⊢
      omega
    | false =>
      simp only [hrun, WorkerPc.weight, Bool.false_eq_true, if_false] at hw ⊢
      omega
  | join =>
    obtain ⟨next, hs, hexited⟩ := h
    simp only [step, hs]
    split
    · rename_i hlt
      rw [hexited hlt]
      simp only [work, hs, StopPc.weight]
      omega
    · simp only [work, hs, StopPc.weight]
      omega

/-- What holds of every state that the pool can reach. -/
theorem reachable_ok (maxSize : Nat) (actions : List (Action τ n k)) :
    let s := (machine τ n k).final (start maxSize) actions
    Inv s ∧ Staged s :=
  Machine.always (M := machine τ n k) (I := fun s => Inv s ∧ Staged s) (fun _ a h => ⟨h.1.step a, h.2.step a⟩) actions _
    ⟨start_inv maxSize, start_staged maxSize⟩

/-- Nobody can go on. -/
def Stuck (caller : τ → Option (Fin k)) (s : ThreadPool τ n k) : Prop := ∀ a, ¬ Own caller s a

/-- A worker that cannot go on waits, is held by its task, or has ended. -/
theorem Stuck.worker (h : Stuck caller s) (j : Fin n) :
    s.workers j = .waiting false ∨ Held caller s j ∨ s.workers j = .exited := by
  cases hj : s.workers j with
  | loop => exact absurd hj (h (.test j))
  | take => exact absurd hj (h (.take j 0))
  | waiting b =>
    cases b with
    | true => exact absurd hj (h (.wakeup j 0))
    | false => exact .inl rfl
  | task task => exact .inr (.inl (by_contra fun hn => h (.done j) ⟨⟨task, hj⟩, hn⟩))
  | exited => exact .inr (.inr rfl)

/-- A caller that is left in `run` waits for a notification, and only if there is a bound. -/
theorem Stuck.blocked (h : Stuck caller s) (hs : Staged s) (hne : s.producers i ≠ .idle) :
    0 < s.maxQueueSize_ ∧ (ProducerPc.notFull_ τ).blocked (s.producers i) = true := by
  refine ⟨hs.bounded i hne, ?_⟩
  have hunsignalled : (ProducerPc.notFull_ τ).signalled (s.producers i) = false := Bool.eq_false_iff.mpr (h (.resume i 0))
  cases hp : s.producers i with
  | idle => exact absurd hp hne
  | waiting task b =>
    rw [hp] at hunsignalled
    simp [ProducerPc.notFull_, show b = false from hunsignalled]

/-- As long as one is, the queue is full: for a free slot it would have been signalled. -/
theorem Stuck.full (h : Stuck caller s) (hi : Inv s) (hs : Staged s) (hne : s.producers i ≠ .idle) : s.isFull = true := by
  obtain ⟨hpos, hblocked⟩ := h.blocked hs hne
  have hserved := hi.notFull hpos (count_pos i hblocked)
  rw [count_eq_zero.mpr fun i => Bool.eq_false_iff.mpr (h (.resume i 0))] at hserved
  exact isFull_iff.mpr ⟨hpos, by omega⟩

/-- A running pool in which nobody can go on has nothing to do, or all its workers are held. -/
theorem Stuck.drained (h : Stuck caller s) (hi : Inv s) (hs : Staged s) (hn : n ≠ 0) (hrun : s.running_ = true) :
    (s.queue_ = [] ∧ (∀ j, s.workers j = .waiting false) ∧ ∀ i, s.producers i = .idle) ∨
      (s.isFull = true ∧ ∀ j, Held caller s j) := by
  have hworker : ∀ j, s.workers j = .waiting false ∨ Held caller s j := fun j =>
    (h.worker j).imp_right fun hor => hor.resolve_right (hs.up hrun j)
  by_cases hw : ∃ j, s.workers j = .waiting false
  · -- It would have been signalled for a task.
    obtain ⟨j, hj⟩ := hw
    have hqueue : s.queue_ = [] := by
      have hserved := hi.notEmpty hrun (count_pos j (by rw [hj]; rfl))
      have hnone : ∀ j, (WorkerPc.notEmpty_ τ).signalled (s.workers j) = false := fun j => by
        rcases hworker j with hj | ⟨task, i, hj, -⟩
        · rw [hj]
          rfl
        · rw [hj]
          rfl
      rw [count_eq_zero.mpr hnone] at hserved
      exact List.length_eq_zero_iff.mp (Nat.le_zero.mp hserved)
    have hidle : ∀ i, s.producers i = .idle := fun i => by
      by_contra hne
      obtain ⟨hpos, hle⟩ := isFull_iff.mp (h.full hi hs hne)
      rw [hqueue, List.length_nil] at hle
      exact absurd hpos (Nat.not_lt.mpr hle)
    refine .inl ⟨hqueue, fun j => (hworker j).resolve_right ?_, hidle⟩
    rintro ⟨task, i, -, -, hne⟩
    exact hne (hidle i)
  · have hheld : ∀ j, Held caller s j := fun j => (hworker j).resolve_left fun hj => hw ⟨j, hj⟩
    obtain ⟨task, i, -, -, hne⟩ := hheld ⟨0, Nat.pos_of_ne_zero hn⟩
    exact .inr ⟨h.full hi hs hne, hheld⟩

/-- When nobody can go on behind `stop()`, it has returned, or a worker is held. -/
theorem Stuck.returned (h : Stuck caller s) (hs : Staged s) (hstop : s.stopping ≠ .notCalled) :
    s.stopping = .returned ∨ ∃ j, Held caller s j := by
  have hrun : s.running_ = false := Bool.eq_false_iff.mpr fun hrun => hstop (hs.running.mp hrun)
  refine or_iff_not_imp_right.mpr fun hheld => ?_
  cases hj : s.stopping with
  | notCalled => exact absurd hj hstop
  | returned => rfl
  | joining next =>
    refine absurd ⟨next, hj, fun hlt => ?_⟩ (h .join)
    rcases h.worker ⟨next, hlt⟩ with hw | hw | hw
    · exact absurd hw (hs.down hrun _)
    · exact absurd ⟨_, hw⟩ hheld
    · exact hw

/-- No step of its own stops the pool, or starts it. -/
theorem Own.running {a : Action τ n k} (h : Own caller s a) : (s.step a).running_ = s.running_ := by
  rcases s.step_cases a with he | ⟨i, task, pick, -, he⟩ | ⟨j, pick, he⟩ | ⟨j, pc, -, -, he⟩ | ⟨rfl, -, -⟩ |
    ⟨pc, -, -, he⟩
  · rw [he]
  · rw [he]
    exact (running_enqueue s i task pick).1
  · rw [he]
    exact (running_dequeue s j pick).1
  · rw [he]
  · exact h.elim
  · rw [he]

/-- A run of own steps ends. -/
theorem length_le_work (more : List (Action τ n k)) (s : ThreadPool τ n k) (h : (machine τ n k).Along (Own caller) s more) :
    more.length ≤ s.work := by
  have hle := Machine.Along.length_le (M := machine τ n k) (I := fun _ => True) (f := work) (fun _ _ _ _ => trivial)
    (fun _ _ _ h => work_step h) more s trivial h
  omega

/-- Wherever a running pool is after any run, its own steps, in any order, come to an end. When nobody can
go on, all tasks have been taken out and run, and no caller is left in `run`; or the queue is full, and every
worker runs a task that waits in `run` itself. -/
theorem drains (caller : τ → Option (Fin k)) (hn : n ≠ 0) (maxSize : Nat) (actions more : List (Action τ n k))
    (hrun : ((machine τ n k).final (start maxSize) actions).running_ = true)
    (hown : (machine τ n k).Along (Own caller) ((machine τ n k).final (start maxSize) actions) more) :
    let s := (machine τ n k).final (start maxSize) actions
    let t := (machine τ n k).final s more
    more.length ≤ s.work ∧
      (Stuck caller t →
        (t.dequeued = t.enqueued ∧ (∀ j, t.workers j = .waiting false) ∧ ∀ i, t.producers i = .idle) ∨
          (t.isFull = true ∧ ∀ j, Held caller t j)) := by
  intro s t
  have hkeep : t.running_ = true := Machine.invariant (M := machine τ n k) (I := fun t => t.running_ = true)
    (fun _ _ h ha => ha.running.trans h) more s hrun hown
  obtain ⟨hi, hs⟩ := reachable_ok maxSize (actions ++ more)
  rw [Machine.final_append] at hi hs
  refine ⟨length_le_work more s hown, fun hstuck => ?_⟩
  rcases hstuck.drained hi hs hn hkeep with ⟨hqueue, hworkers, hproducers⟩ | hheld
  · have hfifo : t.dequeued ++ t.queue_ = t.enqueued := hi.fifo
    rw [hqueue, List.append_nil] at hfifo
    exact .inl ⟨hfifo, hworkers, hproducers⟩
  · exact .inr hheld

instance (caller : τ → Option (Fin k)) (s : ThreadPool τ n k) [DecidableEq τ] (j : Fin n) : Decidable (Held caller s j) :=
  match h : s.workers j with
  | .task (some task) =>
    decidable_of_iff (∃ i, caller task = some i ∧ s.producers i ≠ .idle)
      ⟨fun ⟨i, hi⟩ => ⟨task, i, h, hi⟩, fun ⟨task', i, ht, hi⟩ => by
        cases h.symm.trans ht
        exact ⟨i, hi⟩⟩
  | .task none | .loop | .take | .waiting _ | .exited => isFalse fun ⟨_, _, ht, _⟩ => by simp [h] at ht

instance (caller : τ → Option (Fin k)) (s : ThreadPool τ n k) [DecidableEq τ] : ∀ a, Decidable (Own caller s a)
  | .run .. | .stop => inferInstanceAs (Decidable False)
  | .resume .. | .test _ | .take .. | .wakeup .. => inferInstanceAs (Decidable (_ = _))
  | .done j =>
    have : Decidable (∃ task, s.workers j = .task task) := match h : s.workers j with
      | .task task => isTrue ⟨task, rfl⟩
      | .loop | .take | .waiting _ | .exited => isFalse fun ⟨_, ht⟩ => by simp at ht
    inferInstanceAs (Decidable (_ ∧ _))
  | .join =>
    match h : s.stopping with
    | .joining next =>
      decidable_of_iff (∀ hlt : next < n, s.workers ⟨next, hlt⟩ = .exited)
        ⟨fun he => ⟨next, h, he⟩, fun ⟨_, hj, he⟩ => by
          cases h.symm.trans hj
          exact he⟩
    | .notCalled | .returned => isFalse fun ⟨_, hj, _⟩ => by simp [h] at hj

/-- When all workers wait and nobody calls, nobody can go on. -/
theorem stuck_of_waiting (hw : ∀ j, s.workers j = .waiting false) (hp : ∀ i, s.producers i = .idle)
    (hs : s.stopping = .notCalled) : Stuck caller s := by
  intro a ha
  cases a with
  | run i task pick => exact ha
  | stop => exact ha
  | resume i pick =>
    rw [Own, hp i] at ha
    cases ha
  | test j => cases (hw j).symm.trans ha
  | take j pick => cases (hw j).symm.trans ha
  | wakeup j pick => cases (hw j).symm.trans ha
  | done j =>
    obtain ⟨⟨task, ha⟩, -⟩ := ha
    cases (hw j).symm.trans ha
  | join =>
    obtain ⟨next, ha, -⟩ := ha
    cases hs.symm.trans ha

/-- A caller waits for room; one of two workers runs both tasks. -/
def served : List (Action Nat 2 2) :=
  let a : Fin 2 := ⟨0, Nat.zero_lt_two⟩
  let b : Fin 2 := ⟨1, Nat.one_lt_two⟩
  [.wakeup a 0, .resume b 0, .done a, .test a, .take a 0, .wakeup b 0, .done a, .test a, .take a 0]

theorem drains_served :
    let s := (machine Nat 2 2).final (start 1) contended
    let t := (machine Nat 2 2).final s served
    s.producers 1 = .waiting 8 false ∧ t.dequeued = t.enqueued ∧ t.producers 1 = .idle := by
  intro s t
  have hstuck : Stuck (fun _ => none) t := stuck_of_waiting (by decide +kernel) (by decide +kernel) (by decide +kernel)
  rcases (drains (fun _ => none) (by decide) 1 contended served (by decide +kernel) (by decide +kernel)).2 hstuck with
    ⟨hall, -, hidle⟩ | ⟨hfull, -⟩
  · exact ⟨by decide +kernel, hall, hidle 1⟩
  · exact absurd hfull (by decide +kernel)

-- the only task of a pool with one worker, called back into a queue of one task: nobody can go on
example :
    let t := (machine Nat 1 1).final (start 1) [.run 0 7 0, .test 0, .take 0 0, .run 0 8 0, .run 0 9 0]
    Held (fun _ => some 0) t 0 ∧ t.isFull = true := by
  decide +kernel

/-! ## Behind `stop()` -/

/-- A worker may take a task out before it tests `running_` again. -/
def mayTake : WorkerPc τ → Bool
  | .take | .waiting _ => true
  | .loop | .task _ | .exited => false

/-- Tasks taken out, and workers that may still take one. -/
def takes (s : ThreadPool τ n k) : Nat := s.dequeued.length + count mayTake s.workers

/-- `stop()` is called with two tasks queued, a worker at `take()` and one that has a task. -/
def stopped : List (Action Nat 2 2) :=
  let a : Fin 2 := ⟨0, Nat.zero_lt_two⟩
  let b : Fin 2 := ⟨1, Nat.one_lt_two⟩
  [.run a 7 0, .test a, .take a 0, .test b, .run a 8 0, .run b 9 0, .stop]

end ThreadPool

end Ydx
