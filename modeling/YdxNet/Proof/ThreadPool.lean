import YdxNet.Impl.ThreadPool

/-!
# The thread pool as a bounded queue

`Inv` says that the queue is what was put in and not yet taken out, that it
respects its bound, and that on both conditions there is a signalled thread
for each item as long as another is blocked: for each task on `notEmpty_`, for
each free slot on `notFull_`. Every critical section keeps it
(`Inv.enqueue`, `Inv.dequeue`), so it holds along every run (`pool_ok`).

`stop` wakes the workers, and nobody wakes the callers of `run` once the
workers are gone: a pool with a bound, a worker and a caller can strand the
caller (`stranded_of_bound`), and `not_stranded_iff` says that no other pool
can, and which runs of such a pool do not.
-/

namespace Ydx.ThreadPool

open Condition

variable {τ : Type} {n k : Nat} {s s' : ThreadPool τ n k}

/-- The invariant of the pool. -/
structure Inv (s : ThreadPool τ n k) : Prop where
  fifo : s.dequeued ++ s.queue_ = s.enqueued
  bound : 0 < s.maxQueueSize_ → s.queue_.length ≤ s.maxQueueSize_
  notEmpty : s.running_ = true → (WorkerPc.notEmpty_ τ).Served s.queue_.length s.workers
  notFull : 0 < s.maxQueueSize_ → (ProducerPc.notFull_ τ).Served (s.maxQueueSize_ - s.queue_.length) s.producers

theorem start_inv (maxSize : Nat) : Inv (start maxSize : ThreadPool τ n k) where
  fifo := rfl
  bound _ := Nat.zero_le _
  notEmpty _ := .of_not_blocked fun _ => rfl
  notFull _ := .of_not_blocked fun _ => rfl

theorem isFull_iff : s.isFull = true ↔ 0 < s.maxQueueSize_ ∧ s.maxQueueSize_ ≤ s.queue_.length := by
  rw [isFull, Bool.and_eq_true, decide_eq_true_iff, decide_eq_true_iff]

theorem Inv.enqueue (h : Inv s) (i : Fin k) (task : τ) (pick : Nat) : Inv (s.enqueue i task pick) := by
  unfold ThreadPool.enqueue
  split
  · rename_i hfull
    refine ⟨h.fifo, h.bound, h.notEmpty, fun hpos => (h.notFull hpos).move i (.inl ?_)⟩
    exact Nat.sub_eq_zero_of_le (isFull_iff.mp hfull).2
  · rename_i hfull
    have hlt : 0 < s.maxQueueSize_ → s.queue_.length < s.maxQueueSize_ := fun hpos =>
      Nat.lt_of_not_le fun hle => hfull (isFull_iff.mpr ⟨hpos, hle⟩)
    refine ⟨?_, fun hpos => ?_, fun hrun => ?_, fun hpos => ?_⟩
    · change s.dequeued ++ (s.queue_ ++ [task]) = s.enqueued ++ [task]
      rw [← List.append_assoc, h.fifo]
    · change (s.queue_ ++ [task]).length ≤ s.maxQueueSize_
      rw [List.length_append, List.length_singleton]
      exact hlt hpos
    · change (WorkerPc.notEmpty_ τ).Served (s.queue_ ++ [task]).length _
      rw [List.length_append, List.length_singleton]
      exact (h.notEmpty hrun).notify pick
    · change (ProducerPc.notFull_ τ).Served (s.maxQueueSize_ - (s.queue_ ++ [task]).length) _
      rw [List.length_append, List.length_singleton]
      have hroom := hlt hpos
      have hone := Bool.toNat_le ((ProducerPc.notFull_ τ).signalled (s.producers i))
      exact (h.notFull hpos).move i (.inr ⟨rfl, by omega⟩)

theorem Inv.dequeue (h : Inv s) (j : Fin n) (pick : Nat) : Inv (s.dequeue j pick) := by
  unfold ThreadPool.dequeue
  split
  · rename_i hq
    refine ⟨h.fifo, h.bound, fun hrun => (h.notEmpty hrun).move j (.inl ?_), h.notFull⟩
    rw [hq]
    rfl
  · rename_i task q hq
    obtain ⟨hfifo, hbound, hempty, hfull⟩ := h
    rw [hq] at hfifo
    rw [hq, List.length_cons] at hbound hempty hfull
    refine ⟨?_, fun hpos => ?_, fun hrun => ?_, fun hpos => ?_⟩
    · change s.dequeued ++ [task] ++ q = s.enqueued
      rw [List.append_assoc]
      exact hfifo
    · exact Nat.le_of_succ_le (hbound hpos)
    · have hone := Bool.toNat_le ((WorkerPc.notEmpty_ τ).signalled (s.workers j))
      exact (hempty hrun).move j (.inr ⟨rfl, Nat.add_le_add_left hone _⟩)
    · change (ProducerPc.notFull_ τ).Served (s.maxQueueSize_ - q.length) (if 0 < s.maxQueueSize_ then _ else _)
      rw [if_pos hpos]
      have hroom := hbound hpos
      exact ((hfull hpos).notify pick).mono (by omega)

/-- A worker that does not wait goes on. -/
theorem Inv.advance (h : Inv s) (j : Fin n) {pc : WorkerPc τ} (hw : (WorkerPc.notEmpty_ τ).signalled (s.workers j) = false)
    (hpc : (WorkerPc.notEmpty_ τ).blocked pc = false) : Inv { s with workers := Function.update s.workers j pc } := by
  refine ⟨h.fifo, h.bound, fun hrun => (h.notEmpty hrun).move j (.inr ⟨hpc, ?_⟩), h.notFull⟩
  rw [hw]
  exact Nat.le_refl _

/-- What a step can do. -/
theorem step_cases (s : ThreadPool τ n k) (a : Action τ n k) :
    s.step a = s ∨
      (∃ i task pick, (n ≠ 0 ∧ a = .run i task pick ∨ (∃ b, s.producers i = .waiting task b) ∧ a = .resume i pick) ∧
        s.step a = s.enqueue i task pick) ∨
      (∃ j pick, s.step a = s.dequeue j pick) ∨
      (∃ j pc, (WorkerPc.notEmpty_ τ).signalled (s.workers j) = false ∧ (WorkerPc.notEmpty_ τ).blocked pc = false ∧
        s.step a = { s with workers := Function.update s.workers j pc }) ∨
      (a = .stop ∧ s.stopping = .notCalled ∧ s.step a =
        { s with running_ := false, workers := (WorkerPc.notEmpty_ τ).notifyAll s.workers, stopping := .joining 0 }) ∨
      ∃ pc, s.stopping ≠ .notCalled ∧ pc ≠ .notCalled ∧ s.step a = { s with stopping := pc } := by
  cases a with
  | run i task pick =>
    unfold step
    dsimp only
    split
    · by_cases hn : n = 0
      · exact .inl (if_pos hn)
      · exact .inr (.inl ⟨i, task, pick, .inl ⟨hn, rfl⟩, if_neg hn⟩)
    · exact .inl rfl
  | resume i pick =>
    unfold step
    dsimp only
    split
    · rename_i task b hi
      exact .inr (.inl ⟨i, task, pick, .inr ⟨⟨b, hi⟩, rfl⟩, rfl⟩)
    · exact .inl rfl
  | test j =>
    unfold step
    dsimp only
    split
    · rename_i hj
      refine .inr (.inr (.inr (.inl ⟨j, _, by rw [hj]; rfl, ?_, rfl⟩)))
      split
      · rfl
      · rfl
    · exact .inl rfl
  | take j pick | wakeup j pick =>
    unfold step
    dsimp only
    split
    · exact .inr (.inr (.inl ⟨j, pick, rfl⟩))
    · exact .inl rfl
  | done j =>
    unfold step
    dsimp only
    split
    · rename_i t hj
      exact .inr (.inr (.inr (.inl ⟨j, _, by rw [hj]; rfl, rfl, rfl⟩)))
    · exact .inl rfl
  | stop =>
    unfold step
    dsimp only
    split
    · rename_i hs
      exact .inr (.inr (.inr (.inr (.inl ⟨rfl, hs, rfl⟩))))
    · exact .inl rfl
  | join =>
    unfold step
    dsimp only
    split
    · rename_i next hs
      have hne : s.stopping ≠ .notCalled := by
        rw [hs]
        exact StopPc.noConfusion
      split
      · split
        · exact .inr (.inr (.inr (.inr (.inr ⟨_, hne, StopPc.noConfusion, rfl⟩))))
        · exact .inl rfl
      · exact .inr (.inr (.inr (.inr (.inr ⟨_, hne, StopPc.noConfusion, rfl⟩))))
    · exact .inl rfl

theorem Inv.step (h : Inv s) (a : Action τ n k) : Inv (s.step a) := by
  rcases s.step_cases a with he | ⟨i, task, pick, -, he⟩ | ⟨j, pick, he⟩ | ⟨j, pc, hj, hpc, he⟩ | ⟨-, -, he⟩ |
    ⟨pc, -, -, he⟩
  · rw [he]
    exact h
  · rw [he]
    exact h.enqueue i task pick
  · rw [he]
    exact h.dequeue j pick
  · rw [he]
    exact h.advance j hj hpc
  · rw [he]
    exact ⟨h.fifo, h.bound, fun hrun => absurd hrun Bool.noConfusion, h.notFull⟩
  · rw [he]
    exact ⟨h.fifo, h.bound, h.notEmpty, h.notFull⟩

/-- The tasks taken out and those in the queue are the ones put in, in their
order; the queue respects its bound; while the pool runs, a blocked worker
means that a signalled one is there for each task in the queue; and a blocked
caller, that one is there for each free slot. -/
theorem pool_ok (maxSize : Nat) (actions : List (Action τ n k)) :
    let s := (machine τ n k).final (start maxSize) actions
    s.dequeued ++ s.queue_ = s.enqueued ∧
      (0 < s.maxQueueSize_ → s.queue_.length ≤ s.maxQueueSize_) ∧
      (s.running_ = true → (∃ j, s.workers j = .waiting false) →
        s.queue_.length ≤ count (WorkerPc.notEmpty_ τ).signalled s.workers) ∧
      (0 < s.maxQueueSize_ → (∃ i task, s.producers i = .waiting task false) →
        s.maxQueueSize_ - s.queue_.length ≤ count (ProducerPc.notFull_ τ).signalled s.producers) := by
  have h := Machine.always (M := machine τ n k) (I := Inv) (fun _ a h => h.step a) actions _ (start_inv maxSize)
  refine ⟨h.fifo, h.bound, fun hrun hj => ?_, fun hpos hi => ?_⟩
  · obtain ⟨j, hj⟩ := hj
    exact h.notEmpty hrun (count_pos j (by rw [hj]; rfl))
  · obtain ⟨i, task, hi⟩ := hi
    exact h.notFull hpos (count_pos i (by rw [hi]; rfl))

/-- Both workers have waited, one is signalled, and the queue is full. -/
def contended : List (Action Nat 2 2) :=
  [.test 0, .take 0 0, .test 1, .take 1 0, .run 0 7 0, .run 1 8 0]

theorem pool_ok_contended :
    let s := (machine Nat 2 2).final (start 1) contended
    (s.running_ = true ∧ s.workers 1 = .waiting false ∧ s.producers 1 = .waiting 8 false) ∧
      s.queue_.length ≤ count (WorkerPc.notEmpty_ Nat).signalled s.workers ∧
      s.maxQueueSize_ - s.queue_.length ≤ count (ProducerPc.notFull_ Nat).signalled s.producers := by
  obtain ⟨-, -, hempty, hfull⟩ := pool_ok 1 contended
  refine ⟨by decide +kernel, ?_, ?_⟩
  · exact hempty (by decide +kernel) ⟨1, by decide +kernel⟩
  · exact hfull (by decide +kernel) ⟨1, 8, by decide +kernel⟩

/-! ## Callers that are stranded -/

/-- No caller is blocked in `notFull_.wait()` unsignalled. -/
def Unblocked (s : ThreadPool τ n k) : Prop := ∀ i, (ProducerPc.notFull_ τ).blocked (s.producers i) = false

instance (s : ThreadPool τ n k) : Decidable s.Unblocked := inferInstanceAs (Decidable (∀ _, _))

/-- If `stop()` has joined all workers, no caller is blocked. -/
def NotStranded (s : ThreadPool τ n k) : Prop := s.stopping = .returned → s.Unblocked

/-- `stop()` finds no caller blocked, and none begins to wait after it. -/
def Spared (s : ThreadPool τ n k) : Action τ n k → Prop
  | .stop => s.stopping = .notCalled → s.Unblocked
  | .run .. | .resume .. => s.running_ = false → s.isFull = false
  | _ => True

instance (s : ThreadPool τ n k) : ∀ a : Action τ n k, Decidable (s.Spared a)
  | .stop => inferInstanceAs (Decidable (_ → _))
  | .run .. | .resume .. => inferInstanceAs (Decidable (_ → _))
  | .test _ | .take .. | .wakeup .. | .done _ | .join => inferInstanceAs (Decidable True)

theorem Unblocked.enqueue (h : s.Unblocked) (hf : s.isFull = false) (i : Fin k) (task : τ) (pick : Nat) :
    (s.enqueue i task pick).Unblocked := by
  intro j
  rw [ThreadPool.enqueue, hf, if_neg Bool.false_ne_true]
  dsimp only
  by_cases hj : j = i
  · subst hj
    rw [Function.update_self]
    rfl
  · rw [Function.update_of_ne hj]
    exact h j

theorem Unblocked.dequeue (h : s.Unblocked) (j : Fin n) (pick : Nat) : (s.dequeue j pick).Unblocked := by
  unfold ThreadPool.dequeue
  split
  · exact h
  · intro i
    dsimp only
    rw [Condition.notify_of_not_blocked _ h, ite_self]
    exact h i

/-- What `Spared` keeps: after `stop()`, no caller is blocked. -/
structure Freed (s : ThreadPool τ n k) : Prop where
  unblocked : s.running_ = false → s.Unblocked
  stopped : s.stopping ≠ .notCalled → s.running_ = false

theorem running_enqueue (s : ThreadPool τ n k) (i : Fin k) (task : τ) (pick : Nat) :
    (s.enqueue i task pick).running_ = s.running_ ∧ (s.enqueue i task pick).stopping = s.stopping := by
  unfold enqueue
  split
  · exact ⟨rfl, rfl⟩
  · exact ⟨rfl, rfl⟩

theorem running_dequeue (s : ThreadPool τ n k) (j : Fin n) (pick : Nat) :
    (s.dequeue j pick).running_ = s.running_ ∧ (s.dequeue j pick).stopping = s.stopping := by
  unfold dequeue
  split
  · exact ⟨rfl, rfl⟩
  · exact ⟨rfl, rfl⟩

theorem Freed.step (h : Freed s) {a : Action τ n k} (hp : s.Spared a) : Freed (s.step a) := by
  rcases s.step_cases a with he | ⟨i, task, pick, ha, he⟩ | ⟨j, pick, he⟩ | ⟨j, pc, -, -, he⟩ | ⟨rfl, hs, he⟩ |
    ⟨pc, hs, -, he⟩
  · rw [he]
    exact h
  · have hf : s.running_ = false → s.isFull = false := by
      rcases ha with ⟨-, rfl⟩ | ⟨-, rfl⟩
      · exact hp
      · exact hp
    obtain ⟨hr, hst⟩ := running_enqueue s i task pick
    rw [he]
    refine ⟨fun hrun => ?_, fun hne => ?_⟩
    · rw [hr] at hrun
      exact (h.unblocked hrun).enqueue (hf hrun) i task pick
    · rw [hst] at hne
      exact hr.trans (h.stopped hne)
  · obtain ⟨hr, hst⟩ := running_dequeue s j pick
    rw [he]
    refine ⟨fun hrun => ?_, fun hne => ?_⟩
    · rw [hr] at hrun
      exact (h.unblocked hrun).dequeue j pick
    · rw [hst] at hne
      exact hr.trans (h.stopped hne)
  · rw [he]
    exact ⟨h.unblocked, h.stopped⟩
  · rw [he]
    exact ⟨fun _ => hp hs, fun _ => rfl⟩
  · rw [he]
    exact ⟨h.unblocked, fun _ => h.stopped hs⟩

theorem not_stranded_of_spared (maxSize : Nat) (actions : List (Action τ n k))
    (hp : (machine τ n k).Along Spared (start maxSize) actions) :
    NotStranded ((machine τ n k).final (start maxSize) actions) := by
  have h := Machine.invariant (M := machine τ n k) (I := Freed) (fun _ _ h hp => h.step hp) actions (start maxSize)
    ⟨fun hrun => absurd hrun Bool.noConfusion, fun hne => absurd rfl hne⟩ hp
  intro hret
  exact h.unblocked (h.stopped (by rw [hret]; exact StopPc.noConfusion))

/-! ### Pools that strand nobody -/

/-- No caller waits, and none has a reason to. -/
structure Quiet (s : ThreadPool τ n k) : Prop where
  idle : ∀ i, s.producers i = .idle
  free : s.maxQueueSize_ = 0 ∨ n = 0

theorem Quiet.unblocked (h : Quiet s) : s.Unblocked := by
  intro i
  rw [h.idle i]
  rfl

theorem Quiet.step (h : Quiet s) (a : Action τ n k) : Quiet (s.step a) := by
  rcases s.step_cases a with he | ⟨i, task, pick, ha, he⟩ | ⟨j, pick, he⟩ | ⟨j, pc, -, -, he⟩ | ⟨-, -, he⟩ |
    ⟨pc, -, -, he⟩
  · rw [he]
    exact h
  · rcases ha with ⟨hn, -⟩ | ⟨⟨b, hb⟩, -⟩
    · have hfree := h.free.resolve_right hn
      have hf : s.isFull = false := by rw [isFull, hfree]; rfl
      have hu : Function.update s.producers i .idle = s.producers := by
        rw [← h.idle i]
        exact Function.update_eq_self i _
      rw [he, enqueue, hf, if_neg Bool.false_ne_true, hu]
      exact ⟨h.idle, h.free⟩
    · rw [h.idle i] at hb
      cases hb
  · rw [he]
    unfold dequeue
    split
    · exact ⟨h.idle, h.free⟩
    · refine ⟨fun i => ?_, h.free⟩
      dsimp only
      rw [Condition.notify_of_not_blocked _ h.unblocked, ite_self]
      exact h.idle i
  · rw [he]
    exact ⟨h.idle, h.free⟩
  · rw [he]
    exact ⟨h.idle, h.free⟩
  · rw [he]
    exact ⟨h.idle, h.free⟩

theorem not_stranded_of_free {maxSize : Nat} (hf : maxSize = 0 ∨ n = 0) (actions : List (Action τ n k)) :
    NotStranded ((machine τ n k).final (start maxSize) actions) := by
  have h := Machine.always (M := machine τ n k) (I := Quiet) (fun _ a h => h.step a) actions (start maxSize)
    ⟨fun _ => rfl, hf⟩
  exact fun _ => h.unblocked

/-! ### Pools that strand a caller -/

/-- The pool after `j` calls of `run` that no worker has met yet. -/
def filled (maxSize j : Nat) (task : τ) : ThreadPool τ n k :=
  { start maxSize with queue_ := List.replicate j task, enqueued := List.replicate j task }

theorem run_filled (hn : n ≠ 0) {maxSize : Nat} (i : Fin k) (task : τ) (j : Nat) :
    (filled maxSize j task : ThreadPool τ n k).step (.run i task 0) =
      (filled maxSize j task).enqueue i task 0 := if_neg hn

theorem final_filled (hn : n ≠ 0) {maxSize : Nat} (i : Fin k) (task : τ) (j : Nat) (hj : j ≤ maxSize) :
    (machine τ n k).final (start maxSize) (List.replicate j (.run i task 0)) = filled maxSize j task := by
  induction j with
  | zero => rfl
  | succ j ih =>
    have hfull : (filled maxSize j task : ThreadPool τ n k).isFull = false := by
      refine Bool.eq_false_iff.mpr fun hf => ?_
      have hle := (isFull_iff.mp hf).2
      rw [filled, List.length_replicate] at hle
      exact absurd hle (Nat.not_le_of_lt hj)
    have hw : (WorkerPc.notEmpty_ τ).notify 0 (fun _ => .loop : Fin n → WorkerPc τ) = fun _ => .loop :=
      Condition.notify_of_not_blocked _ (fun _ => rfl) 0
    have hu : Function.update (fun _ => .idle : Fin k → ProducerPc τ) i .idle = fun _ => .idle :=
      Function.update_eq_self i _
    rw [List.replicate_succ', Machine.final_append, ih (Nat.le_of_succ_le hj)]
    show (filled maxSize j task).step (.run i task 0) = _
    rw [run_filled hn, enqueue, hfull, if_neg Bool.false_ne_true]
    simp only [filled, start, hw, hu, ← List.replicate_succ']

/-- The next call waits. -/
theorem enqueue_filled {maxSize : Nat} (hpos : 0 < maxSize) (i : Fin k) (task : τ) :
    (filled maxSize maxSize task : ThreadPool τ n k).enqueue i task 0 =
      { (filled maxSize maxSize task : ThreadPool τ n k) with
        producers := Function.update (fun _ => .idle) i (.waiting task false) } := by
  have hfull : (filled maxSize maxSize task : ThreadPool τ n k).isFull = true :=
    isFull_iff.mpr ⟨hpos, Nat.le_of_eq (List.length_replicate ..).symm⟩
  rw [enqueue, hfull, if_pos rfl]
  rfl

/-- The workers see that the pool has stopped. -/
theorem final_tests (js : List (Fin n)) (s : ThreadPool τ n k) (hr : s.running_ = false)
    (hw : ∀ j, s.workers j = .loop ∨ s.workers j = .exited) :
    let s' := (machine τ n k).final s (js.map .test)
    s'.producers = s.producers ∧ s'.stopping = s.stopping ∧
      ∀ j, j ∈ js ∨ s.workers j = .exited → s'.workers j = .exited := by
  induction js generalizing s with
  | nil => exact ⟨rfl, rfl, fun j hj => hj.resolve_left List.not_mem_nil⟩
  | cons j js ih =>
    have hstep : (s.step (.test j)).running_ = false ∧ (s.step (.test j)).producers = s.producers ∧
        (s.step (.test j)).stopping = s.stopping ∧
        ∀ l, (s.step (.test j)).workers l = if l = j then .exited else s.workers l := by
      rcases hw j with hj | hj
      · have he : s.step (.test j) = { s with workers := Function.update s.workers j .exited } := by
          simp only [step, hj, hr, if_neg Bool.false_ne_true]
        rw [he]
        refine ⟨hr, rfl, rfl, fun l => ?_⟩
        exact Function.update_apply ..
      · have he : s.step (.test j) = s := by simp only [step, hj]
        rw [he]
        refine ⟨hr, rfl, rfl, fun l => ?_⟩
        split
        · rename_i hl
          rw [hl, hj]
        · rfl
    obtain ⟨hr', hp', hs', hw'⟩ := hstep
    obtain ⟨hp, hs, hx⟩ := ih (s.step (.test j)) hr' (fun l => by
      rw [hw' l]
      split
      · exact .inr rfl
      · exact hw l)
    refine ⟨hp.trans hp', hs.trans hs', fun l hl => hx l ?_⟩
    rw [hw' l]
    by_cases hlj : l = j
    · exact .inr (if_pos hlj)
    · rw [if_neg hlj]
      rcases hl with hl | hl
      · exact .inl ((List.mem_cons.mp hl).resolve_left hlj)
      · exact .inr hl

/-- `stop()` joins workers that have all ended. -/
theorem final_joins (d next : Nat) (s : ThreadPool τ n k) (hx : ∀ j, s.workers j = .exited)
    (hs : s.stopping = .joining next) (hd : next + d = n) :
    let s' := (machine τ n k).final s (List.replicate (d + 1) .join)
    s'.producers = s.producers ∧ s'.stopping = .returned := by
  induction d generalizing next s with
  | zero =>
    have he : s.step .join = { s with stopping := .returned } := by
      simp only [step, hs]
      rw [dif_neg (by omega)]
    refine ⟨?_, ?_⟩
    · change (s.step .join).producers = _
      rw [he]
    · change (s.step .join).stopping = _
      rw [he]
  | succ d ih =>
    have he : s.step .join = { s with stopping := .joining (next + 1) } := by
      have hlt : next < n := by omega
      simp only [step, hs, dif_pos hlt, hx]
    have := ih (next + 1) (s.step .join) (by rw [he]; exact hx) (by rw [he]) (by omega)
    obtain ⟨hp, hr⟩ := this
    refine ⟨hp.trans (by rw [he]), hr⟩

/-- A caller fills the queue and waits, and the pool is stopped before a worker
has come to take a task. -/
def stranding (n maxSize : Nat) (i : Fin k) (task : τ) : List (Action τ n k) :=
  List.replicate maxSize (.run i task 0) ++ ([.run i task 0, .stop] ++ ((List.finRange n).map .test ++
    List.replicate (n + 1) .join))

theorem stranded_of_bound (hn : n ≠ 0) {maxSize : Nat} (hpos : 0 < maxSize) (i : Fin k) (task : τ) :
    ¬ NotStranded ((machine τ n k).final (start maxSize) (stranding n maxSize i task)) := by
  let waits : ThreadPool τ n k :=
    { (filled maxSize maxSize task : ThreadPool τ n k) with
      producers := Function.update (fun _ => .idle) i (.waiting task false) }
  let stopped : ThreadPool τ n k :=
    { waits with
      running_ := false, workers := (WorkerPc.notEmpty_ τ).notifyAll waits.workers, stopping := .joining 0 }
  have hstop : (machine τ n k).final (filled maxSize maxSize task) [.run i task 0, .stop] = stopped := by
    show ((filled maxSize maxSize task : ThreadPool τ n k).step (.run i task 0)).step .stop = _
    rw [run_filled hn, enqueue_filled hpos]
    rfl
  rw [stranding, Machine.final_append, final_filled hn i task maxSize (Nat.le_refl _), Machine.final_append, hstop,
    Machine.final_append]
  obtain ⟨hp, hs, hx⟩ := final_tests (List.finRange n) stopped rfl fun _ => .inl rfl
  obtain ⟨hp', hr⟩ := final_joins n 0 _ (fun j => hx j (.inl (List.mem_finRange j))) hs (Nat.zero_add n)
  intro h
  have hi : stopped.producers i = .waiting task false := by simp only [stopped, waits, Function.update_self]
  have hb := h hr i
  rw [hp', hp, hi] at hb
  exact absurd hb Bool.noConfusion

/-- The pools that strand no caller in any run are those without a bound,
without workers or without callers; and any pool strands none in the runs in
which `stop()` finds no caller blocked and none begins to wait after it. -/
theorem not_stranded_iff (maxSize : Nat) (task : τ) :
    ((∀ actions : List (Action τ n k), NotStranded ((machine τ n k).final (start maxSize) actions)) ↔
        maxSize = 0 ∨ n = 0 ∨ k = 0) ∧
      ∀ actions : List (Action τ n k), (machine τ n k).Along Spared (start maxSize) actions →
        NotStranded ((machine τ n k).final (start maxSize) actions) := by
  refine ⟨⟨fun h => ?_, fun h actions => ?_⟩, not_stranded_of_spared maxSize⟩
  · by_contra hne
    simp only [not_or] at hne
    obtain ⟨hmax, hn, hk⟩ := hne
    exact stranded_of_bound hn (Nat.pos_of_ne_zero hmax) ⟨0, Nat.pos_of_ne_zero hk⟩ task (h _)
  · rcases h with h | h | h
    · exact not_stranded_of_free (.inl h) actions
    · exact not_stranded_of_free (.inr h) actions
    · subst h
      exact fun _ i => i.elim0

/-- One caller, one worker, and room for one task. -/
theorem not_stranded_lost : ¬ NotStranded ((machine Nat 1 1).final (start 1) (stranding 1 1 0 7)) := by
  intro h
  exact absurd (h (by decide +kernel) 0) (by decide +kernel)

theorem not_stranded_iff_drained :
    let actions : List (Action Nat 1 1) := [.run 0 7 0, .run 0 8 0, .test 0, .take 0 0, .resume 0 0, .done 0, .stop,
      .test 0, .join, .join]
    (machine Nat 1 1).Along Spared (start 1) actions ∧ ((machine Nat 1 1).final (start 1) actions).stopping = .returned ∧
      NotStranded ((machine Nat 1 1).final (start 1) actions) := by
  intro actions
  have hp : (machine Nat 1 1).Along Spared (start 1) actions := by decide +kernel
  exact ⟨hp, by decide +kernel, (not_stranded_iff 1 0).2 actions hp⟩

end Ydx.ThreadPool
