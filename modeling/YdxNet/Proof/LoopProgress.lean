import YdxNet.Proof.LoopThreads

/-!
# The loop goes on

A step of the loop's own is one of its thread: the next statement, the end of its `queueInLoop`,
or the return of `epoll_wait` because the eventfd can be read. No other descriptor is ready, the
time of `epoll_wait` does not run out, and nobody calls the loop. Every such step makes `work`
smaller. So the loop comes to a state in which it does not go on, and there it has stopped, if
it was told to quit, or it waits and has called every functor that was pushed, as long as its
thread queues functors from its handlers and functors only (`loop_settles`): one that it queues
before it calls `poll` is not announced, and waits for the next event.
-/

namespace Ydx

/-- How many steps the loop may take before it waits or ends; `woken` says whether the eventfd can
be read. -/
def LoopPc.weight {φ : Type} (woken : Bool) : LoopPc φ → Nat
  | .starting _ => 5 * woken.toNat + 2
  | .testing => 5 * woken.toNat + 1
  | .waiting => 5 * woken.toNat
  | .handling active => 5 * (woken && !active.contains .wakeupChannel_).toNat + 3 + active.length
  | .calling functors => 5 * woken.toNat + 2 + functors.length
  | .stopped => 0

namespace LoopThreads

variable {φ : Type} {s s' : LoopThreads φ}

/-- The counter of the eventfd is positive. -/
def written (s : LoopThreads φ) : Bool := decide (0 < s.wakeupFd_)

/-- A bound on the steps of the loop's own. -/
def work (s : LoopThreads φ) : Nat :=
  s.pendingFunctors_.length + s.pc.weight s.written + if s.queueing then 6 else 0

/-- A step of the loop thread. -/
def Own (s : LoopThreads φ) : Step φ → Prop
  | .next => s.queueing = false ∧ s.pc ≠ .waiting ∧ s.pc ≠ .stopped
  | .wakeup none => s.queueing = true
  | .epollWait ready => ready = [.wakeupChannel_] ∧ s.pc = .waiting ∧ s.listens = true ∧ s.written = true
  | .wakeup (some _) | .queueInLoop .. | .runInLoop .. | .quit _ | .registers .. => False

instance [DecidableEq φ] : ∀ (s : LoopThreads φ) a, Decidable (Own s a)
  | s, .next => inferInstanceAs (Decidable (s.queueing = false ∧ s.pc ≠ .waiting ∧ s.pc ≠ .stopped))
  | s, .wakeup none => inferInstanceAs (Decidable (s.queueing = true))
  | s, .epollWait ready =>
    inferInstanceAs (Decidable (ready = [.wakeupChannel_] ∧ s.pc = .waiting ∧ s.listens = true ∧ s.written = true))
  | _, .wakeup (some _) | _, .queueInLoop .. | _, .runInLoop .. | _, .quit _ | _, .registers .. =>
    inferInstanceAs (Decidable False)

theorem own_fromHandlers {a : Step φ} (h : Own s a) : FromHandlers s a := by
  cases a with
  | queueInLoop => exact absurd h id
  | runInLoop | quit | wakeup | epollWait | next | registers => trivial

/-! ## Every step is progress -/

theorem weight_le (pc : LoopPc φ) (woken : Bool) : pc.weight true ≤ pc.weight woken + 5 := by
  cases woken with
  | true => exact Nat.le_add_right _ _
  | false =>
    cases pc with
    | handling active =>
      simp only [LoopPc.weight, Bool.true_and, Bool.false_and, Bool.toNat_false]
      have hle := Bool.toNat_le (!active.contains .wakeupChannel_)
      omega
    | starting | testing | waiting | calling | stopped =>
      simp only [LoopPc.weight, Bool.toNat_true, Bool.toNat_false]
      omega

theorem work_next (hq : s.queueing = false) (hw : s.pc ≠ .waiting) (hs : s.pc ≠ .stopped) : s.next.work < s.work := by
  unfold LoopThreads.next
  rw [if_neg (by simp [hq])]
  cases hpc : s.pc with
  | starting wakeup =>
    cases wakeup with
    | true => simp [work, written, enableWakeup, LoopPc.weight, hpc, hq]
    | false => simp [work, written, LoopPc.weight, hpc, hq]
  | testing =>
    cases hquit : s.quit_ with
    | true => simp [work, LoopPc.weight, hpc, hq]
    | false => simp [work, written, LoopPc.weight, hpc, hq]
  | waiting => exact absurd hpc hw
  | handling active =>
    cases active with
    | nil =>
      simp only [work, written, LoopPc.weight, hpc, hq, List.length_nil, List.contains_nil, Bool.not_false, Bool.and_true]
      omega
    | cons c active =>
      cases c with
      | wakeupChannel_ => simp [work, written, LoopPc.weight, hpc, hq]
      | other => simp [work, written, LoopPc.weight, hpc, hq]
  | calling functors =>
    cases functors with
    | nil => simp [work, written, LoopPc.weight, hpc, hq]
    | cons f functors => simp [work, written, LoopPc.weight, hpc, hq]
  | stopped => exact absurd hpc hs

theorem work_wakeup (hq : s.queueing = true) : (s.wakeup none).work < s.work := by
  unfold LoopThreads.wakeup
  simp only [hq, if_true]
  by_cases hc : s.callingPendingFunctors_ = true
  · have hle := weight_le s.pc s.written
    simp only [work, written, hc, if_true, hq, Nat.succ_pos, decide_true] at hle ⊢
    simp only [Bool.false_eq_true, if_false]
    omega
  · simp only [work, written, if_neg hc, hq, if_true, Bool.false_eq_true, if_false]
    omega

theorem work_epollWait (hpc : s.pc = .waiting) (hl : s.listens = true) (hw : s.written = true) :
    (s.epollWait [.wakeupChannel_]).work < s.work := by
  have hpos : 0 < s.wakeupFd_ := of_decide_eq_true hw
  unfold LoopThreads.epollWait
  simp [hpc, hl, hpos, work, written, LoopPc.weight]

/-- Every step of the loop's own leaves less to do. -/
theorem work_step {a : Step φ} (h : Own s a) : (machine.step s a).1.work < s.work := by
  cases a with
  | next => exact work_next h.1 h.2.1 h.2.2
  | wakeup thread =>
    cases thread with
    | none => exact work_wakeup h
    | some t => exact absurd h id
  | epollWait ready =>
    obtain ⟨rfl, hpc, hl, hw⟩ := h
    exact work_epollWait hpc hl hw
  | queueInLoop | runInLoop | quit | registers => exact absurd h id

/-! ## A loop that is told to quit -/

/-- A loop that waits although it was told to quit is woken up, or about to be; it stops only
when it was told to. -/
structure Quits (s : LoopThreads φ) : Prop where
  woken : s.quit_ = true → s.pc = .waiting → 0 < s.wakeupFd_ ∨ ∃ t, s.threads t = .quit
  stopped : s.pc = .stopped → s.quit_ = true

/-- A step that leaves `quit_` and the loop where they are. -/
theorem Quits.stay (h : Quits s) (hq : s'.quit_ = s.quit_) (hpc : s'.pc = s.pc)
    (hw : 0 < s.wakeupFd_ ∨ (∃ t, s.threads t = .quit) → 0 < s'.wakeupFd_ ∨ ∃ t, s'.threads t = .quit) : Quits s' := by
  refine ⟨fun hquit hwait => ?_, fun hstop => ?_⟩
  · exact hw (h.woken (hq.symm.trans hquit) (hpc.symm.trans hwait))
  · exact hq.trans (h.stopped (hpc.symm.trans hstop))

/-- A step to a place where the loop neither waits nor has stopped. -/
theorem Quits.move (hw : s.pc ≠ .waiting) (hs : s.pc ≠ .stopped) : Quits s :=
  ⟨fun _ hpc => absurd hpc hw, fun hpc => absurd hpc hs⟩

theorem Quits.queueInLoop (h : Quits s) (thread : Option Nat) (cb : φ) : Quits (s.queueInLoop thread cb) := by
  unfold LoopThreads.queueInLoop
  cases thread with
  | none =>
    dsimp only
    split
    · exact h.stay rfl rfl id
    · exact h
  | some t =>
    dsimp only
    split
    · rename_i hidle
      refine h.stay rfl rfl fun hw => hw.imp_right fun ⟨t', ht'⟩ => ⟨t', ?_⟩
      have hne : t' ≠ t := fun he => by
        rw [he, hidle] at ht'
        cases ht'
      exact (Function.update_of_ne hne ..).trans ht'
    · exact h

theorem Quits.quit (h : Quits s) (thread : Option Nat) : Quits (s.quit thread) := by
  unfold LoopThreads.quit
  cases thread with
  | none =>
    dsimp only
    split
    · rename_i hc
      refine ⟨fun _ hpc => ?_, fun _ => rfl⟩
      have hwait : s.pc = .waiting := hpc
      simp [calls, hwait] at hc
    · exact h
  | some t =>
    dsimp only
    split
    · exact ⟨fun _ _ => .inr ⟨t, Function.update_self ..⟩, fun _ => rfl⟩
    · exact h

theorem Quits.wakeup (h : Quits s) (thread : Option Nat) : Quits (s.wakeup thread) := by
  unfold LoopThreads.wakeup
  cases thread with
  | none =>
    dsimp only
    split
    · refine h.stay rfl rfl fun hw => hw.imp_left fun hpos => ?_
      show 0 < if s.callingPendingFunctors_ = true then s.wakeupFd_ + 1 else s.wakeupFd_
      split
      · exact Nat.succ_pos _
      · exact hpos
    · exact h
  | some t =>
    dsimp only
    split
    · exact h
    · exact h.stay rfl rfl fun _ => .inl (Nat.succ_pos _)

theorem Quits.epollWait (h : Quits s) (ready : List ActiveChannel) : Quits (s.epollWait ready) := by
  unfold LoopThreads.epollWait
  split
  · split
    · exact .move (by simp) (by simp)
    · exact .move (by simp) (by simp)
  · exact h

theorem Quits.next (h : Quits s) : Quits s.next := by
  unfold LoopThreads.next
  split
  · exact h
  · cases hpc : s.pc with
    | starting wakeup => cases wakeup <;> exact .move (by simp) (by simp)
    | testing =>
      cases hquit : s.quit_ with
      | true => exact ⟨fun _ hwait => by simp at hwait, fun _ => rfl⟩
      | false => exact ⟨fun hq _ => absurd hq Bool.false_ne_true, fun hstop => by simp at hstop⟩
    | waiting | stopped => exact h
    | handling active =>
      cases active with
      | nil => exact .move (by simp) (by simp)
      | cons c active => cases c <;> exact .move (by simp) (by simp)
    | calling functors => cases functors <;> exact .move (by simp) (by simp)

theorem Quits.step (h : Quits s) (a : Step φ) : Quits (machine.step s a).1 := by
  cases a with
  | queueInLoop thread cb => exact h.queueInLoop thread cb
  | runInLoop thread cb =>
    cases thread with
    | none => exact h
    | some t => exact h.queueInLoop (some t) cb
  | quit thread => exact h.quit thread
  | wakeup thread => exact h.wakeup thread
  | epollWait ready => exact h.epollWait ready
  | next => exact h.next
  | registers remove c =>
    simp only [machine, LoopThreads.registers]
    split
    · exact h
    · exact h.stay rfl rfl id

/-! ## Where the loop comes to -/

/-- The loop thread does not go on. -/
def Stuck (s : LoopThreads φ) : Prop := ∀ a, ¬ Own s a

theorem Stuck.queueing (h : Stuck s) : s.queueing = false := Bool.eq_false_iff.mpr (h (.wakeup none))

theorem Stuck.place (h : Stuck s) : s.pc = .waiting ∨ s.pc = .stopped := by
  by_contra hne
  rw [not_or] at hne
  exact h .next ⟨h.queueing, hne.1, hne.2⟩

theorem threads_epollWait (s : LoopThreads φ) (ready : List ActiveChannel) : (s.epollWait ready).threads = s.threads := by
  unfold LoopThreads.epollWait
  split
  · split <;> rfl
  · rfl

theorem threads_next (s : LoopThreads φ) : s.next.threads = s.threads := by
  unfold LoopThreads.next
  split
  · rfl
  · split <;> rfl

theorem threads_step {a : Step φ} (h : Own s a) : (machine.step s a).1.threads = s.threads := by
  cases a with
  | next => exact threads_next s
  | wakeup thread =>
    cases thread with
    | none =>
      simp only [machine, LoopThreads.wakeup]
      split <;> rfl
    | some t => exact absurd h id
  | epollWait ready => exact threads_epollWait s ready
  | queueInLoop | runInLoop | quit | registers => exact absurd h id

theorem new_awake (this : Nat) (wakeupFd : Fd) (calling : Bool) :
    Awake (new this wakeupFd calling true : LoopThreads φ) := by
  refine ⟨?_, fun hn => absurd rfl (hn true), fun _ => by simp [new], fun hc => ?_, fun _ => .inl rfl⟩
  · rintro wakeup ⟨⟩
    exact ⟨rfl, rfl, rfl⟩
  · exact absurd hc Bool.false_ne_true

/-- A loop that waits for an event, with nobody in a call of it, has nothing to do. -/
theorem Stuck.waiting (h : Stuck s) (ha : Awake s) (ho : Ordered s) (hq : Quits s) (hidle : ∀ i, s.threads i = .idle)
    (hpc : s.pc = .waiting) : s.quit_ = false ∧ s.executed = s.pushed := by
  have hlistens : s.listens = true := ha.listening fun _ => by simp [hpc]
  have hsilent : ¬ 0 < s.wakeupFd_ := fun hpos =>
    h (.epollWait [.wakeupChannel_]) ⟨rfl, hpc, hlistens, decide_eq_true hpos⟩
  constructor
  · refine Bool.eq_false_iff.mpr fun hquit => ?_
    rcases hq.woken hquit hpc with hw | ⟨i, hi⟩
    · exact hsilent hw
    · cases (hidle i).symm.trans hi
  · have hpending : s.pendingFunctors_ = [] := by
      rcases ha.woken fun _ => by simp [hpc] with hw | hw | ⟨i, hi⟩ | hw
      · exact hw
      · exact absurd hw hsilent
      · cases (hidle i).symm.trans hi
      · exact absurd (h.queueing.symm.trans hw) Bool.false_ne_true
    have hall := ho.all
    rwa [rest, hpc, hpending, List.append_nil, List.append_nil] at hall

/-- In every run of a loop that calls `enable_wakeup()` and whose thread queues functors only from
its handlers and functors (`FromHandlers`), and from every moment at which no other thread is in
a call of it: its own steps come to an end, without any other event and without a timeout of
`epoll_wait`; and when it does not go on, then it was told to quit and has stopped, or it was
not and waits, with every functor that was pushed called, each once and in order. -/
theorem loop_settles (this : Nat) (wakeupFd : Fd) (calling : Bool) (steps own : List (Step φ))
    (hv : machine.Along FromHandlers (new this wakeupFd calling true) steps) :
    let s := machine.final (new this wakeupFd calling true) steps
    let t := machine.final s own
    (∀ i, s.threads i = .idle) → machine.Along Own s own →
      own.length ≤ s.work ∧
      (Stuck t → (t.quit_ = true ∧ t.pc = .stopped) ∨
        (t.quit_ = false ∧ t.pc = .waiting ∧ t.executed = t.pushed)) := by
  intro s t hidle hown
  have hs : Awake s := Machine.invariant (fun _ a h hv => h.step a hv) steps _ (new_awake this wakeupFd calling) hv
  obtain ⟨ht, hawake⟩ : (∀ i, t.threads i = .idle) ∧ Awake t :=
    Machine.invariant (I := fun t : LoopThreads φ => (∀ i, t.threads i = .idle) ∧ Awake t)
      (fun t a h ha => ⟨fun i => by rw [threads_step ha]; exact h.1 i, h.2.step a (own_fromHandlers ha)⟩)
      own s ⟨hidle, hs⟩ hown
  obtain ⟨horder, hquits⟩ : Ordered t ∧ Quits t :=
    Machine.always (I := fun t : LoopThreads φ => Ordered t ∧ Quits t) (fun _ a h => ⟨h.1.step a, h.2.step a⟩) own s
      (Machine.always (I := fun t : LoopThreads φ => Ordered t ∧ Quits t) (fun _ a h => ⟨h.1.step a, h.2.step a⟩) steps _
        ⟨⟨rfl, Nat.zero_le _, fun _ => by simp [new]⟩, .move (by simp [new]) (by simp [new])⟩)
  refine ⟨?_, fun hstuck => ?_⟩
  · have hle := Machine.Along.length_le (I := fun _ => True) (fun _ _ _ _ => trivial) (fun _ _ _ ha => work_step ha) own s
      trivial hown
    omega
  · rcases hstuck.place with hpc | hpc
    · obtain ⟨hquit, hcalled⟩ := hstuck.waiting hawake horder hquits ht hpc
      exact .inr ⟨hquit, hpc, hcalled⟩
    · exact .inl ⟨hquits.stopped hpc, hpc⟩

/-- A loop that waits, with an eventfd that cannot be read. -/
theorem stuck_of_waiting (hq : s.queueing = false) (hpc : s.pc = .waiting) (hw : s.written = false) : Stuck s := by
  intro a ha
  cases a with
  | next => exact ha.2.1 hpc
  | wakeup thread =>
    cases thread with
    | none => exact absurd (hq.symm.trans ha) Bool.false_ne_true
    | some i => exact ha
  | epollWait ready => exact absurd (hw.symm.trans ha.2.2.2) Bool.false_ne_true
  | queueInLoop | runInLoop | quit | registers => exact ha

/-- The functor that was queued by another one is called although no event comes. -/
theorem loop_settles_busyLoop :
    let s := machine.final (new 0 3 false true) busyLoop
    let t := machine.final s [.epollWait [.wakeupChannel_], .next, .next, .next, .next, .next]
    s.executed = [10] ∧ s.pc = .waiting ∧ t.quit_ = false ∧ t.executed = [10, 11] := by
  intro s t
  have hidle : ∀ i, s.threads i = .idle := by
    intro i
    show Function.update (Function.update (fun _ => Caller.idle) 1 .queueInLoop) 1 .idle i = .idle
    rw [Function.update_idem, Function.update_eq_self_iff.mpr rfl]
  have hstuck : Stuck t := stuck_of_waiting (by decide) (by decide) (by decide)
  rcases (loop_settles 0 3 false busyLoop [.epollWait [.wakeupChannel_], .next, .next, .next, .next, .next]
    (by decide) hidle (by decide)).2 hstuck with ⟨-, hpc⟩ | ⟨hquit, -, hcalled⟩
  · exact absurd hpc (by decide)
  · refine ⟨by decide, by decide, hquit, ?_⟩
    exact hcalled.trans (by decide)

end LoopThreads

end Ydx
