import YdxNet.Impl.LoopThreads
import YdxNet.Proof.Poller

/-!
# Functors among threads

Whatever the threads do, the functors that were called, those that
`doPendingFunctors` is left with and those still pending are, one behind the
other, the functors that were pushed (`pendingFunctors_ok`). A loop whose
eventfd is registered is never left waiting with functors pending and nobody
about to wake it up (`wakeup_ok`): the loop thread wakes itself up where the
functors it queues would not be found before it waits again.
-/

namespace Ydx.LoopThreads

variable {φ : Type}

/-- The functors `doPendingFunctors()` has still to call. -/
def rest (s : LoopThreads φ) : List φ :=
  match s.pc with
  | .calling functors => functors
  | _ => []

/-! ## Exactly once and in order -/

/-- What was pushed is called, left to call or pending; while functors are
called, none that was pushed after the swap is among them. -/
structure Ordered (s : LoopThreads φ) : Prop where
  all : s.executed ++ s.rest ++ s.pendingFunctors_ = s.pushed
  swapped : s.swapped ≤ s.pushed.length
  batch : ∀ functors, s.pc = .calling functors → s.executed ++ functors = s.pushed.take s.swapped

variable {s s' : LoopThreads φ}

/-- A step that leaves the functors alone. -/
theorem Ordered.same (h : Ordered s) (hpc : s'.pc = s.pc) (hp : s'.pendingFunctors_ = s.pendingFunctors_)
    (hu : s'.pushed = s.pushed) (he : s'.executed = s.executed) (hs : s'.swapped = s.swapped) : Ordered s' := by
  refine ⟨?_, ?_, ?_⟩
  · rw [rest, hpc, he, hp, hu]; exact h.all
  · rw [hs, hu]; exact h.swapped
  · rw [hpc, he, hu, hs]; exact h.batch

theorem Ordered.pushBack (h : Ordered s) (cb : φ) : Ordered (s.pushBack cb) := by
  refine ⟨?_, ?_, ?_⟩
  · show s.executed ++ s.rest ++ (s.pendingFunctors_ ++ [cb]) = s.pushed ++ [cb]
    rw [← List.append_assoc, h.all]
  · show s.swapped ≤ (s.pushed ++ [cb]).length
    rw [List.length_append]
    exact Nat.le_trans h.swapped (Nat.le_add_right _ _)
  · intro functors hc
    show s.executed ++ functors = (s.pushed ++ [cb]).take s.swapped
    rw [List.take_append_of_le_length h.swapped]
    exact h.batch functors hc

theorem Ordered.queueInLoop (h : Ordered s) (thread : Option Nat) (cb : φ) : Ordered (s.queueInLoop thread cb) := by
  unfold LoopThreads.queueInLoop
  cases thread with
  | none =>
    dsimp only
    split
    · exact (h.pushBack cb).same rfl rfl rfl rfl rfl
    · exact h
  | some t =>
    dsimp only
    split
    · exact (h.pushBack cb).same rfl rfl rfl rfl rfl
    · exact h

/-- To another place of the loop where no functors are called. -/
theorem Ordered.goto (h : Ordered s) (hr : s.rest = []) (hr' : s'.rest = []) (hc : ∀ functors, s'.pc ≠ .calling functors)
    (hp : s'.pendingFunctors_ = s.pendingFunctors_) (hu : s'.pushed = s.pushed) (he : s'.executed = s.executed)
    (hs : s'.swapped = s.swapped) : Ordered s' := by
  refine ⟨?_, ?_, fun functors h => absurd h (hc functors)⟩
  · rw [hr', he, hp, hu, ← hr]; exact h.all
  · rw [hs, hu]; exact h.swapped

theorem Ordered.next (h : Ordered s) : Ordered s.next := by
  unfold LoopThreads.next
  split
  · exact h
  · split
    · rename_i hpc
      exact h.goto (by rw [rest, hpc]) rfl (fun _ => nofun) rfl rfl rfl rfl
    · rename_i hpc
      exact h.goto (by rw [rest, hpc]) rfl (fun _ => nofun) rfl rfl rfl rfl
    · rename_i hpc
      refine h.goto (by rw [rest, hpc]) ?_ ?_ rfl rfl rfl rfl
      · cases s.quit_ <;> rfl
      · intro functors
        cases s.quit_ <;> exact nofun
    · rename_i hpc
      exact h.goto (by rw [rest, hpc]) rfl (fun _ => nofun) rfl rfl rfl rfl
    · rename_i hpc
      exact h.goto (by rw [rest, hpc]) rfl (fun _ => nofun) rfl rfl rfl rfl
    · rename_i hpc
      have hall := h.all
      rw [rest, hpc, List.append_nil] at hall
      refine ⟨?_, Nat.le_refl _, ?_⟩
      · show s.executed ++ s.pendingFunctors_ ++ [] = s.pushed
        rw [List.append_nil, hall]
      · rintro functors ⟨⟩
        show s.executed ++ s.pendingFunctors_ = s.pushed.take s.pushed.length
        rw [List.take_length, hall]
    · rename_i f functors hpc
      have hall := h.all
      rw [rest, hpc] at hall
      refine ⟨?_, h.swapped, ?_⟩
      · show s.executed ++ [f] ++ functors ++ s.pendingFunctors_ = s.pushed
        rw [List.append_assoc s.executed]
        exact hall
      · rintro functors ⟨⟩
        show s.executed ++ [f] ++ functors = s.pushed.take s.swapped
        rw [List.append_assoc]
        exact h.batch _ hpc
    · rename_i hpc
      exact h.goto (by rw [rest, hpc]) rfl (fun _ => nofun) rfl rfl rfl rfl
    · exact h
    · exact h

theorem Ordered.epollWait (h : Ordered s) (ready : List ActiveChannel) : Ordered (s.epollWait ready) := by
  unfold LoopThreads.epollWait
  split
  · rename_i hpc
    split
    · exact h.goto (by rw [rest, hpc]) rfl (fun _ => nofun) rfl rfl rfl rfl
    · exact h.goto (by rw [rest, hpc]) rfl (fun _ => nofun) rfl rfl rfl rfl
  · exact h

theorem Ordered.step (h : Ordered s) (a : Step φ) : Ordered (machine.step s a).1 := by
  cases a with
  | queueInLoop thread cb => exact h.queueInLoop thread cb
  | runInLoop thread cb =>
    cases thread with
    | none => exact h
    | some t => exact h.queueInLoop (some t) cb
  | quit thread =>
    cases thread <;> (simp only [machine, LoopThreads.quit]; split)
    · exact h.same rfl rfl rfl rfl rfl
    · exact h
    · exact h.same rfl rfl rfl rfl rfl
    · exact h
  | wakeup thread =>
    cases thread <;> (simp only [machine, LoopThreads.wakeup]; split)
    · exact h.same rfl rfl rfl rfl rfl
    · exact h
    · exact h
    · exact h.same rfl rfl rfl rfl rfl
  | epollWait ready => exact h.epollWait ready
  | next => exact h.next
  | registers remove c =>
    simp only [machine, LoopThreads.registers]
    split
    · exact h
    · exact h.same rfl rfl rfl rfl rfl

/-- At every moment of every run, the functors that `doPendingFunctors` has
called, those it has still to call, and `pendingFunctors_` are all that was
pushed, in the order of the `push_back`s; and a call of `doPendingFunctors`
calls only functors that were pushed before its swap. -/
theorem pendingFunctors_ok (this : Nat) (wakeupFd : Fd) (calling wakeup : Bool) (steps : List (Step φ)) :
    let s := machine.final (new this wakeupFd calling wakeup) steps
    s.executed ++ s.rest ++ s.pendingFunctors_ = s.pushed ∧
    ∀ functors, s.pc = .calling functors → s.executed ++ functors = s.pushed.take s.swapped := by
  intro s
  have h₀ : Ordered (new this wakeupFd calling wakeup : LoopThreads φ) := ⟨rfl, Nat.zero_le _, fun _ => nofun⟩
  have h : Ordered s := Machine.always (fun _ a h => h.step a) steps _ h₀
  exact ⟨h.all, h.batch⟩

/-! ## No wake-up is lost -/

/-- The loop thread queues functors only from event handlers and functors. -/
def FromHandlers (s : LoopThreads φ) : Step φ → Prop
  | .queueInLoop none _ => ∀ wakeup, s.pc ≠ .starting wakeup
  | _ => True

instance [DecidableEq φ] : ∀ (s : LoopThreads φ) a, Decidable (FromHandlers s a)
  | s, .queueInLoop none _ => inferInstanceAs (Decidable (∀ wakeup, s.pc ≠ .starting wakeup))
  | _, .queueInLoop (some _) _ | _, .runInLoop .. | _, .quit _ | _, .wakeup _ | _, .epollWait _ | _, .next
  | _, .registers .. => inferInstanceAs (Decidable True)

/-- Nothing is pending, or the eventfd is written, or about to be written. -/
def Woken (s : LoopThreads φ) : Prop :=
  s.pendingFunctors_ = [] ∨ 0 < s.wakeupFd_ ∨ (∃ t, s.threads t = .queueInLoop) ∨ s.queueing = true

/-- What holds of a loop that calls `enable_wakeup()`. While events are handled
functors may be pending, as they will be called before the loop waits. -/
structure Awake (s : LoopThreads φ) : Prop where
  fresh : ∀ wakeup, s.pc = .starting wakeup → wakeup = true ∧
    s.wakeupChannel_ = .new s.wakeupChannel_.this s.wakeupChannel_.fd_ ∧
    s.poller.interest s.wakeupChannel_.fd_ = none
  listening : (∀ wakeup, s.pc ≠ .starting wakeup) → s.listens = true
  flag : ∀ functors, s.pc = .calling functors → s.callingPendingFunctors_ = true
  busy : s.queueing = true → (∃ active, s.pc = .handling active) ∨ ∃ functors, s.pc = .calling functors
  woken : (∀ active, s.pc ≠ .handling active) → s.Woken

/-- A step of a thread, which leaves the loop where it is. -/
theorem Awake.stay (h : Awake s) (hp : s'.poller = s.poller) (hw : s'.wakeupChannel_ = s.wakeupChannel_)
    (hf : s'.callingPendingFunctors_ = s.callingPendingFunctors_) (hpc : s'.pc = s.pc)
    (hq : s'.queueing = true → (∃ active, s.pc = .handling active) ∨ ∃ functors, s.pc = .calling functors)
    (hwk : (∀ active, s.pc ≠ .handling active) → s'.Woken) : Awake s' := by
  refine ⟨?_, ?_, ?_, ?_, ?_⟩
  · rw [hpc, hw, hp]; exact h.fresh
  · rw [hpc, listens, hw, hp]; exact h.listening
  · rw [hpc, hf]; exact h.flag
  · rw [hpc]; exact hq
  · rw [hpc]; exact hwk

/-- A step of the loop thread after `enable_wakeup()` to a place where it makes
no call. -/
theorem Awake.move (h : Awake s) (hp : s'.poller = s.poller) (hw : s'.wakeupChannel_ = s.wakeupChannel_)
    (hs : ∀ wakeup, s.pc ≠ .starting wakeup) (hs' : ∀ wakeup, s'.pc ≠ .starting wakeup)
    (hf : ∀ functors, s'.pc = .calling functors → s'.callingPendingFunctors_ = true) (hq : s'.queueing = false)
    (hwk : (∀ active, s'.pc ≠ .handling active) → s'.Woken) : Awake s' := by
  refine ⟨fun wakeup hc => absurd hc (hs' wakeup), fun _ => ?_, hf, fun hc => ?_, hwk⟩
  · rw [listens, hw, hp]; exact h.listening hs
  · exact absurd (hq.symm.trans hc) Bool.false_ne_true

theorem Awake.queueInLoop (h : Awake s) (thread : Option Nat) (cb : φ) (hv : FromHandlers s (.queueInLoop thread cb)) :
    Awake (s.queueInLoop thread cb) := by
  unfold LoopThreads.queueInLoop
  cases thread with
  | none =>
    dsimp only
    split
    · rename_i hc
      refine h.stay rfl rfl rfl rfl (fun _ => ?_) fun _ => .inr (.inr (.inr rfl))
      cases hpc : s.pc with
      | starting wakeup => exact absurd hpc (hv wakeup)
      | handling active => exact .inl ⟨active, rfl⟩
      | calling functors => exact .inr ⟨functors, rfl⟩
      | testing | waiting | stopped => simp [calls, hpc] at hc
    · exact h
  | some t =>
    dsimp only
    split
    · exact h.stay rfl rfl rfl rfl h.busy fun _ => .inr (.inr (.inl ⟨t, Function.update_self ..⟩))
    · exact h

theorem Awake.quit (h : Awake s) (thread : Option Nat) : Awake (s.quit thread) := by
  unfold LoopThreads.quit
  cases thread with
  | none =>
    dsimp only
    split
    · exact h.stay rfl rfl rfl rfl h.busy h.woken
    · exact h
  | some t =>
    dsimp only
    split
    · rename_i ht
      refine h.stay rfl rfl rfl rfl h.busy fun hpc => ?_
      rcases h.woken hpc with hw | hw | ⟨t', ht'⟩ | hw
      · exact .inl hw
      · exact .inr (.inl hw)
      · have hne : t' ≠ t := fun he => by
          rw [he, ht] at ht'
          exact absurd ht' (by decide)
        exact .inr (.inr (.inl ⟨t', (Function.update_of_ne hne ..).trans ht'⟩))
      · exact .inr (.inr (.inr hw))
    · exact h

theorem Awake.wakeup (h : Awake s) (thread : Option Nat) : Awake (s.wakeup thread) := by
  unfold LoopThreads.wakeup
  cases thread with
  | none =>
    dsimp only
    split
    · rename_i hq
      refine h.stay rfl rfl rfl rfl (fun hc => absurd hc Bool.false_ne_true) fun hpc => ?_
      -- Not handling events, the loop thread is calling functors, and its flag is set.
      rcases h.busy hq with ⟨active, ha⟩ | ⟨functors, hf⟩
      · exact absurd ha (hpc active)
      · refine .inr (.inl ?_)
        show 0 < if s.callingPendingFunctors_ = true then s.wakeupFd_ + 1 else s.wakeupFd_
        rw [if_pos (h.flag functors hf)]
        exact Nat.succ_pos _
    · exact h
  | some t =>
    dsimp only
    split
    · exact h
    · exact h.stay rfl rfl rfl rfl h.busy fun _ => .inr (.inl (Nat.succ_pos _))

theorem Awake.epollWait (h : Awake s) (ready : List ActiveChannel) : Awake (s.epollWait ready) := by
  unfold LoopThreads.epollWait
  split
  · rename_i hpc
    have hq : s.queueing = false := Bool.eq_false_iff.mpr fun hq => by
      rcases h.busy hq with ⟨_, ha⟩ | ⟨_, hf⟩
      · exact nomatch hpc.symm.trans ha
      · exact nomatch hpc.symm.trans hf
    have hs : ∀ wakeup, s.pc ≠ .starting wakeup := fun _ hs => nomatch hpc.symm.trans hs
    have hw : s.Woken := h.woken fun _ ha => nomatch hpc.symm.trans ha
    split
    · exact h.move rfl rfl hs (fun _ => nofun) (fun _ => nofun) hq fun _ => hw
    · exact h.move rfl rfl hs (fun _ => nofun) (fun _ => nofun) hq fun hn => absurd rfl (hn _)
  · exact h

theorem listens_enableWakeup (h : Awake s) {wakeup : Bool} (hpc : s.pc = .starting wakeup) :
    s.enableWakeup.listens = true := by
  obtain ⟨-, hc, hi⟩ := h.fresh wakeup hpc
  have hx : s.wakeupChannel_.index_ = .kNew := by rw [hc]; rfl
  have he : s.wakeupChannel_.events_ = .kNoneEvent := by rw [hc]; rfl
  simp [enableWakeup, listens, Channel.enableReading, EPollPoller.updateChannel, EPollPoller.update, hx, he, hi,
    Events.union, Events.kReadEvent]

theorem Awake.next (h : Awake s) : Awake s.next := by
  unfold LoopThreads.next
  split
  · exact h
  · rename_i hq
    rw [Bool.not_eq_true] at hq
    split
    · rename_i hpc
      refine ⟨fun _ => nofun, fun _ => listens_enableWakeup h hpc, fun _ => nofun, fun hc => ?_, fun _ => ?_⟩
      · exact absurd (hq.symm.trans hc) Bool.false_ne_true
      · exact h.woken fun _ ha => nomatch hpc.symm.trans ha
    · rename_i hpc
      exact absurd (h.fresh _ hpc).1 Bool.false_ne_true
    · rename_i hpc
      have hw : s.Woken := h.woken fun _ ha => nomatch hpc.symm.trans ha
      refine h.move rfl rfl (fun _ hs => nomatch hpc.symm.trans hs) ?_ ?_ hq fun _ => hw
      · intro wakeup
        cases s.quit_ <;> exact nofun
      · intro functors
        cases s.quit_ <;> exact nofun
    · rename_i hpc
      exact h.move rfl rfl (fun _ hs => nomatch hpc.symm.trans hs) (fun _ => nofun) (fun _ => nofun) hq
        fun hn => absurd rfl (hn _)
    · rename_i hpc
      exact h.move rfl rfl (fun _ hs => nomatch hpc.symm.trans hs) (fun _ => nofun) (fun _ => nofun) hq
        fun hn => absurd rfl (hn _)
    · rename_i hpc
      exact h.move rfl rfl (fun _ hs => nomatch hpc.symm.trans hs) (fun _ => nofun) (fun _ _ => rfl) hq
        fun _ => .inl rfl
    · rename_i hpc
      exact h.move rfl rfl (fun _ hs => nomatch hpc.symm.trans hs) (fun _ => nofun) (fun _ _ => h.flag _ hpc) hq
        fun _ => h.woken fun _ ha => nomatch hpc.symm.trans ha
    · rename_i hpc
      exact h.move rfl rfl (fun _ hs => nomatch hpc.symm.trans hs) (fun _ => nofun) (fun _ => nofun) hq
        fun _ => h.woken fun _ ha => nomatch hpc.symm.trans ha
    · exact h
    · exact h

theorem Awake.registers (h : Awake s) (remove : Bool) (c : Channel) : Awake (s.registers remove c) := by
  unfold LoopThreads.registers
  split
  · exact h
  · rename_i hne
    have hi : (if remove = true then (s.poller.removeChannel c).1 else (s.poller.updateChannel c).1).interest
        s.wakeupChannel_.fd_ = s.poller.interest s.wakeupChannel_.fd_ := by
      split
      · exact EPollPoller.interest_removeChannel_of_ne (Ne.symm hne)
      · exact EPollPoller.interest_updateChannel_of_ne (Ne.symm hne)
    refine ⟨?_, ?_, h.flag, h.busy, h.woken⟩
    · dsimp only
      rw [hi]
      exact h.fresh
    · rw [listens]
      dsimp only
      rw [hi]
      exact h.listening

theorem Awake.step (h : Awake s) (a : Step φ) (hv : FromHandlers s a) : Awake (machine.step s a).1 := by
  cases a with
  | queueInLoop thread cb => exact h.queueInLoop thread cb hv
  | runInLoop thread cb =>
    cases thread with
    | none => exact h
    | some t => exact h.queueInLoop (some t) cb trivial
  | quit thread => exact h.quit thread
  | wakeup thread => exact h.wakeup thread
  | epollWait ready => exact h.epollWait ready
  | next => exact h.next
  | registers remove c => exact h.registers remove c

/-- In every run of a loop that calls `enable_wakeup()`, whatever value
`callingPendingFunctors_` starts with: when it is at `epoll_wait` and functors
are pending, the counter of the eventfd is positive and the eventfd registered
for reading, or a thread is in `queueInLoop` before its `wakeup()`. -/
theorem wakeup_ok (this : Nat) (wakeupFd : Fd) (calling : Bool) (steps : List (Step φ))
    (hv : machine.Along FromHandlers (new this wakeupFd calling true) steps) :
    let s := machine.final (new this wakeupFd calling true) steps
    s.pc = .waiting → s.pendingFunctors_ ≠ [] →
      (0 < s.wakeupFd_ ∧ s.listens = true) ∨ ∃ t, s.threads t = .queueInLoop := by
  intro s hpc hne
  have h₀ : Awake (new this wakeupFd calling true : LoopThreads φ) := by
    refine ⟨?_, fun hn => absurd rfl (hn true), fun _ => nofun, fun hc => absurd hc Bool.false_ne_true, fun _ => .inl rfl⟩
    rintro wakeup ⟨⟩
    exact ⟨rfl, rfl, rfl⟩
  have h : Awake s := Machine.invariant (fun _ a h hv => h.step a hv) steps _ h₀ hv
  have hl : s.listens = true := h.listening fun _ hs => nomatch hpc.symm.trans hs
  rcases h.woken fun _ ha => nomatch hpc.symm.trans ha with hw | hw | hw | hw
  · exact absurd hw hne
  · exact .inl ⟨hw, hl⟩
  · exact .inr hw
  · rcases h.busy hw with ⟨_, ha⟩ | ⟨_, hf⟩
    · exact nomatch hpc.symm.trans ha
    · exact nomatch hpc.symm.trans hf

/-- The loop starts and waits; a thread queues a functor and wakes it up, which
queues one more when it is called. -/
def busyLoop : List (Step Nat) :=
  [.next, .next, .queueInLoop (some 1) 10, .wakeup (some 1), .epollWait [.wakeupChannel_], .next, .next, .next,
    .queueInLoop none 11, .wakeup none, .next, .next]

theorem wakeup_ok_busyLoop :
    let s := machine.final (new 0 3 false true) busyLoop
    s.pc = .waiting ∧ s.pendingFunctors_ = [11] ∧
      ((0 < s.wakeupFd_ ∧ s.listens = true) ∨ ∃ t, s.threads t = .queueInLoop) := by
  intro s
  have hpc : s.pc = .waiting := by decide
  have hp : s.pendingFunctors_ = [11] := by decide
  have hv : machine.Along FromHandlers (new 0 3 false true) busyLoop := by decide
  exact ⟨hpc, hp, wakeup_ok 0 3 false busyLoop hv hpc (by rw [hp]; decide)⟩

end Ydx.LoopThreads
