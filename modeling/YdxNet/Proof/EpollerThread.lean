import YdxNet.Impl.EpollerThread

/-!
# The owner of a loop thread and its loop

As long as nobody but the destructor calls `quit()` on the loop, `startEpoll()` returns a loop
and is never left waiting, the loop is in scope until the destructor has set `quit_`, and the
destructor returns only behind the end of the thread (`owner_ok`). One access is left to
chance: `quit()` sets `quit_` and then calls `wakeup()`, and in between the thread may find
the flag set and end its scope. A run touches no loop out of scope if and only if this does not
happen in it. From wherever the destructor is, it can still return (`destructor_returns`).
-/

namespace Ydx

namespace LoopThreads

variable {φ : Type} {l : LoopThreads φ}

/-- A step of the loop thread, or of a thread other than the owner. None of them quits. -/
def ByOthers : Step φ → Prop
  | .quit _ => False
  | .queueInLoop thread _ | .runInLoop thread _ | .wakeup thread => thread ≠ some 0
  | _ => True

instance : DecidablePred (ByOthers (φ := φ))
  | .quit _ => inferInstanceAs (Decidable False)
  | .queueInLoop thread _ | .runInLoop thread _ | .wakeup thread => inferInstanceAs (Decidable (thread ≠ some 0))
  | .epollWait _ | .next | .registers .. => inferInstanceAs (Decidable True)

/-- What such a step leaves alone. -/
structure Undisturbed (l l' : LoopThreads φ) : Prop where
  quit_ : l'.quit_ = l.quit_
  owner : l'.threads 0 = l.threads 0
  stopped : l'.pc = .stopped → l.pc = .stopped ∨ l.quit_ = true

theorem Undisturbed.of_eq {l' : LoopThreads φ} (hq : l'.quit_ = l.quit_) (ht : l'.threads = l.threads) (hp : l'.pc = l.pc) :
    Undisturbed l l' :=
  ⟨hq, congrFun ht 0, fun h => .inl (hp ▸ h)⟩

theorem queueInLoop_undisturbed {thread : Option Nat} (ht : thread ≠ some 0) (cb : φ) :
    Undisturbed l (l.queueInLoop thread cb) := by
  cases thread with
  | none =>
    simp only [queueInLoop]
    split
    · exact .of_eq rfl rfl rfl
    · exact .of_eq rfl rfl rfl
  | some t =>
    have hne : 0 ≠ t := fun h => ht (congrArg some h.symm)
    simp only [queueInLoop]
    split
    · exact ⟨rfl, Function.update_of_ne hne _ _, .inl⟩
    · exact .of_eq rfl rfl rfl

theorem next_undisturbed (l : LoopThreads φ) : Undisturbed l l.next := by
  unfold next
  split
  · exact .of_eq rfl rfl rfl
  · cases hpc : l.pc with
    | starting wakeup =>
      cases wakeup with
      | true => exact ⟨rfl, rfl, nofun⟩
      | false => exact ⟨rfl, rfl, nofun⟩
    | testing =>
      refine ⟨rfl, rfl, fun h => .inr ?_⟩
      by_contra hq
      simp [hq] at h
    | handling active =>
      cases active with
      | nil => exact ⟨rfl, rfl, nofun⟩
      | cons c active =>
        cases c with
        | wakeupChannel_ => exact ⟨rfl, rfl, nofun⟩
        | other => exact ⟨rfl, rfl, nofun⟩
    | calling functors =>
      cases functors with
      | nil => exact ⟨rfl, rfl, nofun⟩
      | cons f functors => exact ⟨rfl, rfl, nofun⟩
    | waiting => exact ⟨rfl, rfl, .inl⟩
    | stopped => exact ⟨rfl, rfl, .inl⟩

theorem step_undisturbed (l : LoopThreads φ) {a : Step φ} (ha : ByOthers a) : Undisturbed l (machine.step l a).1 := by
  cases a with
  | quit thread => exact absurd ha id
  | queueInLoop thread cb => exact queueInLoop_undisturbed ha cb
  | runInLoop thread cb =>
    cases thread with
    | none => exact .of_eq rfl rfl rfl
    | some t => exact queueInLoop_undisturbed ha cb
  | wakeup thread =>
    cases thread with
    | none =>
      simp only [machine, wakeup]
      split
      · exact .of_eq rfl rfl rfl
      · exact .of_eq rfl rfl rfl
    | some t =>
      have hne : 0 ≠ t := fun h => ha (congrArg some h.symm)
      simp only [machine, wakeup]
      split
      · exact .of_eq rfl rfl rfl
      · exact ⟨rfl, Function.update_of_ne hne _ _, .inl⟩
  | epollWait ready =>
    simp only [machine, epollWait]
    split
    · split
      · exact ⟨rfl, rfl, nofun⟩
      · exact ⟨rfl, rfl, nofun⟩
    · exact .of_eq rfl rfl rfl
  | next => exact next_undisturbed l
  | registers remove c =>
    simp only [machine, registers]
    split
    · exact .of_eq rfl rfl rfl
    · exact .of_eq rfl rfl rfl

/-! ## The end of a loop -/

/-- A step of the loop thread that calls nothing itself. -/
def OfLoop : Step φ → Prop
  | .wakeup none | .epollWait _ | .next => True
  | _ => False

theorem OfLoop.byOthers {a : Step φ} (h : OfLoop a) : ByOthers a := by
  cases a with
  | wakeup thread =>
    cases thread with
    | none => exact nofun
    | some t => exact absurd h id
  | epollWait ready => trivial
  | next => trivial
  | _ => exact absurd h id

/-- By itself the loop thread can come to the end of `poll()`. -/
def Ends (l : LoopThreads φ) : Prop := ∃ steps, (∀ a ∈ steps, OfLoop a) ∧ (machine.final l steps).pc = .stopped

theorem Ends.step {a : Step φ} (ha : OfLoop a) (h : Ends (machine.step l a).1) : Ends l := by
  obtain ⟨steps, hs, hpc⟩ := h
  refine ⟨a :: steps, fun b hb => ?_, hpc⟩
  rcases List.mem_cons.mp hb with rfl | hb
  · exact ha
  · exact hs b hb

theorem ends_testing (hq : l.quit_ = true) (hb : l.queueing = false) (hpc : l.pc = .testing) : Ends l := by
  refine ⟨[.next], fun b hb => ?_, ?_⟩
  · obtain rfl := List.mem_singleton.mp hb
    trivial
  · show l.next.pc = .stopped
    simp [next, hb, hpc, hq]

theorem ends_calling : ∀ (functors : List φ) {l : LoopThreads φ}, l.quit_ = true → l.queueing = false →
    l.pc = .calling functors → Ends l
  | [], l, hq, hb, hpc => by
    refine Ends.step (a := .next) trivial (ends_testing ?_ ?_ ?_)
    · simp [machine, next, hb, hpc, hq]
    · simp [machine, next, hb, hpc]
    · simp [machine, next, hb, hpc]
  | f :: functors, l, hq, hb, hpc => by
    refine Ends.step (a := .next) trivial (ends_calling functors ?_ ?_ ?_)
    · simp [machine, next, hb, hpc, hq]
    · simp [machine, next, hb, hpc]
    · simp [machine, next, hb, hpc]

theorem ends_handling : ∀ (active : List ActiveChannel) {l : LoopThreads φ}, l.quit_ = true → l.queueing = false →
    l.pc = .handling active → Ends l
  | [], l, hq, hb, hpc => by
    refine Ends.step (a := .next) trivial (ends_calling l.pendingFunctors_ ?_ ?_ ?_)
    · simp [machine, next, hb, hpc, hq]
    · simp [machine, next, hb, hpc]
    · simp [machine, next, hb, hpc]
  | c :: active, l, hq, hb, hpc => by
    refine Ends.step (a := .next) trivial (ends_handling active ?_ ?_ ?_)
    · cases c <;> simp [machine, next, hb, hpc, hq]
    · cases c <;> simp [machine, next, hb, hpc]
    · cases c <;> simp [machine, next, hb, hpc]

/-- A loop that is to quit comes to its end. -/
theorem ends_of_quit (hq : l.quit_ = true) : Ends l := by
  have hidle : ∀ {l : LoopThreads φ}, l.quit_ = true → l.queueing = false → Ends l := by
    intro l hq hb
    cases hpc : l.pc with
    | starting wakeup =>
      refine Ends.step (a := .next) trivial (ends_testing ?_ ?_ ?_)
      · cases wakeup <;> simp [machine, next, hb, hpc, hq, enableWakeup]
      · cases wakeup <;> simp [machine, next, hb, hpc, enableWakeup]
      · cases wakeup <;> simp [machine, next, hb, hpc]
    | testing => exact ends_testing hq hb hpc
    | waiting =>
      refine Ends.step (a := .epollWait []) trivial (ends_testing ?_ ?_ ?_)
      · simp [machine, epollWait, hpc, hq]
      · simp [machine, epollWait, hpc, hb]
      · simp [machine, epollWait, hpc]
    | handling active => exact ends_handling active hq hb hpc
    | calling functors => exact ends_calling functors hq hb hpc
    | stopped => exact ⟨[], nofun, hpc⟩
  cases hb : l.queueing with
  | false => exact hidle hq hb
  | true =>
    refine Ends.step (a := .wakeup none) trivial (hidle ?_ ?_)
    · simp [machine, wakeup, hb, hq]
    · simp [machine, wakeup, hb]

end LoopThreads

namespace EpollerThread

variable {φ : Type} {s : EpollerThread φ}

/-- Where `threadFunc()` may be while the owner is at a place. -/
def places : OwnerPc → List ThreadFuncPc
  | .constructed => [.created]
  | .locking => [.entering, .publishing, .polling]
  | .waiting signalled => if signalled then [.polling] else [.entering, .publishing]
  | .returning | .started | .quitting => [.polling]
  | .waking | .joining => [.polling, .leaving, .finished]
  | .destroyed => [.created, .finished]

/-- The destructor has set `quit_`. -/
def hasQuit : OwnerPc → Bool
  | .waking | .joining => true
  | _ => false

/-- A loop in scope: it is to quit when the destructor says so, and only then can it be at its end. -/
structure InScope (owner : OwnerPc) (l : LoopThreads φ) : Prop where
  quit_ : l.quit_ = hasQuit owner
  caller : l.threads 0 = if owner = .waking then .quit else .idle
  stopped : l.pc = .stopped → hasQuit owner = true

/-- What holds before every step. -/
structure Inv (s : EpollerThread φ) : Prop where
  place : s.threadFunc ∈ places s.owner
  pointer : s.epoller_ = decide (s.threadFunc = .polling)
  scope : s.epoller.isSome = decide (s.threadFunc ∈ [.publishing, .polling, .leaving])
  inScope : ∀ l, s.epoller = some l → InScope s.owner l
  returned : s.returned ≠ some false

/-- The steps of a run in which nobody but the destructor quits the loop. -/
def Action.Alone : Action φ → Prop
  | .runLoop a => LoopThreads.ByOthers a
  | _ => True

instance : DecidablePred (Action.Alone (φ := φ))
  | .runLoop a => inferInstanceAs (Decidable (LoopThreads.ByOthers a))
  | .startEpoll | .runThread .. | .destruct => inferInstanceAs (Decidable True)

theorem new_inv : Inv (new : EpollerThread φ) where
  place := List.mem_singleton_self _
  pointer := rfl
  scope := rfl
  inScope _ h := by cases h
  returned := nofun

theorem ne_waking {pc : OwnerPc} (h : hasQuit pc = false) : pc ≠ .waking := by
  rintro rfl
  cases h

theorem Inv.pointer_of_eq (h : Inv s) (ht : s.threadFunc = .polling) : s.epoller_ = true :=
  h.pointer.trans (decide_eq_true ht)

theorem Inv.pointer_of_ne (h : Inv s) (ht : s.threadFunc ≠ .polling) : s.epoller_ = false :=
  h.pointer.trans (decide_eq_false ht)

/-- The owner moves on, without a call on the loop. -/
theorem Inv.move (h : Inv s) (hq : hasQuit s.owner = false) {p : OwnerPc} (hp : s.threadFunc ∈ places p)
    (hq' : hasQuit p = false) : Inv { s with owner := p } where
  place := hp
  pointer := h.pointer
  scope := h.scope
  inScope l hl := by
    obtain ⟨hquit, hcaller, hstop⟩ := h.inScope l hl
    rw [if_neg (ne_waking hq)] at hcaller
    refine ⟨hquit.trans (hq.trans hq'.symm), ?_, fun hs => ?_⟩
    · rw [hcaller, if_neg (ne_waking hq')]
    · rw [hq] at hstop
      exact absurd (hstop hs) Bool.false_ne_true
  returned := h.returned

/-! ## The owner in `startEpoll()` -/

theorem Inv.awaitLoop (h : Inv s) (hq : hasQuit s.owner = false)
    (hp : s.threadFunc ∈ [ThreadFuncPc.entering, .publishing, .polling]) : Inv s.awaitLoop := by
  have hpointer := h.pointer
  unfold EpollerThread.awaitLoop
  by_cases ht : s.threadFunc = .polling
  · rw [ht, decide_eq_true rfl] at hpointer
    rw [if_pos hpointer]
    exact h.move hq (by simp [ht, places]) rfl
  · rw [decide_eq_false ht] at hpointer
    rw [if_neg (by simp [hpointer])]
    exact h.move hq (by simpa [places, ht] using hp) rfl

theorem Inv.startEpoll (h : Inv s) : Inv s.startEpoll := by
  have hplace := h.place
  have hpointer := h.pointer
  unfold EpollerThread.startEpoll
  cases ho : s.owner with
  | constructed =>
    have ht : s.threadFunc = .created := by simpa [ho, places] using hplace
    have hnone : s.epoller = none := by simpa [ht] using h.scope
    refine ⟨by simp [places], ?_, ?_, fun l hl => ?_, h.returned⟩
    · rw [hpointer, ht]
      rfl
    · rw [hnone]
      rfl
    · exact absurd (hnone.symm.trans hl) (by simp)
  | locking => exact h.awaitLoop (by rw [ho]; rfl) (by simpa [ho, places] using hplace)
  | waiting signalled =>
    refine h.awaitLoop (by rw [ho]; rfl) ?_
    cases signalled with
    | true =>
      have ht : s.threadFunc = .polling := by simpa [ho, places] using hplace
      simp [ht]
    | false =>
      have ht : s.threadFunc = .entering ∨ s.threadFunc = .publishing := by simpa [ho, places] using hplace
      rcases ht with ht | ht
      · simp [ht]
      · simp [ht]
  | returning =>
    have ht : s.threadFunc = .polling := by simpa [ho, places] using hplace
    obtain ⟨hplace', hpointer', hscope', hin', -⟩ := h.move (p := .started) (by rw [ho]; rfl) (by simp [ht, places]) rfl
    refine ⟨hplace', hpointer', hscope', hin', ?_⟩
    rw [hpointer, ht]
    simp
  | started | quitting | waking | joining | destroyed => exact h

/-! ## The thread -/

theorem hasQuit_notify (pc : OwnerPc) : hasQuit (notify pc) = hasQuit pc := by
  cases pc <;> rfl

/-- While the thread is on its way to the loop, the owner is in `startEpoll()`. -/
theorem Inv.owner_early (h : Inv s) (ht : s.threadFunc = .entering ∨ s.threadFunc = .publishing) :
    s.owner = .locking ∨ s.owner = .waiting false := by
  have hplace := h.place
  cases ho : s.owner with
  | waiting signalled =>
    cases signalled with
    | true => rcases ht with ht | ht <;> simp [ho, ht, places] at hplace
    | false => exact .inr rfl
  | locking => exact .inl rfl
  | _ => rcases ht with ht | ht <;> simp [ho, ht, places] at hplace

/-- At the end of the thread, the owner is in the destructor. -/
theorem Inv.owner_late (h : Inv s) (ht : s.threadFunc = .leaving ∨ s.threadFunc = .polling ∧ hasQuit s.owner = true) :
    s.owner = .waking ∨ s.owner = .joining := by
  have hplace := h.place
  rcases ht with ht | ⟨-, hq⟩
  · cases ho : s.owner with
    | waiting signalled => cases signalled <;> simp [ho, ht, places] at hplace
    | waking => exact .inl rfl
    | joining => exact .inr rfl
    | _ => simp [ho, ht, places] at hplace
  · cases ho : s.owner with
    | waking => exact .inl rfl
    | joining => exact .inr rfl
    | _ => simp [ho, hasQuit] at hq

theorem Inv.runThread (h : Inv s) (this : Nat) (wakeupFd : Fd) (calling : Bool) :
    Inv (s.runThread this wakeupFd calling) := by
  have hpointer := h.pointer
  have hscope := h.scope
  unfold EpollerThread.runThread
  cases ht : s.threadFunc with
  | entering =>
    have ho := h.owner_early (.inl ht)
    rw [ht] at hpointer
    refine ⟨?_, hpointer, rfl, fun l hl => ?_, h.returned⟩
    · rcases ho with ho | ho
      · simp [ho, places]
      · simp [ho, places]
    · cases hl
      refine ⟨?_, ?_, nofun⟩
      · rcases ho with ho | ho
        · rw [ho]; rfl
        · rw [ho]; rfl
      · rcases ho with ho | ho
        · rw [ho]; rfl
        · rw [ho]; rfl
  | publishing =>
    have ho := h.owner_early (.inr ht)
    rw [ht] at hscope
    refine ⟨?_, rfl, hscope, fun l hl => ?_, h.returned⟩
    · rcases ho with ho | ho
      · simp [ho, notify, places]
      · simp [ho, notify, places]
    · obtain ⟨hquit, hcaller, hstop⟩ := h.inScope l hl
      have hq : hasQuit s.owner = false := by
        rcases ho with ho | ho
        · rw [ho]; rfl
        · rw [ho]; rfl
      have hq' : hasQuit (notify s.owner) = false := (hasQuit_notify _).trans hq
      rw [if_neg (ne_waking hq)] at hcaller
      exact ⟨hquit.trans (hasQuit_notify _).symm, by rw [hcaller, if_neg (ne_waking hq')],
        fun hs => (hasQuit_notify _).trans (hstop hs)⟩
  | polling =>
    dsimp only
    split
    · rename_i hstopped
      -- `poll()` has returned, so that the destructor has set `quit_`.
      obtain ⟨l, hl⟩ : ∃ l, s.epoller = some l := by
        rw [← Option.isSome_iff_exists, hscope, ht]
        rfl
      have hpc : l.pc = .stopped := by
        rw [hl, Option.map_some] at hstopped
        exact Option.some.inj hstopped
      have ho := h.owner_late (.inr ⟨ht, (h.inScope l hl).stopped hpc⟩)
      refine ⟨?_, rfl, ?_, h.inScope, h.returned⟩
      · rcases ho with ho | ho
        · simp [ho, places]
        · simp [ho, places]
      · rw [hl]
        rfl
    · exact h
  | leaving =>
    refine ⟨?_, h.pointer_of_ne (by simp [ht]), rfl, fun l hl => ?_, h.returned⟩
    · rcases h.owner_late (.inl ht) with ho | ho
      · simp [ho, places]
      · simp [ho, places]
    · cases hl
  | created | finished => exact h

theorem Inv.runLoop (h : Inv s) {a : LoopThreads.Step φ} (ha : LoopThreads.ByOthers a) : Inv (s.runLoop a) := by
  unfold EpollerThread.runLoop
  split
  · refine ⟨h.place, h.pointer, ?_, fun l' hl' => ?_, h.returned⟩
    · show (s.epoller.map _).isSome = _
      rw [Option.isSome_map, h.scope]
    · obtain ⟨l, hl, rfl⟩ := Option.map_eq_some_iff.mp hl'
      obtain ⟨hquit, hcaller, hstop⟩ := h.inScope l hl
      obtain ⟨hquit', hcaller', hstop'⟩ := LoopThreads.step_undisturbed l ha
      refine ⟨hquit'.trans hquit, hcaller'.trans hcaller, fun hs => ?_⟩
      rcases hstop' hs with hs | hs
      · exact hstop hs
      · exact hquit.symm.trans hs
  · exact h

/-! ## The owner in the destructor -/

/-- A call on the loop that `epoller_` points to, of `quit()` or of its `wakeup()`. -/
theorem Inv.onLoop (h : Inv s) {call : LoopThreads φ → LoopThreads φ} {pc : OwnerPc} (hp : s.threadFunc ∈ places pc)
    (hcall : ∀ l, InScope s.owner l → InScope pc (call l)) : Inv (s.onLoop call pc) := by
  unfold EpollerThread.onLoop
  have hscope := h.scope
  split
  · rename_i l hl
    rw [hl] at hscope
    refine ⟨hp, h.pointer, hscope, fun l' hl' => ?_, h.returned⟩
    cases hl'
    exact hcall l (h.inScope l hl)
  · rename_i hl
    exact ⟨hp, h.pointer, hscope, fun l' hl' => absurd (hl.symm.trans hl') (by simp), h.returned⟩

theorem InScope.quit {l : LoopThreads φ} {pc : OwnerPc} (h : InScope pc l) (hq : hasQuit pc = false) :
    InScope .waking (l.quit (some 0)) := by
  obtain ⟨-, hcaller, -⟩ := h
  rw [if_neg (ne_waking hq)] at hcaller
  unfold LoopThreads.quit
  dsimp only
  rw [if_pos hcaller]
  refine ⟨rfl, ?_, fun _ => rfl⟩
  show Function.update l.threads 0 Caller.quit 0 = _
  rw [Function.update_self, if_pos rfl]

theorem InScope.wakeup {l : LoopThreads φ} (h : InScope .waking l) : InScope .joining (l.wakeup (some 0)) := by
  obtain ⟨hquit, hcaller, -⟩ := h
  have hbusy : l.threads 0 ≠ .idle := by simp [hcaller]
  unfold LoopThreads.wakeup
  dsimp only
  rw [if_neg hbusy]
  refine ⟨hquit, ?_, fun _ => rfl⟩
  show Function.update l.threads 0 Caller.idle 0 = _
  rw [Function.update_self, if_neg (by decide)]

theorem Inv.destruct (h : Inv s) : Inv s.destruct := by
  have hplace := h.place
  unfold EpollerThread.destruct
  cases ho : s.owner with
  | constructed =>
    have ht : s.threadFunc = .created := by simpa [ho, places] using hplace
    have hmove := h.move (p := .destroyed) (by rw [ho]; rfl) (by simp [ht, places]) rfl
    simp only [h.pointer_of_ne (by simp [ht] : s.threadFunc ≠ .polling), Bool.false_eq_true, if_false]
    exact ⟨hmove.place, by simp [ht], hmove.scope, hmove.inScope, hmove.returned⟩
  | started =>
    have ht : s.threadFunc = .polling := by simpa [ho, places] using hplace
    have hmove := h.move (p := .quitting) (by rw [ho]; rfl) (by simp [ht, places]) rfl
    simp only [h.pointer_of_eq ht, if_true]
    exact ⟨hmove.place, by simp [ht], hmove.scope, hmove.inScope, hmove.returned⟩
  | quitting =>
    have ht : s.threadFunc = .polling := by simpa [ho, places] using hplace
    dsimp only
    rw [if_pos (h.pointer_of_eq ht)]
    refine h.onLoop (by simp [ht, places]) fun l hl => ?_
    rw [ho] at hl
    exact hl.quit rfl
  | waking =>
    refine h.onLoop (by simpa [ho, places] using hplace) fun l hl => ?_
    rw [ho] at hl
    exact hl.wakeup
  | joining =>
    dsimp only
    split
    · rename_i ht
      have hnone : s.epoller = none := by simpa [ht] using h.scope
      refine ⟨by simp [ht, places], h.pointer, h.scope, fun l hl => ?_, h.returned⟩
      exact absurd (hnone.symm.trans hl) (by simp)
    · exact h
  | locking | waiting _ | returning | destroyed => exact h

/-! ## Runs -/

theorem step_inv (h : Inv s) {a : Action φ} (ha : a.Alone) : Inv (machine.step s a).1 := by
  cases a with
  | startEpoll => exact h.startEpoll
  | runThread this wakeupFd calling => exact h.runThread this wakeupFd calling
  | runLoop a => exact h.runLoop ha
  | destruct => exact h.destruct

/-- The `wakeup()` of the destructor finds the loop in scope. -/
def Reaches (s : EpollerThread φ) : Action φ → Prop
  | .destruct => s.owner = .waking → s.epoller.isSome
  | _ => True

instance (s : EpollerThread φ) : DecidablePred s.Reaches
  | .destruct => inferInstanceAs (Decidable (_ → _))
  | .startEpoll | .runThread .. | .runLoop _ => inferInstanceAs (Decidable True)

theorem crashed_onLoop (s : EpollerThread φ) (call : LoopThreads φ → LoopThreads φ) (pc : OwnerPc) :
    (s.onLoop call pc).crashed = (s.crashed || !s.epoller.isSome) := by
  unfold onLoop
  split
  · rename_i l hl
    simp [hl]
  · rename_i hl
    simp [hl]

/-- No other step touches a loop that is out of scope. -/
theorem crashed_step (h : Inv s) (a : Action φ) :
    (machine.step s a).1.crashed = false ↔ s.crashed = false ∧ s.Reaches a := by
  have hsame : (machine.step s a).1.crashed = s.crashed → s.Reaches a →
      ((machine.step s a).1.crashed = false ↔ s.crashed = false ∧ s.Reaches a) := by
    intro he hr
    rw [he]
    exact ⟨fun hc => ⟨hc, hr⟩, And.left⟩
  cases a with
  | startEpoll =>
    refine hsame ?_ trivial
    show s.startEpoll.crashed = s.crashed
    unfold EpollerThread.startEpoll EpollerThread.awaitLoop
    split <;> rfl
  | runThread this wakeupFd calling =>
    refine hsame ?_ trivial
    show (s.runThread this wakeupFd calling).crashed = s.crashed
    unfold EpollerThread.runThread
    split
    · rfl
    · rfl
    · split <;> rfl
    · rfl
    · rfl
    · rfl
  | runLoop a =>
    refine hsame ?_ trivial
    show (s.runLoop a).crashed = s.crashed
    unfold EpollerThread.runLoop
    split <;> rfl
  | destruct =>
    show s.destruct.crashed = false ↔ _
    unfold EpollerThread.destruct Reaches
    cases ho : s.owner with
    | quitting =>
      have ht : s.threadFunc = .polling := by simpa [ho, places] using h.place
      have hsome : s.epoller.isSome = true := by simp [h.scope, ht]
      simp [h.pointer_of_eq ht, crashed_onLoop, hsome]
    | waking => simp [crashed_onLoop]
    | joining =>
      dsimp only
      split
      · simp
      · simp
    | _ => simp

/-- In every run in which nobody but the destructor quits the loop: `startEpoll()` returns a loop, and
a notification is still to come whenever its caller sleeps; from then on until the destructor calls
`quit()` the loop is in scope; and the destructor returns behind the end of the thread, if there was
one. No call is made on a loop out of scope if and only if each `wakeup()` of the destructor comes
before the end of the scope. -/
theorem owner_ok (actions : List (Action φ)) (ha : ∀ a ∈ actions, a.Alone) :
    let s := machine.final new actions
    s.returned ≠ some false ∧
    (s.owner = .waiting false → s.threadFunc = .entering ∨ s.threadFunc = .publishing) ∧
    (s.owner = .returning ∨ s.owner = .started ∨ s.owner = .quitting →
      s.epoller_ = true ∧ ∃ l, s.epoller = some l ∧ l.quit_ = false ∧ l.pc ≠ .stopped) ∧
    (s.owner = .destroyed → s.threadFunc = .created ∨ s.threadFunc = .finished) ∧
    (s.crashed = false ↔ machine.Along Reaches new actions) := by
  intro s
  have h : Inv s := Machine.invariant (I := Inv) (P := fun _ a => a.Alone) (fun _ _ h ha => step_inv h ha) actions _
    new_inv (Machine.Along.of_forall ha _)
  refine ⟨h.returned, fun ho => ?_, fun ho => ?_, fun ho => ?_, ?_⟩
  · simpa [ho, places] using h.place
  · have ht : s.threadFunc = .polling := by
      rcases ho with ho | ho | ho
      · simpa [ho, places] using h.place
      · simpa [ho, places] using h.place
      · simpa [ho, places] using h.place
    have hq : hasQuit s.owner = false := by
      rcases ho with ho | ho | ho
      · rw [ho]; rfl
      · rw [ho]; rfl
      · rw [ho]; rfl
    obtain ⟨l, hl⟩ := Option.isSome_iff_exists.mp (h.scope.trans (by simp [ht]))
    obtain ⟨hquit, -, hstop⟩ := h.inScope l hl
    refine ⟨h.pointer_of_eq ht, l, hl, hquit.trans hq, fun hs => ?_⟩
    rw [hq] at hstop
    exact absurd (hstop hs) Bool.false_ne_true
  · simpa [ho, places] using h.place
  · have hrun : ∀ (actions : List (Action φ)) (s : EpollerThread φ), Inv s → (∀ a ∈ actions, a.Alone) →
        ((machine.final s actions).crashed = false ↔ s.crashed = false ∧ machine.Along Reaches s actions) := by
      intro actions
      induction actions with
      | nil => exact fun s _ _ => ⟨fun hc => ⟨hc, trivial⟩, And.left⟩
      | cons a actions ih =>
        intro s h ha
        rw [Machine.final, ih _ (step_inv h (ha a List.mem_cons_self)) fun b hb => ha b (List.mem_cons_of_mem _ hb),
          crashed_step h a, and_assoc]
        exact Iff.rfl
    rw [hrun actions new new_inv ha]
    exact ⟨And.right, fun h => ⟨rfl, h⟩⟩

/-- The thread finds `quit_` set and ends before the destructor comes to `wakeup()`. -/
def promptRun : List (Action Unit) :=
  [.startEpoll, .startEpoll, .runThread 1 5 false, .runThread 1 5 false, .startEpoll, .startEpoll, .runLoop .next,
    .destruct, .destruct, .runLoop .next, .runThread 1 5 false, .runThread 1 5 false, .destruct, .destruct]

theorem owner_ok_promptRun :
    (machine.final new promptRun).owner = .destroyed ∧ (machine.final new promptRun).threadFunc = .finished ∧
      (machine.final new promptRun).crashed ≠ false := by
  obtain ⟨-, -, -, hdone, hsafe⟩ := owner_ok promptRun (by decide)
  have ho : (machine.final new promptRun).owner = .destroyed := by decide +kernel
  refine ⟨ho, (hdone ho).resolve_left (by decide +kernel), fun hc => ?_⟩
  exact absurd (hsafe.mp hc) (by decide +kernel)

/-! ## The destructor returns -/

/-- A step of the owner or of the thread itself. -/
def Action.Own : Action φ → Prop
  | .runLoop a => LoopThreads.OfLoop a
  | _ => True

theorem Action.Own.alone {a : Action φ} (h : a.Own) : a.Alone := by
  cases a with
  | runLoop a => exact LoopThreads.OfLoop.byOthers h
  | _ => trivial

/-- By steps of their own, the owner and the thread can come to the end of the destructor. -/
def Returns (s : EpollerThread φ) : Prop := ∃ more, (∀ a ∈ more, a.Own) ∧ (machine.final s more).owner = .destroyed

theorem Returns.step {a : Action φ} (ha : a.Own) (h : Returns (machine.step s a).1) : Returns s := by
  obtain ⟨more, hm, ho⟩ := h
  refine ⟨a :: more, fun b hb => ?_, ho⟩
  rcases List.mem_cons.mp hb with rfl | hb
  · exact ha
  · exact hm b hb

theorem returns_finished (ho : s.owner = .joining) (ht : s.threadFunc = .finished) : Returns s := by
  refine Returns.step (a := .destruct) trivial ⟨[], nofun, ?_⟩
  simp [machine, destruct, ho, ht, Machine.final]

theorem returns_leaving (ho : s.owner = .joining) (ht : s.threadFunc = .leaving) : Returns s := by
  refine Returns.step (a := .runThread 0 0 false) trivial (returns_finished ?_ ?_)
  · simp [machine, runThread, ho, ht]
  · simp [machine, runThread, ht]

/-- The loop thread is in `poll()`, and makes some steps there. -/
theorem final_runLoop (ht : s.threadFunc = .polling) {l : LoopThreads φ} (hl : s.epoller = some l)
    (steps : List (LoopThreads.Step φ)) : machine.final s (steps.map .runLoop) =
      { s with epoller := some (LoopThreads.machine.final l steps) } := by
  induction steps generalizing s l with
  | nil =>
    rw [List.map_nil, Machine.final, Machine.final, ← hl]
  | cons a steps ih =>
    have hs : (machine.step s (.runLoop a)).1 = { s with epoller := some (LoopThreads.machine.step l a).1 } := by
      simp [machine, runLoop, ht, hl]
    rw [List.map_cons, Machine.final, hs, ih (s := { s with epoller := some (LoopThreads.machine.step l a).1 }) ht rfl]
    rfl

theorem returns_joining (h : Inv s) (ho : s.owner = .joining) : Returns s := by
  have ht : s.threadFunc = .polling ∨ s.threadFunc = .leaving ∨ s.threadFunc = .finished := by
    simpa [ho, places] using h.place
  rcases ht with ht | ht | ht
  · obtain ⟨l, hl⟩ := Option.isSome_iff_exists.mp (h.scope.trans (by simp [ht]))
    have hquit : l.quit_ = true := (h.inScope l hl).quit_.trans (by rw [ho]; rfl)
    obtain ⟨steps, hsteps, hstopped⟩ := LoopThreads.ends_of_quit hquit
    have hleaves : Returns (machine.final s (steps.map .runLoop)) := by
      rw [final_runLoop ht hl]
      refine Returns.step (a := .runThread 0 0 false) trivial (returns_leaving ?_ ?_)
      · simp [machine, runThread, ht, hstopped, ho]
      · simp [machine, runThread, ht, hstopped]
    obtain ⟨more, hm, hd⟩ := hleaves
    refine ⟨steps.map .runLoop ++ more, fun a ha => ?_, ?_⟩
    · rcases List.mem_append.mp ha with ha | ha
      · obtain ⟨b, hb, rfl⟩ := List.mem_map.mp ha
        exact hsteps b hb
      · exact hm a ha
    · rw [Machine.final_append]
      exact hd
  · exact returns_leaving ho ht
  · exact returns_finished ho ht

theorem owner_onLoop (s : EpollerThread φ) (call : LoopThreads φ → LoopThreads φ) (pc : OwnerPc) :
    (s.onLoop call pc).owner = pc := by
  unfold onLoop
  split <;> rfl

theorem returns_started (h : Inv s) (ho : s.owner = .started ∨ s.owner = .returning) : Returns s := by
  have hwaking : ∀ {s : EpollerThread φ}, Inv s → s.owner = .waking → Returns s := by
    intro s h ho
    refine Returns.step (a := .destruct) trivial (returns_joining h.destruct ?_)
    simp [machine, destruct, ho, owner_onLoop]
  have hquitting : ∀ {s : EpollerThread φ}, Inv s → s.owner = .quitting → Returns s := by
    intro s h ho
    have ht : s.threadFunc = .polling := by simpa [ho, places] using h.place
    refine Returns.step (a := .destruct) trivial (hwaking h.destruct ?_)
    simp [machine, destruct, ho, h.pointer_of_eq ht, owner_onLoop]
  have hstarted : ∀ {s : EpollerThread φ}, Inv s → s.owner = .started → Returns s := by
    intro s h ho
    have ht : s.threadFunc = .polling := by simpa [ho, places] using h.place
    refine Returns.step (a := .destruct) trivial (hquitting h.destruct ?_)
    simp [machine, destruct, ho, h.pointer_of_eq ht]
  rcases ho with ho | ho
  · exact hstarted h ho
  · refine Returns.step (a := .startEpoll) trivial (hstarted h.startEpoll ?_)
    simp [machine, startEpoll, ho]

theorem returns_waiting (h : Inv s) (ho : s.owner = .locking ∨ ∃ signalled, s.owner = .waiting signalled) :
    Returns s := by
  have hpolling : ∀ {s : EpollerThread φ}, Inv s → (s.owner = .locking ∨ ∃ signalled, s.owner = .waiting signalled) →
      s.threadFunc = .polling → Returns s := by
    intro s h ho ht
    refine Returns.step (a := .startEpoll) trivial (returns_started h.startEpoll (.inr ?_))
    rcases ho with ho | ⟨signalled, ho⟩
    · simp [machine, startEpoll, awaitLoop, ho, h.pointer_of_eq ht]
    · simp [machine, startEpoll, awaitLoop, ho, h.pointer_of_eq ht]
  have hpublishing : ∀ {s : EpollerThread φ}, Inv s → s.threadFunc = .publishing → Returns s := by
    intro s h ht
    refine Returns.step (a := .runThread 0 0 false) trivial (hpolling (h.runThread 0 0 false) ?_ ?_)
    · rcases h.owner_early (.inr ht) with ho | ho
      · exact .inl (by simp [machine, runThread, ht, ho, notify])
      · exact .inr ⟨true, by simp [machine, runThread, ht, ho, notify]⟩
    · simp [machine, runThread, ht]
  have hplace : s.threadFunc = .entering ∨ s.threadFunc = .publishing ∨ s.threadFunc = .polling := by
    rcases ho with ho | ⟨signalled, ho⟩
    · simpa [ho, places] using h.place
    · cases signalled with
      | true =>
        have ht : s.threadFunc = .polling := by simpa [ho, places] using h.place
        exact .inr (.inr ht)
      | false =>
        have ht : s.threadFunc = .entering ∨ s.threadFunc = .publishing := by simpa [ho, places] using h.place
        exact ht.imp_right .inl
  rcases hplace with ht | ht | ht
  · refine Returns.step (a := .runThread 0 0 false) trivial (hpublishing (h.runThread 0 0 false) ?_)
    simp [machine, runThread, ht]
  · exact hpublishing h ht
  · exact hpolling h ho ht

/-- Wherever the owner and the thread are, after any run in which nobody but the destructor quits the
loop, they can come to the end of the destructor by steps of their own. -/
theorem destructor_returns (actions : List (Action φ)) (ha : ∀ a ∈ actions, a.Alone) :
    ∃ more, (∀ a ∈ more, a.Own) ∧ (machine.final new (actions ++ more)).owner = .destroyed := by
  have h : Inv (machine.final new actions) := Machine.invariant (I := Inv) (P := fun _ a => a.Alone)
    (fun _ _ h ha => step_inv h ha) actions _ new_inv (Machine.Along.of_forall ha _)
  obtain ⟨more, hm, ho⟩ : Returns (machine.final new actions) := by
    cases ho : (machine.final new actions).owner with
    | constructed =>
      refine Returns.step (a := .destruct) trivial ⟨[], nofun, ?_⟩
      have ht : (machine.final new actions).threadFunc = .created := by simpa [ho, places] using h.place
      show (machine.final new actions).destruct.owner = .destroyed
      simp [destruct, ho, h.pointer_of_ne (by simp [ht])]
    | locking => exact returns_waiting h (.inl ho)
    | waiting signalled => exact returns_waiting h (.inr ⟨signalled, ho⟩)
    | returning => exact returns_started h (.inr ho)
    | started => exact returns_started h (.inl ho)
    | quitting =>
      have ht : (machine.final new actions).threadFunc = .polling := by simpa [ho, places] using h.place
      refine Returns.step (a := .destruct) trivial (Returns.step (a := .destruct) trivial ?_)
      have hw : (machine.final new actions).destruct.owner = .waking := by
        simp [destruct, ho, h.pointer_of_eq ht, owner_onLoop]
      refine returns_joining h.destruct.destruct ?_
      show EpollerThread.owner (destruct (machine.final new actions).destruct) = .joining
      rw [destruct, hw, owner_onLoop]
    | waking =>
      refine Returns.step (a := .destruct) trivial (returns_joining h.destruct ?_)
      show EpollerThread.owner (destruct (machine.final new actions)) = .joining
      rw [destruct, ho, owner_onLoop]
    | joining => exact returns_joining h ho
    | destroyed => exact ⟨[], nofun, ho⟩
  refine ⟨more, hm, ?_⟩
  rw [Machine.final_append]
  exact ho

/-- The caller of `startEpoll()` sleeps, and the thread has just begun. -/
theorem destructor_returns_waiting :
    (machine.final (new : EpollerThread Unit) [.startEpoll, .startEpoll]).owner = .waiting false ∧
      ∃ more, (machine.final (new : EpollerThread Unit) ([.startEpoll, .startEpoll] ++ more)).owner = .destroyed := by
  obtain ⟨more, -, ho⟩ := destructor_returns (φ := Unit) [.startEpoll, .startEpoll] (by decide)
  exact ⟨by decide, more, ho⟩

end EpollerThread

end Ydx
