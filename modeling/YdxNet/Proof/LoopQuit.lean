import YdxNet.Proof.LoopThreads

/-!
# The functors of a loop that quits

`quit()` does not wait for the functors that were queued before it. What becomes of them is
settled by where the loop thread is when `quit_` is set (`pending_at_quit`): a loop in its
handlers calls them all before it stops, and one that is calling functors, or is about to test
`quit_`, never does. At `epoll_wait` it depends on whether that call returns an event.
-/

namespace Ydx.LoopThreads

variable {φ : Type} {s t : LoopThreads φ}

/-- The loop stops without another turn of `doPendingFunctors()`. -/
structure Leaving (s t : LoopThreads φ) : Prop where
  quit : t.quit_ = true
  called : t.executed ++ t.rest = s.executed ++ s.rest
  place : (∃ wakeup, t.pc = .starting wakeup) ∨ t.pc = .testing ∨ (∃ functors, t.pc = .calling functors) ∨ t.pc = .stopped

/-- The functors that were pushed before are called in the next turn, or were called. -/
structure Coming (s t : LoopThreads φ) : Prop where
  pushed : s.pushed <+: t.pushed
  called : (∃ active, t.pc = .handling active) ∨ s.pushed <+: t.executed ++ t.rest

/-- What a step of another thread, or of a handler, leaves alone. -/
structure Aside (t t' : LoopThreads φ) : Prop where
  pc : t'.pc = t.pc
  executed : t'.executed = t.executed
  quit : t.quit_ = true → t'.quit_ = true
  pushed : t.pushed <+: t'.pushed

theorem Aside.rest {t' : LoopThreads φ} (h : Aside t t') : t'.rest = t.rest := by
  rw [LoopThreads.rest, h.pc]
  rfl

theorem Leaving.aside {t' : LoopThreads φ} (h : Leaving s t) (ha : Aside t t') : Leaving s t' where
  quit := ha.quit h.quit
  called := by
    rw [ha.executed, ha.rest]
    exact h.called
  place := by
    rw [ha.pc]
    exact h.place

theorem Coming.aside {t' : LoopThreads φ} (h : Coming s t) (ha : Aside t t') : Coming s t' where
  pushed := h.pushed.trans ha.pushed
  called := by
    rw [ha.pc, ha.executed, ha.rest]
    exact h.called

theorem aside_queueInLoop (t : LoopThreads φ) (thread : Option Nat) (cb : φ) : Aside t (t.queueInLoop thread cb) := by
  unfold queueInLoop
  cases thread with
  | none =>
    dsimp only
    split
    · exact ⟨rfl, rfl, id, List.prefix_append _ _⟩
    · exact ⟨rfl, rfl, id, List.prefix_refl _⟩
  | some i =>
    dsimp only
    split
    · exact ⟨rfl, rfl, id, List.prefix_append _ _⟩
    · exact ⟨rfl, rfl, id, List.prefix_refl _⟩

/-- Only `epoll_wait` and the loop thread's own steps move the loop. -/
theorem aside_step (t : LoopThreads φ) {a : Step φ} (hw : ∀ ready, a ≠ .epollWait ready) (hn : a ≠ .next) :
    Aside t (machine.step t a).1 := by
  cases a with
  | queueInLoop thread cb => exact aside_queueInLoop t thread cb
  | runInLoop thread cb =>
    cases thread with
    | none => exact ⟨rfl, rfl, id, List.prefix_refl _⟩
    | some i => exact aside_queueInLoop t (some i) cb
  | quit thread =>
    cases thread <;> (simp only [machine, LoopThreads.quit]; split)
    · exact ⟨rfl, rfl, fun _ => rfl, List.prefix_refl _⟩
    · exact ⟨rfl, rfl, id, List.prefix_refl _⟩
    · exact ⟨rfl, rfl, fun _ => rfl, List.prefix_refl _⟩
    · exact ⟨rfl, rfl, id, List.prefix_refl _⟩
  | wakeup thread =>
    cases thread <;> (simp only [machine, LoopThreads.wakeup]; split)
    · exact ⟨rfl, rfl, id, List.prefix_refl _⟩
    · exact ⟨rfl, rfl, id, List.prefix_refl _⟩
    · exact ⟨rfl, rfl, id, List.prefix_refl _⟩
    · exact ⟨rfl, rfl, id, List.prefix_refl _⟩
  | epollWait ready => exact absurd rfl (hw ready)
  | next => exact absurd rfl hn
  | registers remove c =>
    simp only [machine, LoopThreads.registers]
    split
    · exact ⟨rfl, rfl, id, List.prefix_refl _⟩
    · exact ⟨rfl, rfl, id, List.prefix_refl _⟩

theorem Leaving.next (h : Leaving s t) : Leaving s t.next := by
  have hcalled := h.called
  unfold LoopThreads.next
  split
  · exact h
  · rcases h.place with ⟨wakeup, hpc⟩ | hpc | ⟨functors, hpc⟩ | hpc
    · rw [rest, hpc] at hcalled
      cases wakeup with
      | true =>
        simp only [hpc]
        exact ⟨h.quit, hcalled, .inr (.inl rfl)⟩
      | false =>
        simp only [hpc]
        exact ⟨h.quit, hcalled, .inr (.inl rfl)⟩
    · rw [rest, hpc] at hcalled
      simp only [hpc, h.quit, if_true]
      exact ⟨rfl, hcalled, .inr (.inr (.inr rfl))⟩
    · rw [rest, hpc] at hcalled
      cases functors with
      | nil =>
        simp only [hpc]
        exact ⟨h.quit, hcalled, .inr (.inl rfl)⟩
      | cons f functors =>
        simp only [hpc]
        refine ⟨h.quit, ?_, .inr (.inr (.inl ⟨functors, rfl⟩))⟩
        rw [← hcalled]
        exact List.append_assoc _ _ _
    · simp only [hpc]
      exact h

theorem Leaving.epollWait (h : Leaving s t) (ready : List ActiveChannel) : Leaving s (t.epollWait ready) := by
  have hne : t.pc ≠ .waiting := by
    rcases h.place with ⟨wakeup, hpc⟩ | hpc | ⟨functors, hpc⟩ | hpc <;> simp [hpc]
  unfold LoopThreads.epollWait
  split
  · rename_i hpc
    exact absurd hpc hne
  · exact h

theorem Coming.outside (h : Coming s t) (hpc : ∀ active, t.pc ≠ .handling active) : s.pushed <+: t.executed ++ t.rest :=
  h.called.resolve_left fun he => he.elim hpc

theorem Coming.next (h : Coming s t) (ho : Ordered t) : Coming s t.next := by
  have hall := ho.all
  unfold LoopThreads.next
  split
  · exact h
  · cases hpc : t.pc with
    | starting wakeup =>
      have hprefix := h.outside (by simp [hpc])
      rw [rest, hpc] at hprefix
      cases wakeup with
      | true => exact ⟨h.pushed, .inr hprefix⟩
      | false => exact ⟨h.pushed, .inr hprefix⟩
    | testing =>
      have hprefix := h.outside (by simp [hpc])
      rw [rest, hpc] at hprefix
      refine ⟨h.pushed, .inr ?_⟩
      have hrest : LoopThreads.rest { t with pc := if t.quit_ then .stopped else .waiting } = [] := by
        cases t.quit_ <;> rfl
      rw [hrest]
      exact hprefix
    | waiting | stopped =>
      exact h
    | handling active =>
      cases active with
      | nil =>
        -- All functors that are pending, and with them those pushed before, are taken out.
        rw [rest, hpc, List.append_nil] at hall
        refine ⟨h.pushed, .inr ?_⟩
        show s.pushed <+: t.executed ++ t.pendingFunctors_
        rw [hall]
        exact h.pushed
      | cons c active =>
        cases c with
        | wakeupChannel_ => exact ⟨h.pushed, .inl ⟨active, rfl⟩⟩
        | other => exact ⟨h.pushed, .inl ⟨active, rfl⟩⟩
    | calling functors =>
      have hprefix := h.outside (by simp [hpc])
      rw [rest, hpc] at hprefix
      cases functors with
      | nil => exact ⟨h.pushed, .inr hprefix⟩
      | cons f functors =>
        refine ⟨h.pushed, .inr ?_⟩
        show s.pushed <+: t.executed ++ [f] ++ functors
        rw [List.append_assoc]
        exact hprefix

theorem Coming.epollWait (h : Coming s t) (ready : List ActiveChannel) : Coming s (t.epollWait ready) := by
  unfold LoopThreads.epollWait
  split
  · rename_i hpc
    have hprefix := h.outside (by simp [hpc])
    rw [rest, hpc] at hprefix
    split
    · exact ⟨h.pushed, .inr hprefix⟩
    · exact ⟨h.pushed, .inl ⟨_, rfl⟩⟩
  · exact h

/-- The loop is still at `epoll_wait`. -/
structure Waiting (s t : LoopThreads φ) : Prop where
  pc : t.pc = .waiting
  quit : t.quit_ = true
  executed : t.executed = s.executed ++ s.rest
  pushed : s.pushed <+: t.pushed

theorem Waiting.aside {t' : LoopThreads φ} (h : Waiting s t) (ha : Aside t t') : Waiting s t' :=
  ⟨ha.pc.trans h.pc, ha.quit h.quit, ha.executed.trans h.executed, h.pushed.trans ha.pushed⟩

theorem Waiting.next (h : Waiting s t) : Waiting s t.next := by
  unfold LoopThreads.next
  split
  · exact h
  · simp only [h.pc]
    exact h

theorem Waiting.epollWait (h : Waiting s t) (ready : List ActiveChannel) :
    Leaving s (t.epollWait ready) ∨ Coming s (t.epollWait ready) := by
  unfold LoopThreads.epollWait
  simp only [h.pc]
  split
  · refine .inl ⟨h.quit, ?_, .inr (.inl rfl)⟩
    rw [← h.executed]
    exact List.append_nil _
  · exact .inr ⟨h.pushed, .inl ⟨_, rfl⟩⟩

/-- Where the loop is in relation to `s`, once `quit_` was set there. -/
def Settled (s t : LoopThreads φ) : Prop := Waiting s t ∨ Leaving s t ∨ Coming s t

/-- A step leaves the loop where it is, or it is one of the loop's own. -/
theorem step_cases (t : LoopThreads φ) (a : Step φ) :
    Aside t (machine.step t a).1 ∨ (machine.step t a).1 = t.next ∨ ∃ ready, (machine.step t a).1 = t.epollWait ready := by
  by_cases hw : ∃ ready, a = .epollWait ready
  · obtain ⟨ready, rfl⟩ := hw
    exact .inr (.inr ⟨ready, rfl⟩)
  · by_cases hn : a = .next
    · subst hn
      exact .inr (.inl rfl)
    · exact .inl (aside_step t (fun ready he => hw ⟨ready, he⟩) hn)

theorem Leaving.step (h : Leaving s t) (a : Step φ) : Leaving s (machine.step t a).1 := by
  rcases step_cases t a with ha | ha | ⟨ready, ha⟩
  · exact h.aside ha
  · rw [ha]
    exact h.next
  · rw [ha]
    exact h.epollWait ready

theorem Coming.step (h : Coming s t) (ho : Ordered t) (a : Step φ) : Coming s (machine.step t a).1 := by
  rcases step_cases t a with ha | ha | ⟨ready, ha⟩
  · exact h.aside ha
  · rw [ha]
    exact h.next ho
  · rw [ha]
    exact h.epollWait ready

theorem Settled.step (h : Settled s t) (ho : Ordered t) (a : Step φ) : Settled s (machine.step t a).1 := by
  rcases h with h | h | h
  · rcases step_cases t a with ha | ha | ⟨ready, ha⟩
    · exact .inl (h.aside ha)
    · rw [ha]
      exact .inl h.next
    · rw [ha]
      exact .inr (h.epollWait ready)
  · exact .inr (.inl (h.step a))
  · exact .inr (.inr (h.step ho a))

theorem Leaving.stopped (h : Leaving s t) (hpc : t.pc = .stopped) : t.executed = s.executed ++ s.rest := by
  rw [← h.called, rest, hpc, List.append_nil]

theorem Coming.stopped (h : Coming s t) (hpc : t.pc = .stopped) : s.pushed <+: t.executed := by
  have hprefix := h.outside (by simp [hpc])
  rwa [rest, hpc, List.append_nil] at hprefix

/-- What a loop that stops has called of the functors that were pushed when `quit_` was set at `s`. -/
def CalledAtEnd (s t : LoopThreads φ) : Prop :=
  match s.pc with
  | .handling _ => s.pushed <+: t.executed
  | .waiting => t.executed = s.executed ∨ s.pushed <+: t.executed
  | _ => t.executed = s.executed ++ s.rest

/-- In every run of a loop among threads, and from every moment at which `quit_` is set: when the
loop has stopped, then all functors pushed before that moment have been called, if it was in its
handlers; none but those it was calling, if it was there, or outside; and none or all, if it was
at `epoll_wait`. -/
theorem pending_at_quit (this : Nat) (wakeupFd : Fd) (calling wakeup : Bool) (before after : List (Step φ)) :
    let s := machine.final (new this wakeupFd calling wakeup) before
    let t := machine.final s after
    s.quit_ = true → t.pc = .stopped → CalledAtEnd s t := by
  intro s t hq hstop
  have h₀ : Ordered (new this wakeupFd calling wakeup : LoopThreads φ) := ⟨rfl, Nat.zero_le _, by simp [new]⟩
  have ho : Ordered s := Machine.always (fun _ a h => h.step a) before _ h₀
  have hleaving : Leaving s s → t.executed = s.executed ++ s.rest := fun h =>
    (Machine.always (I := Leaving s) (fun _ a h => h.step a) after _ h).stopped hstop
  unfold CalledAtEnd
  split
  · rename_i active hpc
    have hcoming : Coming s t ∧ Ordered t := Machine.always (I := fun t => Coming s t ∧ Ordered t)
      (fun _ a h => ⟨h.1.step h.2 a, h.2.step a⟩) after _ ⟨⟨List.prefix_refl _, .inl ⟨active, hpc⟩⟩, ho⟩
    exact hcoming.1.stopped hstop
  · rename_i hpc
    have hrest : s.rest = [] := by
      rw [rest, hpc]
    have hwaiting : Waiting s s := ⟨hpc, hq, by rw [hrest, List.append_nil], List.prefix_refl _⟩
    have hsettled : Settled s t ∧ Ordered t := Machine.always (I := fun t => Settled s t ∧ Ordered t)
      (fun _ a h => ⟨h.1.step h.2 a, h.2.step a⟩) after _ ⟨.inl hwaiting, ho⟩
    rcases hsettled.1 with h | h | h
    · exact absurd (h.pc.symm.trans hstop) (by simp)
    · refine .inl ?_
      rw [h.stopped hstop, hrest, List.append_nil]
    · exact .inr (h.stopped hstop)
  · rename_i hhandling hwaiting
    refine hleaving ⟨hq, rfl, ?_⟩
    cases hpc : s.pc with
    | starting wakeup => exact .inl ⟨wakeup, rfl⟩
    | testing => exact .inr (.inl rfl)
    | waiting => exact absurd hpc hwaiting
    | handling active => exact absurd hpc (hhandling active)
    | calling functors => exact .inr (.inr (.inl ⟨functors, rfl⟩))
    | stopped => exact .inr (.inr (.inr rfl))

/-- A functor is queued and the loop told to quit while it is in `doPendingFunctors()`. -/
def lateQuit : List (Step Nat) :=
  [.next, .next, .queueInLoop (some 0) 1, .wakeup (some 0), .epollWait [.wakeupChannel_], .next, .next,
    .queueInLoop (some 0) 2, .wakeup (some 0), .quit (some 0)]

theorem pending_at_quit_lateQuit :
    let s := machine.final (new 7 5 false true) lateQuit
    let t := machine.final s [.next, .next, .next]
    t.pc = .stopped ∧ t.pushed = [1, 2] ∧ t.executed = [1] := by
  intro s t
  have hend := pending_at_quit 7 5 false true lateQuit [.next, .next, .next] (by decide) (by decide)
  have hpc : s.pc = .calling [1] := by decide
  have hlast : CalledAtEnd s t := hend
  rw [CalledAtEnd, hpc] at hlast
  refine ⟨by decide, by decide, ?_⟩
  exact hlast.trans (by decide)

end Ydx.LoopThreads
