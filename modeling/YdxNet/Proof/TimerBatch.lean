import YdxNet.Proof.TimerRuns

/-!
# One batch of timers

What a `handleRead` does when its callbacks keep to what is allowed: it runs
the timers that are due, once each and in the order of their expirations
(`handleRead_runs`), and then has each repeating timer in the container again,
at `now` plus its interval, and none of the one-shot timers
(`handleRead_repeating`, `handleRead_oneShot`).
-/

namespace Ydx

/-- An event `ran`. -/
def Event.isRan : Event → Bool
  | .ran .. => true
  | _ => false

namespace TimerSet

open OrderedSet

variable {s : TimerSet} {batch : List Entry} {now later : Int} {callbacks : List (List Action)} {e : Entry}
  {t : Timer}

/-- The event of running the timer of an entry. -/
def ranEvent (s : TimerSet) (now : Int) (e : Entry) : Event := .ran (s.deref e.second).1.sequence_ now

/-! ## The timers that run -/

theorem Inv.action_events (h : Inv batch s) {action : Action} (ha : action.Allowed s) :
    (action.apply s).2.filter Event.isRan = [] := by
  cases action with
  | addTimer a w i n => rw [Action.apply, addTimer_eq h ha]; rfl
  | cancel id =>
    obtain ⟨t, hl, -⟩ := ha
    rw [Action.apply, cancelInLoop_eq hl]
    rfl

/-- Calls of a callback run no timer. -/
theorem Inv.calls_run_none : ∀ (actions : List Action) (s : TimerSet), Inv batch s →
    (turns now).Along Turn.Allowed s (actions.map .call) →
    ((turns now).outputs s (actions.map .call)).flatten.filter Event.isRan = []
  | [], _, _, _ => rfl
  | action :: actions, s, h, ha => by
    have h₁ := h.action_events ha.1
    have h₂ := Inv.calls_run_none actions _ (h.action _ ha.1).1 ha.2
    show ((action.apply s).2 ++ ((turns now).outputs (action.apply s).1 (actions.map .call)).flatten).filter _ = []
    rw [List.filter_append, h₁, h₂, List.append_nil]

/-- The timers of a batch run in its order, once each. -/
theorem Inv.script_runs : ∀ (expired : List Entry) (callbacks : List (List Action)) (s : TimerSet), Inv batch s →
    (∀ e ∈ expired, e ∈ batch) → (turns now).Along Turn.Allowed s (script expired callbacks) →
    ((turns now).outputs s (script expired callbacks)).flatten.filter Event.isRan =
      expired.map (s.ranEvent now)
  | [], _, _, _, _, _ => rfl
  | it :: expired, callbacks, s, h, hb, ha => by
    obtain ⟨t, ht, -⟩ := h.batch_live (hb it List.mem_cons_self)
    obtain ⟨ha₁, ha₂⟩ := Machine.Along.append.mp ha.2
    obtain ⟨h', hkeep⟩ := h.final_turns ha₁
    have h₁ := Inv.calls_run_none _ s h ha₁
    have h₂ := Inv.script_runs expired callbacks.tail _ h' (fun f hf => hb f (List.mem_cons_of_mem _ hf)) ha₂
    have hrest : expired.map (((turns now).final s ((callbacks.headD []).map .call)).ranEvent now) =
        expired.map (s.ranEvent now) := by
      refine List.map_congr_left fun f hf => ?_
      obtain ⟨u, hu, -⟩ := h.batch_live (hb f (List.mem_cons_of_mem _ hf))
      rw [ranEvent, ranEvent, deref_live hu, deref_live (hkeep f (hb f (List.mem_cons_of_mem _ hf)) u hu)]
    show (((s.deref it.second).2 ++ [s.ranEvent now it]) ++ ((turns now).outputs s
      ((callbacks.headD []).map .call ++ script expired callbacks.tail)).flatten).filter Event.isRan = _
    rw [Machine.outputs_append, List.flatten_append, deref_live ht, List.nil_append, List.filter_append,
      List.filter_append, h₁, List.nil_append, h₂, hrest]
    rfl

theorem Inv.resetOne_events (h : Inv (e :: batch) s) (now : Int) :
    (s.resetOne now e).2.filter Event.isRan = [] := by
  obtain ⟨t, ht, -⟩ := h.batch_live List.mem_cons_self
  cases hr : t.repeat_ with
  | true => rw [resetOne_repeat ht hr (h.not_mem_of_batch _)]; rfl
  | false => rw [resetOne_oneShot ht hr]; rfl

theorem Inv.resetAll_run_none : ∀ (batch : List Entry) (s : TimerSet), Inv batch s →
    ((resetAll now).outputs s batch).flatten.filter Event.isRan = []
  | [], _, _ => rfl
  | e :: batch, s, h => by
    have h₂ := Inv.resetAll_run_none batch _ (h.resetOne now)
    show ((s.resetOne now e).2 ++ ((resetAll now).outputs (s.resetOne now e).1 batch).flatten).filter _ = []
    rw [List.filter_append, h.resetOne_events now, h₂, List.append_nil]

/-- A `handleRead` runs the timers that are due. -/
theorem handleRead_runs (h : Inv [] s) (ha : s.CallbacksAllowed now callbacks) :
    (s.handleRead now callbacks later).2.filter Event.isRan = (s.due now).map (s.ranEvent now) := by
  have h₀ : Inv (s.due now) (s.taken now) := h.getExpired now _
  have h₂ := (h₀.final_turns ha).1
  rw [handleRead_eq h]
  simp only [reset, List.filter_append]
  rw [Inv.script_runs _ _ _ h₀ (fun _ he => he) ha, Inv.resetAll_run_none _ _ h₂, rearm_eq (Inv.final_resetAll _ _ _ h₂)]
  exact List.append_nil _

/-- The due entries stand in the order of their expirations. -/
theorem Inv.due_sorted (h : Inv [] s) (now : Int) : (s.due now).Pairwise fun e f => e.first ≤ f.first :=
  (h.ascending.sublist List.filter_sublist).imp fun hlt => Entry.first_le (le_of_lt hlt)

/-- The timers of different entries are different. -/
theorem Inv.due_nodup (h : Inv [] s) (now : Int) : ((s.due now).map (s.ranEvent now)).Nodup := by
  have hmem : ∀ e ∈ s.due now, e ∈ s.timer_container_ ++ [] := fun e he =>
    List.mem_append_left _ (List.mem_of_mem_filter he)
  refine List.Nodup.map_on ?_ (h.ascending.nodup.filter _)
  intro e he f hf hef
  obtain ⟨t, ht, -⟩ := (h.mem_iff e).mp (hmem e he)
  obtain ⟨u, hu, -⟩ := (h.mem_iff f).mp (hmem f hf)
  rw [ranEvent, ranEvent, deref_live ht, deref_live hu] at hef
  exact h.eq_of_second (hmem e he) (hmem f hf) (h.distinct _ _ t u ht hu (Event.ran.inj hef).1)

/-! ## What is left afterwards -/

theorem Inv.second_ne (h : Inv (e :: batch) s) : ∀ f ∈ batch, f.second ≠ e.second := by
  intro f hf hs
  have hfe : f = e := h.eq_of_second (List.mem_append_right _ (List.mem_cons_of_mem _ hf))
    (List.mem_append_right _ List.mem_cons_self) hs
  exact (List.nodup_cons.mp (List.nodup_append'.mp h.nodup).2.1).1 (hfe ▸ hf)

theorem Inv.live_resetOne (h : Inv (e :: batch) s) (ht : s.Live e.second t) (b : Addr) (u : Timer) :
    (s.resetOne now e).1.Live b u ↔
      if b = e.second then t.repeat_ = true ∧ u = { t with expiration_ := now + t.interval_.delta } else s.Live b u := by
  by_cases hr : t.repeat_ = true
  · rw [resetOne_repeat ht hr (h.not_mem_of_batch _), live_restarted]
    simp only [hr, true_and]
  · rw [resetOne_oneShot ht (Bool.eq_false_of_not_eq_true hr), live_freed]
    by_cases hb : b = e.second <;> simp [hb, hr]

/-- `reset` leaves the timers alone that are not in the batch. -/
theorem Inv.live_resetAll_other {b : Addr} {u : Timer} : ∀ (batch : List Entry) (s : TimerSet), Inv batch s →
    (∀ e ∈ batch, e.second ≠ b) → (((resetAll now).final s batch).Live b u ↔ s.Live b u)
  | [], _, _, _ => Iff.rfl
  | e :: batch, s, h, hb => by
    obtain ⟨t, ht, -⟩ := h.batch_live List.mem_cons_self
    refine (Inv.live_resetAll_other batch _ (h.resetOne now) fun f hf => hb f (List.mem_cons_of_mem _ hf)).trans ?_
    refine (h.live_resetOne ht b u).trans ?_
    rw [if_neg (hb e List.mem_cons_self).symm]

/-- `reset` puts back the repeating timers of the batch, and deletes the others. -/
theorem Inv.live_resetAll {u : Timer} : ∀ (batch : List Entry) (s : TimerSet), Inv batch s →
    e ∈ batch → s.Live e.second t → (((resetAll now).final s batch).Live e.second u ↔
      t.repeat_ = true ∧ u = { t with expiration_ := now + t.interval_.delta })
  | [], _, _, he, _ => absurd he List.not_mem_nil
  | f :: batch, s, h, he, ht => by
    rcases List.mem_cons.mp he with rfl | hm
    · refine (Inv.live_resetAll_other batch _ (h.resetOne now) h.second_ne).trans ?_
      refine (h.live_resetOne ht _ u).trans ?_
      rw [if_pos rfl]
    · obtain ⟨v, hv, -⟩ := h.batch_live List.mem_cons_self
      refine Inv.live_resetAll batch _ (h.resetOne now) hm ((h.live_resetOne hv _ t).mpr ?_)
      rw [if_neg (h.second_ne e hm)]
      exact ht

/-- What is left of a timer of the batch after a `handleRead`. -/
theorem Inv.live_handleRead (h : Inv [] s) (ha : s.CallbacksAllowed now callbacks) (he : e ∈ s.due now)
    (ht : s.Live e.second t) (later : Int) (u : Timer) : (s.handleRead now callbacks later).1.Live e.second u ↔
      t.repeat_ = true ∧ u = { t with expiration_ := now + t.interval_.delta } := by
  have h₀ : Inv (s.due now) (s.taken now) := h.getExpired now _
  obtain ⟨h₂, hkeep⟩ := h₀.final_turns ha
  have h₃ := Inv.final_resetAll now _ _ h₂
  rw [handleRead_eq h]
  simp only [reset, rearm_eq h₃]
  exact Inv.live_resetAll _ _ h₂ he (hkeep e he t ht)

/-- A repeating timer of the batch is in the container again, once. -/
theorem Inv.handleRead_repeating (h : Inv [] s) (ha : s.CallbacksAllowed now callbacks) (he : e ∈ s.due now)
    (ht : s.Live e.second t) (hr : t.repeat_ = true) :
    (s.handleRead now callbacks later).1.Live e.second { t with expiration_ := now + t.interval_.delta } ∧
    (s.handleRead now callbacks later).1.timer_container_.filter (fun f => f.second = e.second) =
      [entry (now + t.interval_.delta) e.second] := by
  have h' := h.handleRead ha later
  have hl := (h.live_handleRead ha he ht later _).mpr ⟨hr, rfl⟩
  refine ⟨hl, ?_⟩
  have hm : entry (now + t.interval_.delta) e.second ∈ (s.handleRead now callbacks later).1.timer_container_ := by
    have := (h'.mem_iff (entry (now + t.interval_.delta) e.second)).mpr ⟨_, hl, rfl⟩
    rwa [List.append_nil] at this
  refine List.perm_singleton.mp ((List.perm_ext_iff_of_nodup (h'.ascending.nodup.filter _) (List.nodup_singleton _)).mpr
    fun f => ?_)
  rw [List.mem_filter, List.mem_singleton, decide_eq_true_eq]
  constructor
  · rintro ⟨hf, hs⟩
    exact h'.eq_of_second (List.mem_append_left _ hf) (List.mem_append_left _ hm) hs
  · rintro rfl
    exact ⟨hm, rfl⟩

/-- A one-shot timer of the batch is deleted, and not in the container. -/
theorem Inv.handleRead_oneShot (h : Inv [] s) (ha : s.CallbacksAllowed now callbacks) (he : e ∈ s.due now)
    (ht : s.Live e.second t) (hr : t.repeat_ = false) :
    (∀ u, ¬ (s.handleRead now callbacks later).1.Live e.second u) ∧
    ∀ f ∈ (s.handleRead now callbacks later).1.timer_container_, f.second ≠ e.second := by
  have hn : ∀ u, ¬ (s.handleRead now callbacks later).1.Live e.second u := fun u hu =>
    absurd (((h.live_handleRead ha he ht later u).mp hu).1.symm.trans hr) Bool.noConfusion
  refine ⟨hn, fun f hf hs => ?_⟩
  obtain ⟨u, hu, -⟩ := ((h.handleRead ha later).mem_iff f).mp (List.mem_append_left _ hf)
  exact hn u (hs ▸ hu)

end TimerSet

end Ydx
