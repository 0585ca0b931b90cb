import YdxNet.Proof.TimerBatch

/-!
# The history of a timer

The events of a run that concern one timer, named by its sequence number,
tell its story: a one-shot timer is added, and then either cancelled or run
once, not before its time, and nothing after that (`Told`). `Story` keeps this
along a run, also inside a batch, where `todo` are the timers that have not
run yet and `ran` those that have. `timers_fire_when_due` collects what holds
of a timer set after every run.
-/

namespace Ydx

/-- The event is about the timer with this sequence number. -/
def Event.concerns (n : Nat) : Event → Bool
  | .added id _ _ => id.sequence_ == n
  | .cancelled id => id.sequence_ == n
  | .ran sequence _ => sequence == n
  | _ => false

/-- The events about a timer. -/
def about (n : Nat) (events : List Event) : List Event := events.filter (Event.concerns n)

theorem about_append (n : Nat) (l k : List Event) : about n (l ++ k) = about n l ++ about n k := List.filter_append ..

/-- The story of a timer, if it is a one-shot timer and has ended. -/
def Told (events : List Event) : Prop :=
  ∀ id w i, .added id w i ∈ events → i.positive = false →
    events = [.added id w i, .cancelled id] ∨ ∃ now, w ≤ now ∧ events = [.added id w i, .ran id.sequence_ now]

namespace TimerSet

open OrderedSet

/-- The stories of all timers, in the middle of a batch. -/
structure Story (todo ran : List Entry) (events : List Event) (s : TimerSet) : Prop where
  unborn : ∀ n, s.timer_sequence_creater < n → about n events = []
  waiting : ∀ e ∈ s.timer_container_ ++ todo, ∀ t, s.Live e.second t → t.repeat_ = false →
    about t.sequence_ events = [.added ⟨e.second, t.sequence_⟩ t.expiration_ t.interval_]
  fired : ∀ e ∈ ran, ∀ t, s.Live e.second t → t.repeat_ = false → ∃ now, t.expiration_ ≤ now ∧
    about t.sequence_ events = [.added ⟨e.second, t.sequence_⟩ t.expiration_ t.interval_, .ran t.sequence_ now]
  repeating : ∀ a t, s.Live a t → t.repeat_ = true →
    ∀ id w i, .added id w i ∈ about t.sequence_ events → i.positive = true
  gone : ∀ n, (∀ a t, s.Live a t → t.sequence_ ≠ n) → Told (about n events)

variable {s : TimerSet} {todo ran : List Entry} {events : List Event} {now later : Int}
  {callbacks : List (List Action)} {e : Entry} {t : Timer}

theorem about_none {n : Nat} {new : List Event} (h : ∀ ev ∈ new, ev.concerns n = false) :
    about n (events ++ new) = about n events := by
  rw [about_append, show about n new = [] from List.filter_eq_nil_iff.mpr fun ev hev => by simp [h ev hev],
    List.append_nil]

/-- A repeating timer has no story that ends. -/
theorem told_of_pos (h : ∀ id w i, .added id w i ∈ events → i.positive = true) : Told events := by
  intro id w i hin hi
  exact absurd (hi.symm.trans (h id w i hin)) Bool.false_ne_true

theorem told_cancelled (id : TimerId) (w : Int) (i : Interval) : Told [.added id w i, .cancelled id] := by
  intro id' w' i' hin _
  rcases List.mem_cons.mp hin with hin | hin
  · obtain ⟨rfl, rfl, rfl⟩ := Event.added.inj hin
    exact .inl rfl
  · exact absurd (List.mem_singleton.mp hin) Event.noConfusion

theorem told_ran {id : TimerId} {w : Int} {i : Interval} (hn : w ≤ now) : Told [.added id w i, .ran id.sequence_ now] := by
  intro id' w' i' hin _
  rcases List.mem_cons.mp hin with hin | hin
  · obtain ⟨rfl, rfl, rfl⟩ := Event.added.inj hin
    exact .inr ⟨now, hn, rfl⟩
  · exact absurd (List.mem_singleton.mp hin) Event.noConfusion

theorem new_story : Story [] [] [] new where
  unborn _ _ := rfl
  waiting _ he := absurd he List.not_mem_nil
  fired _ he := absurd he List.not_mem_nil
  repeating _ _ h := absurd h (Option.some_ne_none _).symm
  gone _ _ _ _ _ h := absurd h List.not_mem_nil

theorem Story.addTimer {a : Addr} (h : Story todo ran events s) (hi : Inv (ran ++ todo) s) (ha : s.Fresh a)
    (w : Int) (i : Interval) (n : Int) :
    Story todo ran (events ++ [.added ⟨a, s.timer_sequence_creater + 1⟩ w i]) (s.added a w i n) := by
  have hother : ∀ m, m ≠ s.timer_sequence_creater + 1 →
      about m (events ++ [.added ⟨a, s.timer_sequence_creater + 1⟩ w i]) = about m events := fun m hm =>
    about_none fun ev hev => by
      rw [List.mem_singleton.mp hev]
      exact beq_false_of_ne hm.symm
  have hnew : about (s.timer_sequence_creater + 1) (events ++ [.added ⟨a, s.timer_sequence_creater + 1⟩ w i]) =
      [.added ⟨a, s.timer_sequence_creater + 1⟩ w i] := by
    rw [about_append, h.unborn _ (Nat.lt_succ_self _)]
    simp [about, Event.concerns]
  have hold : ∀ {b u}, s.Live b u → u.sequence_ ≠ s.timer_sequence_creater + 1 := fun hb =>
    Nat.ne_of_lt (Nat.lt_succ_of_le (hi.issued _ _ hb))
  refine ⟨?_, ?_, ?_, ?_, ?_⟩
  · intro m hm
    have hm' : s.timer_sequence_creater + 1 < m := hm
    rw [hother m (by omega)]
    exact h.unborn m (by omega)
  · intro e he t ht hr
    rw [live_added] at ht
    split at ht
    · rename_i hea
      rw [ht, Timer.new, hnew, hea]
    · rename_i hea
      have he' : e ∈ s.timer_container_ ++ todo := by
        rcases List.mem_append.mp he with hm | hm
        · rcases OrderedSet.mem_insert.mp hm with rfl | hm
          · exact absurd rfl hea
          · exact List.mem_append_left _ hm
        · exact List.mem_append_right _ hm
      rw [hother _ (hold ht)]
      exact h.waiting e he' t ht hr
  · intro e he t ht hr
    rw [live_added] at ht
    split at ht
    · rename_i hea
      obtain ⟨u, hu, -⟩ := hi.batch_live (List.mem_append_left _ he)
      exact absurd (hea ▸ hu) (ha.1 u)
    · rw [hother _ (hold ht)]
      exact h.fired e he t ht hr
  · intro b t ht hr
    rw [live_added] at ht
    split at ht
    · intro id v j hm
      rw [ht, Timer.new, hnew, List.mem_singleton] at hm
      rw [ht, Timer.new] at hr
      rw [(Event.added.inj hm).2.2]
      exact hr
    · rw [hother _ (hold ht)]
      exact h.repeating b t ht hr
  · intro m hm
    have hne : m ≠ s.timer_sequence_creater + 1 := fun he =>
      hm a (.new w i (s.timer_sequence_creater + 1)) (live_added.mpr (if_pos rfl ▸ rfl)) he.symm
    rw [hother m hne]
    refine h.gone m fun b u hb => hm b u (live_added.mpr ?_)
    rw [if_neg fun he : b = a => ha.1 u (he ▸ hb)]
    exact hb

theorem Story.cancel {id : TimerId} (h : Story todo ran events s) (hi : Inv (ran ++ todo) s)
    (ht : s.Live id.timer_ t) (hq : t.sequence_ = id.sequence_) (hm : entry t.expiration_ id.timer_ ∈ s.timer_container_) :
    Story todo ran (events ++ [.cancelled id, .deleted id.timer_]) (s.erased id.timer_ t) := by
  have hother : ∀ m, m ≠ id.sequence_ → about m (events ++ [.cancelled id, .deleted id.timer_]) = about m events :=
    fun m hm => about_none fun ev hev => by
      rcases List.mem_cons.mp hev with rfl | hev
      · exact beq_false_of_ne hm.symm
      · rw [List.mem_singleton.mp hev]; rfl
  have hlive : ∀ b u, (s.erased id.timer_ t).Live b u ↔ b ≠ id.timer_ ∧ s.Live b u := fun b u => live_freed
  have hne : ∀ {b u}, b ≠ id.timer_ → s.Live b u → u.sequence_ ≠ id.sequence_ := fun hb hu he =>
    hb (hi.distinct _ _ _ _ hu ht (he.trans hq.symm))
  refine ⟨?_, ?_, ?_, ?_, ?_⟩
  · intro m hm
    have := hi.issued _ t ht
    rw [hother m fun he => absurd (show s.timer_sequence_creater < m from hm) (by omega)]
    exact h.unborn m hm
  · intro e he u hu hr
    obtain ⟨hb, hu⟩ := (hlive _ _).mp hu
    rw [hother _ (hne hb hu)]
    refine h.waiting e ?_ u hu hr
    rcases List.mem_append.mp he with hc | hc
    · exact List.mem_append_left _ ((OrderedSet.mem_erase hi.ascending).mp hc).2
    · exact List.mem_append_right _ hc
  · intro e he u hu hr
    obtain ⟨hb, hu⟩ := (hlive _ _).mp hu
    rw [hother _ (hne hb hu)]
    exact h.fired e he u hu hr
  · intro b u hu hr
    obtain ⟨hb, hu⟩ := (hlive _ _).mp hu
    rw [hother _ (hne hb hu)]
    exact h.repeating b u hu hr
  · intro m hgone
    by_cases he : m = id.sequence_
    · subst he
      have hcat : about id.sequence_ (events ++ [.cancelled id, .deleted id.timer_]) =
          about id.sequence_ events ++ [.cancelled id] := by
        rw [about_append]; simp [about, Event.concerns]
      rw [hcat]
      cases hr : t.repeat_ with
      | false =>
        have := h.waiting _ (List.mem_append_left _ hm) t ht hr
        rw [hq] at this
        rw [this]
        exact told_cancelled id t.expiration_ t.interval_
      | true =>
        refine told_of_pos fun id' w i hin => ?_
        rw [List.mem_append, List.mem_singleton] at hin
        exact h.repeating _ t ht hr id' w i (hq ▸ hin.resolve_right Event.noConfusion)
    · rw [hother m he]
      refine h.gone m fun b u hu hum => ?_
      by_cases hb : b = id.timer_
      · subst hb
        exact he (hum.symm.trans ((hu.unique ht) ▸ hq))
      · exact hgone b u ((hlive b u).mpr ⟨hb, hu⟩) hum

theorem Story.action (h : Story todo ran events s) (hi : Inv (ran ++ todo) s) (action : Action)
    (ha : action.Allowed s) : Story todo ran (events ++ (action.apply s).2) (action.apply s).1 := by
  cases action with
  | addTimer a w i n =>
    rw [Action.apply, addTimer_eq hi ha]
    exact h.addTimer hi ha w i n
  | cancel id =>
    obtain ⟨t, hl, hq, hm⟩ := ha
    rw [Action.apply, cancelInLoop_eq hl]
    exact h.cancel hi hl hq hm

/-- The due timers are taken out of the container. -/
theorem Story.take (h : Story [] [] events s) (now : Int) : Story (s.due now) [] events (s.taken now) := by
  refine ⟨h.unborn, fun e he => h.waiting e ?_, fun e he => absurd he List.not_mem_nil, h.repeating, h.gone⟩
  rw [List.append_nil]
  exact (perm_filter_due s.timer_container_ now).mem_iff.mp he

/-- A timer of the batch runs. -/
theorem Story.run (h : Story (e :: todo) ran events s) (hi : Inv (ran ++ e :: todo) s) (hn : e.first ≤ now) :
    Story todo (ran ++ [e]) (events ++ (s.deref e.second).2 ++ [s.ranEvent now e]) s := by
  obtain ⟨t, ht, hte⟩ := hi.batch_live (List.mem_append_right _ List.mem_cons_self)
  rw [ranEvent, deref_live ht, List.append_nil]
  have hother : ∀ m, m ≠ t.sequence_ → about m (events ++ [.ran t.sequence_ now]) = about m events := fun m hm =>
    about_none fun ev hev => by
      rw [List.mem_singleton.mp hev]
      exact beq_false_of_ne hm.symm
  have hcat : about t.sequence_ (events ++ [.ran t.sequence_ now]) = about t.sequence_ events ++ [.ran t.sequence_ now] := by
    rw [about_append]; simp [about, Event.concerns]
  have hmid : (s.timer_container_ ++ (ran ++ e :: todo)).Perm (e :: (s.timer_container_ ++ (ran ++ todo))) :=
    (List.perm_middle.append_left _).trans List.perm_middle
  have hne : ∀ f ∈ s.timer_container_ ++ (ran ++ todo), ∀ u, s.Live f.second u → u.sequence_ ≠ t.sequence_ := by
    intro f hf u hu hq
    have hs : f.second = e.second := hi.distinct _ _ u t hu ht hq
    have hfe : f = e := hi.eq_of_second (hmid.mem_iff.mpr (List.mem_cons_of_mem _ hf))
      (hmid.mem_iff.mpr List.mem_cons_self) hs
    exact (List.nodup_cons.mp (hmid.nodup_iff.mp hi.nodup)).1 (hfe ▸ hf)
  refine ⟨?_, ?_, ?_, ?_, ?_⟩
  · intro m hm
    have := hi.issued _ t ht
    rw [hother m (by omega)]
    exact h.unborn m hm
  · intro f hf u hu hr
    have hf' : f ∈ s.timer_container_ ++ (ran ++ todo) := by
      rcases List.mem_append.mp hf with hc | hc
      · exact List.mem_append_left _ hc
      · exact List.mem_append_right _ (List.mem_append_right _ hc)
    rw [hother _ (hne f hf' u hu)]
    refine h.waiting f ?_ u hu hr
    rcases List.mem_append.mp hf with hc | hc
    · exact List.mem_append_left _ hc
    · exact List.mem_append_right _ (List.mem_cons_of_mem _ hc)
  · intro f hf u hu hr
    rcases List.mem_append.mp hf with hc | hc
    · rw [hother _ (hne f (List.mem_append_right _ (List.mem_append_left _ hc)) u hu)]
      exact h.fired f hc u hu hr
    · obtain rfl := List.mem_singleton.mp hc
      obtain rfl := hu.unique ht
      refine ⟨now, hte ▸ hn, ?_⟩
      rw [hcat, h.waiting f (List.mem_append_right _ List.mem_cons_self) u hu hr]
      rfl
  · intro b u hu hr id w i hm
    refine h.repeating b u hu hr id w i ?_
    rw [about_append, List.mem_append] at hm
    refine hm.resolve_right fun hm => ?_
    have := List.mem_singleton.mp (List.mem_of_mem_filter hm)
    exact absurd this Event.noConfusion
  · intro m hm
    rw [hother m fun he => hm _ t ht he.symm]
    exact h.gone m hm

/-- A turn of `reset` puts nothing but its own timer into the container. -/
theorem Inv.container_resetOne {f : Entry} (hi : Inv (e :: ran) s) (hf : f ∈ (s.resetOne now e).1.timer_container_) :
    f.second = e.second ∨ f ∈ s.timer_container_ := by
  obtain ⟨t, ht, -⟩ := hi.batch_live List.mem_cons_self
  cases hr : t.repeat_ with
  | true =>
    rw [resetOne_repeat ht hr (hi.not_mem_of_batch _)] at hf
    exact (OrderedSet.mem_insert.mp hf).imp_left fun he => by rw [he]; rfl
  | false =>
    rw [resetOne_oneShot ht hr] at hf
    exact .inr hf

/-- `reset` deletes a one-shot timer of the batch, or puts back a repeating
one. -/
theorem Story.resetOne (h : Story [] (e :: ran) events s) (hi : Inv (e :: ran) s) (now : Int) :
    Story [] ran (events ++ (s.resetOne now e).2) (s.resetOne now e).1 := by
  obtain ⟨t, ht, -⟩ := hi.batch_live List.mem_cons_self
  have hother : ∀ {b u}, b ≠ e.second → ((s.resetOne now e).1.Live b u ↔ s.Live b u) := fun hb =>
    (hi.live_resetOne ht _ _).trans (by rw [if_neg hb])
  have hself : ∀ {u}, (s.resetOne now e).1.Live e.second u →
      t.repeat_ = true ∧ u = { t with expiration_ := now + t.interval_.delta } := fun hu => by
    have := (hi.live_resetOne ht _ _).mp hu
    rwa [if_pos rfl] at this
  have hevents : ∀ m, about m (events ++ (s.resetOne now e).2) = about m events := fun m => about_none fun ev hev => by
    cases hr : t.repeat_ with
    | true => rw [resetOne_repeat ht hr (hi.not_mem_of_batch _)] at hev; exact absurd hev List.not_mem_nil
    | false => rw [resetOne_oneShot ht hr] at hev; rw [List.mem_singleton.mp hev]; rfl
  have hseq : (s.resetOne now e).1.timer_sequence_creater = s.timer_sequence_creater := by
    cases hr : t.repeat_ with
    | true => rw [resetOne_repeat ht hr (hi.not_mem_of_batch _)]; rfl
    | false => rw [resetOne_oneShot ht hr]; rfl
  refine ⟨fun m hm => ?_, fun f hf u hu hr => ?_, fun f hf u hu hr => ?_, fun b u hu hr => ?_, fun m hm => ?_⟩
  · rw [hevents]
    exact h.unborn m (hseq ▸ hm)
  · rw [hevents]
    by_cases hb : f.second = e.second
    · obtain ⟨hrep, rfl⟩ := hself (hb ▸ hu)
      exact absurd (hrep.symm.trans hr) Bool.noConfusion
    · have hu := (hother hb).mp hu
      rw [List.append_nil] at hf
      have hc := (hi.container_resetOne hf).resolve_left hb
      exact h.waiting f (List.mem_append_left _ hc) u hu hr
  · rw [hevents]
    have hb := hi.second_ne f hf
    exact h.fired f (List.mem_cons_of_mem _ hf) u ((hother hb).mp hu) hr
  · rw [hevents]
    by_cases hb : b = e.second
    · subst hb
      obtain ⟨hrep, rfl⟩ := hself hu
      exact h.repeating _ t ht hrep
    · exact h.repeating b u ((hother hb).mp hu) hr
  · rw [hevents]
    by_cases hm' : m = t.sequence_
    · subst hm'
      cases hr : t.repeat_ with
      | true => exact told_of_pos (h.repeating _ t ht hr)
      | false =>
        obtain ⟨n, hn, hab⟩ := h.fired e List.mem_cons_self t ht hr
        rw [hab]
        exact told_ran hn
    · refine h.gone m fun b u hu hum => ?_
      by_cases hb : b = e.second
      · subst hb
        exact hm' (hum.symm.trans (congrArg Timer.sequence_ (hu.unique ht)))
      · exact hm b u ((hother hb).mpr hu) hum

/-! ## Runs -/

theorem Story.calls : ∀ (actions : List Action) (s : TimerSet) (events : List Event), Story todo ran events s →
    Inv (ran ++ todo) s → (turns now).Along Turn.Allowed s (actions.map .call) →
    Story todo ran (events ++ ((turns now).outputs s (actions.map .call)).flatten)
      ((turns now).final s (actions.map .call))
  | [], s, events, h, _, _ => (List.append_nil events).symm ▸ h
  | action :: actions, s, events, h, hi, ha => by
    have := Story.calls actions _ _ (h.action hi _ ha.1) (hi.action _ ha.1).1 ha.2
    rwa [List.append_assoc] at this

theorem Story.script : ∀ (todo : List Entry) (callbacks : List (List Action)) (ran : List Entry) (s : TimerSet)
    (events : List Event), Story todo ran events s → Inv (ran ++ todo) s → (∀ e ∈ todo, e.first ≤ now) →
    (turns now).Along Turn.Allowed s (TimerSet.script todo callbacks) →
    Story [] (ran ++ todo) (events ++ ((turns now).outputs s (TimerSet.script todo callbacks)).flatten)
      ((turns now).final s (TimerSet.script todo callbacks))
  | [], _, ran, s, events, h, _, _, _ => by
    rw [List.append_nil]
    exact (List.append_nil events).symm ▸ h
  | e :: todo, callbacks, ran, s, events, h, hi, hn, ha => by
    have hcat : ran ++ e :: todo = ran ++ [e] ++ todo := by rw [List.append_assoc]; rfl
    obtain ⟨ha₁, ha₂⟩ := Machine.Along.append.mp ha.2
    have h₁ := h.run hi (hn e List.mem_cons_self)
    have hi₁ : Inv (ran ++ [e] ++ todo) s := hcat ▸ hi
    have h₂ := Story.calls _ s _ h₁ hi₁ ha₁
    have h₃ := Story.script todo callbacks.tail (ran ++ [e]) _ _ h₂ (hi₁.final_turns ha₁).1
      (fun f hf => hn f (List.mem_cons_of_mem _ hf)) ha₂
    rw [hcat]
    show Story [] (ran ++ [e] ++ todo) (events ++ (((s.deref e.second).2 ++ [s.ranEvent now e]) ++
      ((turns now).outputs s ((callbacks.headD []).map .call ++ TimerSet.script todo callbacks.tail)).flatten))
      ((turns now).final s ((callbacks.headD []).map .call ++ TimerSet.script todo callbacks.tail))
    rw [Machine.outputs_append, Machine.final_append, List.flatten_append]
    simp only [List.append_assoc] at h₃ ⊢
    exact h₃

theorem Story.resetAll (now : Int) : ∀ (ran : List Entry) (s : TimerSet) (events : List Event), Story [] ran events s →
    Inv ran s → Story [] [] (events ++ ((resetAll now).outputs s ran).flatten) ((TimerSet.resetAll now).final s ran)
  | [], _, events, h, _ => (List.append_nil events).symm ▸ h
  | e :: ran, s, events, h, hi => by
    have := Story.resetAll now ran _ _ (h.resetOne hi now) (hi.resetOne now)
    rwa [List.append_assoc] at this

theorem Story.handleRead (h : Story [] [] events s) (hi : Inv [] s) (ha : s.CallbacksAllowed now callbacks) :
    Story [] [] (events ++ (s.handleRead now callbacks later).2) (s.handleRead now callbacks later).1 := by
  have hi₀ : Inv (s.due now) (s.taken now) := hi.getExpired now _
  have hi₂ := (hi₀.final_turns ha).1
  have hdue : ∀ e ∈ s.due now, e.first ≤ now := fun e he => of_decide_eq_true (List.mem_filter.mp he).2
  have h₂ := Story.script (s.due now) callbacks [] _ _ (h.take now) hi₀ hdue ha
  have h₃ := Story.resetAll now _ _ _ h₂ hi₂
  rw [handleRead_eq hi]
  simp only [reset, rearm_eq (Inv.final_resetAll _ _ _ hi₂), List.append_nil, ← List.append_assoc]
  exact ⟨h₃.unborn, h₃.waiting, h₃.fired, h₃.repeating, h₃.gone⟩

theorem step_story {op : Op} (h : Story [] [] events s) (hi : Inv [] s) (ha : op.Allowed s) :
    Story [] [] (events ++ (machine.step s op).2) (machine.step s op).1 := by
  cases op with
  | addTimer a w i n => exact h.action hi (.addTimer a w i n) ha
  | cancel id => exact h.action hi (.cancel id) ha
  | handleRead n cbs l => exact h.handleRead hi ha

theorem run_story : ∀ (ops : List Op) (s : TimerSet) (events : List Event), Story [] [] events s → Inv [] s →
    machine.Along Op.Allowed s ops →
    Story [] [] (events ++ (machine.outputs s ops).flatten) (machine.final s ops)
  | [], _, events, h, _, _ => (List.append_nil events).symm ▸ h
  | op :: ops, s, events, h, hi, ha => by
    have := run_story ops _ _ (step_story h hi ha.1) (step_inv hi ha.1) ha.2
    rwa [List.append_assoc] at this

/-- Between two calls, the story of a one-shot timer has begun, or has ended
and the timer is gone. -/
theorem Story.oneShot (h : Story [] [] events s) (hi : Inv [] s) {id : TimerId} {w : Int} {i : Interval}
    (hm : .added id w i ∈ events) (h0 : i.positive = false) :
    about id.sequence_ events = [.added id w i] ∨
    (∀ a t, s.Live a t → t.sequence_ ≠ id.sequence_) ∧
      (about id.sequence_ events = [.added id w i, .cancelled id] ∨
        ∃ now, w ≤ now ∧ about id.sequence_ events = [.added id w i, .ran id.sequence_ now]) := by
  have hin : .added id w i ∈ about id.sequence_ events := List.mem_filter.mpr ⟨hm, beq_self_eq_true _⟩
  by_cases hl : ∃ a t, s.Live a t ∧ t.sequence_ = id.sequence_
  · obtain ⟨a, t, ht, hq⟩ := hl
    rw [← hq] at hin ⊢
    cases hr : t.repeat_ with
    | true =>
      exact absurd (h0.symm.trans (h.repeating a t ht hr id w i hin)) Bool.false_ne_true
    | false =>
      have hab := h.waiting (entry t.expiration_ a) ((hi.mem_iff _).mpr ⟨t, ht, rfl⟩) t ht hr
      rw [hab, List.mem_singleton] at hin
      rw [hab, hin]
      exact .inl rfl
  · have hgone : ∀ a t, s.Live a t → t.sequence_ ≠ id.sequence_ := fun a t ht hq => hl ⟨a, t, ht, hq⟩
    exact .inr ⟨hgone, h.gone _ hgone id w i hin h0⟩

/-- Timers fire when they are due. After every run, each key is the
expiration of its timer; a `handleRead` runs exactly the timers that are due,
once each and in the order of their expirations, and afterwards each repeating
one is in the container once, at `now` plus its interval, and each one-shot
one is deleted; and in the run so far a one-shot timer was added, and then
either cancelled or run once, not before its time, with nothing after that. -/
theorem timers_fire_when_due (ops : List Op) (ha : machine.Along Op.Allowed new ops) :
    let s := machine.final new ops
    let events := (machine.outputs new ops).flatten
    (∀ e ∈ s.timer_container_, ∃ t, s.heap e.second = some (.live t) ∧ t.expiration_ = e.first) ∧
    (∀ now callbacks later, s.CallbacksAllowed now callbacks →
      let due := s.timer_container_.filter fun e => e.first ≤ now
      let r := s.handleRead now callbacks later
      r.2.filter Event.isRan = due.map (s.ranEvent now) ∧ (due.map (s.ranEvent now)).Nodup ∧
      (due.Pairwise fun e f => e.first ≤ f.first) ∧
      ∀ e ∈ due, ∀ t, s.heap e.second = some (.live t) →
        if t.repeat_ then
          r.1.heap e.second = some (.live { t with expiration_ := now + t.interval_.delta }) ∧
          r.1.timer_container_.filter (fun f => f.second = e.second) = [entry (now + t.interval_.delta) e.second]
        else
          (∀ u, r.1.heap e.second ≠ some (.live u)) ∧ ∀ f ∈ r.1.timer_container_, f.second ≠ e.second) ∧
    ∀ id w i, .added id w i ∈ events → i.positive = false →
      about id.sequence_ events = [.added id w i] ∨
      (∀ a t, s.heap a = some (.live t) → t.sequence_ ≠ id.sequence_) ∧
        (about id.sequence_ events = [.added id w i, .cancelled id] ∨
          ∃ now, w ≤ now ∧ about id.sequence_ events = [.added id w i, .ran id.sequence_ now]) := by
  intro s events
  have hi : Inv [] s := run_inv ops ha
  have hs : Story [] [] events s := run_story ops new [] new_story new_inv ha
  refine ⟨fun e he => (hi.mem_iff e).mp (List.mem_append_left _ he), ?_, fun id w i hm h0 => hs.oneShot hi hm h0⟩
  intro now callbacks later hcb due r
  refine ⟨handleRead_runs hi hcb, hi.due_nodup now, hi.due_sorted now, fun e he t ht => ?_⟩
  by_cases hr : t.repeat_ = true
  · rw [if_pos hr]
    exact hi.handleRead_repeating hcb he ht hr
  · rw [if_neg hr]
    exact hi.handleRead_oneShot hcb he ht (Bool.eq_false_of_not_eq_true hr)

/-- A repeating timer and two one-shot timers, one of which is cancelled;
the callback of the first to run adds a timer that is due at once. -/
def busy : List Op :=
  [.addTimer 8 1000 0 10, .addTimer 16 500 200 20, .addTimer 32 900 0 30, .cancel ⟨32, 3⟩,
    .handleRead 600 [[.addTimer 32 100 0 650]] 700]

theorem timers_fire_when_due_busy :
    machine.Along Op.Allowed new busy ∧
    (machine.final new busy).CallbacksAllowed 1200 [[], [.addTimer 48 0 0 1210]] ∧
    ((machine.final new busy).handleRead 1200 [[], [.addTimer 48 0 0 1210]] 1300).2.filter Event.isRan =
      [.ran 4 1200, .ran 2 1200, .ran 1 1200] ∧
    about 3 (machine.outputs new busy).flatten = [.added ⟨32, 3⟩ 900 0, .cancelled ⟨32, 3⟩] := by
  have ha : machine.Along Op.Allowed new busy := by decide +kernel
  have hcb : (machine.final new busy).CallbacksAllowed 1200 [[], [.addTimer 48 0 0 1210]] := by decide +kernel
  obtain ⟨-, h₂, -⟩ := timers_fire_when_due busy ha
  refine ⟨ha, hcb, (h₂ 1200 _ 1300 hcb).1.trans ?_, ?_⟩
  · decide +kernel
  · decide +kernel

end TimerSet

end Ydx
