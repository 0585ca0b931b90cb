import YdxNet.Proof.TimerSet

/-!
# Runs of the timers

`machine` takes the calls on a timer set one after another, `handleRead` with
everything its callbacks do being one of them. `Op.Allowed` says what its
callers keep to: `new` returns fresh addresses, and only timers in the
container are cancelled. Then the invariant holds in every state
(`run_inv`), and the timerfd is armed early enough for every timer in the
container (`timerfd_early`).
-/

namespace Ydx.TimerSet

open OrderedSet

/-- What a callback keeps to. -/
def Action.Allowed (s : TimerSet) : Action → Prop
  | .addTimer timer _ _ _ => s.Fresh timer
  | .cancel timerId => s.Pending timerId

/-- What a turn of `handleRead` keeps to. -/
def Turn.Allowed (s : TimerSet) : Turn → Prop
  | .run _ => True
  | .call action => action.Allowed s

/-- The entries that a `handleRead` at `now` takes out. -/
def due (s : TimerSet) (now : Int) : List Entry := s.timer_container_.filter fun e => e.first ≤ now

/-- The state in which the callbacks of a `handleRead` at `now` begin. -/
def taken (s : TimerSet) (now : Int) : TimerSet :=
  { s with
    timer_container_ := s.timer_container_.filter fun e => now < e.first
    timerfd_ := readTimerfd s.timerfd_ now }

/-- A call on a timer set. -/
inductive Op
  | addTimer (timer : Addr) (when : Int) (interval : Interval) (now : Int)
  | cancel (timerId : TimerId)
  | handleRead (now : Int) (callbacks : List (List Action)) (later : Int)
  deriving DecidableEq, Repr

/-- One call after another, with the events of each. -/
def machine : Machine TimerSet Op (List Event) where
  step s
    | .addTimer timer when interval now => s.addTimer timer when interval now
    | .cancel timerId => s.cancelInLoop timerId
    | .handleRead now callbacks later => s.handleRead now callbacks later

/-- The callbacks of a `handleRead` keep to what is allowed, each call in the
state it finds. -/
def CallbacksAllowed (s : TimerSet) (now : Int) (callbacks : List (List Action)) : Prop :=
  (turns now).Along Turn.Allowed (s.taken now) (script (s.due now) callbacks)

/-- What the callers of a timer set keep to. -/
def Op.Allowed (s : TimerSet) : Op → Prop
  | .addTimer timer _ _ _ => s.Fresh timer
  | .cancel timerId => s.Pending timerId
  | .handleRead now callbacks _ => s.CallbacksAllowed now callbacks

instance (s : TimerSet) : ∀ action : Action, Decidable (action.Allowed s)
  | .addTimer timer _ _ _ => inferInstanceAs (Decidable (s.Fresh timer))
  | .cancel timerId => inferInstanceAs (Decidable (s.Pending timerId))

instance (s : TimerSet) : ∀ turn : Turn, Decidable (turn.Allowed s)
  | .run _ => inferInstanceAs (Decidable True)
  | .call action => inferInstanceAs (Decidable (action.Allowed s))

instance (s : TimerSet) (now : Int) (callbacks : List (List Action)) : Decidable (s.CallbacksAllowed now callbacks) :=
  inferInstanceAs (Decidable (Machine.Along ..))

instance (s : TimerSet) : ∀ op : Op, Decidable (op.Allowed s)
  | .addTimer timer _ _ _ => inferInstanceAs (Decidable (s.Fresh timer))
  | .cancel timerId => inferInstanceAs (Decidable (s.Pending timerId))
  | .handleRead now callbacks _ => inferInstanceAs (Decidable (s.CallbacksAllowed now callbacks))

variable {s : TimerSet} {batch : List Entry} {now later : Int} {callbacks : List (List Action)}

theorem handleRead_eq (h : Inv [] s) : s.handleRead now callbacks later =
    (let s₂ := (turns now).final (s.taken now) (script (s.due now) callbacks)
     let r := s₂.reset (s.due now) now later
     (r.1, ((turns now).outputs (s.taken now) (script (s.due now) callbacks)).flatten ++ r.2)) := by
  have h' : Inv [] { s with timerfd_ := readTimerfd s.timerfd_ now } := ⟨h.1, h.2, h.3, h.4, h.5, h.6, h.7⟩
  rw [handleRead, getExpired_eq h' now]
  rfl

/-! ## The invariant -/

/-- A call of a callback keeps the invariant, and the timers of the batch. -/
theorem Inv.action (h : Inv batch s) (action : Action) (ha : action.Allowed s) :
    Inv batch (action.apply s).1 ∧
      ∀ e ∈ batch, ∀ t, s.Live e.second t → (action.apply s).1.Live e.second t := by
  cases action with
  | addTimer a w i n =>
    rw [Action.apply, addTimer_eq h ha]
    refine ⟨h.added ha w i n, fun e _ t ht => live_added.mpr ?_⟩
    rw [if_neg fun he : e.second = a => ha.1 t (he ▸ ht)]
    exact ht
  | cancel id =>
    obtain ⟨t, hl, -, hm⟩ := ha
    rw [Action.apply, cancelInLoop_eq hl]
    refine ⟨h.erased hm, fun e he u hu => ?_⟩
    refine (live_freed (s := s)).mpr ⟨fun hs => ?_, hu⟩
    have hee : e = entry t.expiration_ id.timer_ :=
      h.eq_of_second (List.mem_append_right _ he) (List.mem_append_left _ hm) hs
    exact (List.nodup_append'.mp h.nodup).2.2 hm (hee ▸ he)

theorem Inv.turn (h : Inv batch s) (now : Int) {turn : Turn} (ha : turn.Allowed s) :
    Inv batch ((turns now).step s turn).1 ∧
      ∀ e ∈ batch, ∀ t, s.Live e.second t → ((turns now).step s turn).1.Live e.second t := by
  cases turn with
  | run it => exact ⟨h, fun _ _ _ => id⟩
  | call action => exact h.action action ha

/-- The turns of a batch keep the invariant, and the timers of the batch. -/
theorem Inv.final_turns (h : Inv batch s) {script : List Turn} (ha : (turns now).Along Turn.Allowed s script) :
    Inv batch ((turns now).final s script) ∧
      ∀ e ∈ batch, ∀ t, s.Live e.second t → ((turns now).final s script).Live e.second t := by
  refine Machine.invariant
    (I := fun s' => Inv batch s' ∧ ∀ e ∈ batch, ∀ t, s.Live e.second t → s'.Live e.second t)
    (fun s' turn hI ht => ?_) script s ⟨h, fun _ _ _ => id⟩ ha
  obtain ⟨h₁, h₂⟩ := hI.1.turn now ht
  exact ⟨h₁, fun e he t hl => h₂ e he t (hI.2 e he t hl)⟩

/-- A turn of `reset` takes one timer out of the batch. -/
theorem Inv.resetOne {e : Entry} (h : Inv (e :: batch) s) (now : Int) : Inv batch (s.resetOne now e).1 := by
  obtain ⟨t, ht, -⟩ := h.batch_live List.mem_cons_self
  cases hr : t.repeat_ with
  | true => rw [resetOne_repeat ht hr (h.not_mem_of_batch _)]; exact h.restarted ht now
  | false => rw [resetOne_oneShot ht hr]; exact h.dropOneShot ht

theorem Inv.final_resetAll (now : Int) : ∀ (batch : List Entry) (s : TimerSet), Inv batch s →
    Inv [] ((resetAll now).final s batch)
  | [], _, h => h
  | _ :: batch, _, h => Inv.final_resetAll now batch _ (h.resetOne now)

theorem Inv.rearm (h : Inv [] s) (later : Int) : Inv [] (s.rearm later).1 := by
  rw [rearm_eq h]
  exact ⟨h.1, h.2, h.3, h.4, h.5, h.6, h.7⟩

theorem Inv.handleRead (h : Inv [] s) (ha : s.CallbacksAllowed now callbacks) (later : Int) :
    Inv [] (s.handleRead now callbacks later).1 := by
  rw [handleRead_eq h]
  exact (Inv.final_resetAll now _ _ (((h.getExpired now _).final_turns ha).1)).rearm later

theorem step_inv {op : Op} (h : Inv [] s) (ha : op.Allowed s) : Inv [] (machine.step s op).1 := by
  cases op with
  | addTimer a w i n => exact (h.action (.addTimer a w i n) ha).1
  | cancel id => exact (h.action (.cancel id) ha).1
  | handleRead n cbs l => exact h.handleRead ha l

/-- The invariant holds after every run. -/
theorem run_inv (ops : List Op) (ha : machine.Along Op.Allowed new ops) : Inv [] (machine.final new ops) :=
  Machine.invariant (fun _ _ h ha => step_inv h ha) ops new new_inv ha

/-! ## The timerfd -/

/-- The timerfd is armed, or has expired and is not read, for an instant no
later than `w`, or 100 microseconds after it was armed. -/
def ArmedFor (s : TimerSet) (w : Int) : Prop :=
  ∃ armed, s.timerfd_ = some armed ∧ armed.instant ≤ max w (armed.setAt + 100)

/-- It is armed for all timers in the container with an expiration in `P`. -/
def Early (P : Int → Prop) (s : TimerSet) : Prop := ∀ e ∈ s.timer_container_, P e.first → s.ArmedFor e.first

theorem ArmedFor.mono {v w : Int} (h : s.ArmedFor v) (hvw : v ≤ w) : s.ArmedFor w := by
  obtain ⟨armed, ha, hi⟩ := h
  exact ⟨armed, ha, le_trans hi (sup_le_sup_right hvw _)⟩

/-- The split into seconds and nanoseconds loses nothing. -/
theorem resetTimerfd_instant (w now : Int) : (resetTimerfd w now).instant = max w (now + 100) := by
  have hsplit : ∀ m : Int, now + m / (1000 * 1000) * (1000 * 1000) + m % (1000 * 1000) * 1000 / 1000 = now + m := by
    intro m; omega
  unfold resetTimerfd howMuchTimeFromNow microSecondsPerSec
  dsimp only
  rw [hsplit]
  split <;> omega

theorem armedFor_resetTimerfd {w now : Int} (h : s.timerfd_ = some (resetTimerfd w now)) : s.ArmedFor w :=
  ⟨_, h, le_of_eq (resetTimerfd_instant w now)⟩

variable {P : Int → Prop}

theorem Early.added {a : Addr} {w : Int} (h : Early P s) (hi : Inv batch s) (hP : ∀ v w, v ≤ w → P w → P v)
    (i : Interval) (n : Int) : Early P (s.added a w i n) := by
  -- the new timer comes first and the timerfd is set for it, or it is armed for the one that comes first
  have key : (P w → (s.added a w i n).ArmedFor w) ∧
      ∀ e ∈ s.timer_container_, P e.first → (s.added a w i n).ArmedFor e.first := by
    cases hh : s.timer_container_.head? with
    | none =>
      have hc : s.earliestChanged w = true := by rw [earliestChanged, hh]
      have ha : (s.added a w i n).ArmedFor w := armedFor_resetTimerfd (if_pos hc)
      exact ⟨fun _ => ha, fun e he => absurd he (by rw [List.head?_eq_none_iff.mp hh]; exact List.not_mem_nil)⟩
    | some it =>
      have hle : ∀ e ∈ s.timer_container_, it.first ≤ e.first := fun e he =>
        Entry.first_le (hi.ascending.head_le hh he)
      have hit : it ∈ s.timer_container_ := List.mem_of_mem_head? (Option.mem_def.mpr hh)
      by_cases hw : w < it.first
      · have hc : s.earliestChanged w = true := by rw [earliestChanged, hh]; exact decide_eq_true hw
        have ha : (s.added a w i n).ArmedFor w := armedFor_resetTimerfd (if_pos hc)
        exact ⟨fun _ => ha, fun e he _ => ha.mono (le_trans (le_of_lt hw) (hle e he))⟩
      · have hc : ¬ s.earliestChanged w = true := by rw [earliestChanged, hh]; simpa using hw
        have hs : ∀ v, s.ArmedFor v → (s.added a w i n).ArmedFor v := fun v ⟨armed, ha, hv⟩ =>
          ⟨armed, (if_neg hc).trans ha, hv⟩
        exact ⟨fun hp => hs _ ((h it hit (hP _ _ (not_lt.mp hw) hp)).mono (not_lt.mp hw)),
          fun e he hp => hs _ (h e he hp)⟩
  intro e he hp
  rcases OrderedSet.mem_insert.mp he with rfl | he
  · exact key.1 hp
  · exact key.2 e he hp

theorem Early.of_subset {s' : TimerSet} (h : Early P s) (hc : ∀ e ∈ s'.timer_container_, P e.first → e ∈ s.timer_container_)
    (hf : s'.timerfd_ = s.timerfd_) : Early P s' := by
  intro e he hp
  obtain ⟨armed, ha, hi⟩ := h e (hc e he hp) hp
  exact ⟨armed, hf.trans ha, hi⟩

theorem Early.action (h : Early P s) (hi : Inv batch s) (hP : ∀ v w, v ≤ w → P w → P v) (action : Action)
    (ha : action.Allowed s) : Early P (action.apply s).1 := by
  cases action with
  | addTimer a w i n =>
    rw [Action.apply, addTimer_eq hi ha]
    exact h.added hi hP i n
  | cancel id =>
    obtain ⟨t, hl, -, -⟩ := ha
    rw [Action.apply, cancelInLoop_eq hl]
    exact h.of_subset (fun e he _ => ((OrderedSet.mem_erase hi.ascending).mp he).2) rfl

/-- Among the timers that have no valid expiration, the callbacks forget none. -/
theorem Early.final_turns (h : Early (· ≤ 0) s) (hi : Inv batch s) {script : List Turn}
    (ha : (turns now).Along Turn.Allowed s script) : Early (· ≤ 0) ((turns now).final s script) := by
  refine (Machine.invariant (I := fun s' => Inv batch s' ∧ Early (· ≤ 0) s') (fun s' turn hI ht => ?_)
    script s ⟨hi, h⟩ ha).2
  refine ⟨(hI.1.turn now ht).1, ?_⟩
  cases turn with
  | run it => exact hI.2
  | call action => exact hI.2.action hI.1 (fun v w hvw hw => le_trans hvw hw) action ht

theorem Early.resetOne {e : Entry} (h : Early (· ≤ 0) s) (hi : Inv (e :: batch) s) (hn : 0 < now) :
    Early (· ≤ 0) (s.resetOne now e).1 := by
  obtain ⟨t, ht, -⟩ := hi.batch_live List.mem_cons_self
  cases hr : t.repeat_ with
  | false =>
    rw [resetOne_oneShot ht hr]
    exact h.of_subset (fun _ he _ => he) rfl
  | true =>
    rw [resetOne_repeat ht hr (hi.not_mem_of_batch _)]
    have hpos := Interval.delta_nonneg ((hi.repeats _ t ht).symm.trans hr)
    refine h.of_subset (fun f hf hf0 => ?_) rfl
    rcases OrderedSet.mem_insert.mp hf with rfl | hf
    · rw [first_entry] at hf0; omega
    · exact hf

theorem Early.final_resetAll (hn : 0 < now) : ∀ (batch : List Entry) (s : TimerSet), Early (· ≤ 0) s → Inv batch s →
    Early (· ≤ 0) ((resetAll now).final s batch)
  | [], _, h, _ => h
  | _ :: batch, _, h, hi => Early.final_resetAll hn batch _ (h.resetOne hi hn) (hi.resetOne now)

/-- The end of `reset` sets the timerfd for the first timer, unless its
expiration is not valid; then it has been armed for it already. -/
theorem Early.rearm (h : Early (· ≤ 0) s) (hi : Inv [] s) (later : Int) : Early (fun _ => True) (s.rearm later).1 := by
  rw [rearm_eq hi]
  intro e he _
  cases hh : s.timer_container_.head? with
  | none => exact absurd he (by rw [List.head?_eq_none_iff.mp hh]; exact List.not_mem_nil)
  | some it =>
    have hle : it.first ≤ e.first := Entry.first_le (hi.ascending.head_le hh he)
    refine ArmedFor.mono ?_ hle
    by_cases h0 : 0 < it.first
    · exact armedFor_resetTimerfd (if_pos h0)
    · obtain ⟨armed, ha, hv⟩ := h it (List.mem_of_mem_head? (Option.mem_def.mpr hh)) (not_lt.mp h0)
      exact ⟨armed, (if_neg h0).trans ha, hv⟩

/-- A clock that is positive. -/
def Op.Positive : Op → Prop
  | .handleRead now _ _ => 0 < now
  | _ => True

instance : ∀ op : Op, Decidable op.Positive
  | .handleRead now _ _ => inferInstanceAs (Decidable (0 < now))
  | .addTimer .. | .cancel _ => inferInstanceAs (Decidable True)

theorem step_early {op : Op} (h : Early (fun _ => True) s) (hi : Inv [] s) (ha : op.Allowed s) (hn : op.Positive) :
    Early (fun _ => True) (machine.step s op).1 := by
  cases op with
  | addTimer a w i n => exact h.action hi (fun _ _ _ _ => trivial) (.addTimer a w i n) ha
  | cancel id => exact h.action hi (fun _ _ _ _ => trivial) (.cancel id) ha
  | handleRead n cbs l =>
    have h0 : Early (· ≤ 0) (s.taken n) := fun e he hle => by
      have := of_decide_eq_true (List.mem_filter.mp he).2
      have hn' : 0 < n := hn
      omega
    have hi₀ := hi.getExpired n (readTimerfd s.timerfd_ n)
    show Early _ (s.handleRead n cbs l).1
    rw [handleRead_eq hi]
    have hi₁ := (hi₀.final_turns ha).1
    exact (Early.final_resetAll hn _ _ (h0.final_turns hi₀ ha) hi₁).rearm (Inv.final_resetAll _ _ _ hi₁) l

/-- No timer is forgotten: after every run in which `handleRead` sees a
positive clock, if there is a first timer in the container, then the timerfd
is armed, or has expired and is not read, for an instant no later than its
expiration, or 100 microseconds after the timerfd was armed. -/
theorem timerfd_early (ops : List Op) (ha : machine.Along (fun s op => op.Allowed s ∧ op.Positive) new ops)
    (it : Entry) (hit : (machine.final new ops).timer_container_.head? = some it) :
    ∃ armed, (machine.final new ops).timerfd_ = some armed ∧
      armed.instant ≤ max it.first (armed.setAt + 100) := by
  have h : Inv [] (machine.final new ops) ∧ Early (fun _ => True) (machine.final new ops) := by
    refine Machine.invariant (I := fun s => Inv [] s ∧ Early (fun _ => True) s) (fun s op hI hop => ?_) ops new
      ⟨new_inv, fun e he => absurd he List.not_mem_nil⟩ ha
    exact ⟨step_inv hI.1 hop.1, step_early hI.2 hI.1 hop.1 hop.2⟩
  exact h.2 it (List.mem_of_mem_head? (Option.mem_def.mpr hit)) trivial

/-- Two timers, and a third that the callback of the first adds with an
expiration that is not valid. -/
def urgent : List Op :=
  [.addTimer 8 1000 0 10, .addTimer 16 500 200 20, .addTimer 32 400 0 30, .cancel ⟨32, 3⟩,
    .handleRead 1200 [[.addTimer 24 (-5) 0 1250]] 1300]

theorem timerfd_early_urgent :
    machine.Along (fun s op => op.Allowed s ∧ op.Positive) new urgent ∧
    (machine.final new urgent).timer_container_.head? = some (entry (-5) 24) ∧
    ∃ armed, (machine.final new urgent).timerfd_ = some armed ∧ armed.instant ≤ max (-5) (armed.setAt + 100) := by
  have ha : machine.Along (fun s op => op.Allowed s ∧ op.Positive) new urgent := by decide +kernel
  have hit : (machine.final new urgent).timer_container_.head? = some (entry (-5) 24) := by decide +kernel
  exact ⟨ha, hit, timerfd_early urgent ha _ hit⟩

end Ydx.TimerSet
