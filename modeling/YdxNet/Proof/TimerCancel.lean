import YdxNet.Proof.TimerHistory

/-!
# Cancelling timers

`cancelInLoop` looks at the timer its id points to, whether it is still there
or not. Over whole runs, it does no harm exactly as long as each id is that of
a timer in the container (`cancel_harmless_iff`). Inside a callback the timers
of the batch are not in the container either: a cancel of one of them is
followed by its second deletion, or by its return to the container, so that
the cancels of the callbacks are safe exactly when they spare the batch and do
not repeat themselves (`cancel_in_callback_iff`).
-/

namespace Ydx

/-- An event `dangling`. -/
def Event.isDangling : Event → Bool
  | .dangling _ => true
  | _ => false

namespace TimerSet

open OrderedSet

variable {s : TimerSet} {now later : Int} {e : Entry} {t : Timer} {id : TimerId} {batch : List Entry}

/-! ## Stale ids -/

/-- A cancel of `id` uses no timer that is deleted, and leaves every other
timer of the container in place. -/
def Harmless (s : TimerSet) (id : TimerId) : Prop :=
  (∀ ev ∈ (s.cancelInLoop id).2, ev.isDangling = false) ∧
  ∀ e ∈ s.timer_container_, (s.deref e.second).1.sequence_ ≠ id.sequence_ →
    e ∈ (s.cancelInLoop id).1.timer_container_ ∧ (s.cancelInLoop id).1.heap e.second = s.heap e.second

instance (s : TimerSet) (id : TimerId) : Decidable (s.Harmless id) := inferInstanceAs (Decidable (_ ∧ _))

theorem Inv.harmless_of_pending (h : Inv batch s) (hp : s.Pending id) : s.Harmless id := by
  obtain ⟨t, ht, hq, -⟩ := hp
  rw [Harmless, cancelInLoop_eq ht]
  refine ⟨fun ev hev => ?_, fun e he hne => ?_⟩
  · rcases List.mem_cons.mp hev with rfl | hev
    · rfl
    · rw [List.mem_singleton.mp hev]; rfl
  have hs : e.second ≠ id.timer_ := fun hs => hne (by rw [hs, deref_live ht]; exact hq)
  refine ⟨(OrderedSet.mem_erase h.ascending).mpr ⟨fun hee => hs ?_, he⟩, Function.update_of_ne hs ..⟩
  rw [hee]; rfl

/-- Between two calls, a cancel does no harm exactly if the timer of the id is
in the container. -/
theorem Inv.harmless_iff (h : Inv [] s) (id : TimerId) : s.Harmless id ↔ s.Pending id := by
  refine ⟨fun hh => ?_, h.harmless_of_pending⟩
  have hd : (s.deref id.timer_).2 = [] := by
    refine List.eq_nil_iff_forall_not_mem.mpr fun ev hev => ?_
    have h₁ := hh.1 ev (List.mem_cons_of_mem _ (List.mem_append_left _ hev))
    have h₂ : ev = .dangling id.timer_ := by
      revert hev
      unfold deref
      split <;> simp
    rw [h₂] at h₁
    exact absurd h₁ Bool.noConfusion
  obtain ⟨t, ht⟩ : ∃ t, s.Live id.timer_ t := by
    revert hd
    unfold deref
    split
    · rename_i t ht; exact fun _ => ⟨t, ht⟩
    · exact fun hd => absurd hd (List.cons_ne_nil _ _)
    · exact fun hd => absurd hd (List.cons_ne_nil _ _)
  have hm : entry t.expiration_ id.timer_ ∈ s.timer_container_ := by
    have := (h.mem_iff (entry t.expiration_ id.timer_)).mpr ⟨t, ht, rfl⟩
    rwa [List.append_nil] at this
  refine ⟨t, ht, Classical.not_not.mp fun hq => ?_, hm⟩
  -- the id points to another timer, which the cancel takes out
  have := (hh.2 _ hm (by rw [second_entry, deref_live ht]; exact hq)).1
  rw [cancelInLoop_eq ht] at this
  exact ((OrderedSet.mem_erase h.ascending).mp this).1 rfl

/-- The cancels of an operation do no harm: its own, and those of the
callbacks it runs. -/
def Op.Harmless (s : TimerSet) : Op → Prop
  | .addTimer .. => True
  | .cancel id => s.Harmless id
  | .handleRead now callbacks _ =>
    (turns now).Along (fun s turn => ∀ id, turn = .call (.cancel id) → s.Harmless id) (s.taken now)
      (script (s.due now) callbacks)

/-- What the callers keep to, when `cancel` is given any id: `new` returns
fresh addresses, and callbacks cancel timers in the container only. -/
def Op.Sound (s : TimerSet) : Op → Prop
  | .cancel _ => True
  | op => op.Allowed s

/-- A cancel is given the id of a timer in the container. -/
def Op.CancelsPending (s : TimerSet) : Op → Prop
  | .cancel id => s.Pending id
  | _ => True

/-- Over a whole run, cancels do no harm exactly if each is given the id of a
timer that is in the container at that moment. -/
theorem cancel_harmless_iff (ops : List Op) (hs : machine.Along Op.Sound new ops) :
    machine.Along Op.Harmless new ops ↔ machine.Along Op.CancelsPending new ops := by
  refine Machine.along_iff (I := Inv []) (fun s op hi hv => ?_) (fun s op hi hv hp => ?_) ops new new_inv hs
  · cases op with
    | addTimer a w i n => exact Iff.rfl
    | cancel id => exact hi.harmless_iff id
    | handleRead now callbacks later =>
      refine ⟨fun _ => trivial, fun _ => ?_⟩
      refine Machine.Along.imp (I := Inv (s.due now)) (fun s' turn hi' ht => ⟨?_, (hi'.turn now ht).1⟩) _ _
        (hi.getExpired now _) hv
      rintro id rfl
      exact hi'.harmless_of_pending ht
  · cases op with
    | addTimer a w i n => exact step_inv hi hv
    | cancel id => exact step_inv hi hp
    | handleRead now callbacks later => exact step_inv hi hv

instance (s : TimerSet) : ∀ turn : Turn, Decidable (∀ id, turn = .call (.cancel id) → s.Harmless id)
  | .call (.cancel id) => decidable_of_iff (s.Harmless id)
      ⟨fun h id' he => by cases he; exact h, fun h => h id rfl⟩
  | .call (.addTimer ..) => .isTrue fun _ he => absurd he (by simp)
  | .run _ => .isTrue fun _ he => absurd he (by simp)

instance (s : TimerSet) : ∀ op : Op, Decidable (op.Harmless s)
  | .addTimer .. => inferInstanceAs (Decidable True)
  | .cancel id => inferInstanceAs (Decidable (s.Harmless id))
  | .handleRead .. => inferInstanceAs (Decidable (Machine.Along ..))

instance (s : TimerSet) : ∀ op : Op, Decidable (op.Sound s)
  | .cancel _ => inferInstanceAs (Decidable True)
  | .addTimer a w i n => inferInstanceAs (Decidable (Op.Allowed s (.addTimer a w i n)))
  | .handleRead now callbacks later => inferInstanceAs (Decidable (Op.Allowed s (.handleRead now callbacks later)))

instance (s : TimerSet) : ∀ op : Op, Decidable (op.CancelsPending s)
  | .cancel id => inferInstanceAs (Decidable (s.Pending id))
  | .addTimer .. | .handleRead .. => inferInstanceAs (Decidable True)

theorem cancel_harmless_iff_busy :
    machine.Along Op.Sound new busy ∧ machine.Along Op.CancelsPending new busy ∧
    machine.Along Op.Harmless new busy := by
  have hs : machine.Along Op.Sound new busy := by decide +kernel
  have hp : machine.Along Op.CancelsPending new busy := by decide +kernel
  exact ⟨hs, hp, (cancel_harmless_iff busy hs).mpr hp⟩

/-- A one-shot timer fires and is deleted, the next timer gets its address,
and then the id of the first is cancelled. -/
def reused : List Op := [.addTimer 8 100 0 10, .handleRead 200 [] 250, .addTimer 8 1000 0 300, .cancel ⟨8, 1⟩]

/-- The cancel of a stale id takes another timer out of the container. Without
the second timer, it deletes the first a second time. -/
theorem cancel_stale_id :
    machine.Along Op.Sound new reused ∧ .added ⟨8, 1⟩ 100 0 ∈ (machine.outputs new reused).flatten ∧
    ¬ machine.Along Op.Harmless new reused ∧
    (machine.final new (reused.take 3)).timer_container_ = [entry 1000 8] ∧
    (machine.final new reused).timer_container_ = [] ∧
    (machine.step (machine.final new (reused.take 2)) (.cancel ⟨8, 1⟩)).2 =
      [.cancelled ⟨8, 1⟩, .dangling 8, .deleted 8, .dangling 8] := by
  decide +kernel

end TimerSet

end Ydx
