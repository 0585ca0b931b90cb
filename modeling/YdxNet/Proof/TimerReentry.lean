import YdxNet.Proof.TimerCancel

/-!
# Cancelling timers from callbacks

While the callbacks of a batch run, the timers of the batch are in a local
vector and not in the container. `cancelInLoop` deletes a timer wherever it
is, so what a cancel of a timer of the batch leaves behind is a pointer to
deleted memory, which `run()` and `reset` go on to use. Deleted memory keeps
its contents in this model, and so the state after any choice of cancels is
known exactly (`CancelledFrom`), and with it when the cancels are safe
(`cancel_in_callback_iff`).
-/

namespace Ydx.TimerSet

open OrderedSet

variable {s s' : TimerSet} {now later : Int} {e : Entry} {a b : Addr} {t u : Timer} {id : TimerId}
  {gone : List Addr}

/-- The memory at `a` holds `t`, deleted or not. -/
def Holds (s : TimerSet) (a : Addr) (t : Timer) : Prop := (s.heap a).map Cell.timer = some t

theorem Live.holds (h : s.Live a t) : s.Holds a t := by
  rw [Holds, h]; rfl

theorem deref_holds (h : s.Holds a t) : (s.deref a).1 = t := by
  obtain ⟨c, hc, rfl⟩ := Option.map_eq_some_iff.mp h
  rw [deref, hc]
  cases c <;> rfl

/-- Looking at a timer neither runs nor deletes one. -/
theorem deref_events (s : TimerSet) (a : Addr) : ∀ ev ∈ (s.deref a).2, ev = .dangling a := by
  unfold deref
  split <;> simp

theorem holds_delete (s : TimerSet) (a b : Addr) (u : Timer) : (s.delete a).1.Holds b u ↔ s.Holds b u := by
  unfold delete Holds
  split
  · rename_i t ht
    by_cases hb : b = a
    · subst hb
      simp [ht, Cell.timer]
    · simp [hb]
  · exact Iff.rfl

theorem delete_events (s : TimerSet) (a : Addr) :
    (s.delete a).2 = [.deleted a] ∨ (s.delete a).2 = [.deleted a, .dangling a] := by
  unfold delete
  split
  · exact .inl rfl
  · exact .inr rfl

theorem delete_container (s : TimerSet) (a : Addr) : (s.delete a).1.timer_container_ = s.timer_container_ := by
  unfold delete
  split <;> rfl

theorem count_deref (s : TimerSet) (a b : Addr) : (s.deref a).2.count (.deleted b) = 0 :=
  List.count_eq_zero.mpr fun hm => absurd (deref_events s a _ hm) Event.noConfusion

theorem count_delete (s : TimerSet) (a b : Addr) :
    (s.delete a).2.count (.deleted b) = if a = b then 1 else 0 := by
  rcases delete_events s a with h | h <;> rw [h]
  · by_cases hab : a = b
    · subst hab; simp
    · simp [hab]
  · by_cases hab : a = b
    · subst hab; simp
    · simp [hab]

/-! ## The callbacks -/

/-- The ids that a turn cancels. -/
def Turn.ids : Turn → List TimerId
  | .call (.cancel id) => [id]
  | _ => []

/-- A turn of a batch whose callbacks do nothing but cancel. -/
def Turn.Cancels (due : List Entry) : Turn → Prop
  | .run it => it ∈ due
  | .call (.cancel _) => True
  | .call (.addTimer ..) => False

/-- The cancels that the callbacks of a batch make, in their order. -/
def cancelCalls (s : TimerSet) (now : Int) (callbacks : List (List TimerId)) : List TimerId :=
  (callbacks.take (s.due now).length).flatten

/-- Callbacks that do nothing but cancel. -/
def cancelling (callbacks : List (List TimerId)) : List (List Action) := callbacks.map (·.map .cancel)

theorem ids_script : ∀ (due : List Entry) (callbacks : List (List TimerId)),
    (script due (cancelling callbacks)).flatMap Turn.ids = (callbacks.take due.length).flatten
  | [], callbacks => rfl
  | it :: due, [] => by
    have ih := ids_script due []
    rw [List.take_nil] at ih ⊢
    exact ih
  | it :: due, ids :: callbacks => by
    have hids : ((ids.map Action.cancel).map Turn.call).flatMap Turn.ids = ids := by
      induction ids with
      | nil => rfl
      | cons id ids ih => exact congrArg (id :: ·) ih
    show ((ids.map Action.cancel).map Turn.call ++ script due (cancelling callbacks)).flatMap Turn.ids =
      ids ++ (callbacks.take due.length).flatten
    rw [List.flatMap_append, hids, ids_script due callbacks]

theorem cancels_script {all : List Entry} : ∀ (due : List Entry) (callbacks : List (List TimerId)), (∀ e ∈ due, e ∈ all) →
    ∀ turn ∈ script due (cancelling callbacks), turn.Cancels all
  | [], _, _, _, h => absurd h List.not_mem_nil
  | it :: due, callbacks, hall, turn, h => by
    have hrest : ∀ callbacks : List (List TimerId), ∀ turn ∈ script due (cancelling callbacks), turn.Cancels all :=
      fun callbacks => cancels_script due callbacks fun e he => hall e (List.mem_cons_of_mem _ he)
    rcases List.mem_cons.mp h with rfl | h
    · exact hall it List.mem_cons_self
    · cases callbacks with
      | nil => exact hrest [] turn h
      | cons ids callbacks =>
        rcases List.mem_append.mp h with h | h
        · obtain ⟨action, ha, rfl⟩ := List.mem_map.mp h
          obtain ⟨id, -, rfl⟩ := List.mem_map.mp ha
          trivial
        · exact hrest callbacks turn h

/-- The state `s'` that cancels of the timers at the addresses `gone` make of
`s`: the contents of the memory are the same, and the entries are out of the
container. -/
structure CancelledFrom (s : TimerSet) (gone : List Addr) (s' : TimerSet) : Prop where
  holds : ∀ a t, s'.Holds a t ↔ s.Holds a t
  container : s'.timer_container_ = s.timer_container_.filter fun f => f.second ∉ gone

variable {batch : List Entry}

theorem CancelledFrom.cancel (hi : Inv batch s) (h : CancelledFrom s gone s') (ht : s.Live id.timer_ t) :
    CancelledFrom s (gone ++ [id.timer_]) (s'.cancelInLoop id).1 := by
  have hd : (s'.deref id.timer_).1 = t := deref_holds ((h.holds _ _).mpr ht.holds)
  refine ⟨fun b u => (holds_delete _ id.timer_ b u).trans (h.holds b u), ?_⟩
  have hc : (s'.cancelInLoop id).1.timer_container_ =
      OrderedSet.erase (entry t.expiration_ id.timer_) s'.timer_container_ := by
    rw [← hd]
    exact delete_container _ id.timer_
  rw [hc, h.container, erase_eq_filter (hi.ascending.sublist List.filter_sublist), List.filter_filter]
  refine List.filter_congr fun f hf => ?_
  have hfe : f = entry t.expiration_ id.timer_ ↔ f.second = id.timer_ := by
    refine ⟨fun he => by rw [he]; rfl, fun hs => ?_⟩
    obtain ⟨u, hu, hue⟩ := (hi.mem_iff f).mp (List.mem_append_left _ hf)
    rw [hs] at hu
    exact Entry.ext_iff.mpr ⟨by rw [← hue, hu.unique ht]; rfl, hs⟩
  by_cases hs : f.second = id.timer_
  · simp [hfe.mpr hs]
  · simp [hs, mt hfe.mp hs]

theorem cancelInLoop_events (s : TimerSet) (id : TimerId) (b : Addr) :
    (s.cancelInLoop id).2.count (.deleted b) = (if id.timer_ = b then 1 else 0) ∧
    ∀ n m, .ran n m ∉ (s.cancelInLoop id).2 := by
  refine ⟨?_, fun n m hm => ?_⟩
  · rw [cancelInLoop]
    simp only [List.cons_append, List.count_cons, List.count_append, count_deref, count_delete]
    simp
  · rw [cancelInLoop] at hm
    simp only [List.cons_append, List.mem_cons, List.mem_append] at hm
    rcases hm with hm | hm | hm
    · exact Event.noConfusion hm
    · exact absurd (deref_events s _ _ hm) Event.noConfusion
    · rcases delete_events _ id.timer_ with h | h <;> rw [h] at hm <;> simp at hm

/-- The callbacks of a batch, whatever they cancel: the state they leave, what
they delete, and that only timers of the batch run. -/
theorem turns_cancelled (hi : Inv batch s) (now : Int) : ∀ (ts : List Turn) (s' : TimerSet) (gone : List Addr),
    CancelledFrom s gone s' → (∀ turn ∈ ts, turn.Cancels batch) →
    (∀ id ∈ ts.flatMap Turn.ids, ∃ t, s.Live id.timer_ t) →
    CancelledFrom s (gone ++ (ts.flatMap Turn.ids).map TimerId.timer_) ((turns now).final s' ts) ∧
    (∀ a, ((turns now).outputs s' ts).flatten.count (.deleted a) =
      ((ts.flatMap Turn.ids).map TimerId.timer_).count a) ∧
    ∀ n m, .ran n m ∈ ((turns now).outputs s' ts).flatten → ∃ e ∈ batch, ∃ t, s.Live e.second t ∧ t.sequence_ = n
  | [], s', gone, h, _, _ => ⟨(List.append_nil gone).symm ▸ h, fun _ => rfl, fun _ _ hm => absurd hm List.not_mem_nil⟩
  | turn :: ts, s', gone, h, hc, hl => by
    have hc' := fun turn ht => hc turn (List.mem_cons_of_mem _ ht)
    have hl' := fun id hid => hl id (List.mem_append_right _ hid)
    match turn with
    | .call (.addTimer a w i n) => exact absurd (hc _ List.mem_cons_self) id
    | .run it =>
      obtain ⟨h₁, h₂, h₃⟩ := turns_cancelled hi now ts s' gone h hc' hl'
      obtain ⟨t, ht, -⟩ := hi.batch_live (hc _ List.mem_cons_self)
      have hd : (s'.deref it.second).1 = t := deref_holds ((h.holds _ _).mpr ht.holds)
      refine ⟨h₁, fun a => ?_, fun n m hm => ?_⟩
      · show (((s'.deref it.second).2 ++ [Event.ran (s'.deref it.second).1.sequence_ now]) ++
          ((turns now).outputs s' ts).flatten).count _ = _
        rw [List.count_append, List.count_append, count_deref, h₂]
        simp [Turn.ids]
      · rcases List.mem_append.mp (show Event.ran n m ∈ ((s'.deref it.second).2 ++
          [.ran (s'.deref it.second).1.sequence_ now]) ++ ((turns now).outputs s' ts).flatten from hm) with hm | hm
        · rcases List.mem_append.mp hm with hm | hm
          · exact absurd (deref_events s' _ _ hm) Event.noConfusion
          · refine ⟨it, hc _ List.mem_cons_self, t, ht, ?_⟩
            rw [(Event.ran.inj (List.mem_singleton.mp hm)).1, hd]
        · exact h₃ n m hm
    | .call (.cancel id) =>
      obtain ⟨t, ht⟩ := hl id (List.mem_append_left _ (List.mem_singleton_self _))
      obtain ⟨h₁, h₂, h₃⟩ := turns_cancelled hi now ts _ _ (h.cancel hi ht) hc' hl'
      rw [List.append_assoc] at h₁
      refine ⟨h₁, fun a => ?_, fun n m hm => ?_⟩
      · show ((s'.cancelInLoop id).2 ++ ((turns now).outputs (s'.cancelInLoop id).1 ts).flatten).count _ =
          (id.timer_ :: (ts.flatMap Turn.ids).map TimerId.timer_).count a
        rw [List.count_append, (cancelInLoop_events s' id a).1, h₂, List.count_cons, Nat.add_comm]
        simp
      · rcases List.mem_append.mp (show Event.ran n m ∈ (s'.cancelInLoop id).2 ++
          ((turns now).outputs (s'.cancelInLoop id).1 ts).flatten from hm) with hm | hm
        · exact absurd hm ((cancelInLoop_events s' id 0).2 n m)
        · exact h₃ n m hm

/-! ## `reset` -/

theorem insert_events (s : TimerSet) (a : Addr) : ∀ ev ∈ (s.insert a).2.2, ev = .dangling a ∨ ev = .assertFailed := by
  intro ev hev
  rw [insert] at hev
  rcases List.mem_append.mp hev with hev | hev
  · exact .inl (deref_events s a ev hev)
  · split at hev
    · exact absurd hev List.not_mem_nil
    · exact .inr (List.mem_singleton.mp hev)

theorem holds_store (s : TimerSet) (a : Addr) (t : Timer) (hb : b ≠ a) (u : Timer) :
    (s.store a t).Holds b u ↔ s.Holds b u := by
  unfold store Holds
  split <;> simp [hb]

theorem store_self (h : s.Holds a u) (t : Timer) : (s.store a t).Holds a t := by
  obtain ⟨c, hc, -⟩ := Option.map_eq_some_iff.mp h
  unfold store Holds
  cases c <;> simp [hc, Cell.timer]

theorem store_container (s : TimerSet) (a : Addr) (t : Timer) :
    (s.store a t).timer_container_ = s.timer_container_ := by
  unfold store
  split <;> rfl

/-- A turn of `reset`, whether its timer is deleted or not. -/
theorem resetOne_holds (h : s.Holds e.second t) (now : Int) :
    (∀ b, b ≠ e.second → ∀ u, (s.resetOne now e).1.Holds b u ↔ s.Holds b u) ∧
    (s.resetOne now e).1.timer_container_ =
      (if t.repeat_ then (OrderedSet.insert (entry (now + t.interval_.delta) e.second) s.timer_container_).1
        else s.timer_container_) ∧
    (∀ b, (s.resetOne now e).2.count (.deleted b) = if e.second = b ∧ t.repeat_ = false then 1 else 0) ∧
    ∀ n m, .ran n m ∉ (s.resetOne now e).2 := by
  have hd := deref_holds h
  unfold resetOne
  cases hr : t.repeat_ with
  | true =>
    simp only [hd, hr, if_true]
    have hd' : ((s.store e.second (t.restart now)).deref e.second).1 = t.restart now := deref_holds (store_self h _)
    have hexp : (t.restart now).expiration_ = now + t.interval_.delta := by rw [restart_eq hr]
    refine ⟨fun b hb u => holds_store s _ _ hb u, ?_, fun b => ?_, fun n m hm => ?_⟩
    · simp only [insert, hd', hexp, store_container]
    · rw [List.count_append, count_deref, Nat.zero_add, if_neg (by simp), List.count_eq_zero]
      intro hm
      rcases insert_events _ _ _ hm with h | h <;> exact Event.noConfusion h
    · rcases List.mem_append.mp hm with hm | hm
      · exact absurd (deref_events s _ _ hm) Event.noConfusion
      · rcases insert_events _ _ _ hm with h | h <;> exact Event.noConfusion h
  | false =>
    simp only [hd, hr, Bool.false_eq_true, if_false]
    refine ⟨fun b _ u => holds_delete s _ b u, delete_container s _, fun b => ?_, fun n m hm => ?_⟩
    · rw [List.count_append, count_deref, Nat.zero_add, count_delete]
      simp
    · rcases List.mem_append.mp hm with hm | hm
      · exact absurd (deref_events s _ _ hm) Event.noConfusion
      · rcases delete_events s e.second with h | h <;> rw [h] at hm <;> simp at hm

/-- The loop of `reset`, whether its timers are deleted or not: it puts
nothing but timers of the batch into the container, all those that repeat, and
deletes the others. -/
theorem resetAll_holds (now : Int) : ∀ (batch : List Entry) (s : TimerSet), (batch.map Entry.second).Nodup →
    (∀ e ∈ batch, ∃ t, s.Holds e.second t) →
    (∀ f ∈ ((resetAll now).final s batch).timer_container_, f ∈ s.timer_container_ ∨ ∃ e ∈ batch, f.second = e.second) ∧
    (∀ f ∈ s.timer_container_, f ∈ ((resetAll now).final s batch).timer_container_) ∧
    (∀ e ∈ batch, ∀ t, s.Holds e.second t → t.repeat_ = true →
      ∃ f ∈ ((resetAll now).final s batch).timer_container_, f.second = e.second) ∧
    (∀ e ∈ batch, ∀ t, s.Holds e.second t → t.repeat_ = false →
      0 < ((resetAll now).outputs s batch).flatten.count (.deleted e.second)) ∧
    (∀ a, (∀ e ∈ batch, e.second ≠ a) → ((resetAll now).outputs s batch).flatten.count (.deleted a) = 0) ∧
    ∀ n m, .ran n m ∉ ((resetAll now).outputs s batch).flatten
  | [], s, _, _ => ⟨fun f hf => .inl hf, fun f hf => hf, fun e he => absurd he List.not_mem_nil,
      fun e he => absurd he List.not_mem_nil, fun _ _ => rfl, fun _ _ => List.not_mem_nil⟩
  | e :: batch, s, hnd, hb => by
    obtain ⟨t, ht⟩ := hb e List.mem_cons_self
    obtain ⟨hholds, hcont, hcount, hran⟩ := resetOne_holds ht now
    have hnd' := List.nodup_cons.mp hnd
    have hne : ∀ f ∈ batch, f.second ≠ e.second := fun f hf hs => hnd'.1 (hs ▸ List.mem_map_of_mem hf)
    obtain ⟨h₁, h₂, h₃, h₄, h₅, h₆⟩ := resetAll_holds now batch (s.resetOne now e).1 hnd'.2 fun f hf => by
      obtain ⟨u, hu⟩ := hb f (List.mem_cons_of_mem _ hf)
      exact ⟨u, (hholds _ (hne f hf) u).mpr hu⟩
    have hmem : ∀ f, f ∈ s.timer_container_ → f ∈ (s.resetOne now e).1.timer_container_ := by
      intro f hf
      rw [hcont]
      split
      · exact OrderedSet.mem_insert.mpr (.inr hf)
      · exact hf
    have hout : ∀ a, ((resetAll now).outputs s (e :: batch)).flatten.count (.deleted a) =
        (s.resetOne now e).2.count (.deleted a) +
          ((resetAll now).outputs (s.resetOne now e).1 batch).flatten.count (.deleted a) := fun a => List.count_append ..
    refine ⟨fun f hf => ?_, fun f hf => h₂ f (hmem f hf), fun g hg u hu hr => ?_, fun g hg u hu hr => ?_,
      fun a ha => ?_, fun n m hm => ?_⟩
    · rcases h₁ f hf with hf | ⟨g, hg, hs⟩
      · rw [hcont] at hf
        split at hf
        · rcases OrderedSet.mem_insert.mp hf with rfl | hf
          · exact .inr ⟨e, List.mem_cons_self, rfl⟩
          · exact .inl hf
        · exact .inl hf
      · exact .inr ⟨g, List.mem_cons_of_mem _ hg, hs⟩
    · rcases List.mem_cons.mp hg with rfl | hg
      · obtain rfl : t = u := Option.some.inj (ht.symm.trans hu)
        refine ⟨entry (now + t.interval_.delta) g.second, h₂ _ ?_, rfl⟩
        rw [hcont, if_pos hr]
        exact OrderedSet.mem_insert.mpr (.inl rfl)
      · exact h₃ g hg u ((hholds _ (hne g hg) u).mpr hu) hr
    · rw [hout]
      rcases List.mem_cons.mp hg with rfl | hg
      · obtain rfl : t = u := Option.some.inj (ht.symm.trans hu)
        rw [hcount, if_pos ⟨rfl, hr⟩]
        omega
      · have := h₄ g hg u ((hholds _ (hne g hg) u).mpr hu) hr
        omega
    · rw [hout, hcount, if_neg fun h => ha e List.mem_cons_self h.1, h₅ a fun f hf => ha f (List.mem_cons_of_mem _ hf)]
    · rcases List.mem_append.mp (show Event.ran n m ∈ (s.resetOne now e).2 ++
        ((resetAll now).outputs (s.resetOne now e).1 batch).flatten from hm) with hm | hm
      · exact hran n m hm
      · exact h₆ n m hm

theorem rearm_container (s : TimerSet) (later : Int) : (s.rearm later).1.timer_container_ = s.timer_container_ := by
  unfold rearm
  dsimp only
  split
  · rfl
  · dsimp only
    split <;> rfl

theorem rearm_events (s : TimerSet) (later : Int) : ∀ ev ∈ (s.rearm later).2, ∃ a, ev = .dangling a := by
  unfold rearm
  intro ev hev
  dsimp only at hev
  split at hev
  · exact absurd hev List.not_mem_nil
  · exact ⟨_, deref_events s _ ev hev⟩

/-! ## The whole batch -/

/-- The cancels that the callbacks of a `handleRead` make are safe: a
cancelled timer does not run afterwards, is not in the container at the end,
and is deleted once. -/
def SafeCancels (s : TimerSet) (now : Int) (callbacks : List (List TimerId)) (later : Int) : Prop :=
  let r := s.handleRead now (cancelling callbacks) later
  ∀ id ∈ s.cancelCalls now callbacks,
    (∀ before after, r.2 = before ++ .cancelled id :: after → ∀ n, .ran id.sequence_ n ∉ after) ∧
    (∀ f ∈ r.1.timer_container_, f.second ≠ id.timer_) ∧ r.2.count (.deleted id.timer_) = 1

/-- What is known of a `handleRead` whose callbacks do nothing but cancel
timers that were in the container at its start. -/
theorem handleRead_cancelling (h : Inv [] s) (later : Int) {callbacks : List (List TimerId)}
    (hp : ∀ id ∈ s.cancelCalls now callbacks, s.Pending id) :
    let r := s.handleRead now (cancelling callbacks) later
    let gone := (s.cancelCalls now callbacks).map TimerId.timer_
    (∀ f ∈ r.1.timer_container_, f.second ∉ gone ∨ ∃ e ∈ s.due now, f.second = e.second) ∧
    (∀ e ∈ s.due now, ∀ t, s.Live e.second t → t.repeat_ = true → ∃ f ∈ r.1.timer_container_, f.second = e.second) ∧
    (∀ e ∈ s.due now, ∀ t, s.Live e.second t → t.repeat_ = false →
      gone.count e.second < r.2.count (.deleted e.second)) ∧
    (∀ a, gone.count a ≤ r.2.count (.deleted a)) ∧
    (∀ a, (∀ e ∈ s.due now, e.second ≠ a) → r.2.count (.deleted a) = gone.count a) ∧
    ∀ n m, .ran n m ∈ r.2 → ∃ e ∈ s.due now, ∃ t, s.Live e.second t ∧ t.sequence_ = n := by
  intro r gone
  have hi : Inv (s.due now) (s.taken now) := h.getExpired now _
  have hids := ids_script (s.due now) callbacks
  obtain ⟨h₁, h₂, h₃⟩ := turns_cancelled hi now (script (s.due now) (cancelling callbacks)) (s.taken now) []
    ⟨fun _ _ => Iff.rfl, (List.filter_eq_self.mpr fun _ _ => rfl).symm⟩ (cancels_script _ _ fun _ he => he) (by
      rw [hids]
      intro id hid
      obtain ⟨t, ht, -⟩ := hp id hid
      exact ⟨t, ht⟩)
  rw [hids] at h₁ h₂
  have hnd : ((s.due now).map Entry.second).Nodup := by
    refine List.Nodup.map_on (fun e he f hf hs => ?_) (List.nodup_append'.mp hi.nodup).2.1
    exact hi.eq_of_second (List.mem_append_right _ he) (List.mem_append_right _ hf) hs
  have hlive : ∀ e ∈ s.due now, ∀ t, s.Live e.second t →
      ((turns now).final (s.taken now) (script (s.due now) (cancelling callbacks))).Holds e.second t :=
    fun e _ t ht => (h₁.holds _ _).mpr (Live.holds (s := s.taken now) ht)
  obtain ⟨k₁, -, k₃, k₄, k₅, k₆⟩ := resetAll_holds now (s.due now) _ hnd fun e he => by
    obtain ⟨t, ht, -⟩ := hi.batch_live he
    exact ⟨t, hlive e he t ht⟩
  have hr : r = _ := handleRead_eq h
  have hcont : r.1.timer_container_ = ((resetAll now).final
      ((turns now).final (s.taken now) (script (s.due now) (cancelling callbacks))) (s.due now)).timer_container_ := by
    rw [hr]
    exact rearm_container _ later
  have hcount : ∀ a, r.2.count (.deleted a) = gone.count a + ((resetAll now).outputs
      ((turns now).final (s.taken now) (script (s.due now) (cancelling callbacks))) (s.due now)).flatten.count
        (.deleted a) := by
    intro a
    rw [hr]
    simp only [reset, List.count_append, h₂ a]
    rw [show ∀ s : TimerSet, (s.rearm later).2.count (.deleted a) = 0 from fun s => List.count_eq_zero.mpr fun hm => by
      obtain ⟨b, hb⟩ := rearm_events s later _ hm
      exact Event.noConfusion hb]
    rfl
  refine ⟨fun f hf => ?_, fun e he t ht hrep => ?_, fun e he t ht hrep => ?_, fun a => ?_, fun a ha => ?_,
    fun n m hm => ?_⟩
  · rw [hcont] at hf
    rcases k₁ f hf with hf | hf
    · rw [h₁.container] at hf
      exact .inl (of_decide_eq_true (List.mem_filter.mp hf).2)
    · exact .inr hf
  · rw [hcont]
    exact k₃ e he t (hlive e he t ht) hrep
  · have := k₄ e he t (hlive e he t ht) hrep
    rw [hcount]
    omega
  · rw [hcount]
    omega
  · rw [hcount, k₅ a ha]
    omega
  · rw [hr] at hm
    rcases List.mem_append.mp hm with hm | hm
    · exact h₃ n m hm
    · rcases List.mem_append.mp hm with hm | hm
      · exact absurd hm (k₆ n m)
      · obtain ⟨a, ha⟩ := rearm_events _ later _ hm
        exact absurd ha Event.noConfusion

theorem Pending.eq_of_timer {i j : TimerId} (hi : s.Pending i) (hj : s.Pending j) (hij : i.timer_ = j.timer_) :
    i = j := by
  obtain ⟨u, hu, hiu, -⟩ := hi
  obtain ⟨v, hv, hjv, -⟩ := hj
  rw [hij] at hu
  exact TimerId.ext hij (hiu.symm.trans ((congrArg Timer.sequence_ (hu.unique hv)).trans hjv))

theorem Inv.pending_entry (h : Inv [] s) (hp : s.Pending id) :
    ∃ t, s.Live id.timer_ t ∧ t.sequence_ = id.sequence_ ∧ (s.deref id.timer_).1 = t ∧
      ∀ e ∈ s.timer_container_, e.second = id.timer_ → e = entry t.expiration_ id.timer_ := by
  obtain ⟨t, ht, hq, hm⟩ := hp
  exact ⟨t, ht, hq, deref_holds ht.holds, fun e he hs =>
    h.eq_of_second (List.mem_append_left _ he) (List.mem_append_left _ hm) hs⟩

/-- Between two calls, whatever is in the container: the cancels that the
callbacks of a `handleRead` make, of timers that were in the container at its
start, are safe exactly if none is of a timer of the batch, and none is made
twice. -/
theorem cancel_in_callback_iff (h : Inv [] s) (now : Int) (callbacks : List (List TimerId)) (later : Int)
    (hp : ∀ id ∈ s.cancelCalls now callbacks, s.Pending id) :
    s.SafeCancels now callbacks later ↔
      (∀ id ∈ s.cancelCalls now callbacks, now < (s.deref id.timer_).1.expiration_) ∧
      (s.cancelCalls now callbacks).Nodup := by
  obtain ⟨h₁, h₂, h₃, h₄, h₅, h₆⟩ := handleRead_cancelling h later hp
  constructor
  · intro hs
    refine ⟨fun id hid => ?_, ?_⟩
    · obtain ⟨t, ht, -, hm⟩ := hp id hid
      obtain ⟨-, hcont, hcount⟩ := hs id hid
      rw [deref_holds ht.holds]
      by_contra hnow
      have hdue : entry t.expiration_ id.timer_ ∈ s.due now :=
        List.mem_filter.mpr ⟨hm, decide_eq_true (not_lt.mp hnow)⟩
      by_cases hr : t.repeat_ = true
      · -- `reset` puts the timer back
        obtain ⟨f, hf, hfs⟩ := h₂ _ hdue t ht hr
        exact hcont f hf hfs
      · -- `reset` deletes the timer again
        have hlt := h₃ _ hdue t ht (Bool.eq_false_of_not_eq_true hr)
        have hpos : 0 < ((s.cancelCalls now callbacks).map TimerId.timer_).count id.timer_ :=
          List.count_pos_iff.mpr (List.mem_map_of_mem hid)
        rw [second_entry, hcount] at hlt
        omega
    · rw [List.nodup_iff_count_le_one]
      intro id
      by_cases hid : id ∈ s.cancelCalls now callbacks
      · have := (hs id hid).2.2
        have := h₄ id.timer_
        have := List.count_le_count_map (f := TimerId.timer_) (l := s.cancelCalls now callbacks) (x := id)
        omega
      · rw [List.count_eq_zero.mpr hid]
        omega
  · rintro ⟨hnow, hnd⟩ id hid
    obtain ⟨t, ht, hq, hd, huniq⟩ := h.pending_entry (hp id hid)
    have hexp := hd ▸ hnow id hid
    have hne : ∀ e ∈ s.due now, e.second ≠ id.timer_ := by
      intro e he hs
      have hle : e.first ≤ now := of_decide_eq_true (List.mem_filter.mp he).2
      rw [huniq e (List.mem_of_mem_filter he) hs, first_entry] at hle
      omega
    refine ⟨fun before after hr n hm => ?_, fun f hf hs => ?_, ?_⟩
    · obtain ⟨e, he, u, hu, hun⟩ := h₆ id.sequence_ n (by
        rw [hr]
        exact List.mem_append_right _ (List.mem_cons_of_mem _ hm))
      exact hne e he (h.distinct _ _ u t hu ht (hun.trans hq.symm))
    · rcases h₁ f hf with hf | ⟨e, he, hfe⟩
      · exact hf (hs ▸ List.mem_map_of_mem hid)
      · exact hne e he (hfe.symm.trans hs)
    · rw [h₅ id.timer_ hne]
      refine List.count_eq_one_of_mem (hnd.map_on fun i hi j hj hij => ?_) (List.mem_map_of_mem hid)
      exact (hp i hi).eq_of_timer (hp j hj) hij

/-- A one-shot timer and a repeating one that are due at 1200, and one that is
not. -/
def three : List Op := [.addTimer 8 1000 0 10, .addTimer 16 500 200 20, .addTimer 24 9000 0 30]

theorem cancel_in_callback_iff_three :
    machine.Along Op.Allowed new three ∧
    (∀ id ∈ (machine.final new three).cancelCalls 1200 [[⟨24, 3⟩]], (machine.final new three).Pending id) ∧
    (machine.final new three).SafeCancels 1200 [[⟨24, 3⟩]] 1300 := by
  have ha : machine.Along Op.Allowed new three := by decide +kernel
  have hp : ∀ id ∈ (machine.final new three).cancelCalls 1200 [[⟨24, 3⟩]], (machine.final new three).Pending id := by
    decide +kernel
  refine ⟨ha, hp, (cancel_in_callback_iff (run_inv three ha) 1200 _ 1300 hp).mpr ⟨?_, ?_⟩⟩
  · decide +kernel
  · decide +kernel

/-- The callback of the one-shot timer cancels its own timer, which `reset`
deletes again; that of the repeating timer cancels it, and `reset` puts the
deleted timer back into the container. -/
theorem cancel_in_callback_own :
    machine.Along Op.Allowed new three ∧
    (∀ id ∈ (machine.final new three).cancelCalls 1200 [[], [⟨8, 1⟩]], (machine.final new three).Pending id) ∧
    ¬ (machine.final new three).SafeCancels 1200 [[], [⟨8, 1⟩]] 1300 ∧
    ¬ (machine.final new three).SafeCancels 1200 [[⟨16, 2⟩]] 1300 := by
  refine ⟨by decide +kernel, by decide +kernel, fun h => ?_, fun h => ?_⟩
  · have hcount := (h ⟨8, 1⟩ (by decide +kernel)).2.2
    revert hcount
    decide +kernel
  · have hcont := (h ⟨16, 2⟩ (by decide +kernel)).2.1
    revert hcont
    decide +kernel

end Ydx.TimerSet
