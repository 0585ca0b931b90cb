import YdxNet.Impl.TimerSet

/-!
# The timers and the container

`Inv batch s`: the timers that are alive are those in the container and those
of the batch that `handleRead` has taken out of it, each under its current
expiration. A new timer at an address that is not in use (`Fresh`) and a
cancel of a timer in the container (`Pending`) keep it, and so does each turn
of `reset`; for each there is one equation that says what the operation does
(`addTimer_eq`, `cancelInLoop_eq`, `getExpired_eq`, `resetOne_repeat`,
`resetOne_oneShot`).
-/

namespace Ydx

@[simp] theorem first_entry (w : Int) (a : Addr) : (entry w a).first = w := rfl

@[simp] theorem second_entry (w : Int) (a : Addr) : (entry w a).second = a := rfl

@[simp] theorem entry_first_second (e : Entry) : entry e.first e.second = e := rfl

theorem entry_inj {w v : Int} {a b : Addr} : entry w a = entry v b ↔ w = v ∧ a = b :=
  ⟨fun h => ⟨congrArg Entry.first h, congrArg Entry.second h⟩, fun ⟨h₁, h₂⟩ => by rw [h₁, h₂]⟩

theorem Entry.ext_iff {e f : Entry} : e = f ↔ e.first = f.first ∧ e.second = f.second :=
  entry_inj (w := e.first) (v := f.first) (a := e.second) (b := f.second)

theorem Entry.lt_iff {e f : Entry} : e < f ↔ e.first < f.first ∨ e.first = f.first ∧ e.second < f.second :=
  Prod.Lex.lt_iff ..

theorem Entry.first_le {e f : Entry} (h : e ≤ f) : e.first ≤ f.first := by
  rcases (Prod.Lex.le_iff ..).mp h with h | h
  · exact le_of_lt h
  · exact le_of_eq h.1

/-- Below the sentry of `getExpired` lies what has expired. -/
theorem Entry.lt_sentry {e : Entry} (now : Int) (ha : e.second < UINTPTR_MAX) :
    e < entry now UINTPTR_MAX ↔ e.first ≤ now := by
  rw [Entry.lt_iff, first_entry, second_entry]
  constructor
  · rintro (h | h)
    · exact le_of_lt h
    · exact le_of_eq h.1
  · intro h
    rcases lt_or_eq_of_le h with h | h
    · exact .inl h
    · exact .inr ⟨h, ha⟩

theorem Interval.delta_nonneg {i : Interval} (h : i.positive = true) : 0 ≤ i.delta := by
  have := i.sign
  rwa [if_pos h] at this

namespace TimerSet

open OrderedSet

/-- The timer at `a` is `t`, and not deleted. -/
def Live (s : TimerSet) (a : Addr) (t : Timer) : Prop := s.heap a = some (.live t)

/-- `new` may return `a`. -/
def Fresh (s : TimerSet) (a : Addr) : Prop := (∀ t, ¬ s.Live a t) ∧ a < UINTPTR_MAX

/-- The timer `id` was returned for is in the container. -/
def Pending (s : TimerSet) (id : TimerId) : Prop :=
  ∃ t, s.Live id.timer_ t ∧ t.sequence_ = id.sequence_ ∧ entry t.expiration_ id.timer_ ∈ s.timer_container_

instance (s : TimerSet) (a : Addr) : Decidable (s.Fresh a) :=
  match h : s.heap a with
  | some (.live t) => .isFalse fun hf => hf.1 t h
  | some (.freed t) => decidable_of_iff (a < UINTPTR_MAX)
      ⟨fun ha => ⟨fun u hu => absurd (h.symm.trans hu) (by simp), ha⟩, And.right⟩
  | none => decidable_of_iff (a < UINTPTR_MAX) ⟨fun ha => ⟨fun u hu => absurd (h.symm.trans hu) (by simp), ha⟩, And.right⟩

instance (s : TimerSet) (id : TimerId) : Decidable (s.Pending id) :=
  match h : s.heap id.timer_ with
  | some (.live t) => decidable_of_iff (t.sequence_ = id.sequence_ ∧ entry t.expiration_ id.timer_ ∈ s.timer_container_)
      ⟨fun hp => ⟨t, h, hp⟩, fun ⟨u, hu, hp⟩ => by
        obtain rfl : t = u := Cell.live.inj (Option.some.inj (h.symm.trans hu))
        exact hp⟩
  | some (.freed t) => .isFalse fun ⟨u, hu, _⟩ => absurd (h.symm.trans hu) (by simp)
  | none => .isFalse fun ⟨u, hu, _⟩ => absurd (h.symm.trans hu) (by simp)

/-- The container and the batch hold exactly the timers that are alive. -/
structure Inv (batch : List Entry) (s : TimerSet) : Prop where
  ascending : Ascending s.timer_container_
  nodup : (s.timer_container_ ++ batch).Nodup
  mem_iff : ∀ e : Entry, e ∈ s.timer_container_ ++ batch ↔ ∃ t, s.Live e.second t ∧ t.expiration_ = e.first
  issued : ∀ a t, s.Live a t → t.sequence_ ≤ s.timer_sequence_creater
  distinct : ∀ a b t u, s.Live a t → s.Live b u → t.sequence_ = u.sequence_ → a = b
  repeats : ∀ a t, s.Live a t → t.repeat_ = t.interval_.positive
  below : ∀ a t, s.Live a t → a < UINTPTR_MAX

variable {s : TimerSet} {a b : Addr} {t u : Timer} {batch : List Entry} {e : Entry}

theorem Live.unique (h : s.Live a t) (h' : s.Live a u) : t = u :=
  Cell.live.inj (Option.some.inj (h.symm.trans h'))

theorem deref_live (h : s.Live a t) : s.deref a = (t, []) := by
  rw [deref, h]

theorem live_update {c : Cell} : ({ s with heap := Function.update s.heap a (some c) } : TimerSet).Live b u ↔
    if b = a then c = .live u else s.Live b u := by
  unfold Live
  by_cases hb : b = a
  · subst hb; simp
  · simp [hb]

theorem new_inv : Inv [] new where
  ascending := List.Pairwise.nil
  nodup := List.nodup_nil
  mem_iff _ := ⟨fun h => absurd h List.not_mem_nil, fun ⟨_, h, _⟩ => absurd h (Option.some_ne_none _).symm⟩
  issued _ _ h := absurd h (Option.some_ne_none _).symm
  distinct _ _ _ _ h := absurd h (Option.some_ne_none _).symm
  repeats _ _ h := absurd h (Option.some_ne_none _).symm
  below _ _ h := absurd h (Option.some_ne_none _).symm

theorem Inv.eq_of_second {f : Entry} (h : Inv batch s) (he : e ∈ s.timer_container_ ++ batch)
    (hf : f ∈ s.timer_container_ ++ batch) (hs : e.second = f.second) : e = f := by
  obtain ⟨t, ht, hte⟩ := (h.mem_iff e).mp he
  obtain ⟨u, hu, hue⟩ := (h.mem_iff f).mp hf
  have htu : t = u := ht.unique (hs ▸ hu)
  exact Entry.ext_iff.mpr ⟨by rw [← hte, ← hue, htu], hs⟩

theorem Inv.not_mem_of_not_live (h : Inv batch s) (ha : ∀ t, ¬ s.Live a t) (w : Int) :
    entry w a ∉ s.timer_container_ ++ batch := by
  intro hm
  obtain ⟨t, ht, -⟩ := (h.mem_iff _).mp hm
  exact ha t ht

/-! ## `addTimer` -/

/-- The state after `addTimer`. -/
def added (s : TimerSet) (a : Addr) (w : Int) (i : Interval) (now : Int) : TimerSet where
  timer_container_ := (OrderedSet.insert (entry w a) s.timer_container_).1
  timerfd_ := if s.earliestChanged w then some (resetTimerfd w now) else s.timerfd_
  heap := Function.update s.heap a (some (.live (.new w i (s.timer_sequence_creater + 1))))
  timer_sequence_creater := s.timer_sequence_creater + 1

theorem insert_eq (h : s.Live a t) (hn : entry t.expiration_ a ∉ s.timer_container_) :
    s.insert a = (s.earliestChanged t.expiration_,
      { s with timer_container_ := (OrderedSet.insert (entry t.expiration_ a) s.timer_container_).1 }, []) := by
  rw [insert, deref_live h]
  simp only [insert_new hn, if_true, List.append_nil]

theorem addTimerInLoop_eq (h : s.Live a t) (hn : entry t.expiration_ a ∉ s.timer_container_) (now : Int) :
    s.addTimerInLoop a now =
      ({ s with
        timer_container_ := (OrderedSet.insert (entry t.expiration_ a) s.timer_container_).1
        timerfd_ := if s.earliestChanged t.expiration_ then some (resetTimerfd t.expiration_ now) else s.timerfd_ },
        []) := by
  have hl : Live { s with timer_container_ := (OrderedSet.insert (entry t.expiration_ a) s.timer_container_).1 } a t := h
  rw [addTimerInLoop, insert_eq h hn]
  simp only [deref_live hl]
  split <;> rfl

theorem addTimer_eq (h : Inv batch s) (ha : s.Fresh a) (w : Int) (i : Interval) (now : Int) :
    s.addTimer a w i now = (s.added a w i now, [.added ⟨a, s.timer_sequence_creater + 1⟩ w i]) := by
  have hn : entry w a ∉ s.timer_container_ := fun hm =>
    h.not_mem_of_not_live ha.1 w (List.mem_append_left _ hm)
  have hl : Live { s with
      heap := Function.update s.heap a (some (.live (.new w i (s.timer_sequence_creater + 1))))
      timer_sequence_creater := s.timer_sequence_creater + 1 } a (.new w i (s.timer_sequence_creater + 1)) :=
    Function.update_self ..
  rw [addTimer]
  simp only [addTimerInLoop_eq hl hn]
  rfl

theorem live_added {w : Int} {i : Interval} {now : Int} : (s.added a w i now).Live b u ↔
    if b = a then u = .new w i (s.timer_sequence_creater + 1) else s.Live b u := by
  refine (live_update (s := s)).trans ?_
  split
  · exact ⟨fun h => (Cell.live.inj h).symm, fun h => h ▸ rfl⟩
  · exact Iff.rfl

/-- A timer is stored at an address of its own, and its entry inserted. -/
theorem Inv.stored {s' : TimerSet} {batch' : List Entry} (h : Inv batch' s)
    (hm : ∀ f, f ∈ s.timer_container_ ++ batch ↔ f ∈ s.timer_container_ ++ batch' ∧ f.second ≠ a)
    (hnd : (s.timer_container_ ++ batch).Nodup)
    (hc : s'.timer_container_ = (OrderedSet.insert (entry t.expiration_ a) s.timer_container_).1)
    (hlive : ∀ b u, s'.Live b u ↔ if b = a then u = t else s.Live b u)
    (hcount : s.timer_sequence_creater ≤ s'.timer_sequence_creater)
    (hissued : t.sequence_ ≤ s'.timer_sequence_creater)
    (hdistinct : ∀ b u, b ≠ a → s.Live b u → u.sequence_ ≠ t.sequence_)
    (hrepeat : t.repeat_ = t.interval_.positive) (ha : a < UINTPTR_MAX) : Inv batch s' := by
  have hn : entry t.expiration_ a ∉ s.timer_container_ ++ batch := fun hx => ((hm _).mp hx).2 rfl
  have hn' : entry t.expiration_ a ∉ s.timer_container_ := fun hx => hn (List.mem_append_left _ hx)
  have hp : (s'.timer_container_ ++ batch).Perm (entry t.expiration_ a :: (s.timer_container_ ++ batch)) := by
    rw [hc]
    exact (perm_insert hn').append_right batch
  refine ⟨by rw [hc]; exact h.ascending.insert _, hp.nodup_iff.mpr (List.nodup_cons.mpr ⟨hn, hnd⟩), fun f => ?_,
    ?_, ?_, ?_, ?_⟩
  · rw [hp.mem_iff, List.mem_cons, hm, h.mem_iff]
    simp only [hlive]
    by_cases hf : f.second = a
    · simp only [hf, if_true, exists_eq_left, ne_eq, not_true_eq_false, and_false, or_false]
      exact ⟨fun he => by rw [he]; rfl, fun he => Entry.ext_iff.mpr ⟨he.symm, hf⟩⟩
    · simp only [hf, if_false, ne_eq, not_false_eq_true, and_true]
      exact ⟨fun he => he.resolve_left fun he => hf (by rw [he]; rfl), .inr⟩
  · intro b u hb
    rw [hlive] at hb
    split at hb
    · rw [hb]; exact hissued
    · exact (h.issued b u hb).trans hcount
  · intro b c u v hb hc hs
    rw [hlive] at hb hc
    split at hb <;> split at hc
    · rename_i h₁ h₂; rw [h₁, h₂]
    · rename_i h₁ h₂
      rw [hb] at hs
      exact absurd hs.symm (hdistinct c v h₂ hc)
    · rename_i h₁ h₂
      rw [hc] at hs
      exact absurd hs (hdistinct b u h₁ hb)
    · exact h.distinct b c u v hb hc hs
  · intro b u hb
    rw [hlive] at hb
    split at hb
    · rw [hb]; exact hrepeat
    · exact h.repeats b u hb
  · intro b u hb
    rw [hlive] at hb
    split at hb
    · rename_i hba; rw [hba]; exact ha
    · exact h.below b u hb

theorem Inv.added (h : Inv batch s) (ha : s.Fresh a) (w : Int) (i : Interval) (now : Int) :
    Inv batch (s.added a w i now) := by
  refine h.stored (t := .new w i (s.timer_sequence_creater + 1)) (a := a) (fun f => ?_) h.nodup rfl
    (fun _ _ => live_added) (Nat.le_succ _) (Nat.le_refl _) (fun b u _ hb => ?_) rfl ha.2
  · refine ⟨fun hf => ⟨hf, ?_⟩, And.left⟩
    rintro rfl
    exact h.not_mem_of_not_live ha.1 f.first (by rw [entry_first_second]; exact hf)
  · exact Nat.ne_of_lt (Nat.lt_succ_of_le (h.issued b u hb))

/-! ## `delete` and `cancel` -/

/-- The state after the timer `t` at `a` is deleted. -/
def freed (s : TimerSet) (a : Addr) (t : Timer) : TimerSet :=
  { s with heap := Function.update s.heap a (some (.freed t)) }

theorem delete_eq (h : s.Live a t) : s.delete a = (s.freed a t, [.deleted a]) := by
  rw [delete, h]
  rfl

theorem live_freed : (s.freed a t).Live b u ↔ b ≠ a ∧ s.Live b u := by
  refine (live_update (s := s)).trans ?_
  split
  · rename_i hb
    exact ⟨fun h => absurd h Cell.noConfusion, fun h => absurd hb h.1⟩
  · rename_i hb
    exact ⟨fun h => ⟨hb, h⟩, And.right⟩

/-- The state after `cancelInLoop` of the timer `t` at `a`. -/
def erased (s : TimerSet) (a : Addr) (t : Timer) : TimerSet :=
  { s.freed a t with timer_container_ := OrderedSet.erase (entry t.expiration_ a) s.timer_container_ }

theorem cancelInLoop_eq {id : TimerId} (h : s.Live id.timer_ t) :
    s.cancelInLoop id = (s.erased id.timer_ t, [.cancelled id, .deleted id.timer_]) := by
  have hl : Live { s with
      timer_container_ := OrderedSet.erase (entry t.expiration_ id.timer_) s.timer_container_ } id.timer_ t := h
  rw [cancelInLoop, deref_live h]
  simp only [delete_eq hl]
  rfl

/-- A timer is deleted, and its entry dropped from where it was. -/
theorem Inv.freed (h : Inv batch s) {container batch' : List Entry} (hc : Ascending container)
    (hp : (s.timer_container_ ++ batch).Perm (entry t.expiration_ a :: (container ++ batch'))) :
    Inv batch' { s.freed a t with timer_container_ := container } := by
  have hnd := List.nodup_cons.mp (hp.nodup_iff.mp h.nodup)
  have hlive : ∀ b u, Live { s.freed a t with timer_container_ := container } b u ↔ b ≠ a ∧ s.Live b u :=
    fun b u => live_freed
  refine ⟨hc, hnd.2, fun e => ?_, ?_, ?_, ?_, ?_⟩
  · simp only [hlive]
    constructor
    · intro he
      have hm := hp.mem_iff.mpr (List.mem_cons_of_mem _ he)
      obtain ⟨u, hu, hue⟩ := (h.mem_iff e).mp hm
      refine ⟨u, ⟨fun hs => hnd.1 ?_, hu⟩, hue⟩
      have hes : e = entry t.expiration_ a := h.eq_of_second hm (hp.mem_iff.mpr List.mem_cons_self) hs
      exact hes ▸ he
    · rintro ⟨u, ⟨hs, hu⟩, hue⟩
      rcases List.mem_cons.mp (hp.mem_iff.mp ((h.mem_iff e).mpr ⟨u, hu, hue⟩)) with rfl | hm
      · exact absurd rfl hs
      · exact hm
  · exact fun b u hb => h.issued b u ((hlive b u).mp hb).2
  · exact fun b c u v hb hc => h.distinct b c u v ((hlive b u).mp hb).2 ((hlive c v).mp hc).2
  · exact fun b u hb => h.repeats b u ((hlive b u).mp hb).2
  · exact fun b u hb => h.below b u ((hlive b u).mp hb).2

theorem Inv.erased (h : Inv batch s) (hm : entry t.expiration_ a ∈ s.timer_container_) : Inv batch (s.erased a t) :=
  h.freed (h.ascending.erase _) ((perm_erase hm).append_right batch)

/-! ## `getExpired` -/

/-- The entries that have expired, and the others. -/
theorem getExpired_eq (h : Inv [] s) (now : Int) :
    s.getExpired now = (s.timer_container_.filter fun e => e.first ≤ now,
      { s with timer_container_ := s.timer_container_.filter fun e => now < e.first }, []) := by
  have hb : ∀ e ∈ s.timer_container_, e.second < UINTPTR_MAX := fun e he => by
    obtain ⟨t, ht, -⟩ := (h.mem_iff e).mp (List.mem_append_left _ he)
    exact h.below _ t ht
  have h₁ : before (entry now UINTPTR_MAX) s.timer_container_ = s.timer_container_.filter fun e => e.first ≤ now := by
    rw [before_eq_filter h.ascending]
    exact List.filter_congr fun e he => by rw [decide_eq_decide]; exact Entry.lt_sentry now (hb e he)
  have h₂ : notBefore (entry now UINTPTR_MAX) s.timer_container_ = s.timer_container_.filter fun e => now < e.first := by
    rw [notBefore_eq_filter h.ascending]
    exact List.filter_congr fun e he => by rw [decide_eq_decide, Entry.lt_sentry now (hb e he)]; exact not_le
  rw [getExpired]
  simp only [h₁, h₂]
  split
  · rfl
  · rename_i it hit
    have := List.of_mem_filter (List.mem_of_mem_head? (Option.mem_def.mpr hit))
    rw [if_pos (of_decide_eq_true this)]

theorem perm_filter_due (l : List Entry) (now : Int) :
    ((l.filter fun e => now < e.first) ++ l.filter fun e => e.first ≤ now).Perm l := by
  have h := List.filter_append_perm (fun e : Entry => decide (now < e.first)) l
  refine (List.Perm.of_eq ?_).trans h
  congr 1
  refine List.filter_congr fun e _ => ?_
  rw [← decide_not, decide_eq_decide]
  exact not_lt.symm

theorem Inv.getExpired (h : Inv [] s) (now : Int) (timerfd : Option Armed) :
    Inv (s.timer_container_.filter fun e => e.first ≤ now)
      { s with timer_container_ := s.timer_container_.filter fun e => now < e.first, timerfd_ := timerfd } := by
  have hp := perm_filter_due s.timer_container_ now
  refine ⟨h.ascending.sublist List.filter_sublist, ?_, fun e => ?_, h.issued, h.distinct, h.repeats, h.below⟩
  · exact hp.nodup_iff.mpr h.ascending.nodup
  · have := h.mem_iff e
    rw [List.append_nil] at this
    exact hp.mem_iff.trans this

/-! ## `reset` -/

theorem resetOne_oneShot (h : s.Live e.second t) (hr : t.repeat_ = false) (now : Int) :
    s.resetOne now e = (s.freed e.second t, [.deleted e.second]) := by
  rw [resetOne, deref_live h]
  simp only [hr, Bool.false_eq_true, if_false, delete_eq h, List.nil_append]

/-- The state after a repeating timer is put back. -/
def restarted (s : TimerSet) (a : Addr) (t : Timer) (now : Int) : TimerSet :=
  { s with
    timer_container_ := (OrderedSet.insert (entry (now + t.interval_.delta) a) s.timer_container_).1
    heap := Function.update s.heap a (some (.live { t with expiration_ := now + t.interval_.delta })) }

theorem restart_eq (hr : t.repeat_ = true) (now : Int) : t.restart now = { t with expiration_ := now + t.interval_.delta } := by
  rw [Timer.restart, if_pos hr, addTime]

theorem resetOne_repeat (h : s.Live e.second t) (hr : t.repeat_ = true) {now : Int}
    (hn : entry (now + t.interval_.delta) e.second ∉ s.timer_container_) :
    s.resetOne now e = (s.restarted e.second t now, []) := by
  have hs : s.store e.second (t.restart now) =
      { s with heap := Function.update s.heap e.second (some (.live (t.restart now))) } := by
    rw [store, h]
  have hl : Live { s with heap := Function.update s.heap e.second (some (.live (t.restart now))) } e.second
      (t.restart now) := Function.update_self ..
  have he : (t.restart now).expiration_ = now + t.interval_.delta := by rw [restart_eq hr]
  rw [resetOne, deref_live h]
  simp only [hr, if_true, hs]
  rw [insert_eq hl (by rw [he]; exact hn)]
  simp only [List.nil_append, restart_eq hr]
  rfl

theorem live_restarted {now : Int} : (s.restarted a t now).Live b u ↔
    if b = a then u = { t with expiration_ := now + t.interval_.delta } else s.Live b u := by
  refine (live_update (s := s)).trans ?_
  split
  · exact ⟨fun h => (Cell.live.inj h).symm, fun h => h ▸ rfl⟩
  · exact Iff.rfl

/-- No entry of the container has the address of a timer of the batch. -/
theorem Inv.not_mem_of_batch (h : Inv (e :: batch) s) (w : Int) : entry w e.second ∉ s.timer_container_ := by
  intro hm
  have he : entry w e.second = e :=
    h.eq_of_second (List.mem_append_left _ hm) (List.mem_append_right _ List.mem_cons_self) rfl
  exact (List.nodup_append'.mp h.nodup).2.2 hm (he ▸ List.mem_cons_self)

theorem Inv.batch_live (h : Inv batch s) (he : e ∈ batch) : ∃ t, s.Live e.second t ∧ t.expiration_ = e.first :=
  (h.mem_iff e).mp (List.mem_append_right _ he)

theorem Inv.dropOneShot (h : Inv (e :: batch) s) (hl : s.Live e.second t) : Inv batch (s.freed e.second t) := by
  obtain ⟨u, hu, hue⟩ := h.batch_live List.mem_cons_self
  have he : entry t.expiration_ e.second = e := Entry.ext_iff.mpr ⟨by rw [hl.unique hu]; exact hue, rfl⟩
  refine h.freed h.ascending ?_
  rw [he]
  exact List.perm_middle

theorem Inv.restarted (h : Inv (e :: batch) s) (hl : s.Live e.second t) (now : Int) :
    Inv batch (s.restarted e.second t now) := by
  have hnd := List.nodup_cons.mp (List.perm_middle.nodup_iff.mp h.nodup)
  refine h.stored (t := { t with expiration_ := now + t.interval_.delta }) (a := e.second) (fun f => ?_) hnd.2 rfl
    (fun _ _ => live_restarted) (Nat.le_refl _) (h.issued _ t hl) (fun b u hb hu hs => ?_) (h.repeats _ t hl)
    (h.below _ t hl)
  · rw [List.perm_middle.mem_iff, List.mem_cons]
    constructor
    · refine fun hf => ⟨.inr hf, fun hs => ?_⟩
      have hfe : f = e := h.eq_of_second (List.perm_middle.mem_iff.mpr (List.mem_cons_of_mem _ hf))
        (List.mem_append_right _ List.mem_cons_self) hs
      exact hnd.1 (hfe ▸ hf)
    · rintro ⟨rfl | hf, hs⟩
      · exact absurd rfl hs
      · exact hf
  · exact hb (h.distinct b _ u t hu hl hs)

theorem rearm_eq (h : Inv [] s) (later : Int) : s.rearm later =
    ({ s with timerfd_ := match s.timer_container_.head? with
      | some it => if 0 < it.first then some (resetTimerfd it.first later) else s.timerfd_
      | none => s.timerfd_ }, []) := by
  rw [rearm]
  cases hh : s.timer_container_.head? with
  | none => rfl
  | some it =>
    obtain ⟨t, ht, hte⟩ := (h.mem_iff it).mp (List.mem_append_left _ (List.mem_of_mem_head? (Option.mem_def.mpr hh)))
    simp only [deref_live ht, hte, validTimestamp, decide_eq_true_eq]
    split <;> rfl

end TimerSet

end Ydx
