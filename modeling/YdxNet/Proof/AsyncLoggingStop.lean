import YdxNet.Proof.AsyncLogging

/-!
# What is in the file when the log has stopped

After `stop()` the writing thread comes to the test of its loop, and does not take
the buffers over any more, unless it is already past the test. `Given` is the
invariant of the one case: it will take over all lines, or it has; `Kept` that of
the other: what it has been given stays what it has been given. So the lines
appended before `stop()` are in the file exactly if the thread is past the test,
or had been given all of them (`stop_flushes_iff`).
-/

namespace Ydx.AsyncLogging

open FixedBuffer

variable {SIZE : Nat} {s : AsyncLogging SIZE} {g g' : Ledger} {lines : List (List Byte)}

/-- A batch of the writing thread has at most 25 buffers. -/
def Small (s : AsyncLogging SIZE) (a : Action) : Prop :=
  match a with
  | .threadFunc => s.thread = .drop → s.buffer_to_write.length ≤ 25
  | _ => True

instance (s : AsyncLogging SIZE) : ∀ a : Action, Decidable (Small s a)
  | .threadFunc => inferInstanceAs (Decidable (s.thread = .drop → s.buffer_to_write.length ≤ 25))
  | .append .. | .stop => inferInstanceAs (Decidable True)

/-- The writing thread is past the test of `running_` and has yet to take the
buffers over, or nothing is in them. -/
def HandsOver (s : AsyncLogging SIZE) : Prop :=
  s.thread = .lock ∨ s.thread = .wait ∨ (s.buffer_vector_ ++ s.current_buf_.toList).flatMap content = []

instance (s : AsyncLogging SIZE) : Decidable (HandsOver s) := inferInstanceAs (Decidable (_ ∨ _ ∨ _))

/-- No batch has more than 25 buffers, up to the one whose size has yet to be
tested. -/
structure Whole (s : AsyncLogging SIZE) (g : Ledger) : Prop where
  done : ∀ batch ∈ g.done, batch.length ≤ 25
  batch : s.thread ≠ .drop → g.batch.length ≤ 25

/-- What holds of the buffers, the file and the batches. -/
structure Inv (s : AsyncLogging SIZE) (g : Ledger) : Prop where
  accounts : Accounts s g
  stocked : Stocked s
  whole : Whole s g

theorem Inv.step (h : Inv s g) {a : Action} (ha : a.Short SIZE) (hsmall : Small s a) :
    ∃ g', Inv (s.step a) g' ∧ Moves s (s.step a) g g' := by
  obtain ⟨g', hg', hs', hm⟩ := h.accounts.step h.stocked ha
  refine ⟨g', ⟨hg', hs', ?_⟩, hm⟩
  cases hm with
  | stays hd hb _ =>
    refine ⟨by rw [hd]; exact h.whole.done, fun ht => ?_⟩
    rw [hb]
    by_cases hdrop : s.thread = .drop
    · -- the size has just been tested
      have hlen : s.buffer_to_write.length = g.batch.length := by
        have hw := h.accounts.written
        rw [hdrop] at hw
        have := congrArg List.length hw.2
        rwa [List.length_map, List.length_map] at this
      cases a with
      | threadFunc =>
        rw [← hlen]
        exact hsmall hdrop
      | append line mem =>
        refine absurd ?_ ht
        obtain ⟨buf, hbuf, -⟩ := Option.map_eq_some_iff.mp h.accounts.current
        simp only [AsyncLogging.step, AsyncLogging.append, hbuf]
        split <;> exact hdrop
      | stop => exact absurd hdrop ht
    · exact h.whole.batch hdrop
  | handsOver _ ht hd _ => exact ⟨by rw [hd]; exact h.whole.done, fun hne => absurd ht hne⟩
  | finishes i ht hd hb =>
    refine ⟨fun batch hm => ?_, fun _ => by rw [hb]; exact Nat.zero_le _⟩
    rw [hd] at hm
    rcases List.mem_append.mp hm with hm | hm
    · exact h.whole.done batch hm
    · rw [List.mem_singleton.mp hm]
      exact h.whole.batch (by rw [ht]; exact LoggingPc.noConfusion)

theorem Inv.stop (h : Inv s g) : Inv s.stop g :=
  ⟨⟨h.accounts.lines, h.accounts.vector, h.accounts.current, h.accounts.written⟩,
    ⟨h.stocked.next, h.stocked.spare1, h.stocked.spare2, h.stocked.taken, h.stocked.supplied⟩,
    ⟨h.whole.done, h.whole.batch⟩⟩

theorem Inv.final {actions : List Action} (h : Inv s g) (ha : ∀ a ∈ actions, a.Short SIZE)
    (hb : (machine SIZE).Along Small s actions) : ∃ g', Inv ((machine SIZE).final s actions) g' := by
  refine Machine.invariant (I := fun s => ∃ g, Inv s g) ?_ actions s ⟨g, h⟩ ((Machine.Along.of_forall ha s).and hb)
  rintro s a ⟨g, hg⟩ ⟨hshort, hsmall⟩
  obtain ⟨g', hg', -⟩ := hg.step hshort hsmall
  exact ⟨g', hg'⟩

/-- Whole batches are in the file as they were given. -/
theorem flatMap_batchText {done : List Batch} (h : ∀ batch ∈ done, batch.length ≤ 25) :
    done.flatMap batchText = done.flatten.flatten.flatten := by
  induction done with
  | nil => rfl
  | cons batch done ih =>
    have hb : ¬ batch.length > 25 := Nat.not_lt.mpr (h batch List.mem_cons_self)
    rw [List.flatMap_cons, ih fun b hm => h b (List.mem_cons_of_mem _ hm), List.flatten_cons, List.flatten_append,
      List.flatten_append, batchText, batchHead, if_neg hb, batchKept, if_neg hb, List.nil_append]

/-- When the writing thread has returned, the file has the lines it was given. -/
theorem Inv.output (h : Inv s g) (ht : s.thread = .exited) : s.output_file = g.handed.flatten := by
  have hw := h.accounts.written
  rw [ht] at hw
  obtain ⟨hfile, hbatch⟩ := hw
  rw [hfile, flatMap_batchText h.whole.done, Ledger.handed, hbatch, List.append_nil]

theorem Inv.front (h : Inv s g) :
    (s.buffer_vector_ ++ s.current_buf_.toList).flatMap content = (g.vector.flatten ++ g.current).flatten := by
  obtain ⟨buf, hb, hc⟩ := Option.map_eq_some_iff.mp h.accounts.current
  have hv := congrArg List.flatten h.accounts.vector
  rw [List.flatMap_append, List.flatMap_def, hv, hb, Option.toList_some, List.flatMap_singleton, hc, List.flatten_append,
    List.flatten_flatten]

theorem Inv.appended (h : Inv s g) :
    s.appended.flatten = g.handed.flatten ++ (s.buffer_vector_ ++ s.current_buf_.toList).flatMap content := by
  rw [h.front, h.accounts.lines, Ledger.lines, List.append_assoc, List.flatten_append]

/-! ## The steps of the writing thread -/

theorem swap_frame (s : AsyncLogging SIZE) : s.swap.appended = s.appended ∧ s.swap.running_ = s.running_ := by
  unfold AsyncLogging.swap
  split <;> exact ⟨rfl, rfl⟩

theorem recycle_frame (s : AsyncLogging SIZE) :
    s.recycle.appended = s.appended ∧ s.recycle.running_ = s.running_ ∧
      s.recycle.thread ≠ .lock ∧ s.recycle.thread ≠ .wait := by
  unfold AsyncLogging.recycle
  split
  · exact ⟨rfl, rfl, LoggingPc.noConfusion, LoggingPc.noConfusion⟩
  · split <;> exact ⟨rfl, rfl, LoggingPc.noConfusion, LoggingPc.noConfusion⟩

theorem threadFunc_frame (s : AsyncLogging SIZE) :
    s.threadFunc.appended = s.appended ∧ s.threadFunc.running_ = s.running_ := by
  unfold AsyncLogging.threadFunc
  split
  · exact ⟨rfl, rfl⟩
  · split
    · exact ⟨rfl, rfl⟩
    · exact swap_frame s
  · exact swap_frame s
  · split <;> exact ⟨rfl, rfl⟩
  · split <;> exact ⟨rfl, rfl⟩
  · exact ⟨(recycle_frame s).1, (recycle_frame s).2.1⟩
  · exact ⟨rfl, rfl⟩
  · exact ⟨rfl, rfl⟩

/-- With `running_` false, the thread does not come to the section. -/
theorem threadFunc_stopped (hr : s.running_ = false) (h : s.thread ≠ .lock ∧ s.thread ≠ .wait) :
    s.threadFunc.thread ≠ .lock ∧ s.threadFunc.thread ≠ .wait := by
  unfold AsyncLogging.threadFunc
  split
  · simp [hr]
  · rename_i ht
    exact absurd ht h.1
  · rename_i ht
    exact absurd ht h.2
  · split <;> exact ⟨LoggingPc.noConfusion, LoggingPc.noConfusion⟩
  · split <;> exact ⟨LoggingPc.noConfusion, LoggingPc.noConfusion⟩
  · exact (recycle_frame s).2.2
  · exact h
  · exact h

theorem append_frame (s : AsyncLogging SIZE) (line : List Byte) (mem : Nat → Byte) :
    s.appended <+: (s.append line mem).appended ∧ (s.append line mem).running_ = s.running_ ∧
      ((s.append line mem).thread = s.thread ∨ (s.append line mem).thread = .crashed) := by
  unfold AsyncLogging.append
  split
  · exact ⟨List.prefix_refl _, rfl, .inr rfl⟩
  · dsimp only
    split <;> exact ⟨List.prefix_append .., rfl, .inl rfl⟩

/-- Lines are only added. -/
theorem appended_step (s : AsyncLogging SIZE) (a : Action) : s.appended <+: (s.step a).appended := by
  cases a with
  | append line mem => exact (append_frame s line mem).1
  | threadFunc =>
    show s.appended <+: s.threadFunc.appended
    rw [(threadFunc_frame s).1]
  | stop => exact List.prefix_refl _

/-! ## After `stop()` -/

/-- The lines have been given to the writing thread, or it will take them over. -/
def Given (lines : List (List Byte)) (s : AsyncLogging SIZE) : Prop :=
  lines <+: s.appended ∧ ∃ g, Inv s g ∧ (s.thread = .lock ∨ s.thread = .wait ∨ lines <+: g.handed)

theorem Given.step (h : Given lines s) {a : Action} (ha : a.Short SIZE) (hsmall : Small s a) : Given lines (s.step a) := by
  obtain ⟨hl, g, hg, hc⟩ := h
  obtain ⟨g', hg', hm⟩ := hg.step ha hsmall
  refine ⟨hl.trans (appended_step s a), g', hg', ?_⟩
  cases hm with
  | stays hd hb hw =>
    rcases or_assoc.mpr hc with hc | hc
    · exact or_assoc.mp (.inl (hw hc))
    · refine .inr (.inr ?_)
      rwa [Ledger.handed, hd, hb]
  | handsOver _ _ _ hall =>
    refine .inr (.inr ?_)
    rwa [hall]
  | finishes i ht hd hb =>
    have hh : lines <+: g.handed := by simpa [ht] using hc
    refine .inr (.inr ?_)
    rwa [Ledger.handed, hd, hb, List.append_nil, List.flatten_append, List.flatten_singleton]

/-- The writing thread is given no more than the lines. -/
def Kept (lines : List (List Byte)) (s : AsyncLogging SIZE) : Prop :=
  s.running_ = false ∧ (s.thread ≠ .lock ∧ s.thread ≠ .wait) ∧ ∃ g, Inv s g ∧ g.handed = lines

theorem Kept.step (h : Kept lines s) {a : Action} (ha : a.Short SIZE) (hsmall : Small s a) : Kept lines (s.step a) := by
  obtain ⟨hr, ht, g, hg, hl⟩ := h
  obtain ⟨g', hg', hm⟩ := hg.step ha hsmall
  have hmoves : g'.handed = lines := by
    cases hm with
    | stays hd hb _ => rw [Ledger.handed, hd, hb, ← hl, Ledger.handed]
    | handsOver hw _ _ _ => exact absurd hw (not_or.mpr ht)
    | finishes i _ hd hb =>
      rw [← hl, Ledger.handed, Ledger.handed, hd, hb, List.append_nil, List.flatten_append, List.flatten_singleton]
  cases a with
  | append line mem =>
    obtain ⟨-, hr', ht'⟩ := append_frame s line mem
    refine ⟨hr'.trans hr, ?_, g', hg', hmoves⟩
    show (s.append line mem).thread ≠ .lock ∧ (s.append line mem).thread ≠ .wait
    rcases ht' with ht' | ht' <;> rw [ht']
    · exact ht
    · exact ⟨LoggingPc.noConfusion, LoggingPc.noConfusion⟩
  | threadFunc => exact ⟨(threadFunc_frame s).2.trans hr, threadFunc_stopped hr ht, g', hg', hmoves⟩
  | stop => exact ⟨rfl, ht, g', hg', hmoves⟩

/-- In every run without batches of more than 25 buffers, and with lines shorter
than a buffer: when `stop()` has returned, the file begins with the lines that had
been appended when it was called, exactly if the writing thread was past the test
of its loop and had yet to take the buffers over, or nothing was in them. -/
theorem stop_flushes_iff (SIZE : Nat) (mem : Nat → Byte) (before after : List Action)
    (ha : ∀ a ∈ before ++ .stop :: after, a.Short SIZE)
    (hb : (machine SIZE).Along Small (start SIZE mem) (before ++ .stop :: after)) :
    let s := (machine SIZE).final (start SIZE mem) before
    let s' := (machine SIZE).final (start SIZE mem) (before ++ .stop :: after)
    s'.thread = .exited → (s.appended.flatten <+: s'.output_file ↔ HandsOver s) := by
  intro s s' hexit
  obtain ⟨hb₁, hb₂⟩ := Machine.Along.append.mp hb
  have hs' : s' = (machine SIZE).final s (.stop :: after) := Machine.final_append ..
  have ha₂ : ∀ a ∈ Action.stop :: after, a.Short SIZE := fun a hm => ha a (List.mem_append_right _ hm)
  have hsteps := (Machine.Along.of_forall (M := machine SIZE) ha₂ s).and hb₂
  obtain ⟨g, hg⟩ : ∃ g, Inv s g := Inv.final (g := ⟨[], [], [], []⟩)
    ⟨start_accounts SIZE mem, start_stocked SIZE mem, fun _ hm => absurd hm List.not_mem_nil, fun _ => Nat.zero_le _⟩
    (fun a hm => ha a (List.mem_append_left _ hm)) hb₁
  have hgiven : ∀ lines, Given lines s → lines.flatten <+: s'.output_file := by
    intro lines h
    obtain ⟨-, g', hg', hc⟩ : Given lines s' := by
      rw [hs']
      exact Machine.invariant (fun _ _ h hP => h.step hP.1 hP.2) _ s h hsteps
    obtain ⟨more, hmore⟩ : lines <+: g'.handed := by simpa [hexit] using hc
    rw [hg'.output hexit, ← hmore, List.flatten_append]
    exact List.prefix_append ..
  constructor
  · intro hp
    by_contra hno
    obtain ⟨hlock, hwait, hfront⟩ : s.thread ≠ .lock ∧ s.thread ≠ .wait ∧
        (s.buffer_vector_ ++ s.current_buf_.toList).flatMap content ≠ [] := by
      simpa [HandsOver] using hno
    -- after `stop()` the thread is given nothing
    have hk : Kept g.handed s.stop := ⟨rfl, ⟨hlock, hwait⟩, g, hg.stop, rfl⟩
    obtain ⟨-, -, g', hg', hl⟩ : Kept g.handed s' := by
      rw [hs']
      exact Machine.invariant (fun _ _ h hP => h.step hP.1 hP.2) after s.stop hk hsteps.2
    rw [hg'.output hexit, hl, hg.appended] at hp
    have hle := hp.length_le
    rw [List.length_append] at hle
    exact hfront (List.eq_nil_of_length_eq_zero (by omega))
  · rintro (h | h | h)
    · exact hgiven s.appended ⟨List.prefix_refl _, g, hg, .inl h⟩
    · exact hgiven s.appended ⟨List.prefix_refl _, g, hg, .inr (.inl h)⟩
    · have hpre : g.handed <+: s.appended := by
        rw [hg.accounts.lines, Ledger.lines, List.append_assoc]
        exact List.prefix_append ..
      rw [hg.appended, h, List.append_nil]
      exact hgiven g.handed ⟨hpre, g, hg, .inr (.inr (List.prefix_refl _))⟩

/-- The thread is waiting when `stop()` is called. -/
theorem stop_flushes_iff_waiting :
    let mem := fun _ => (255 : Byte)
    let s' := (machine 8).final (start 8 mem) ([.append [1, 2] mem, .threadFunc, .threadFunc, .append [3] mem] ++
      .stop :: List.replicate 6 .threadFunc)
    s'.thread = .exited ∧ [[1, 2], [3]].flatten <+: s'.output_file := by
  intro mem s'
  have hexit : s'.thread = .exited := by decide +kernel
  refine ⟨hexit, ?_⟩
  have h := stop_flushes_iff 8 mem [.append [1, 2] mem, .threadFunc, .threadFunc, .append [3] mem]
    (List.replicate 6 .threadFunc) (by decide +kernel) (by decide +kernel) hexit
  exact h.mpr (by decide +kernel)

/-- A line is appended and `stop()` called before the writing thread first tests
`running_`: it returns, and the file is empty. -/
theorem stop_loses_line :
    let mem := fun _ => (0 : Byte)
    let s := (machine kLargeBuffer).final (start kLargeBuffer mem) [.append [120] mem]
    let s' := (machine kLargeBuffer).final (start kLargeBuffer mem) [.append [120] mem, .stop, .threadFunc]
    s.appended = [[120]] ∧ s'.thread = .exited ∧ s'.output_file = [] := by
  decide +kernel

end Ydx.AsyncLogging
