import YdxNet.Proof.AsyncLoggingStop

/-!
# How long a line waits

While the log runs, the writing thread takes the buffers over once in every turn, and a batch
has at most 25 buffers when it is written. So a line that is shorter than a buffer waits for the
end of one turn and for the next one: after at most `58` steps of the writing thread, with any calls of `append` between
them, it is in the file, or in a batch of which the file has the notice (`written_soon`).
-/

namespace Ydx.AsyncLogging

open FixedBuffer

variable {SIZE : Nat} {s : AsyncLogging SIZE} {g g' : Ledger} {lines : List (List Byte)} {n : Nat}

/-- The steps that are left until the batch in hand is in the file. -/
def finishing : LoggingPc → Nat
  | .drop => 27
  | .write i => 26 - min i 25
  | .test | .lock | .wait | .recycle | .exited | .crashed => 1

/-- The steps that are left until the buffers that are full now are in the file. -/
def turning : LoggingPc → Nat
  | .wait => 28
  | .lock => 29
  | .test => 30
  | .recycle => 31
  | .write i => 31 + finishing (.write i)
  | .drop => 31 + finishing .drop
  | .exited | .crashed => 1

/-- The thread runs on, and the lines are in the file, or on their way: with the batch in hand, or
with the next one. -/
structure Due (lines : List (List Byte)) (n : Nat) (s : AsyncLogging SIZE) (g : Ledger) : Prop where
  accounts : Accounts s g
  stocked : Stocked s
  running : s.running_ = true
  up : s.thread ≠ .exited
  there : lines <+: g.done.flatten.flatten ∨ lines <+: g.handed ∧ finishing s.thread ≤ n ∨
    lines <+: s.appended ∧ turning s.thread ≤ n

/-- Its steps while the log runs. -/
inductive Goes : LoggingPc → LoggingPc → Prop
  | test : Goes .test .lock
  | lock : Goes .lock .wait
  | swap {pc : LoggingPc} (waiting : pc = .lock ∨ pc = .wait) : Goes pc .drop
  | drop : Goes .drop (.write 0)
  | write {i : Nat} (hi : i < 25) : Goes (.write i) (.write (i + 1))
  | written {i : Nat} : Goes (.write i) .recycle
  | recycle : Goes .recycle .test

/-- At most 25 buffers are written. -/
theorem length_batchKept (batch : Batch) : (batchKept batch).length ≤ 25 := by
  unfold batchKept
  split
  · rw [List.length_take]
    omega
  · omega

theorem goes (h : Accounts s g) (hs : Stocked s) (hrun : s.running_ = true) (hup : s.thread ≠ .exited) :
    Goes s.thread s.threadFunc.thread := by
  obtain ⟨buf, hb, -⟩ := Option.map_eq_some_iff.mp h.current
  cases ht : s.thread with
  | test =>
    rw [threadFunc_of_test ht, hrun]
    exact .test
  | lock =>
    rw [threadFunc_of_lock ht]
    split
    · exact .lock
    · rw [swap_eq hb]
      exact .swap (.inl rfl)
  | wait =>
    rw [threadFunc_of_wait ht, swap_eq hb]
    exact .swap (.inr rfl)
  | drop =>
    by_cases hbig : s.buffer_to_write.length > 25
    · rw [threadFunc_of_big ht hbig]
      exact .drop
    · rw [threadFunc_of_small ht hbig]
      exact .drop
  | write i =>
    cases hi : s.buffer_to_write[i]? with
    | some buf =>
      rw [threadFunc_of_some ht hi]
      refine .write ?_
      have hw := h.written
      rw [ht] at hw
      have hlen := congrArg List.length hw.2
      rw [List.length_map, List.length_map] at hlen
      have hlt := (List.getElem?_eq_some_iff.mp hi).1
      have := length_batchKept g.batch
      omega
    | none =>
      rw [threadFunc_of_none ht hi]
      exact .written
  | recycle =>
    obtain ⟨b₁, b₂, -, -, e⟩ := threadFunc_of_recycle hs ht
    rw [e]
    exact .recycle
  | exited => exact absurd ht hup
  | crashed => exact absurd ht hs.not_crashed

variable {pc pc' : LoggingPc}

theorem Goes.up (h : Goes pc pc') : pc' ≠ .exited := by
  cases h <;> exact LoggingPc.noConfusion

/-- With a batch in hand, a step brings its end nearer, or is its end. -/
theorem Goes.finishing (h : Goes pc pc') (hw : pc ≠ .lock ∧ pc ≠ .wait) :
    finishing pc' < finishing pc ∨ pc' ≠ .drop ∧ ∀ i, pc' ≠ .write i := by
  cases h with
  | test | lock | written | recycle => exact .inr ⟨LoggingPc.noConfusion, fun _ => LoggingPc.noConfusion⟩
  | swap waiting =>
    rcases waiting with he | he
    · exact absurd he hw.1
    · exact absurd he hw.2
  | drop => exact .inl (by decide)
  | write hi =>
    refine .inl ?_
    simp only [AsyncLogging.finishing]
    omega

/-- Before a batch is taken over, a step brings that nearer, or does it. -/
theorem Goes.turning (h : Goes pc pc') :
    turning pc' < turning pc ∨ (pc = .lock ∨ pc = .wait) ∧ pc' = .drop ∧ AsyncLogging.finishing pc' < turning pc := by
  cases h with
  | test | lock | drop | recycle => exact .inl (by decide)
  | swap waiting =>
    refine .inr ⟨waiting, rfl, ?_⟩
    rcases waiting with he | he
    · rw [he]
      decide
    · rw [he]
      decide
  | write hi =>
    refine .inl ?_
    simp only [AsyncLogging.turning, AsyncLogging.finishing]
    omega
  | written =>
    refine .inl ?_
    simp only [AsyncLogging.turning, AsyncLogging.finishing]
    omega

/-! ## The lines on their way -/

theorem Accounts.handed_eq (h : Accounts s g) (hd : s.thread ≠ .drop) (hw : ∀ i, s.thread ≠ .write i) :
    g.handed = g.done.flatten.flatten := by
  rw [Ledger.handed, (h.written.idle hd hw).2, List.append_nil]

/-- What has been handed over stays so, and what is in the file. -/
theorem Moves.grows {s' : AsyncLogging SIZE} (h : Moves s s' g g') (ha : Accounts s g) :
    g.done.flatten.flatten <+: g'.done.flatten.flatten ∧ g.handed <+: g'.handed := by
  cases h with
  | stays done batch waiting =>
    rw [Ledger.handed, Ledger.handed, done, batch]
    exact ⟨List.prefix_refl _, List.prefix_refl _⟩
  | handsOver waiting thread done all =>
    rw [done, all, ha.lines, Ledger.lines, List.append_assoc]
    exact ⟨List.prefix_refl _, List.prefix_append _ _⟩
  | finishes i thread done batch =>
    rw [Ledger.handed, Ledger.handed, done, batch]
    simp only [List.flatten_append, List.flatten_singleton, List.append_nil]
    exact ⟨List.prefix_append _ _, List.prefix_refl _⟩

theorem Moves.handsOver_of_drop {s' : AsyncLogging SIZE} (h : Moves s s' g g') (hw : s.thread = .lock ∨ s.thread = .wait)
    (hd : s'.thread = .drop) : g'.handed = s.appended := by
  cases h with
  | stays done batch waiting =>
    rcases waiting hw with he | he
    · cases hd.symm.trans he
    · cases hd.symm.trans he
  | handsOver waiting thread done all => exact all
  | finishes i thread done batch =>
    rcases hw with he | he
    · cases he.symm.trans thread
    · cases he.symm.trans thread

/-- A step of the writing thread brings the lines nearer to the file. -/
theorem Due.threadFunc (h : Due lines (n + 1) s g) : ∃ g', Due lines n s.threadFunc g' := by
  obtain ⟨g', hg', hs', hm⟩ := h.accounts.step h.stocked (a := .threadFunc) trivial
  have hgoes := goes h.accounts h.stocked h.running h.up
  obtain ⟨hdone, hhanded⟩ := hm.grows h.accounts
  have happended : s.threadFunc.appended = s.appended := (threadFunc_frame s).1
  refine ⟨g', hg', hs', (threadFunc_frame s).2.trans h.running, hgoes.up, ?_⟩
  rcases h.there with hl | ⟨hl, hn⟩ | ⟨hl, hn⟩
  · exact .inl (hl.trans hdone)
  · by_cases hw : s.thread = .lock ∨ s.thread = .wait
    · have heq := h.accounts.handed_eq (by rcases hw with he | he <;> simp [he]) (by rcases hw with he | he <;> simp [he])
      exact .inl ((heq ▸ hl).trans hdone)
    · rcases hgoes.finishing (not_or.mp hw) with hlt | ⟨hd, hwrite⟩
      · exact .inr (.inl ⟨hl.trans hhanded, by omega⟩)
      · exact .inl (hg'.handed_eq hd hwrite ▸ hl.trans hhanded)
  · rcases hgoes.turning with hlt | ⟨hw, hd, hlt⟩
    · exact .inr (.inr ⟨happended ▸ hl, by omega⟩)
    · exact .inr (.inl ⟨hm.handsOver_of_drop hw hd ▸ hl, by omega⟩)

theorem Due.append {line : List Byte} (h : Due lines n s g) (hl : line.length < SIZE) (mem : Nat → Byte) :
    ∃ g', Due lines n (s.append line mem) g' := by
  obtain ⟨g', hg', hs', hm⟩ := h.accounts.step h.stocked (a := .append line mem) hl
  obtain ⟨hgrows, hrun, hthread⟩ := append_frame s line mem
  have ht : (s.append line mem).thread = s.thread := hthread.resolve_right hs'.not_crashed
  obtain ⟨hdone, hhanded⟩ := hm.grows h.accounts
  refine ⟨g', hg', hs', hrun.trans h.running, by rw [ht]; exact h.up, ?_⟩
  rw [ht]
  exact h.there.imp (·.trans hdone) (.imp (.imp_left (·.trans hhanded)) (.imp_left (·.trans hgrows)))

/-- The batches that are done are in the file. -/
theorem Accounts.file (h : Accounts s g) : g.done.flatMap batchText <+: s.output_file := by
  have hw := h.written
  cases ht : s.thread with
  | write i =>
    rw [ht] at hw
    rw [hw.1, List.append_assoc]
    exact List.prefix_append _ _
  | test | lock | wait | drop | recycle | exited | crashed =>
    rw [ht] at hw
    rw [hw.1]

end Ydx.AsyncLogging
