import YdxNet.Proof.AsyncBuffers

/-!
# Where the lines of a log are

A line is in a batch that was written, in the batch that is being written, in
`buffer_vector_` or in `current_buf_`. `Ledger` is such a partition of the lines
appended, buffer by buffer; `Accounts` says that the buffers and the file hold
just these lines. Every step keeps it, as the spare buffers are empty, and moves
lines on in their order only (`Accounts.step`), so no interleaving loses or repeats
one (`lines_conserved`). A batch of more than 25 buffers is written in part
(`batchText`).
-/

namespace Ydx

namespace AsyncLogging

open FixedBuffer

/-- The lines of some buffers, buffer by buffer. -/
abbrev Batch := List (List (List Byte))

/-- The notice that a batch begins with. -/
def batchHead (batch : Batch) : List Byte := if batch.length > 25 then notice (batch.length - 2) else []

/-- The buffers of a batch that are written. -/
def batchKept (batch : Batch) : Batch := if batch.length > 25 then batch.take 2 else batch

/-- What a batch is in the file. -/
def batchText (batch : Batch) : List Byte := batchHead batch ++ (batchKept batch).flatten.flatten

/-- The lines appended: in the batches written, in the one being written, in
`buffer_vector_` and in `current_buf_`. -/
structure Ledger where
  done : List Batch
  batch : Batch
  vector : Batch
  current : List (List Byte)

/-- The lines that the writing thread has been given. -/
def Ledger.handed (g : Ledger) : List (List Byte) := (g.done.flatten ++ g.batch).flatten

/-- All lines, in their order. -/
def Ledger.lines (g : Ledger) : List (List Byte) := g.handed ++ g.vector.flatten ++ g.current

variable {SIZE : Nat}

/-- What has been written of the ledger's batches, and what `buffer_to_write`
holds. -/
def Written (g : Ledger) (file : List Byte) (bufs : List (List Byte)) : LoggingPc → Prop
  | .drop => file = g.done.flatMap batchText ∧ bufs = g.batch.map List.flatten
  | .write i => file = g.done.flatMap batchText ++ batchHead g.batch ++ ((batchKept g.batch).take i).flatten.flatten ∧
      bufs = (batchKept g.batch).map List.flatten
  | _ => file = g.done.flatMap batchText ∧ g.batch = []

/-- The buffers and the file hold the lines of the ledger. -/
structure Accounts (s : AsyncLogging SIZE) (g : Ledger) : Prop where
  lines : s.appended = g.lines
  vector : s.buffer_vector_.map content = g.vector.map List.flatten
  current : s.current_buf_.map content = some g.current.flatten
  written : Written g s.output_file (s.buffer_to_write.map content) s.thread

/-- How a step moves the lines on. -/
inductive Moves (s s' : AsyncLogging SIZE) (g g' : Ledger) : Prop
  | stays (done : g'.done = g.done) (batch : g'.batch = g.batch)
      (waiting : s.thread = .lock ∨ s.thread = .wait → s'.thread = .lock ∨ s'.thread = .wait)
  | handsOver (waiting : s.thread = .lock ∨ s.thread = .wait) (thread : s'.thread = .drop) (done : g'.done = g.done)
      (all : g'.handed = s.appended)
  | finishes (i : Nat) (thread : s.thread = .write i) (done : g'.done = g.done ++ [g.batch]) (batch : g'.batch = [])

/-- A step of a thread that has its batch moves none. -/
theorem Moves.busy {s s' : AsyncLogging SIZE} {g g' : Ledger} (ht : s.thread ≠ .lock ∧ s.thread ≠ .wait)
    (hd : g'.done = g.done) (hb : g'.batch = g.batch) : Moves s s' g g' :=
  .stays hd hb fun h => absurd h (not_or.mpr ht)

/-- The lines of `append` are shorter than a buffer. -/
def Action.Short (SIZE : Nat) : Action → Prop
  | .append logline _ => logline.length < SIZE
  | _ => True

variable {s : AsyncLogging SIZE} {g : Ledger}

theorem start_accounts (SIZE : Nat) (mem : Nat → Byte) : Accounts (start SIZE mem) ⟨[], [], [], []⟩ where
  lines := rfl
  vector := rfl
  current := congrArg some (content_bzero_new mem)
  written := ⟨rfl, rfl⟩

theorem Accounts.current_isSome (h : Accounts s g) : s.current_buf_.isSome := by
  obtain ⟨buf, hb, -⟩ := Option.map_eq_some_iff.mp h.current
  exact Option.isSome_iff_exists.mpr ⟨buf, hb⟩

/-! ## The threads that append -/

theorem Accounts.append {line : List Byte} (h : Accounts s g) (hs : Stocked s) (mem : Nat → Byte)
    (hl : line.length < SIZE) :
    ∃ g', Accounts (s.append line mem) g' ∧ Moves s (s.append line mem) g g' := by
  obtain ⟨buf, hb, hcur⟩ := Option.map_eq_some_iff.mp h.current
  by_cases hroom : buf.avail > line.length
  · rw [append_of_avail hb hroom]
    refine ⟨{ g with current := g.current ++ [line] }, ⟨?_, h.vector, ?_, h.written⟩, .stays rfl rfl id⟩
    · show s.appended ++ [line] = g.handed ++ g.vector.flatten ++ (g.current ++ [line])
      rw [h.lines, Ledger.lines, List.append_assoc _ g.current]
    · simp only [Option.map_some, content_append hroom, hcur, List.flatten_append, List.flatten_singleton]
  · obtain ⟨next, hn, e⟩ := append_of_full hs hb mem hroom
    rw [e]
    refine ⟨{ g with vector := g.vector ++ [g.current], current := [line] }, ⟨?_, ?_, ?_, h.written⟩, .stays rfl rfl id⟩
    · show s.appended ++ [line] = g.handed ++ (g.vector ++ [g.current]).flatten ++ [line]
      rw [h.lines, Ledger.lines, List.flatten_append, List.flatten_singleton, ← List.append_assoc g.handed]
    · simp only [List.map_append, h.vector, List.map_cons, List.map_nil, hcur]
    · have hfit : next.avail > line.length := by
        rw [avail_of_content_nil hn]
        exact hl
      simp only [Option.map_some, content_append hfit, hn, List.nil_append, List.flatten_singleton]

/-! ## The thread that writes -/

theorem Written.idle {file : List Byte} {bufs : List (List Byte)} {pc : LoggingPc} (h : Written g file bufs pc)
    (hd : pc ≠ .drop) (hw : ∀ i, pc ≠ .write i) : file = g.done.flatMap batchText ∧ g.batch = [] := by
  cases pc with
  | drop => exact absurd rfl hd
  | write i => exact absurd rfl (hw i)
  | _ => exact h

/-- The section under the mutex: the buffers are handed over, and empty ones take
their place. -/
theorem Accounts.swap (h : Accounts s g) (hs : Stocked s) (ht : s.thread = .lock ∨ s.thread = .wait) :
    ∃ g', Accounts s.swap g' ∧ Moves s s.swap g g' := by
  obtain ⟨buf, hb, hcur⟩ := Option.map_eq_some_iff.mp h.current
  obtain ⟨hfile, hbatch⟩ := h.written.idle (by rcases ht with ht | ht <;> rw [ht] <;> exact LoggingPc.noConfusion)
    (fun i => by rcases ht with ht | ht <;> rw [ht] <;> exact LoggingPc.noConfusion)
  obtain ⟨h1, -, hnil⟩ := hs.spares ht
  obtain ⟨b₁, hb₁⟩ := Option.isSome_iff_exists.mp h1
  rw [swap_eq hb]
  have hall : (g.done.flatten ++ (g.vector ++ [g.current])).flatten = s.appended := by
    rw [h.lines, Ledger.lines, Ledger.handed, hbatch]
    simp only [List.append_nil, List.flatten_append, List.flatten_singleton, List.append_assoc]
  refine ⟨⟨g.done, g.vector ++ [g.current], [], []⟩, ⟨?_, ?_, ?_, ?_⟩, .handsOver ht rfl rfl hall⟩
  · show s.appended = (g.done.flatten ++ (g.vector ++ [g.current])).flatten ++ [] ++ []
    rw [hall, List.append_nil, List.append_nil]
  · simp only [hnil, List.map_nil]
  · simp only [hb₁, Option.map_some, hs.spare1 b₁ hb₁, List.flatten_nil]
  · exact ⟨hfile, by simp only [List.map_append, h.vector, List.map_cons, List.map_nil, hcur]⟩

/-- Of a batch of more than 25 buffers, the first two are kept. -/
theorem Accounts.drop (h : Accounts s g) (ht : s.thread = .drop) :
    ∃ g', Accounts s.threadFunc g' ∧ Moves s s.threadFunc g g' := by
  have hw := h.written
  have hbusy : s.thread ≠ .lock ∧ s.thread ≠ .wait := by simp [ht]
  rw [ht] at hw
  obtain ⟨hfile, hbufs⟩ := hw
  have hlen : s.buffer_to_write.length = g.batch.length := by
    have := congrArg List.length hbufs
    rwa [List.length_map, List.length_map] at this
  by_cases hbig : s.buffer_to_write.length > 25
  · have hbig' : g.batch.length > 25 := by rw [← hlen]; exact hbig
    rw [threadFunc_of_big ht hbig]
    refine ⟨g, ⟨h.lines, h.vector, h.current, ?_, ?_⟩, .busy hbusy rfl rfl⟩
    · show s.output_file ++ notice (s.buffer_to_write.length - 2) = _
      rw [hfile, hlen, batchHead, if_pos hbig', List.take_zero, List.flatten_nil, List.flatten_nil, List.append_nil]
    · show (s.buffer_to_write.take 2).map content = _
      rw [batchKept, if_pos hbig', List.map_take, List.map_take, hbufs]
  · have hbig' : ¬ g.batch.length > 25 := by rw [← hlen]; exact hbig
    rw [threadFunc_of_small ht hbig]
    refine ⟨g, ⟨h.lines, h.vector, h.current, ?_, ?_⟩, .busy hbusy rfl rfl⟩
    · show s.output_file = _
      rw [hfile, batchHead, if_neg hbig', List.append_nil, List.take_zero, List.flatten_nil, List.flatten_nil,
        List.append_nil]
    · show s.buffer_to_write.map content = _
      rw [batchKept, if_neg hbig', hbufs]

/-- The next buffer goes into the file, or all have. -/
theorem Accounts.write {i : Nat} (h : Accounts s g) (ht : s.thread = .write i) :
    ∃ g', Accounts s.threadFunc g' ∧ Moves s s.threadFunc g g' := by
  have hw := h.written
  have hbusy : s.thread ≠ .lock ∧ s.thread ≠ .wait := by simp [ht]
  rw [ht] at hw
  obtain ⟨hfile, hbufs⟩ := hw
  have hget : s.buffer_to_write[i]?.map content = (batchKept g.batch)[i]?.map List.flatten := by
    rw [← List.getElem?_map, ← List.getElem?_map, hbufs]
  cases hi : s.buffer_to_write[i]? with
  | some buf =>
    rw [hi, Option.map_some] at hget
    obtain ⟨lines, hl, hc⟩ := Option.map_eq_some_iff.mp hget.symm
    rw [threadFunc_of_some ht hi]
    refine ⟨g, ⟨h.lines, h.vector, h.current, ?_, hbufs⟩, .busy hbusy rfl rfl⟩
    show s.output_file ++ buf.content = _
    rw [hfile, List.take_add_one, hl, Option.toList_some, List.flatten_append, List.flatten_append,
      List.flatten_singleton, hc, ← List.append_assoc]
  | none =>
    rw [hi, Option.map_none] at hget
    have hlen : (batchKept g.batch).length ≤ i := List.getElem?_eq_none_iff.mp (Option.map_eq_none_iff.mp hget.symm)
    rw [threadFunc_of_none ht hi]
    refine ⟨{ g with done := g.done ++ [g.batch], batch := [] }, ⟨?_, h.vector, h.current, ?_, rfl⟩,
      .finishes i ht rfl rfl⟩
    · show s.appended = ((g.done ++ [g.batch]).flatten ++ []).flatten ++ g.vector.flatten ++ g.current
      have hd : (g.done ++ [g.batch]).flatten = g.done.flatten ++ g.batch := by
        rw [List.flatten_append, List.flatten_singleton]
      rw [h.lines, Ledger.lines, Ledger.handed, hd, List.append_nil]
    · show s.output_file = (g.done ++ [g.batch]).flatMap batchText
      rw [hfile, List.take_of_length_le hlen, List.flatMap_append, List.flatMap_singleton, batchText, List.append_assoc]

theorem Accounts.threadFunc (h : Accounts s g) (hs : Stocked s) :
    ∃ g', Accounts s.threadFunc g' ∧ Moves s s.threadFunc g g' := by
  have hw := h.written
  cases ht : s.thread with
  | test =>
    rw [ht] at hw
    rw [threadFunc_of_test ht]
    refine ⟨g, ⟨h.lines, h.vector, h.current, ?_⟩, .busy (by simp [ht]) rfl rfl⟩
    dsimp only
    split
    · exact hw
    · exact hw
  | lock =>
    rw [threadFunc_of_lock ht]
    split
    · rw [ht] at hw
      exact ⟨g, ⟨h.lines, h.vector, h.current, hw⟩, .stays rfl rfl fun _ => .inr rfl⟩
    · exact h.swap hs (.inl ht)
  | wait =>
    rw [threadFunc_of_wait ht]
    exact h.swap hs (.inr ht)
  | drop => exact h.drop ht
  | write i => exact h.write ht
  | recycle =>
    rw [ht] at hw
    obtain ⟨b₁, b₂, -, -, e⟩ := threadFunc_of_recycle hs ht
    rw [e]
    exact ⟨g, ⟨h.lines, h.vector, h.current, hw⟩, .busy (by simp [ht]) rfl rfl⟩
  | exited =>
    rw [threadFunc_of_exited ht]
    exact ⟨g, h, .stays rfl rfl id⟩
  | crashed => exact absurd ht hs.not_crashed

/-! ## Runs -/

theorem Accounts.step (h : Accounts s g) (hs : Stocked s) {a : Action} (ha : a.Short SIZE) :
    ∃ g', Accounts (s.step a) g' ∧ Stocked (s.step a) ∧ Moves s (s.step a) g g' := by
  have hs' := (hs.step h.current_isSome a).1
  obtain ⟨g', hg', hm⟩ : ∃ g', Accounts (s.step a) g' ∧ Moves s (s.step a) g g' := by
    cases a with
    | append line mem => exact h.append hs mem ha
    | threadFunc => exact h.threadFunc hs
    | stop => exact ⟨g, ⟨h.lines, h.vector, h.current, h.written⟩, .stays rfl rfl id⟩
  exact ⟨g', hg', hs', hm⟩

instance (SIZE : Nat) : ∀ a : Action, Decidable (a.Short SIZE)
  | .append logline _ => inferInstanceAs (Decidable (logline.length < SIZE))
  | .threadFunc | .stop => inferInstanceAs (Decidable True)

/-- Buffers of eight bytes: the second line does not fit behind the first, and the
third comes while both are being written. -/
def threeLines : List Action :=
  let mem := fun _ => (255 : Byte)
  [.append [1, 2, 3] mem, .threadFunc, .threadFunc, .append [4, 5, 6, 7, 8, 9] mem, .threadFunc, .threadFunc,
    .threadFunc, .append [10] mem, .threadFunc, .threadFunc, .threadFunc]

end AsyncLogging

end Ydx
