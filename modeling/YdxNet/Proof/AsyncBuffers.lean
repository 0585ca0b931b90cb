import YdxNet.Impl.AsyncLogging
import YdxNet.Proof.LogStream

/-!
# The buffers of a log go round

The buffers are handed from one pointer to the next, by the threads that append
and by the one that writes. `Stocked` says that the spare ones are empty and that
there is one whenever it is needed: when `next_buf_` is null a full buffer waits in
`buffer_vector_`, so that the batch that is taken with both spare buffers gone has two
buffers to make new ones of. Every step keeps it, for lines of any length
(`Stocked.step`).
-/

namespace Ydx

namespace AsyncLogging

open FixedBuffer

variable {SIZE : Nat}

/-- The spare buffers that the writing thread has at a place, and the buffers that
it can make new ones of. -/
def Supplied (s : AsyncLogging SIZE) : LoggingPc → Prop
  | .drop | .write _ | .recycle => s.new_buffer1 = none ∧ s.buffer_to_write ≠ [] ∧
      (s.new_buffer2 = none → 2 ≤ s.buffer_to_write.length)
  | .crashed => False
  | _ => s.new_buffer1.isSome ∧ s.new_buffer2.isSome ∧ s.buffer_to_write = []

/-- The spare buffers are empty, and there are enough. -/
structure Stocked (s : AsyncLogging SIZE) : Prop where
  next : ∀ b, s.next_buf_ = some b → b.content = []
  spare1 : ∀ b, s.new_buffer1 = some b → b.content = []
  spare2 : ∀ b, s.new_buffer2 = some b → b.content = []
  taken : s.next_buf_ = none → s.buffer_vector_ ≠ []
  supplied : s.Supplied s.thread

variable {s : AsyncLogging SIZE} {buf : FixedBuffer SIZE}

theorem start_stocked (SIZE : Nat) (mem : Nat → Byte) : Stocked (start SIZE mem) where
  next _ hb := content_of_some (content_bzero_new mem) hb
  spare1 _ hb := content_of_some (content_bzero_new mem) hb
  spare2 _ hb := content_of_some (content_bzero_new mem) hb
  taken h := by cases h
  supplied := ⟨rfl, rfl, rfl⟩

/-! ## The threads that append -/

theorem append_of_avail (hb : s.current_buf_ = some buf) {line : List Byte} {mem : Nat → Byte}
    (hroom : buf.avail > line.length) :
    s.append line mem = { s with appended := s.appended ++ [line], current_buf_ := some (buf.append line) } := by
  simp only [AsyncLogging.append, hb, if_pos hroom]

/-- A line that does not fit goes into an empty buffer. -/
theorem append_of_full (hs : Stocked s) (hb : s.current_buf_ = some buf) {line : List Byte} (mem : Nat → Byte)
    (hroom : ¬ buf.avail > line.length) : ∃ next : FixedBuffer SIZE, next.content = [] ∧ s.append line mem =
      { s with
        appended := s.appended ++ [line]
        buffer_vector_ := s.buffer_vector_ ++ [buf]
        next_buf_ := none
        current_buf_ := some (next.append line) } := by
  simp only [AsyncLogging.append, hb, if_neg hroom]
  cases hnext : s.next_buf_ with
  | some next => exact ⟨next, hs.next next hnext, rfl⟩
  | none => exact ⟨FixedBuffer.new SIZE mem, content_new mem, rfl⟩

theorem Stocked.append (hs : Stocked s) (hc : s.current_buf_.isSome) (line : List Byte) (mem : Nat → Byte) :
    Stocked (s.append line mem) ∧ (s.append line mem).current_buf_.isSome := by
  obtain ⟨buf, hb⟩ := Option.isSome_iff_exists.mp hc
  by_cases hroom : buf.avail > line.length
  · rw [append_of_avail hb hroom]
    exact ⟨⟨hs.next, hs.spare1, hs.spare2, hs.taken, hs.supplied⟩, rfl⟩
  · obtain ⟨next, -, e⟩ := append_of_full hs hb mem hroom
    rw [e]
    refine ⟨⟨fun b hb => (by cases hb), hs.spare1, hs.spare2, fun _ => ?_, hs.supplied⟩, rfl⟩
    exact List.append_ne_nil_of_right_ne_nil _ (List.cons_ne_nil _ _)

/-! ## The thread that writes -/

theorem swap_eq (hb : s.current_buf_ = some buf) : s.swap =
    { s with
      buffer_to_write := s.buffer_vector_ ++ [buf]
      buffer_vector_ := s.buffer_to_write
      current_buf_ := s.new_buffer1
      new_buffer1 := none
      next_buf_ := if s.next_buf_.isSome then s.next_buf_ else s.new_buffer2
      new_buffer2 := if s.next_buf_.isSome then s.new_buffer2 else none
      thread := .drop } := by
  simp only [AsyncLogging.swap, hb]

/-- Before the section under the mutex both spare buffers are there. -/
theorem Stocked.spares (hs : Stocked s) (ht : s.thread = .lock ∨ s.thread = .wait) :
    s.new_buffer1.isSome ∧ s.new_buffer2.isSome ∧ s.buffer_to_write = [] := by
  have hsup := hs.supplied
  obtain ht | ht := ht
  · rw [ht] at hsup
    exact hsup
  · rw [ht] at hsup
    exact hsup

theorem Stocked.swap (hs : Stocked s) (hc : s.current_buf_.isSome) (ht : s.thread = .lock ∨ s.thread = .wait) :
    Stocked s.swap ∧ s.swap.current_buf_.isSome := by
  obtain ⟨buf, hb⟩ := Option.isSome_iff_exists.mp hc
  obtain ⟨h1, h2, -⟩ := hs.spares ht
  obtain ⟨b₂, hb₂⟩ := Option.isSome_iff_exists.mp h2
  rw [swap_eq hb]
  refine ⟨⟨?_, ?_, ?_, ?_, ?_⟩, h1⟩
  · intro b hbn
    dsimp only at hbn
    split at hbn
    · exact hs.next b hbn
    · exact hs.spare2 b hbn
  · intro b hbn
    cases hbn
  · intro b hbn
    dsimp only at hbn
    split at hbn
    · exact hs.spare2 b hbn
    · cases hbn
  · intro hn
    dsimp only at hn
    split at hn
    · rename_i hsome
      rw [hn] at hsome
      cases hsome
    · rw [hb₂] at hn
      cases hn
  · refine ⟨rfl, List.append_ne_nil_of_right_ne_nil _ (List.cons_ne_nil _ _), fun hn => ?_⟩
    dsimp only at hn ⊢
    have hnone : s.next_buf_ = none := by
      by_contra hne
      rw [if_pos (Option.isSome_iff_ne_none.mpr hne), hb₂] at hn
      cases hn
    have := List.length_pos_iff.mpr (hs.taken hnone)
    rw [List.length_append, List.length_singleton]
    omega

theorem threadFunc_of_test (ht : s.thread = .test) :
    s.threadFunc = { s with thread := if s.running_ then .lock else .exited } := by
  simp only [threadFunc, ht]

theorem threadFunc_of_lock (ht : s.thread = .lock) :
    s.threadFunc = if s.buffer_vector_.isEmpty then { s with thread := .wait } else s.swap := by
  simp only [threadFunc, ht]

theorem threadFunc_of_wait (ht : s.thread = .wait) : s.threadFunc = s.swap := by
  simp only [threadFunc, ht]

theorem threadFunc_of_big (ht : s.thread = .drop) (hbig : s.buffer_to_write.length > 25) : s.threadFunc =
    { s with
      output_file := s.output_file ++ notice (s.buffer_to_write.length - 2)
      buffer_to_write := s.buffer_to_write.take 2
      thread := .write 0 } := by
  simp only [threadFunc, ht, if_pos hbig]

theorem threadFunc_of_small (ht : s.thread = .drop) (hbig : ¬ s.buffer_to_write.length > 25) :
    s.threadFunc = { s with thread := .write 0 } := by
  simp only [threadFunc, ht, if_neg hbig]

theorem threadFunc_of_some {i : Nat} (ht : s.thread = .write i) (hi : s.buffer_to_write[i]? = some buf) :
    s.threadFunc = { s with output_file := s.output_file ++ buf.content, thread := .write (i + 1) } := by
  simp only [threadFunc, ht, hi]

theorem threadFunc_of_none {i : Nat} (ht : s.thread = .write i) (hi : s.buffer_to_write[i]? = none) :
    s.threadFunc = { s with thread := .recycle } := by
  simp only [threadFunc, ht, hi]

theorem threadFunc_of_exited (ht : s.thread = .exited) : s.threadFunc = s := by
  simp only [threadFunc, ht]

theorem Stocked.not_crashed (hs : Stocked s) : s.thread ≠ .crashed := by
  intro ht
  have hsup := hs.supplied
  rw [ht] at hsup
  exact hsup

/-- Two buffers are left of a batch that is cut down. -/
theorem Stocked.drop (hs : Stocked s) (ht : s.thread = .drop) : Stocked s.threadFunc := by
  have hsup := hs.supplied
  rw [ht] at hsup
  obtain ⟨h1, hne, h2⟩ := hsup
  by_cases hbig : s.buffer_to_write.length > 25
  · have htwo : (s.buffer_to_write.take 2).length = 2 := by
      rw [List.length_take]
      omega
    rw [threadFunc_of_big ht hbig]
    refine ⟨hs.next, hs.spare1, hs.spare2, hs.taken, h1, ?_, fun _ => Nat.le_of_eq htwo.symm⟩
    exact List.ne_nil_of_length_pos (by rw [htwo]; decide)
  · rw [threadFunc_of_small ht hbig]
    exact ⟨hs.next, hs.spare1, hs.spare2, hs.taken, h1, hne, h2⟩

/-- The vector that `pop_back` is called on, for the first time. -/
def popped (s : AsyncLogging SIZE) : List (FixedBuffer SIZE) :=
  if s.buffer_to_write.length > 2 then s.buffer_to_write.take 2 else s.buffer_to_write

/-- Behind the loop no vector that a buffer is taken from is empty. -/
theorem Stocked.popped_ne_nil (hs : Stocked s) (ht : s.thread = .recycle) :
    s.new_buffer1 = none ∧ s.popped ≠ [] ∧ (s.new_buffer2 = none → s.popped.dropLast ≠ []) := by
  have hsup := hs.supplied
  rw [ht] at hsup
  obtain ⟨h1, hne, h2⟩ := hsup
  have hpos := List.length_pos_iff.mpr hne
  refine ⟨h1, ?_, fun hn => ?_⟩
  · unfold popped
    split
    · rw [← List.length_pos_iff, List.length_take]
      omega
    · exact hne
  · have := h2 hn
    unfold popped
    rw [← List.length_pos_iff, List.length_dropLast]
    split
    · rw [List.length_take]
      omega
    · omega

theorem refill_some (bufs : List (FixedBuffer SIZE)) {spare : Option (FixedBuffer SIZE)}
    (hc : ∀ b, spare = some b → b.content = []) (hb : spare = none → bufs ≠ []) :
    ∃ b, b.content = [] ∧ refill bufs spare = some (b, if spare = none then bufs.dropLast else bufs) := by
  cases spare with
  | some b => exact ⟨b, hc b rfl, rfl⟩
  | none =>
    obtain ⟨b, hb'⟩ := Option.isSome_iff_exists.mp (List.getLast?_isSome.mpr (hb rfl))
    exact ⟨b.reset, content_reset b, by simp only [refill, hb', Option.map_some, if_true]⟩

/-- The buffers written become the spare ones. -/
theorem threadFunc_of_recycle (hs : Stocked s) (ht : s.thread = .recycle) :
    ∃ b₁ b₂ : FixedBuffer SIZE, b₁.content = [] ∧ b₂.content = [] ∧
      s.threadFunc =
        { s with new_buffer1 := some b₁, new_buffer2 := some b₂, buffer_to_write := [], thread := .test } := by
  obtain ⟨h1, hb1, hb2⟩ := hs.popped_ne_nil ht
  obtain ⟨b₁, hc₁, e₁⟩ := refill_some s.popped hs.spare1 fun _ => hb1
  rw [if_pos h1] at e₁
  obtain ⟨b₂, hc₂, e₂⟩ := refill_some s.popped.dropLast hs.spare2 hb2
  rw [popped] at e₁ e₂
  exact ⟨b₁, b₂, hc₁, hc₂, by simp only [threadFunc, ht, AsyncLogging.recycle, e₁, e₂]⟩

theorem Stocked.threadFunc (hs : Stocked s) (hc : s.current_buf_.isSome) :
    Stocked s.threadFunc ∧ s.threadFunc.current_buf_.isSome := by
  have hsup := hs.supplied
  cases ht : s.thread with
  | test =>
    rw [ht] at hsup
    rw [threadFunc_of_test ht]
    refine ⟨⟨hs.next, hs.spare1, hs.spare2, hs.taken, ?_⟩, hc⟩
    dsimp only
    split
    · exact hsup
    · exact hsup
  | lock =>
    rw [threadFunc_of_lock ht]
    split
    · rw [ht] at hsup
      exact ⟨⟨hs.next, hs.spare1, hs.spare2, hs.taken, hsup⟩, hc⟩
    · exact hs.swap hc (.inl ht)
  | wait =>
    rw [threadFunc_of_wait ht]
    exact hs.swap hc (.inr ht)
  | drop =>
    refine ⟨hs.drop ht, ?_⟩
    by_cases hbig : s.buffer_to_write.length > 25
    · rw [threadFunc_of_big ht hbig]
      exact hc
    · rw [threadFunc_of_small ht hbig]
      exact hc
  | write i =>
    rw [ht] at hsup
    cases hi : s.buffer_to_write[i]? with
    | some buf =>
      rw [threadFunc_of_some ht hi]
      exact ⟨⟨hs.next, hs.spare1, hs.spare2, hs.taken, hsup⟩, hc⟩
    | none =>
      rw [threadFunc_of_none ht hi]
      exact ⟨⟨hs.next, hs.spare1, hs.spare2, hs.taken, hsup⟩, hc⟩
  | recycle =>
    obtain ⟨b₁, b₂, hc₁, hc₂, e⟩ := threadFunc_of_recycle hs ht
    rw [e]
    exact ⟨⟨hs.next, fun _ hb => content_of_some hc₁ hb, fun _ hb => content_of_some hc₂ hb, hs.taken, rfl, rfl, rfl⟩, hc⟩
  | exited =>
    rw [threadFunc_of_exited ht]
    exact ⟨hs, hc⟩
  | crashed => exact absurd ht hs.not_crashed

/-! ## Runs -/

theorem Stocked.step (hs : Stocked s) (hc : s.current_buf_.isSome) (a : Action) :
    Stocked (s.step a) ∧ (s.step a).current_buf_.isSome := by
  cases a with
  | append line mem => exact hs.append hc line mem
  | threadFunc => exact hs.threadFunc hc
  | stop => exact ⟨⟨hs.next, hs.spare1, hs.spare2, hs.taken, hs.supplied⟩, hc⟩

/-- In every interleaving of `append`, with lines of any length, with the writing thread
and `stop`: `current_buf_` is there, both spare buffers are there when an iteration
begins, a full buffer waits when `next_buf_` is null, and behind the loop each vector that
a buffer is taken from has one. -/
theorem buffers_never_run_out (SIZE : Nat) (mem : Nat → Byte) (actions : List Action) :
    let s := (machine SIZE).final (start SIZE mem) actions
    s.current_buf_.isSome ∧
    (s.thread = .test ∨ s.thread = .lock → s.new_buffer1.isSome ∧ s.new_buffer2.isSome) ∧
    (s.next_buf_ = none → s.buffer_vector_ ≠ []) ∧
    (s.thread = .recycle → (s.new_buffer1 = none → s.popped ≠ []) ∧
      (s.new_buffer2 = none → (if s.new_buffer1 = none then s.popped.dropLast else s.popped) ≠ [])) ∧
    s.thread ≠ .crashed := by
  intro s
  obtain ⟨hs, hc⟩ : Stocked s ∧ s.current_buf_.isSome := by
    refine Machine.always (M := machine SIZE) (I := fun s => Stocked s ∧ s.current_buf_.isSome) ?_ actions _
      ⟨start_stocked SIZE mem, rfl⟩
    exact fun s a h => h.1.step h.2 a
  have hsup := hs.supplied
  refine ⟨hc, ?_, hs.taken, fun ht => ?_, hs.not_crashed⟩
  · rintro (ht | ht)
    · rw [ht] at hsup
      exact ⟨hsup.1, hsup.2.1⟩
    · rw [ht] at hsup
      exact ⟨hsup.1, hsup.2.1⟩
  · obtain ⟨h1, hb1, hb2⟩ := hs.popped_ne_nil ht
    rw [if_pos h1]
    exact ⟨fun _ => hb1, hb2⟩

end AsyncLogging

end Ydx
