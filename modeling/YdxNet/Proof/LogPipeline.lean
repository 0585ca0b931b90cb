import YdxNet.Proof.AsyncLogging
import YdxNet.Proof.LogFile

/-!
# From `AsyncLogging::append` to the log files

The thread of `AsyncLogging` calls `append` of its `LogFile` for the notice of a batch that
was cut down and for each buffer that is kept, and `LogFile` may roll behind each of these
calls. A buffer holds whole lines, so that no roll tears one: the lines of all files
together are the notices and the lines of the buffers written (`log_lines_whole`), in
their order as long as no roll opens a file again that another one has followed. While every
batch fits into 25 buffers, they are the first of the lines appended.
-/

namespace Ydx

/-- The logging of a program: the buffers with their threads, and `output_file` of the writing
thread, `none` where a null pointer was used. -/
structure LogPipeline (SIZE : Nat) where
  logging : AsyncLogging SIZE
  output_file : Option LogRun

namespace LogPipeline

open AsyncLogging FixedBuffer

variable {SIZE : Nat}

/-- The call of `output_file.append` that a step makes. -/
def appends (s : AsyncLogging SIZE) : Action → Option (List Byte)
  | .threadFunc =>
    match s.thread with
    | .drop => if s.buffer_to_write.length > 25 then some (notice (s.buffer_to_write.length - 2)) else none
    | .write i => s.buffer_to_write[i]?.map content
    | _ => none
  | _ => none

/-- One step. -/
def step (h : Host) (s : LogPipeline SIZE) (a : Action) : LogPipeline SIZE where
  logging := s.logging.step a
  output_file :=
    match appends s.logging a with
    | none => s.output_file
    | some bytes => ((LogFile.machine h).step s.output_file bytes).1

/-- The threads, interleaved in any way. -/
def machine (h : Host) (SIZE : Nat) : Machine (LogPipeline SIZE) Action Unit where
  step s a := (s.step h a, ())

/-- After `start()`, with the writing thread behind the constructor of `output_file`. -/
def start (h : Host) (SIZE : Nat) (mem : Nat → Byte) (rollSize : UInt64) (basename : String) : LogPipeline SIZE where
  logging := .start SIZE mem
  output_file := LogFile.start h rollSize basename 3 10000

/-- No call of `output_file.append` opens a file again that another one has followed. -/
def NeverReopens (h : Host) (s : LogPipeline SIZE) (a : Action) : Prop :=
  ∀ bytes ∈ appends s.logging a, LogFile.NeverReopens h s.output_file bytes

instance (h : Host) (s : LogPipeline SIZE) (a : Action) : Decidable (NeverReopens h s a) :=
  inferInstanceAs (Decidable (∀ _ ∈ appends s.logging a, _))

/-- No batch is cut down. -/
def Small (s : LogPipeline SIZE) : Action → Prop
  | .threadFunc => s.logging.thread = .drop → s.logging.buffer_to_write.length ≤ 25
  | _ => True

instance : ∀ (s : LogPipeline SIZE) (a : Action), Decidable (Small s a)
  | s, .threadFunc => inferInstanceAs (Decidable (s.logging.thread = .drop → _))
  | _, .append _ _ => instDecidableTrue
  | _, .stop => instDecidableTrue

variable {s : AsyncLogging SIZE} {a : Action} {g g' : Ledger}

/-- What `AsyncLogging` counts as written are these calls. -/
theorem output_file_step (s : AsyncLogging SIZE) (a : Action) (hs : Stocked s) (hc : s.current_buf_.isSome) :
    (s.step a).output_file = s.output_file ++ (appends s a).getD [] := by
  obtain ⟨buf, hb⟩ := Option.isSome_iff_exists.mp hc
  cases a with
  | append line mem =>
    have hnone : appends s (.append line mem) = none := rfl
    rw [hnone, Option.getD_none, List.append_nil]
    by_cases hroom : buf.avail > line.length
    · rw [AsyncLogging.step, append_of_avail hb hroom]
    · obtain ⟨next, -, e⟩ := append_of_full hs hb mem hroom
      rw [AsyncLogging.step, e]
  | stop => exact (List.append_nil _).symm
  | threadFunc =>
    rw [AsyncLogging.step]
    cases ht : s.thread with
    | test => simp [appends, ht, threadFunc_of_test ht]
    | lock =>
      rw [threadFunc_of_lock ht]
      split
      · simp [appends, ht]
      · simp [appends, ht, swap_eq hb]
    | wait => simp [appends, ht, threadFunc_of_wait ht, swap_eq hb]
    | drop =>
      by_cases hbig : s.buffer_to_write.length > 25
      · simp [appends, ht, threadFunc_of_big ht hbig, hbig]
      · simp [appends, ht, threadFunc_of_small ht hbig, hbig]
    | write i =>
      cases hi : s.buffer_to_write[i]? with
      | some b => simp [appends, ht, threadFunc_of_some ht hi, hi]
      | none => simp [appends, ht, threadFunc_of_none ht hi, hi]
    | recycle =>
      obtain ⟨b₁, b₂, -, -, e⟩ := threadFunc_of_recycle hs ht
      simp [appends, ht, e]
    | exited => simp [appends, ht, threadFunc_of_exited ht]
    | crashed => exact absurd ht hs.not_crashed

/-- Only its own steps move the writing thread. -/
theorem step_others (hs : Stocked s) (hc : s.current_buf_.isSome) (ha : a ≠ .threadFunc) :
    (s.step a).thread = s.thread ∧ (s.step a).buffer_to_write = s.buffer_to_write := by
  obtain ⟨buf, hb⟩ := Option.isSome_iff_exists.mp hc
  cases a with
  | append line mem =>
    rw [AsyncLogging.step]
    by_cases hroom : buf.avail > line.length
    · rw [append_of_avail hb hroom]
      exact ⟨rfl, rfl⟩
    · obtain ⟨next, -, e⟩ := append_of_full hs hb mem hroom
      rw [e]
      exact ⟨rfl, rfl⟩
  | threadFunc => exact absurd rfl ha
  | stop => exact ⟨rfl, rfl⟩

/-! ## The lines of the calls -/

/-- The notice that a batch begins with, as a call. -/
def headLines (batch : Batch) : Batch := if batch.length > 25 then [[notice (batch.length - 2)]] else []

/-- The calls for a batch, each with its lines. -/
def batchLines (batch : Batch) : Batch := headLines batch ++ batchKept batch

/-- The calls made for the batch that is being written. -/
def partLines (batch : Batch) : LoggingPc → Batch
  | .write i => headLines batch ++ (batchKept batch).take i
  | _ => []

/-- The calls for the batches of a ledger, up to where the writing thread is. -/
def callLines (g : Ledger) (pc : LoggingPc) : Batch := g.done.flatMap batchLines ++ partLines g.batch pc

theorem batchKept_eq_nil {batch : Batch} (h : batchKept batch = []) : batch = [] := by
  unfold batchKept at h
  split at h
  · have := congrArg List.length h
    rw [List.length_take, List.length_nil] at this
    omega
  · exact h

theorem batchLines_nil : batchLines [] = [] := rfl

/-- A batch that the writing thread counts as done while it is at its buffers is empty. -/
theorem Accounts.batch_eq_nil {s s' : AsyncLogging SIZE} {i : Nat} (h : Accounts s g) (h' : Accounts s' g')
    (ht : s.thread = .write i) (ht' : ∃ j, s'.thread = .write j)
    (hbufs : s'.buffer_to_write = s.buffer_to_write) (hbatch : g'.batch = []) : g.batch = [] := by
  obtain ⟨j, ht'⟩ := ht'
  have hw := h.written
  have hw' := h'.written
  rw [ht] at hw
  rw [ht', hbufs] at hw'
  have hnil : (batchKept g.batch).map List.flatten = [] := by
    rw [← hw.2, hw'.2, hbatch]
    rfl
  exact batchKept_eq_nil (List.map_eq_nil_iff.mp hnil)

/-- A step that leaves the writing thread and its buffers where they are makes no call. -/
theorem callLines_same {s s' : AsyncLogging SIZE} (h : Accounts s g) (h' : Accounts s' g') (hm : Moves s s' g g')
    (ht : s'.thread = s.thread) (hbufs : s'.buffer_to_write = s.buffer_to_write) :
    callLines g' s'.thread = callLines g s.thread := by
  cases hm with
  | stays hd hb => rw [callLines, callLines, hd, hb, ht]
  | handsOver hwait hdrop =>
    rw [ht] at hdrop
    rw [hdrop] at hwait
    rcases hwait with hwait | hwait
    · cases hwait
    · cases hwait
  | finishes i hi hd hb =>
    have hnil := Accounts.batch_eq_nil h h' hi ⟨i, ht.trans hi⟩ hbufs hb
    rw [callLines, callLines, ht, hd, hb, hnil, List.flatMap_append, List.flatMap_singleton, batchLines_nil,
      List.append_nil]

/-- Nor does one of the writing thread that is not at its buffers. -/
theorem callLines_idle {s s' : AsyncLogging SIZE} (hm : Moves s s' g g') (hw : ∀ i, s.thread ≠ .write i)
    (hw' : ∀ i, s'.thread ≠ .write i) : callLines g' s'.thread = callLines g s.thread := by
  have hd : g'.done = g.done := by
    cases hm with
    | stays hd => exact hd
    | handsOver _ _ hd => exact hd
    | finishes i hi => exact absurd hi (hw i)
  have hnone : ∀ (g : Ledger) (pc : LoggingPc), (∀ i, pc ≠ .write i) →
      callLines g pc = g.done.flatMap batchLines := by
    intro g pc hpc
    cases pc with
    | write i => exact absurd rfl (hpc i)
    | _ => exact List.append_nil _
  rw [hnone g' _ hw', hnone g _ hw, hd]

theorem callLines_drop (h : Accounts s g) (hm : Moves s s.threadFunc g g') (ht : s.thread = .drop) :
    ∃ more, callLines g' s.threadFunc.thread = callLines g s.thread ++ more ∧
      (appends s .threadFunc).toList = more.map List.flatten := by
  have hlen : s.buffer_to_write.length = g.batch.length := by
    have hw := h.written
    rw [ht] at hw
    have := congrArg List.length hw.2
    rwa [List.length_map, List.length_map] at this
  have hpc : s.threadFunc.thread = .write 0 := by
    by_cases hbig : s.buffer_to_write.length > 25
    · rw [threadFunc_of_big ht hbig]
    · rw [threadFunc_of_small ht hbig]
  obtain ⟨hd, hb⟩ : g'.done = g.done ∧ g'.batch = g.batch := by
    cases hm with
    | stays hd hb => exact ⟨hd, hb⟩
    | handsOver hwait =>
      rw [ht] at hwait
      rcases hwait with hwait | hwait
      · cases hwait
      · cases hwait
    | finishes i hi =>
      rw [ht] at hi
      cases hi
  refine ⟨headLines g.batch, ?_, ?_⟩
  · rw [callLines, callLines, hpc, ht, hd, hb]
    simp [partLines]
  · by_cases hbig : g.batch.length > 25
    · simp [appends, ht, hlen, headLines, hbig]
    · simp [appends, ht, hlen, headLines, hbig]

theorem callLines_write {i : Nat} (h : Accounts s g) (h' : Accounts s.threadFunc g') (hm : Moves s s.threadFunc g g')
    (ht : s.thread = .write i) :
    ∃ more, callLines g' s.threadFunc.thread = callLines g s.thread ++ more ∧
      (appends s .threadFunc).toList = more.map List.flatten := by
  have hbusy : ¬ (s.thread = .lock ∨ s.thread = .wait) := by simp [ht]
  have hw := h.written
  rw [ht] at hw
  obtain ⟨-, hbufs⟩ := hw
  have hget : s.buffer_to_write[i]?.map content = (batchKept g.batch)[i]?.map List.flatten := by
    rw [← List.getElem?_map, ← List.getElem?_map, hbufs]
  cases hi : s.buffer_to_write[i]? with
  | some buf =>
    have e := threadFunc_of_some ht hi
    rw [hi, Option.map_some] at hget
    obtain ⟨lines, hl, hc⟩ := Option.map_eq_some_iff.mp hget.symm
    have hpc : s.threadFunc.thread = .write (i + 1) := by rw [e]
    obtain ⟨hd, hb⟩ : g'.done = g.done ∧ g'.batch = g.batch := by
      cases hm with
      | stays hd hb => exact ⟨hd, hb⟩
      | handsOver hwait => exact absurd hwait hbusy
      | finishes j hj hd hb =>
        have hnil := Accounts.batch_eq_nil h h' ht ⟨_, hpc⟩ (by rw [e]) hb
        rw [hnil] at hl
        cases hl
    refine ⟨[lines], ?_, ?_⟩
    · rw [callLines, callLines, hpc, ht, hd, hb]
      simp [partLines, List.take_add_one, hl]
    · simp [appends, ht, hi, hc]
  | none =>
    have e := threadFunc_of_none ht hi
    have hpc : s.threadFunc.thread = .recycle := by rw [e]
    rw [hi, Option.map_none] at hget
    have hlen : (batchKept g.batch).length ≤ i := List.getElem?_eq_none_iff.mp (Option.map_eq_none_iff.mp hget.symm)
    refine ⟨[], ?_, by simp [appends, ht, hi]⟩
    have hdone : g'.done.flatMap batchLines = g.done.flatMap batchLines ++ batchLines g.batch := by
      cases hm with
      | stays hd hb =>
        have hw' := h'.written
        rw [hpc] at hw'
        have hnil : g.batch = [] := hb.symm.trans hw'.2
        rw [hd, hnil, batchLines_nil, List.append_nil]
      | handsOver hwait => exact absurd hwait hbusy
      | finishes j hj hd hb => rw [hd, List.flatMap_append, List.flatMap_singleton]
    rw [callLines, callLines, hpc, ht, hdone]
    simp only [partLines, List.take_of_length_le hlen, batchLines, List.append_nil]

/-- The calls of a step are the next ones of the ledger. -/
theorem callLines_step (h : Accounts s g) (h' : Accounts (s.step a) g') (hs : Stocked s)
    (hm : Moves s (s.step a) g g') :
    ∃ more, callLines g' (s.step a).thread = callLines g s.thread ++ more ∧
      (appends s a).toList = more.map List.flatten := by
  obtain ⟨buf, hb, -⟩ := Option.map_eq_some_iff.mp h.current
  have hno : appends s a = none → callLines g' (s.step a).thread = callLines g s.thread →
      ∃ more, callLines g' (s.step a).thread = callLines g s.thread ++ more ∧
        (appends s a).toList = more.map List.flatten := by
    intro ha he
    exact ⟨[], he.trans (List.append_nil _).symm, by rw [ha]; rfl⟩
  cases a with
  | append line mem =>
    obtain ⟨ht, hbufs⟩ := step_others hs h.current_isSome (a := .append line mem) (by simp)
    exact hno rfl (callLines_same h h' hm ht hbufs)
  | stop => exact hno rfl (callLines_same h h' hm rfl rfl)
  | threadFunc =>
    rw [AsyncLogging.step] at h' hm hno ⊢
    have hidle : (∀ i, s.thread ≠ .write i) → s.thread ≠ .drop → (∀ i, s.threadFunc.thread ≠ .write i) →
        ∃ more, callLines g' s.threadFunc.thread = callLines g s.thread ++ more ∧
          (appends s .threadFunc).toList = more.map List.flatten := by
      intro hw hd hw'
      refine hno ?_ (callLines_idle hm hw hw')
      rw [appends]
      split
      · exact absurd ‹_› hd
      · exact absurd ‹_› (hw _)
      · rfl
    cases ht : s.thread with
    | test =>
      refine ht ▸ hidle (by simp [ht]) (by simp [ht]) fun i => ?_
      rw [threadFunc_of_test ht]
      dsimp only
      split
      · simp
      · simp
    | lock =>
      refine ht ▸ hidle (by simp [ht]) (by simp [ht]) fun i => ?_
      rw [threadFunc_of_lock ht]
      split
      · simp
      · simp [swap_eq hb]
    | wait => exact ht ▸ hidle (by simp [ht]) (by simp [ht]) (by simp [threadFunc_of_wait ht, swap_eq hb])
    | drop => exact ht ▸ callLines_drop h hm ht
    | write i => exact ht ▸ callLines_write h h' hm ht
    | recycle =>
      obtain ⟨b₁, b₂, -, -, e⟩ := threadFunc_of_recycle hs ht
      exact ht ▸ hidle (by simp [ht]) (by simp [ht]) (by simp [e])
    | exited => exact ht ▸ hidle (by simp [ht]) (by simp [ht]) (by simp [threadFunc_of_exited ht, ht])
    | crashed => exact absurd ht hs.not_crashed

/-! ## Files of calls, and of lines -/

/-- Calls that are permuted are permuted with their lines. -/
theorem exists_perm_calls {calls : Batch} {texts : List (List Byte)} (h : texts.Perm (calls.map List.flatten)) :
    ∃ calls' : Batch, calls'.Perm calls ∧ texts = calls'.map List.flatten := by
  have hrel : List.Forall₂ (fun text call => text = List.flatten call) (calls.map List.flatten) calls := by
    rw [List.forall₂_map_left_iff]
    exact List.forall₂_same.mpr fun _ _ => rfl
  obtain ⟨calls', htexts, hperm⟩ := List.perm_comp_forall₂ h hrel
  refine ⟨calls', hperm, ?_⟩
  rwa [← List.forall₂_eq_eq_eq, List.forall₂_map_right_iff]

/-- Files that hold calls hold their lines. -/
theorem exists_parts : ∀ (ps : LogFile.Parts) {calls : Batch}, ps.lines = calls.map List.flatten →
    ∃ qs : LogFile.Parts, qs.files = ps.files ∧ qs.lines = calls.flatten
  | [], calls, h => by
    obtain rfl : calls = [] := List.map_eq_nil_iff.mp h.symm
    exact ⟨[], rfl, rfl⟩
  | p :: ps, calls, h => by
    obtain ⟨front, back, rfl, hfront, hback⟩ := List.map_eq_append_iff.mp h.symm
    obtain ⟨qs, hfiles, hlines⟩ := exists_parts ps hback.symm
    refine ⟨(p.1, front.flatten) :: qs, ?_, ?_⟩
    · show (p.1, front.flatten.flatten) :: qs.files = (p.1, p.2.flatten) :: LogFile.Parts.files ps
      rw [hfiles, ← hfront, List.flatten_flatten]
    · show front.flatten ++ qs.lines = (front ++ back).flatten
      rw [hlines, List.flatten_append]

/-! ## Runs -/

/-- The batches taken up so far are not cut down. -/
structure AllSmall (s : AsyncLogging SIZE) (g : Ledger) : Prop where
  done : ∀ batch ∈ g.done, batch.length ≤ 25
  batch : s.thread ≠ .drop → g.batch.length ≤ 25

theorem AllSmall.step (h : AllSmall s g) (hg : Accounts s g) (hs : Stocked s) (hm : Moves s (s.step a) g g')
    (ha : a = .threadFunc → s.thread = .drop → s.buffer_to_write.length ≤ 25) : AllSmall (s.step a) g' := by
  cases hm with
  | stays hd hb =>
    refine ⟨hd ▸ h.done, fun hdrop' => ?_⟩
    rw [hb]
    by_cases hdrop : s.thread = .drop
    · -- the step is the one behind the test of the batch's length
      have hown : a = .threadFunc := by
        by_contra hne
        exact hdrop' ((step_others hs hg.current_isSome hne).1.trans hdrop)
      have hw := hg.written
      rw [hdrop] at hw
      have hlen := congrArg List.length hw.2
      rw [List.length_map, List.length_map] at hlen
      exact hlen ▸ ha hown hdrop
    · exact h.batch hdrop
  | handsOver _ hdrop hd => exact ⟨hd ▸ h.done, fun hne => absurd hdrop hne⟩
  | finishes i hi hd hb =>
    have hbatch : g.batch.length ≤ 25 := h.batch (by simp [hi])
    refine ⟨?_, fun _ => hb ▸ Nat.zero_le 25⟩
    rw [hd]
    exact List.forall_mem_append.mpr ⟨h.done, List.forall_mem_singleton.mpr hbatch⟩

/-- While no batch is cut down, the lines written are the first of those appended. -/
theorem AllSmall.prefix_lines (h : AllSmall s g) : (callLines g s.thread).flatten <+: g.lines := by
  have hwhole : ∀ batch : Batch, batch.length ≤ 25 → headLines batch = [] ∧ batchKept batch = batch :=
    fun batch hb => ⟨if_neg (by omega), if_neg (by omega)⟩
  have hdone : g.done.flatMap batchLines = g.done.flatten := by
    rw [List.flatMap_def]
    congr 1
    refine (List.map_congr_left fun batch hb => ?_).trans (List.map_id _)
    obtain ⟨hhead, hkept⟩ := hwhole batch (h.done batch hb)
    rw [batchLines, hhead, hkept, List.nil_append, id]
  have hpart : partLines g.batch s.thread <+: g.batch := by
    cases ht : s.thread with
    | write i =>
      obtain ⟨hhead, hkept⟩ := hwhole g.batch (h.batch (by simp [ht]))
      rw [partLines, hhead, hkept, List.nil_append]
      exact List.take_prefix _ _
    | _ => exact List.nil_prefix
  obtain ⟨rest, hrest⟩ := hpart
  have hbatch : g.batch.flatten = (partLines g.batch s.thread).flatten ++ rest.flatten := by
    rw [← List.flatten_append, hrest]
  refine ⟨rest.flatten ++ g.vector.flatten ++ g.current, ?_⟩
  rw [callLines, hdone, Ledger.lines, Ledger.handed, List.flatten_append, List.flatten_append, hbatch]
  simp only [List.append_assoc]

/-- What holds before every step: the calls made are those of the ledger, and their bytes are
those that `AsyncLogging` counts as written. Where `ordered` is to hold, they are in order
over the files, and where `small` is, no batch was cut down. -/
structure Inv (h : Host) (ordered small : Prop) (s : LogPipeline SIZE) (g : Ledger) (r : LogRun) : Prop where
  accounts : Accounts s.logging g
  stocked : Stocked s.logging
  file : s.output_file = some r
  kept : LogFile.Kept h r
  calls : r.lines = (callLines g s.logging.thread).map List.flatten
  output : r.lines.flatten = s.logging.output_file
  order : ordered → LogFile.Ordered r
  small : small → AllSmall s.logging g

theorem Small.threadFunc {s : LogPipeline SIZE} (h : Small s a) :
    a = .threadFunc → s.logging.thread = .drop → s.logging.buffer_to_write.length ≤ 25 := by
  rintro rfl
  exact h

theorem Inv.step {h : Host} (hw : LogFile.Accepts h) (hc : LogFile.Clock h) {ordered small : Prop}
    {s : LogPipeline SIZE} {r : LogRun} (hi : Inv h ordered small s g r) (ha : a.Short SIZE)
    (hn : ordered → NeverReopens h s a) (hsm : small → Small s a) :
    ∃ g' r', Inv h ordered small (s.step h a) g' r' := by
  obtain ⟨g', hg', hs', hm⟩ := hi.accounts.step hi.stocked ha
  obtain ⟨more, hcalls, htexts⟩ := callLines_step hi.accounts hg' hi.stocked hm
  have hout := output_file_step s.logging a hi.stocked hi.accounts.current_isSome
  have hall : small → AllSmall (s.logging.step a) g' := fun hsmall =>
    (hi.small hsmall).step hi.accounts hi.stocked hm (hsm hsmall).threadFunc
  cases happ : appends s.logging a with
  | none =>
    rw [happ, Option.toList_none] at htexts
    rw [happ, Option.getD_none, List.append_nil] at hout
    obtain rfl : more = [] := List.map_eq_nil_iff.mp htexts.symm
    refine ⟨g', r, hg', hs', ?_, hi.kept, ?_, hi.output.trans hout.symm, hi.order, hall⟩
    · simp only [LogPipeline.step, happ, hi.file]
    · show r.lines = (callLines g' (s.logging.step a).thread).map List.flatten
      rw [hcalls, List.append_nil, hi.calls]
  | some bytes =>
    rw [happ, Option.toList_some] at htexts
    rw [happ, Option.getD_some] at hout
    obtain ⟨r', hstep, hlines, -, hk, -, -, hord⟩ := LogFile.append_ok hw hc hi.kept bytes
    refine ⟨g', r', hg', hs', ?_, hk, ?_, ?_, fun ho => hord (hi.order ho) (hn ho bytes happ r hi.file), hall⟩
    · simp only [LogPipeline.step, happ, hi.file, hstep]
    · show r'.lines = (callLines g' (s.logging.step a).thread).map List.flatten
      rw [hlines, hcalls, List.map_append, ← htexts, hi.calls]
    · show r'.lines.flatten = (s.logging.step a).output_file
      rw [hlines, List.flatten_append, List.flatten_singleton, hi.output, hout]

theorem start_inv {h : Host} (hc : LogFile.Clock h) (ordered small : Prop) (SIZE : Nat) (mem : Nat → Byte)
    (rollSize : UInt64) (basename : String) :
    ∃ g r, Inv h ordered small (start h SIZE mem rollSize basename) g r := by
  obtain ⟨r, hr, hlines, -, hk, ho⟩ := LogFile.start_ok hc.pos rollSize basename 3 10000
  refine ⟨_, r, start_accounts SIZE mem, start_stocked SIZE mem, hr, hk, hlines, ?_, fun _ => ho, fun _ => ?_⟩
  · rw [hlines]
    rfl
  · exact ⟨by simp, fun _ => Nat.zero_le 25⟩

/-- In every interleaving of calls of `append`, with lines that are shorter than a buffer, with
the writing thread and `stop`, with a positive clock that does not go back and an `fwrite`
that accepts everything: no null pointer is used, and the calls of `output_file.append` are
those for the batches of the lines appended, as far as the writing thread is with them. The
files hold the notices and the lines of the buffers written, each whole in one file. If no
call opens a file again that another one has followed, they are in order, and the files one
behind the other are what was written to `output_file`. While no batch is cut down, these
are the first of the lines appended. -/
theorem log_lines_whole (h : Host) (hw : LogFile.Accepts h) (hc : LogFile.Clock h) (SIZE : Nat) (mem : Nat → Byte)
    (rollSize : UInt64) (basename : String) (actions : List Action) (ha : ∀ a ∈ actions, a.Short SIZE) :
    let s := (machine h SIZE).final (start h SIZE mem rollSize basename) actions
    ∃ (g : Ledger) (r : LogRun), Accounts s.logging g ∧ s.logging.thread ≠ .crashed ∧ s.output_file = some r ∧
      r.lines = (callLines g s.logging.thread).map List.flatten ∧ r.lines.flatten = s.logging.output_file ∧
      (∃ ps : LogFile.Parts, r.disk.files = ps.files ∧ ps.lines.Perm (callLines g s.logging.thread).flatten) ∧
      ((machine h SIZE).Along (NeverReopens h) (start h SIZE mem rollSize basename) actions →
        (∃ ps : LogFile.Parts, r.disk.files = ps.files ∧ ps.lines = (callLines g s.logging.thread).flatten) ∧
          (r.disk.files.map Prod.snd).flatten = s.logging.output_file) ∧
      ((machine h SIZE).Along Small (start h SIZE mem rollSize basename) actions →
        (callLines g s.logging.thread).flatten <+: s.logging.appended) := by
  intro s
  let ordered := (machine h SIZE).Along (NeverReopens h) (start h SIZE mem rollSize basename) actions
  let small := (machine h SIZE).Along Small (start h SIZE mem rollSize basename) actions
  have hshort := Machine.Along.of_forall (M := machine h SIZE) ha (start h SIZE mem rollSize basename)
  have hordered : (machine h SIZE).Along (fun s a => ordered → NeverReopens h s a)
      (start h SIZE mem rollSize basename) actions := by
    by_cases ho : ordered
    · exact ho.mono fun _ _ hn _ => hn
    · exact hshort.mono fun _ _ _ h => absurd h ho
  have hsmall : (machine h SIZE).Along (fun s a => small → Small s a)
      (start h SIZE mem rollSize basename) actions := by
    by_cases hsm : small
    · exact hsm.mono fun _ _ hb _ => hb
    · exact hshort.mono fun _ _ _ h => absurd h hsm
  obtain ⟨g, r, hi⟩ : ∃ g r, Inv h ordered small s g r :=
    Machine.invariant (I := fun s => ∃ g r, Inv h ordered small s g r)
      (fun _ _ ⟨_, _, hi⟩ hp => hi.step hw hc hp.1 hp.2.1 hp.2.2) actions _
      (start_inv hc ordered small SIZE mem rollSize basename) (hshort.and (hordered.and hsmall))
  refine ⟨g, r, hi.accounts, hi.stocked.not_crashed, hi.file, hi.calls, hi.output, ?_, fun ho => ?_, fun hsm => ?_⟩
  · obtain ⟨ps, hfiles, hperm⟩ := hi.kept.whole
    rw [hi.calls] at hperm
    obtain ⟨calls, hcalls, htexts⟩ := exists_perm_calls hperm
    obtain ⟨qs, hqs, hlines⟩ := exists_parts ps htexts
    exact ⟨qs, hfiles.trans hqs.symm, hlines ▸ hcalls.flatten⟩
  · obtain ⟨ps, hfiles, htexts⟩ := (hi.order ho).whole
    obtain ⟨qs, hqs, hlines⟩ := exists_parts ps (htexts.trans hi.calls)
    refine ⟨⟨qs, hfiles.trans hqs.symm, hlines⟩, ?_⟩
    rw [hfiles, LogFile.Parts.flatten_files, htexts, hi.output]
  · rw [hi.accounts.lines]
    exact (hi.small hsm).prefix_lines

/-- A clock that goes on by a second between two readings. -/
def ticking : Host where
  time n := 1730611800 + n
  localtime := LogFile.newYork
  fwrite := List.length

theorem clock_ticking : LogFile.Clock ticking where
  pos := by decide
  step n := by
    show (1730611800 : Int) + n ≤ 1730611800 + (n + 1 : Nat)
    omega

/-- The lines of `AsyncLogging.threeLines`, with a roll behind the first two buffers. -/
theorem log_lines_whole_threeLines :
    let s := (machine ticking 8).final (start ticking 8 (fun _ => 255) 2 "log") AsyncLogging.threeLines
    s.output_file.map (fun r => r.disk.files) =
        some [("log.20241103-013000.log", [1, 2, 3]), ("log.20241103-013001.log", [4, 5, 6, 7, 8, 9]),
          ("log.20241103-013002.log", [])] ∧
      ∃ (g : Ledger) (r : LogRun), Accounts s.logging g ∧ s.output_file = some r ∧
        (∃ ps : LogFile.Parts, r.disk.files = ps.files ∧ ps.lines = (callLines g s.logging.thread).flatten) ∧
        (r.disk.files.map Prod.snd).flatten = s.logging.output_file ∧
        (callLines g s.logging.thread).flatten <+: s.logging.appended := by
  intro s
  obtain ⟨g, r, hg, -, hr, -, -, -, hord, hsmall⟩ := log_lines_whole ticking (fun _ => rfl) clock_ticking 8
    (fun _ => 255) 2 "log" AsyncLogging.threeLines (by decide)
  obtain ⟨hparts, hfiles⟩ := hord (by decide +kernel)
  exact ⟨by decide +kernel, g, r, hg, hr, hparts, hfiles, hsmall (by decide +kernel)⟩

end LogPipeline

end Ydx
