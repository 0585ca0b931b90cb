import YdxNet.Proof.StreamFifo
import YdxNet.Spec.ByteQueue

/-!
# The ring as a queue of bytes

`StreamBuffer`'s byte interface against the bounded queue of bytes. As long as
the offsets have not wrapped, every call does what the queue does, and the offsets
wrap exactly when the bytes put in reach past the end of the block
(`byteStep_ok`). Then `used()` is one too small (`counts_iff`), so a run is
right exactly when nothing that is put in reaches past the end of the block
(`streamBuffer_bytes_iff`). A block of no bytes serves the calls that are defined
(`NoBytes.exact`).
-/

namespace Ydx.StreamBuffer

open Spec RingBuf

/-- The bytes that lie in the block from `in_` on. -/
def lying (b : StreamBuffer) : List Byte := window (b.data_.getD []) b.in_.toNat b.size_.toNat

/-- The call with its arguments. -/
def callOf : ByteOp → Call
  | .copyInMust data len => .copyInMust (some data) len
  | .copyOutMust buf len => .copyOutMust (some buf) len
  | .peekOutMust buf len => .peekOutMust (some buf) len
  | .hasWriten len => .hasWriten len
  | .hasRead len => .hasRead len
  | .clear => .clear

/-- A call of the byte interface: the buffer and what is given back. -/
def byteCall (b : StreamBuffer) : ByteOp → StreamBuffer × ByteOut
  | .copyInMust data len => ((b.copyInMust (some data) len).2, .count (b.copyInMust (some data) len).1)
  | .copyOutMust buf len =>
    let r := b.copyOutMust (some buf) len
    (r.2.2, .copied r.1 (r.2.1.getD []))
  | .peekOutMust buf len =>
    let r := b.peekOutMust (some buf) len
    (b, .copied r.1 (r.2.getD []))
  | .hasWriten len => ((b.hasWriten len).2, .flag (b.hasWriten len).1)
  | .hasRead len => ((b.hasRead len).2, .flag (b.hasRead len).1)
  | .clear => (b.clear, .cleared)

/-- The buffer, and beside it the queue of the bytes put in and not taken out,
on the same calls; the output says whether the queue lets the call through. -/
def bytes (cap : Nat) : Machine (StreamBuffer × List Byte) ByteOp (Bool × ByteOut × ByteOut) where
  step s op :=
    let q := byteStep cap s.1.lying s.2 op
    (((s.1.byteCall op).1, q.2.1), q.1, (s.1.byteCall op).2, q.2.2)

/-- The calls a caller may make: the bytes that are taken lie at `data`. -/
def ByteValid (s : StreamBuffer × List Byte) : ByteOp → Prop
  | .copyInMust data len => len ≤ s.1.unused → len.toNat ≤ data.length
  | _ => True

/-- The call gives what the queue gives, leaves the buffer as it is when the
queue refuses, and `used()` and `unused()` are right afterwards. -/
def Exact (cap : Nat) (s : StreamBuffer × List Byte) (op : ByteOp) : Prop :=
  let r := (bytes cap).step s op
  r.2.2.1 = r.2.2.2 ∧ (r.2.1 = false → r.1 = s) ∧
    r.1.1.used.toNat = r.1.2.length ∧ r.1.1.unused.toNat = cap - r.1.2.length

/-- What is put in does not reach past the end of the block. -/
def WithinBlock (s : StreamBuffer × List Byte) : ByteOp → Prop
  | .copyInMust _ len | .hasWriten len => len ≤ s.1.unused → s.1.in_.toNat + len.toNat ≤ s.1.size_.toNat
  | _ => True

variable {b : StreamBuffer} {bs : List Byte}

/-- The counts are right exactly when the offsets have not wrapped. -/
theorem counts_iff (h : Holds b bs) :
    b.used.toNat = bs.length ∧ b.unused.toNat = b.size_.toNat - bs.length ↔ ¬ b.Wrapped := by
  rw [h.used, h.unused]
  constructor
  · intro hc hw
    have := h.pos_of_wrapped hw
    rw [if_pos hw] at hc
    omega
  · intro hw
    rw [if_neg hw, if_neg hw]
    exact ⟨rfl, rfl⟩

/-- Bytes put in make the offsets wrap when they reach past the end of the
block. -/
theorem wrapped_put (h : Holds b bs) (hw : ¬ b.Wrapped) {n : UInt64} (hn : bs.length + n.toNat ≤ b.size_.toNat) :
    ¬ (b.in_ + n) % (b.size_ + 1) < b.out_ ↔ b.in_.toNat + n.toNat ≤ b.size_.toNat := by
  have ho := h.out
  rcases h.in_cases with ⟨-, e⟩ | ⟨hw', -⟩
  · rw [UInt64.lt_iff_toNat_lt, toNat_advance h.size h.in_le (by omega)]
    by_cases hb : b.in_.toNat + n.toNat ≤ b.size_.toNat
    · rw [Nat.mod_eq_of_lt (by omega)]
      omega
    · rw [Nat.mod_eq_sub_mod (by omega), Nat.mod_eq_of_lt (by omega)]
      omega
  · exact absurd hw' hw

/-- The bytes that lie behind those held, taken in. -/
theorem hasWriten_ok (h : Holds b bs) {n : UInt64} (hn : bs.length + n.toNat ≤ b.size_.toNat) :
    Holds { b with in_ := (b.in_ + n) % (b.size_ + 1) } (bs ++ b.lying.take n.toNat) := by
  have ho := h.out
  obtain ⟨d, hd, hl, hw⟩ := h.data
  have hlie : b.lying.take n.toNat = window d (b.out_.toNat + bs.length) n.toNat := by
    have hm : window d (b.out_.toNat + bs.length) n.toNat = window d b.in_.toNat n.toNat := by
      rw [h.in_eq, ← hl, window_mod]
    rw [lying, hd, hm, Option.getD_some, window, window, List.take_take, Nat.min_eq_left (by omega)]
  have hlen : (b.lying.take n.toNat).length = n.toNat := by rw [hlie, length_window (by omega)]
  refine ⟨h.size, ho, by rw [List.length_append, hlen]; exact hn, ?_, d, hd, hl, ?_⟩
  · simp only [List.length_append, hlen]
    rw [toNat_advance h.size h.in_le (by omega), h.in_eq, Nat.mod_add_mod, Nat.add_assoc]
  · rw [List.length_append, hlen, hlie]
    show window d b.out_.toNat (bs.length + n.toNat) = _
    rw [window_add (by omega), hw]

theorem clear_ok (h : Holds b bs) : Holds b.clear [] ∧ ¬ b.clear.Wrapped := by
  obtain ⟨d, hd, hl, -⟩ := h.data
  exact ⟨⟨h.size, Nat.zero_le _, Nat.zero_le _, by simp [clear], d, hd, hl, window_zero ..⟩, UInt64.lt_irrefl _⟩

/-- The state of a run whose offsets have not wrapped. -/
structure Straight (cap : Nat) (s : StreamBuffer × List Byte) : Prop where
  holds : Holds s.1 s.2
  size : s.1.size_.toNat = cap
  straight : ¬ s.1.Wrapped

variable {cap : Nat} {s : StreamBuffer × List Byte}

theorem Straight.used (h : Straight cap s) (n : UInt64) : n > s.1.used ↔ ¬ n.toNat ≤ s.2.length := by
  have := ((counts_iff h.holds).mpr h.straight).1
  rw [GT.gt, UInt64.lt_iff_toNat_lt]
  omega

theorem Straight.unused (h : Straight cap s) (n : UInt64) : n > s.1.unused ↔ ¬ n.toNat ≤ cap - s.2.length := by
  have := ((counts_iff h.holds).mpr h.straight).2
  rw [GT.gt, UInt64.lt_iff_toNat_lt, this, h.size]
  omega

/-- What is put in is let through by the queue exactly when the buffer has
room by its own count. -/
theorem withinBlock_iff (h : Straight cap s) {n : UInt64} (hn : n.toNat ≤ cap - s.2.length) :
    ¬ (s.1.in_ + n) % (s.1.size_ + 1) < s.1.out_ ↔
      (n ≤ s.1.unused → s.1.in_.toNat + n.toNat ≤ s.1.size_.toNat) := by
  have hf := h.holds.fits; have hs := h.size
  have hu : n ≤ s.1.unused := UInt64.not_lt.mp fun hlt => (h.unused n).mp hlt hn
  rw [wrapped_put h.holds h.straight (by omega)]
  exact ⟨fun hb _ => hb, fun hb => hb hu⟩

/-- Bytes taken out do not make the offsets wrap. -/
theorem straight_drop (h : Straight cap s) {n : UInt64} (hn : n.toNat ≤ s.2.length) :
    Holds { s.1 with out_ := (s.1.out_ + n) % (s.1.size_ + 1) } (s.2.drop n.toNat) ∧
      ¬ ({ s.1 with out_ := (s.1.out_ + n) % (s.1.size_ + 1) } : StreamBuffer).Wrapped :=
  ⟨h.holds.drop hn, h.holds.not_wrapped_drop hn h.straight⟩

/-- What a call does while the offsets have not wrapped: it gives what the queue
gives, and the offsets wrap if it puts in bytes past the end of the block. -/
structure StepOk (s : StreamBuffer × List Byte) (op : ByteOp)
    (r : (StreamBuffer × List Byte) × Bool × ByteOut × ByteOut) : Prop where
  same : r.2.2.1 = r.2.2.2
  refused : r.2.1 = false → r.1 = s
  holds : Holds r.1.1 r.1.2
  size : r.1.1.size_ = s.1.size_
  straight : ¬ r.1.1.Wrapped ↔ WithinBlock s op

/-- A call that buffer and queue both refuse. -/
theorem stepOk_refused (h : Straight cap s) (op : ByteOp) (hw : WithinBlock s op) (out : ByteOut) :
    StepOk s op (s, false, out, out) :=
  ⟨rfl, fun _ => rfl, h.holds, rfl, iff_of_true h.straight hw⟩

/-- A call that puts in `n` bytes. -/
theorem stepOk_put (h : Straight cap s) {b : StreamBuffer} {bs : List Byte} (hb : Holds b bs) {n : UInt64}
    (hn : n.toNat ≤ cap - s.2.length) (hs : b.size_ = s.1.size_) (hi : b.in_ = (s.1.in_ + n) % (s.1.size_ + 1))
    (ho : b.out_ = s.1.out_) {op : ByteOp}
    (hop : WithinBlock s op ↔ (n ≤ s.1.unused → s.1.in_.toNat + n.toNat ≤ s.1.size_.toNat)) (out : ByteOut) :
    StepOk s op ((b, bs), true, out, out) := by
  refine ⟨rfl, (fun h => absurd h Bool.noConfusion), hb, hs, ?_⟩
  rw [hop, ← withinBlock_iff h hn, ← hi, ← ho]
  exact Iff.rfl

/-- A call that takes out `n` bytes. -/
theorem stepOk_taken (h : Straight cap s) (op : ByteOp) (hw : WithinBlock s op) {n : UInt64}
    (hn : n.toNat ≤ s.2.length) {out out' : ByteOut} (ho : out = out') :
    StepOk s op (({ s.1 with out_ := (s.1.out_ + n) % (s.1.size_ + 1) }, s.2.drop n.toNat), true, out, out') := by
  obtain ⟨hh, hs⟩ := straight_drop h hn
  exact ⟨ho, (fun h => absurd h Bool.noConfusion), hh, rfl, iff_of_true hs hw⟩

/-- One call while the offsets have not wrapped. -/
theorem byteStep_ok (h : Straight cap s) {op : ByteOp} (hv : ByteValid s op) :
    StepOk s op ((bytes cap).step s op) := by
  obtain ⟨b, q⟩ := s
  have hf := h.holds.fits; have hs := h.size
  dsimp only at hf hs
  cases op with
  | copyInMust data len =>
    by_cases hn : len.toNat ≤ cap - q.length
    · have ht : ¬ len > b.unused := fun hgt => (h.unused len).mp hgt hn
      have hd : len.toNat ≤ data.length := hv (UInt64.not_lt.mp ht)
      have hfit : q.length + len.toNat ≤ b.size_.toNat := by omega
      simp only [bytes, byteCall, byteStep, copyInMust, ht, if_false, hn, if_true]
      exact stepOk_put h (copyIn_ok h.holds data hd hfit) hn rfl rfl rfl Iff.rfl _
    · have ht : len > b.unused := (h.unused len).mpr hn
      simp only [bytes, byteCall, byteStep, copyInMust, ht, if_true, hn, if_false]
      exact stepOk_refused h (.copyInMust data len) (fun hle => absurd ht (UInt64.not_lt.mpr hle)) _
  | hasWriten len =>
    by_cases hn : len.toNat ≤ cap - q.length
    · have ht : ¬ len > b.unused := fun hgt => (h.unused len).mp hgt hn
      have hfit : q.length + len.toNat ≤ b.size_.toNat := by omega
      simp only [bytes, byteCall, byteStep, hasWriten, ht, if_false, hn, if_true]
      exact stepOk_put h (hasWriten_ok h.holds hfit) hn rfl rfl rfl Iff.rfl _
    · have ht : len > b.unused := (h.unused len).mpr hn
      simp only [bytes, byteCall, byteStep, hasWriten, ht, if_true, hn, if_false]
      exact stepOk_refused h (.hasWriten len) (fun hle => absurd ht (UInt64.not_lt.mpr hle)) _
  | copyOutMust buf len =>
    by_cases hn : len.toNat ≤ q.length
    · have ht : ¬ len > b.used := fun hgt => (h.used len).mp hgt hn
      simp only [bytes, byteCall, byteStep, copyOutMust, ht, if_false, hn, if_true, Option.getD_some]
      exact stepOk_taken h (.copyOutMust buf len) trivial hn (by rw [copyOut_ok h.holds buf hn])
    · have ht : len > b.used := (h.used len).mpr hn
      simp only [bytes, byteCall, byteStep, copyOutMust, ht, if_true, hn, if_false, Option.getD_some]
      exact stepOk_refused h (.copyOutMust buf len) trivial _
  | peekOutMust buf len =>
    by_cases hn : len.toNat ≤ q.length
    · have ht : ¬ len > b.used := fun hgt => (h.used len).mp hgt hn
      simp only [bytes, byteCall, byteStep, peekOutMust, ht, if_false, hn, if_true, Option.map_some, Option.getD_some]
      exact ⟨by rw [copyOut_ok h.holds buf hn], (fun h => absurd h Bool.noConfusion), h.holds, rfl,
        iff_of_true h.straight trivial⟩
    · have ht : len > b.used := (h.used len).mpr hn
      simp only [bytes, byteCall, byteStep, peekOutMust, ht, if_true, hn, if_false, Option.getD_some]
      exact stepOk_refused h (.peekOutMust buf len) trivial _
  | hasRead len =>
    by_cases hn : len.toNat ≤ q.length
    · have ht : ¬ len > b.used := fun hgt => (h.used len).mp hgt hn
      simp only [bytes, byteCall, byteStep, hasRead, ht, if_false, hn, if_true]
      exact stepOk_taken h (.hasRead len) trivial hn rfl
    · have ht : len > b.used := (h.used len).mpr hn
      simp only [bytes, byteCall, byteStep, hasRead, ht, if_true, hn, if_false]
      exact stepOk_refused h (.hasRead len) trivial _
  | clear =>
    obtain ⟨hh, hw⟩ := clear_ok h.holds
    exact ⟨rfl, (fun h => absurd h Bool.noConfusion), hh, rfl, iff_of_true hw trivial⟩

/-- In a block of no bytes, a call that is defined is refused, or takes nothing. -/
theorem NoBytes.exact {op : ByteOp} (h : NoBytes b) (hd : (callOf op).Defined b) :
    Exact b.size_.toNat (b, []) op ∧ WithinBlock (b, []) op ∧ ((bytes b.size_.toNat).step (b, []) op).1 = (b, []) := by
  have hused : b.used.toNat = 0 := by rw [h.used]; rfl
  have hunused : b.unused.toNat = b.size_.toNat := by rw [StreamBuffer.unused, h.used, UInt64.sub_zero]
  have hrefused : ∀ {len : UInt64}, (len ≤ b.used → b.size_ + 1 ≠ 0) → len > b.used ∧ ¬ len.toNat ≤ 0 := by
    intro len hl
    have hgt : len > b.used := UInt64.not_le.mp fun hle => hl hle h.size
    refine ⟨hgt, Nat.not_le.mpr ?_⟩
    rwa [GT.gt, UInt64.lt_iff_toNat_lt, hused] at hgt
  cases op with
  | copyInMust data len => exact absurd h.size (hd (Option.some_ne_none _) (h.le_unused _))
  | hasWriten len => exact absurd h.size (hd (h.le_unused _))
  | copyOutMust buf len =>
    obtain ⟨hgt, hn⟩ := hrefused (hd (Option.some_ne_none _))
    simp [Exact, WithinBlock, bytes, byteCall, byteStep, copyOutMust, hgt, hn, hused, hunused]
  | peekOutMust buf len =>
    by_cases h0 : len = 0
    · subst h0
      simp [Exact, WithinBlock, bytes, byteCall, byteStep, peekOutMust, copyOut, MIN, memcpy, hused, hunused]
    · obtain ⟨hgt, hn⟩ := hrefused fun hle => hd (Option.some_ne_none _) hle h0
      simp [Exact, WithinBlock, bytes, byteCall, byteStep, peekOutMust, hgt, hn, hused, hunused]
  | hasRead len =>
    obtain ⟨hgt, hn⟩ := hrefused hd
    simp [Exact, WithinBlock, bytes, byteCall, byteStep, hasRead, hgt, hn, hused, hunused]
  | clear => simp [Exact, WithinBlock, bytes, byteCall, byteStep, h.clear, hused, hunused]

/-- The states of a run in which nothing has reached past the end of the block, or the block has
no bytes. -/
def Served (cap : Nat) (s : StreamBuffer × List Byte) : Prop :=
  Straight cap s ∨ NoBytes s.1 ∧ s.2 = [] ∧ s.1.size_.toNat = cap

theorem Served.exact_iff (h : Served cap s) {op : ByteOp} (hv : ByteValid s op) (hd : (callOf op).Defined s.1) :
    (Exact cap s op ↔ WithinBlock s op) ∧ (WithinBlock s op → Served cap ((bytes cap).step s op).1) := by
  rcases h with h | ⟨h, hq, hcap⟩
  · have ho := byteStep_ok h hv
    have hc := counts_iff ho.holds
    rw [ho.size, h.size] at hc
    rw [← ho.straight, ← hc]
    exact ⟨⟨fun he => he.2.2, fun he => ⟨ho.same, ho.refused, he⟩⟩,
      fun hp => .inl ⟨ho.holds, by rw [ho.size, h.size], hc.mp hp⟩⟩
  · obtain ⟨b, q⟩ := s
    subst hq hcap
    obtain ⟨he, hw, hsame⟩ := h.exact hd
    refine ⟨iff_of_true he hw, fun _ => ?_⟩
    rw [hsame]
    exact .inr ⟨h, rfl, rfl⟩

/-- Every run of the byte interface after one `alloc(size)` is defined and is a run
of the queue of `size` bytes, with the counts right after every call, if and only if
no call divides by zero, which only those after `alloc(UINT64_MAX)` may do, and
nothing that is put in reaches past the end of the block. -/
theorem streamBuffer_bytes_iff {malloc : Nat → Option (List Byte)} (hm : Malloc malloc) (size : UInt64)
    (ha : (alloc malloc new size).1 = 0) (ops : List ByteOp)
    (hv : (bytes size.toNat).Along ByteValid ((alloc malloc new size).2, []) ops) :
    (bytes size.toNat).Along (fun s op => (callOf op).Defined s.1 ∧ Exact size.toNat s op)
        ((alloc malloc new size).2, []) ops ↔
      (bytes size.toNat).Along (fun s op => (callOf op).Defined s.1 ∧ WithinBlock s op)
        ((alloc malloc new size).2, []) ops := by
  have hi : Served size.toNat ((alloc malloc new size).2, []) := by
    cases alloc_runs hm ha with
    | holds h => exact .inl ⟨h.holds, h.size, UInt64.lt_irrefl 0⟩
    | noBytes h => exact .inr ⟨h, rfl, rfl⟩
  refine Machine.along_iff (I := Served size.toNat) ?_ ?_ ops _ hi hv
  · intro s op h hv
    exact and_congr_right fun hd => (h.exact_iff hv hd).1
  · intro s op h hv hp
    exact (h.exact_iff hv hp.1).2 hp.2

instance : ∀ s op, Decidable (ByteValid s op)
  | s, .copyInMust data len => inferInstanceAs (Decidable (len ≤ s.1.unused → len.toNat ≤ data.length))
  | _, .copyOutMust .. | _, .peekOutMust .. | _, .hasWriten _ | _, .hasRead _ | _, .clear =>
    inferInstanceAs (Decidable True)

instance : ∀ s op, Decidable (WithinBlock s op)
  | s, .copyInMust _ len | s, .hasWriten len =>
    inferInstanceAs (Decidable (len ≤ s.1.unused → s.1.in_.toNat + len.toNat ≤ s.1.size_.toNat))
  | _, .copyOutMust .. | _, .peekOutMust .. | _, .hasRead _ | _, .clear => inferInstanceAs (Decidable True)

instance (cap : Nat) (s : StreamBuffer × List Byte) (op : ByteOp) : Decidable (Exact cap s op) :=
  inferInstanceAs (Decidable (_ ∧ _ ∧ _ ∧ _))

/-- A ring of four bytes: filled to its end, refused once, read, looked into
and cleared. -/
theorem streamBuffer_bytes_full :
    (bytes 4).Along (Exact 4) ((alloc mallocZeroed new 4).2, [])
      [.copyInMust [1, 2, 3] 3, .hasWriten 1, .copyInMust [5] 1, .copyOutMust [0, 0] 2, .peekOutMust [0, 0] 2,
        .hasRead 3, .clear, .copyInMust [6] 1] :=
  ((streamBuffer_bytes_iff malloc_mallocZeroed 4 (by decide) _ (by decide)).mpr (by decide)).mono fun _ _ h => h.2

/-- A ring of two bytes: two bytes in and out, and then one more, which ends at
the end of the block. `used()` is 0. -/
theorem streamBuffer_bytes_wrap :
    ¬ (bytes 2).Along (Exact 2) ((alloc mallocZeroed new 2).2, [])
      [.copyInMust [1, 2] 2, .copyOutMust [0, 0] 2, .copyInMust [3] 1] := by
  decide

end Ydx.StreamBuffer
