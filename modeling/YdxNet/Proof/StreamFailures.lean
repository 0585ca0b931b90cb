import YdxNet.Proof.StreamFifo

/-!
# Failed calls of `write_buffer` and `read_buffer`

Both test the room for a whole frame, and then move its header and its payload
one after the other. `Torn` says when the header is moved and the payload is
refused: a negative length whose sum with `sizeof(int)` wraps around to a small
one, or a `NULL` pointer for a payload that is not empty. In every state a buffer
can be in, this is exactly when a call that gives `false` has changed the ring
(`failed_iff`).
-/

namespace Ydx.StreamBuffer

open RingBuf

/-- The bytes queued: those from `out_` up to `in_`. -/
def queued (b : StreamBuffer) : List Byte :=
  window (b.data_.getD []) b.out_.toNat ((b.in_.toNat + (b.size_.toNat + 1) - b.out_.toNat) % (b.size_.toNat + 1))

/-- The offsets and the bytes queued are the same. -/
def Unchanged (b b' : StreamBuffer) : Prop := b'.in_ = b.in_ ∧ b'.out_ = b.out_ ∧ b'.queued = b.queued

instance (b b' : StreamBuffer) : Decidable (Unchanged b b') := inferInstanceAs (Decidable (_ ∧ _ ∧ _))

/-- With room for `room` bytes, the header of a frame of `len` bytes is moved,
and its payload at `ptr` refused. -/
def Torn (room : UInt64) (ptr : Option (List Byte)) (len : Int32) : Prop :=
  4 ≤ room.toNat ∧
    (-4 ≤ len.toInt ∧ len.toInt < 0 ∨ ptr = none ∧ 0 < len.toInt ∧ len.toInt + 4 ≤ room.toNat)

instance (room : UInt64) (ptr : Option (List Byte)) (len : Int32) : Decidable (Torn room ptr len) :=
  inferInstanceAs (Decidable (_ ∧ (_ ∨ _)))

/-- The states a buffer can be in: whatever is called that does not divide by zero,
with a block from one call of `alloc` that succeeds. -/
inductive Reachable (malloc : Nat → Option (List Byte)) : StreamBuffer → Prop
  | new : Reachable malloc .new
  | alloc {b : StreamBuffer} {size : UInt64} : Reachable malloc b → b.data_ = none →
      (alloc malloc b size).1 = 0 → Reachable malloc (alloc malloc b size).2
  | call {b : StreamBuffer} (c : Call) : Reachable malloc b → c.Defined b → Reachable malloc (c.apply b)

variable {b : StreamBuffer} {bs : List Byte}

/-! ## The states -/

theorem InBlock.copyIn (h : InBlock b) (data : List Byte) (len : UInt64) : InBlock (b.copyIn data len) := by
  refine ⟨h.size, h.in_le, h.out_le, ?_⟩
  rcases h.block with h0 | ⟨d, hd, hl⟩
  · exact .inl h0
  · simp only [StreamBuffer.copyIn, hd, Option.map_some]
    refine .inr ⟨_, rfl, ?_⟩
    rw [length_memcpy, length_memcpy, hl]

theorem InBlock.copyInMust (h : InBlock b) (data : Option (List Byte)) (len : UInt64) :
    InBlock (b.copyInMust data len).2 := by
  cases data with
  | none => exact h
  | some data =>
    simp only [StreamBuffer.copyInMust]
    split
    · exact h
    · exact (h.copyIn data len).setIn _

theorem InBlock.copyOutMust (h : InBlock b) (buf : Option (List Byte)) (len : UInt64) :
    InBlock (b.copyOutMust buf len).2.2 := by
  cases buf with
  | none => exact h
  | some mem =>
    simp only [StreamBuffer.copyOutMust]
    split
    · exact h
    · exact h.setOut _

theorem InBlock.hasRead (h : InBlock b) (len : UInt64) : InBlock (b.hasRead len).2 := by
  simp only [StreamBuffer.hasRead]
  split
  · exact h
  · exact h.setOut _

theorem InBlock.apply (h : InBlock b) (c : Call) : InBlock (c.apply b) := by
  cases c with
  | clear => exact ⟨h.size, Nat.zero_le _, Nat.zero_le _, h.block⟩
  | copyInMust data len => exact h.copyInMust data len
  | copyOutMust buf len => exact h.copyOutMust buf len
  | peekOutMust buf len => exact h
  | hasWriten len =>
    simp only [Call.apply, StreamBuffer.hasWriten]
    split
    · exact h
    · exact h.setIn _
  | hasRead len => exact h.hasRead len
  | writeBuffer buf len =>
    simp only [Call.apply, StreamBuffer.writeBuffer]
    split
    · exact h
    · exact (h.copyInMust _ _).copyInMust _ _
  | readBuffer buf len =>
    simp only [Call.apply, StreamBuffer.readBuffer]
    split
    · exact h
    · split
      · exact h
      · exact (h.hasRead _).copyOutMust _ _

/-- Until it has a block, a buffer has no room. -/
theorem Reachable.cases {malloc : Nat → Option (List Byte)} (hm : Malloc malloc) (h : Reachable malloc b) :
    InBlock b ∨ NoBytes b := by
  induction h with
  | new => exact .inl ⟨by decide, by decide, by decide, .inl rfl⟩
  | @alloc b size _ hd ha ih =>
    rcases ih with ih | ih
    · have h0 : b.size_ = 0 := ih.block.resolve_right fun ⟨d, hd', _⟩ => by rw [hd] at hd'; cases hd'
      have hin := ih.in_le; have hout := ih.out_le
      rw [h0, show (0 : UInt64).toNat = 0 from rfl] at hin hout
      have hb : (StreamBuffer.alloc malloc b size).2 = (StreamBuffer.alloc malloc .new size).2 := by
        have hi : b.in_ = 0 := UInt64.toNat_inj.mp (Nat.le_zero.mp hin)
        have ho : b.out_ = 0 := UInt64.toNat_inj.mp (Nat.le_zero.mp hout)
        simp only [StreamBuffer.alloc, StreamBuffer.new, hi, ho]
      rw [hb]
      have hr : Runs size.toNat (StreamBuffer.alloc malloc .new size).2 [] := alloc_runs hm ha
      cases hr with
      | holds hq => exact .inl hq.holds.inBlock
      | noBytes hn => exact .inr hn
    · exact absurd hd ih.block
  | call c _ hc ih =>
    rcases ih with ih | ih
    · exact .inl (ih.apply c)
    · rw [ih.apply hc]
      exact .inr ih

/-! ## The calls -/

/-- A payload of a negative length is refused. -/
theorem sizeT_gt {room : UInt64} (hr : room.toNat < 2 ^ 63) {len : Int32} (h0 : len.toInt < 0) : sizeT len > room := by
  have hlo := len.le_toInt
  have hn := sizeT_of_neg h0
  rw [GT.gt, UInt64.lt_iff_toNat_lt]
  omega

/-- The header alone is not a whole frame, if there is a payload. -/
theorem sizeofInt_ne_totb {len : Int32} (h0 : len.toInt ≠ 0) : sizeofInt + 0 ≠ sizeT len + sizeofInt := by
  have hlo := len.le_toInt; have hhi := len.toInt_lt
  rw [Ne, ← UInt64.toNat_inj, UInt64.toNat_add, UInt64.toNat_add, toNat_sizeofInt, show (0 : UInt64).toNat = 0 from rfl]
  by_cases hn : 0 ≤ len.toInt
  · rw [sizeT_of_nonneg hn]
    omega
  · have := sizeT_of_neg (n := len) (by omega)
    omega

theorem totb_zero {len : Int32} (h0 : len.toInt = 0) : sizeofInt + 0 = sizeT len + sizeofInt := by
  have hz : sizeT len = 0 := by
    rw [← UInt64.toNat_inj, sizeT_of_nonneg (by omega), h0]
    rfl
  rw [hz]
  rfl

/-- The header of a frame goes in when there is room for it. -/
theorem header_in (h : InBlock b) (h4 : 4 ≤ b.unused.toNat) (hdr : List Byte) :
    ∃ b₁, b.copyInMust (some hdr) sizeofInt = (sizeofInt, b₁) ∧ b₁.in_ ≠ b.in_ ∧ InBlock b₁ := by
  have hg : ¬ sizeofInt > b.unused := fun hg => (sizeofInt_gt_iff _).mp hg h4
  obtain ⟨hin, -⟩ := unused_setIn h h4
  simp only [copyInMust, hg, if_false]
  exact ⟨_, rfl, hin, (h.copyIn hdr sizeofInt).setIn _⟩

/-- The header of a frame is passed over when it is there. -/
theorem header_out (h : InBlock b) (h4 : 4 ≤ b.used.toNat) :
    ∃ b₁, b.hasRead sizeofInt = (true, b₁) ∧ b₁.out_ ≠ b.out_ ∧ InBlock b₁ := by
  have hg : ¬ sizeofInt > b.used := fun hg => (sizeofInt_gt_iff _).mp hg h4
  obtain ⟨hout, -⟩ := used_setOut h h4
  simp only [hasRead, hg, if_false]
  exact ⟨_, rfl, hout, h.setOut _⟩

theorem payload_in_refused (h : InBlock b) {buf : Option (List Byte)} {len : Int32} (hr : len.toInt < 0 ∨ buf = none) :
    b.copyInMust buf (sizeT len) = (0, b) := by
  rcases hr with hneg | rfl
  · cases buf with
    | none => rfl
    | some data => simp only [copyInMust, sizeT_gt h.room.2 hneg, if_true]
  · rfl

theorem payload_out_refused (h : InBlock b) {buf : Option (List Byte)} {len : Int32} (hr : len.toInt < 0 ∨ buf = none) :
    b.copyOutMust buf (sizeT len) = (0, buf, b) := by
  rcases hr with hneg | rfl
  · cases buf with
    | none => rfl
    | some mem => simp only [copyOutMust, sizeT_gt h.room.1 hneg, if_true]
  · rfl

/-- What is let through the test of the whole frame, and is not torn. -/
theorem whole_cases {room : UInt64} {ptr : Option (List Byte)} {len : Int32} (hlo : -4 ≤ len.toInt)
    (hle : len.toInt + 4 ≤ room.toNat) (hT : ¬ Torn room ptr len) :
    (room.toNat < 4 ∧ len.toInt < 0) ∨ len.toInt = 0 ∧ ptr = none ∨ ∃ mem, ptr = some mem ∧ 0 ≤ len.toInt := by
  by_cases hneg : len.toInt < 0
  · refine .inl ⟨?_, hneg⟩
    by_contra h4
    exact hT ⟨by omega, .inl ⟨hlo, hneg⟩⟩
  · cases ptr with
    | some mem => exact .inr (.inr ⟨mem, rfl, by omega⟩)
    | none =>
      refine .inr (.inl ⟨?_, rfl⟩)
      by_contra h0
      exact hT ⟨by omega, .inr ⟨rfl, by omega, hle⟩⟩

theorem not_torn_of_lt {room : UInt64} {ptr : Option (List Byte)} {len : Int32} (hr : room.toNat < 2 ^ 63)
    (ht : room < sizeT len + sizeofInt) : ¬ Torn room ptr len := by
  rintro ⟨h4, hT⟩
  refine (totb_le_iff hr len).mpr ?_ ht
  omega

/-- `write_buffer` gives `false` and has changed the ring exactly when the frame
is torn. -/
theorem write_failed_iff (h : InBlock b) (buf : Option (List Byte)) (len : Int32) :
    ((b.writeBuffer buf len).1 = false → Unchanged b (b.writeBuffer buf len).2) ↔ ¬ Torn b.unused buf len := by
  by_cases ht : b.unused < sizeT len + sizeofInt
  · simp only [writeBuffer, ht, if_true]
    exact iff_of_true (fun _ => ⟨rfl, rfl, rfl⟩) (not_torn_of_lt h.room.2 ht)
  obtain ⟨hlo, hle⟩ := (totb_le_iff h.room.2 len).mp ht
  by_cases hT : Torn b.unused buf len
  · refine iff_of_false (fun hu => ?_) (not_not_intro hT)
    obtain ⟨b₁, e₁, hin, h₁⟩ := header_in h hT.1 (int32Bytes len)
    have hr : len.toInt < 0 ∨ buf = none := hT.2.imp And.right And.left
    have h0 : len.toInt ≠ 0 := by
      have := hT.2
      omega
    simp only [writeBuffer, ht, if_false, e₁, payload_in_refused h₁ hr, sizeofInt_ne_totb h0, ne_eq,
      not_false_eq_true, if_true] at hu
    exact hin (hu trivial).1
  · refine iff_of_true ?_ hT
    rcases whole_cases hlo hle hT with ⟨h4, hneg⟩ | ⟨h0, rfl⟩ | ⟨mem, rfl, h0⟩
    · -- there is no room for the header either
      have e₁ : b.copyInMust (some (int32Bytes len)) sizeofInt = (0, b) := by
        simp only [copyInMust, (sizeofInt_gt_iff _).mpr (Nat.not_le.mpr h4), if_true]
      simp only [writeBuffer, ht, if_false, e₁, payload_in_refused h (.inl hneg)]
      exact fun _ => ⟨rfl, rfl, rfl⟩
    · obtain ⟨b₁, e₁, -, h₁⟩ := header_in h (by omega) (int32Bytes len)
      simp only [writeBuffer, ht, if_false, e₁, payload_in_refused h₁ (.inr rfl), totb_zero h0, ne_eq, not_true_eq_false]
      exact fun hf => absurd hf Bool.noConfusion
    · rw [writeBuffer_whole h mem h0 hle]
      exact fun hf => absurd hf Bool.noConfusion

/-- The length that `read_buffer` finds is the one at the front of the bytes
queued. -/
theorem peek_queued (h : InBlock b) (h4 : 4 ≤ b.used.toNat) (len : Int32) :
    b.copyOut (int32Bytes len) sizeofInt = b.queued.take 4 := by
  have hs := h.size; have hi := h.in_le; have ho := h.out_le; have hu := h.used
  obtain ⟨d, hd, hl⟩ := h.block.resolve_left fun h0 => by
    rw [h0, show (0 : UInt64).toNat = 0 from rfl] at hi ho hu
    split at hu <;> omega
  have hn := Nat.mod_lt (b.in_.toNat + (b.size_.toNat + 1) - b.out_.toNat) (show 0 < b.size_.toNat + 1 by omega)
  have hq : Holds b b.queued := by
    have hlen : b.queued.length = (b.in_.toNat + (b.size_.toNat + 1) - b.out_.toNat) % (b.size_.toNat + 1) := by
      rw [queued, hd, Option.getD_some, length_window (by omega)]
    refine ⟨hs, ho, by omega, ?_, d, hd, hl, by rw [hlen, queued, hd, Option.getD_some]⟩
    rw [hlen, Nat.add_mod_mod, Nat.add_sub_cancel' (by omega), Nat.add_mod_right, Nat.mod_eq_of_lt (by omega)]
  have hlen : 4 ≤ b.queued.length := Nat.le_trans h4 hq.used_le
  rw [copyOut_ok hq _ (n := sizeofInt) hlen, toNat_sizeofInt,
    memcpy_zero_of_ge (by rw [List.length_take, length_int32Bytes]; omega), length_int32Bytes, List.take_take]
  rfl

/-- `read_buffer` gives `false` and has changed the ring exactly when the frame
is torn. -/
theorem read_failed_iff (h : InBlock b) (buf : Option (List Byte)) (len : Int32) :
    ((b.readBuffer buf len).ret = false → Unchanged b (b.readBuffer buf len).sb) ↔
      ¬ Torn b.used buf (int32OfBytes b.queued) := by
  by_cases h4 : 4 ≤ b.used.toNat
  swap
  · have e₀ : (b.peekOutMust (some (int32Bytes len)) sizeofInt).1 = 0 := by
      simp only [peekOutMust, (sizeofInt_gt_iff _).mpr h4, if_true]
    simp only [readBuffer, e₀, if_true]
    exact iff_of_true (fun _ => ⟨rfl, rfl, rfl⟩) fun hT => h4 hT.1
  have e₀ : b.peekOutMust (some (int32Bytes len)) sizeofInt = (sizeofInt, some (b.queued.take 4)) := by
    have hg : ¬ sizeofInt > b.used := fun hg => (sizeofInt_gt_iff _).mp hg h4
    simp only [peekOutMust, hg, if_false, Option.map_some, peek_queued h h4]
  have hz : sizeofInt ≠ 0 := by decide
  by_cases ht : b.used < sizeT (int32OfBytes b.queued) + sizeofInt
  · simp only [readBuffer, e₀, hz, if_false, Option.getD_some, int32OfBytes_take, ht, if_true]
    exact iff_of_true (fun _ => ⟨rfl, rfl, rfl⟩) (not_torn_of_lt h.room.1 ht)
  obtain ⟨hlo, hle⟩ := (totb_le_iff h.room.1 _).mp ht
  obtain ⟨b₁, e₁, hout, h₁⟩ := header_out h h4
  by_cases hT : Torn b.used buf (int32OfBytes b.queued)
  · refine iff_of_false (fun hu => ?_) (not_not_intro hT)
    have hr : (int32OfBytes b.queued).toInt < 0 ∨ buf = none := hT.2.imp And.right And.left
    have h0 : (int32OfBytes b.queued).toInt ≠ 0 := by
      have := hT.2
      omega
    simp only [readBuffer, e₀, hz, if_false, Option.getD_some, int32OfBytes_take, ht, e₁, if_true,
      payload_out_refused h₁ hr, sizeofInt_ne_totb h0, ne_eq, not_false_eq_true] at hu
    exact hout (hu trivial).2.1
  · refine iff_of_true ?_ hT
    rcases whole_cases hlo hle hT with ⟨h4', -⟩ | ⟨h0, rfl⟩ | ⟨mem, rfl, h0⟩
    · exact absurd h4 (Nat.not_le.mpr h4')
    · simp only [readBuffer, e₀, hz, if_false, Option.getD_some, int32OfBytes_take, ht, e₁, if_true,
        payload_out_refused h₁ (.inr rfl), totb_zero h0, ne_eq, not_true_eq_false]
      exact fun hf => absurd hf Bool.noConfusion
    · rw [readBuffer_whole h mem (by rw [peek_queued h h4, int32OfBytes_take]) h0 hle]
      exact fun hf => absurd hf Bool.noConfusion

/-- In every state of a buffer, and whatever is passed, if the call does not divide by
zero, which only those after `alloc(UINT64_MAX)` may do: a `write_buffer` that gives
`false` has left the ring as it was exactly if its frame is not torn, and so for
`read_buffer` and the frame at the front of the ring. -/
theorem failed_iff {malloc : Nat → Option (List Byte)} (hm : Malloc malloc) {b : StreamBuffer}
    (hb : Reachable malloc b) (buf : Option (List Byte)) (len : Int32) :
    ((Call.writeBuffer buf len).Defined b →
      (((b.writeBuffer buf len).1 = false → Unchanged b (b.writeBuffer buf len).2) ↔ ¬ Torn b.unused buf len)) ∧
    ((Call.readBuffer buf len).Defined b →
      (((b.readBuffer buf len).ret = false → Unchanged b (b.readBuffer buf len).sb) ↔
        ¬ Torn b.used buf (int32OfBytes b.queued))) := by
  rcases hb.cases hm with h | h
  · exact ⟨fun _ => write_failed_iff h buf len, fun _ => read_failed_iff h buf len⟩
  · refine ⟨fun hd => absurd hd (h.not_defined_write buf len), fun _ => iff_of_true (fun _ => ?_) fun ht => ?_⟩
    · rw [h.readBuffer]
      exact ⟨rfl, rfl, rfl⟩
    · have h4 := ht.1
      rw [h.used] at h4
      exact absurd h4 (by decide)

/-- A full ring of eight bytes: nothing is put in, and its message is not read
to `NULL`. -/
theorem failed_iff_full :
    let b := ((alloc mallocZeroed new 8).2.writeBuffer (some [1, 2, 3, 4]) 4).2
    ((b.writeBuffer (some []) 0).1 = false ∧ Unchanged b (b.writeBuffer (some []) 0).2) ∧
      ((b.readBuffer none 0).ret = false ∧ ¬ Unchanged b (b.readBuffer none 0).sb) := by
  intro b
  have hb : Reachable mallocZeroed b :=
    .call (.writeBuffer (some [1, 2, 3, 4]) 4) (.alloc .new rfl (by decide)) (by decide)
  refine ⟨⟨by decide, ?_⟩, by decide, ?_⟩
  · exact ((failed_iff malloc_mallocZeroed hb (some []) 0).1 (by decide)).mpr (by decide) (by decide)
  · intro hu
    exact ((failed_iff malloc_mallocZeroed hb none 0).2 (by decide)).mp (fun _ => hu) (by decide)

/-- In an empty ring of 16 bytes, a `write_buffer` of a length of -1 gives `false`
and leaves four bytes behind. -/
theorem failed_torn :
    let b := (alloc mallocZeroed new 16).2
    let r := b.writeBuffer (some []) (-1)
    r.1 = false ∧ b.in_ = 0 ∧ r.2.in_ = 4 ∧ b.queued = [] ∧ r.2.queued = [255, 255, 255, 255] := by
  decide

end Ydx.StreamBuffer
