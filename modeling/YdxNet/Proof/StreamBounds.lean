import YdxNet.Impl.StreamChecked
import YdxNet.Proof.StreamFailures

/-!
# The checks of the ring never fail

In every state that calls can lead to, whatever their lengths and pointers, the
checked operations give what the operations give (`apply_checked`): no copy leaves the
block, no offset wraps around, and no more is counted than there is room for.
-/

namespace Ydx.StreamBuffer

/-- The block that `alloc(size)` got is there. -/
def HasBlock (size : UInt64) (b : StreamBuffer) : Prop :=
  b.size_ = size ∧ ∃ d, b.data_ = some d ∧ d.length = b.size_.toNat + 1

/-- The buffer after the call, if no check fails. -/
def Call.checked (b : StreamBuffer) : Call → Option StreamBuffer
  | .clear => some b.clear
  | .copyInMust data len => (Checked.copyInMust b data len).map (·.2)
  | .copyOutMust buf len => (Checked.copyOutMust b buf len).map (·.2.2)
  | .peekOutMust buf len => (Checked.peekOutMust b buf len).map fun _ => b
  | .hasWriten len => (Checked.hasWriten b len).map (·.2)
  | .hasRead len => (Checked.hasRead b len).map (·.2)
  | .writeBuffer buf len => (Checked.writeBuffer b buf len).map (·.2)
  | .readBuffer buf len => (Checked.readBuffer b buf len).map (·.sb)

variable {b : StreamBuffer} {size : UInt64}

/-! ## The block stays -/

theorem HasBlock.copyInMust (hb : HasBlock size b) (data : Option (List Byte)) (len : UInt64) :
    HasBlock size (b.copyInMust data len).2 := by
  cases data with
  | none => exact hb
  | some data =>
    simp only [StreamBuffer.copyInMust]
    split
    · exact hb
    · obtain ⟨hsize, d, hd, hl⟩ := hb
      refine ⟨hsize, _, by simp only [StreamBuffer.copyIn, hd, Option.map_some]; rfl, ?_⟩
      rw [length_memcpy, length_memcpy, hl]
      rfl

theorem HasBlock.copyOutMust (hb : HasBlock size b) (buf : Option (List Byte)) (len : UInt64) :
    HasBlock size (b.copyOutMust buf len).2.2 := by
  cases buf with
  | none => exact hb
  | some mem =>
    simp only [StreamBuffer.copyOutMust]
    split
    · exact hb
    · exact hb

theorem HasBlock.hasRead (hb : HasBlock size b) (len : UInt64) : HasBlock size (b.hasRead len).2 := by
  simp only [StreamBuffer.hasRead]
  split
  · exact hb
  · exact hb

theorem HasBlock.apply (hb : HasBlock size b) (c : Call) : HasBlock size (c.apply b) := by
  cases c with
  | clear => exact hb
  | copyInMust data len => exact hb.copyInMust data len
  | copyOutMust buf len => exact hb.copyOutMust buf len
  | peekOutMust buf len => exact hb
  | hasWriten len =>
    simp only [Call.apply, StreamBuffer.hasWriten]
    split
    · exact hb
    · exact hb
  | hasRead len => exact hb.hasRead len
  | writeBuffer buf len =>
    simp only [Call.apply, StreamBuffer.writeBuffer]
    split
    · exact hb
    · exact (hb.copyInMust _ _).copyInMust _ _
  | readBuffer buf len =>
    simp only [Call.apply, StreamBuffer.readBuffer]
    split
    · exact hb
    · split
      · exact hb
      · exact (hb.hasRead _).copyOutMust _ _

/-! ## The checks -/

theorem InBlock.used_le (h : InBlock b) : b.used.toNat ≤ b.size_.toNat := by
  have hi := h.in_le; have ho := h.out_le; have hu := h.used
  split at hu
  · omega
  · omega

/-- The room is what is not used, and no difference of `uint64_t` goes below zero. -/
theorem InBlock.unused_eq (h : InBlock b) : b.unused.toNat = b.size_.toNat - b.used.toNat := by
  have hu := h.used_le
  rw [StreamBuffer.unused, UInt64.toNat_sub_of_le _ _ (UInt64.le_iff_toNat_le.mpr hu)]

theorem checked_used (h : InBlock b) : Checked.used b = some b.used :=
  if_pos (UInt64.le_iff_toNat_le.mpr h.used_le)

theorem checked_unused (h : InBlock b) : Checked.unused b = some b.unused := by
  rw [Checked.unused, checked_used h]
  rfl

theorem checked_advance (h : InBlock b) {off len : UInt64} (ho : off.toNat ≤ b.size_.toNat)
    (hl : len.toNat ≤ b.size_.toNat) :
    Checked.advance b off len = some ((off + len) % (b.size_ + 1)) := by
  have hs := h.size
  exact if_pos (by omega)

/-- The two parts of a copy of `len` bytes from the offset `off` on lie in the block. -/
theorem allocated_parts (h : InBlock b) (hb : HasBlock size b) {off len : UInt64} (ho : off.toNat ≤ b.size_.toNat)
    (hl : len.toNat ≤ b.size_.toNat) :
    let l := MIN len ((b.size_ + 1) - off)
    Checked.Allocated b off l ∧ Checked.Allocated b 0 (len - l) := by
  intro l
  obtain ⟨-, d, hd, hlen⟩ := hb
  have hl' : l.toNat = min len.toNat (b.size_.toNat + 1 - off.toNat) := by rw [toNat_MIN, toNat_size_succ h.size off ho]
  have hrest : (len - l).toNat = len.toNat - l.toNat := UInt64.toNat_sub_of_le _ _ (UInt64.le_iff_toNat_le.mpr (by omega))
  exact ⟨⟨d, hd, hlen, by omega⟩, d, hd, hlen, by rw [show (0 : UInt64).toNat = 0 from rfl]; omega⟩

theorem checked_copyIn (h : InBlock b) (hb : HasBlock size b) (data : List Byte) {len : UInt64}
    (hl : len.toNat ≤ b.size_.toNat) :
    Checked.copyIn b data len = some (b.copyIn data len) :=
  if_pos (allocated_parts h hb h.in_le hl)

theorem checked_copyOut (h : InBlock b) (hb : HasBlock size b) (buf : List Byte) {len : UInt64}
    (hl : len.toNat ≤ b.size_.toNat) :
    Checked.copyOut b buf len = some (b.copyOut buf len) :=
  if_pos (allocated_parts h hb h.out_le hl)

/-- What is accepted is not more than the ring holds. -/
theorem le_size_of_unused (h : InBlock b) {len : UInt64} (hl : ¬ len > b.unused) : len.toNat ≤ b.size_.toNat := by
  have := UInt64.le_iff_toNat_le.mp (UInt64.not_lt.mp hl)
  have := h.unused_eq
  omega

theorem le_size_of_used (h : InBlock b) {len : UInt64} (hl : ¬ len > b.used) : len.toNat ≤ b.size_.toNat :=
  Nat.le_trans (UInt64.le_iff_toNat_le.mp (UInt64.not_lt.mp hl)) h.used_le

/-! ## The operations -/

theorem checked_copyInMust (h : InBlock b) (hb : HasBlock size b) (data : Option (List Byte)) (len : UInt64) :
    Checked.copyInMust b data len = some (b.copyInMust data len) := by
  cases data with
  | none => simp [Checked.copyInMust, StreamBuffer.copyInMust, checked_unused h]
  | some data =>
    simp only [Checked.copyInMust, StreamBuffer.copyInMust, checked_unused h, Option.bind_eq_bind, Option.bind_some]
    split
    · rfl
    · rename_i hl
      have hlen := le_size_of_unused h hl
      have hadv : Checked.advance (b.copyIn data len) (b.copyIn data len).in_ len =
          some ((b.in_ + len) % (b.size_ + 1)) :=
        checked_advance (h.copyIn data len) h.in_le hlen
      rw [checked_copyIn h hb data hlen, Option.bind_some, hadv]
      rfl

theorem checked_copyOutMust (h : InBlock b) (hb : HasBlock size b) (buf : Option (List Byte)) (len : UInt64) :
    Checked.copyOutMust b buf len = some (b.copyOutMust buf len) := by
  cases buf with
  | none => simp [Checked.copyOutMust, StreamBuffer.copyOutMust, checked_used h]
  | some mem =>
    simp only [Checked.copyOutMust, StreamBuffer.copyOutMust, checked_used h, Option.bind_eq_bind, Option.bind_some]
    split
    · rfl
    · rename_i hl
      have hlen := le_size_of_used h hl
      rw [checked_copyOut h hb mem hlen, Option.bind_some, checked_advance h h.out_le hlen]
      rfl

theorem checked_peekOutMust (h : InBlock b) (hb : HasBlock size b) (buf : Option (List Byte)) (len : UInt64) :
    Checked.peekOutMust b buf len = some (b.peekOutMust buf len) := by
  simp only [Checked.peekOutMust, StreamBuffer.peekOutMust, checked_used h, Option.bind_eq_bind, Option.bind_some]
  split
  · rfl
  · rename_i hl
    cases buf with
    | none => rfl
    | some mem =>
      simp only [checked_copyOut h hb mem (le_size_of_used h hl), Option.bind_some]
      rfl

theorem checked_hasWriten (h : InBlock b) (len : UInt64) : Checked.hasWriten b len = some (b.hasWriten len) := by
  simp only [Checked.hasWriten, StreamBuffer.hasWriten, checked_unused h, Option.bind_eq_bind, Option.bind_some]
  split
  · rfl
  · rename_i hl
    rw [checked_advance h h.in_le (le_size_of_unused h hl)]
    rfl

theorem checked_hasRead (h : InBlock b) (len : UInt64) : Checked.hasRead b len = some (b.hasRead len) := by
  simp only [Checked.hasRead, StreamBuffer.hasRead, checked_used h, Option.bind_eq_bind, Option.bind_some]
  split
  · rfl
  · rename_i hl
    rw [checked_advance h h.out_le (le_size_of_used h hl)]
    rfl

theorem checked_writeBuffer (h : InBlock b) (hb : HasBlock size b) (buf : Option (List Byte)) (len : Int32) :
    Checked.writeBuffer b buf len = some (b.writeBuffer buf len) := by
  simp only [Checked.writeBuffer, StreamBuffer.writeBuffer, checked_unused h, Option.bind_eq_bind, Option.bind_some]
  split
  · rfl
  · rw [checked_copyInMust h hb, Option.bind_some, checked_copyInMust (h.copyInMust _ _) (hb.copyInMust _ _),
      Option.bind_some]

theorem checked_readBuffer (h : InBlock b) (hb : HasBlock size b) (buf : Option (List Byte)) (len : Int32) :
    Checked.readBuffer b buf len = some (b.readBuffer buf len) := by
  simp only [Checked.readBuffer, StreamBuffer.readBuffer, checked_peekOutMust h hb, checked_used h,
    Option.bind_eq_bind, Option.bind_some]
  split
  · rfl
  · split
    · rfl
    · rw [checked_hasRead h, Option.bind_some, checked_copyOutMust (h.hasRead _) (hb.hasRead _), Option.bind_some]

/-- A call goes as it would go without the checks. -/
theorem apply_checked (h : InBlock b) (hb : HasBlock size b) (c : Call) : c.checked b = some (c.apply b) := by
  cases c with
  | clear => rfl
  | copyInMust data len => rw [Call.checked, checked_copyInMust h hb]; rfl
  | copyOutMust buf len => rw [Call.checked, checked_copyOutMust h hb]; rfl
  | peekOutMust buf len => rw [Call.checked, checked_peekOutMust h hb]; rfl
  | hasWriten len => rw [Call.checked, checked_hasWriten h]; rfl
  | hasRead len => rw [Call.checked, checked_hasRead h]; rfl
  | writeBuffer buf len => rw [Call.checked, checked_writeBuffer h hb]; rfl
  | readBuffer buf len => rw [Call.checked, checked_readBuffer h hb]; rfl

/-- The offsets and the counts of a ring of the given size are in bounds. -/
structure Bounded (size : UInt64) (b : StreamBuffer) : Prop where
  block : HasBlock size b
  in_le : b.in_ ≤ size
  out_le : b.out_ ≤ size
  used_le : b.used ≤ size
  unused_eq : b.unused.toNat = size.toNat - b.used.toNat

theorem bounded_of_inBlock (h : InBlock b) (hb : HasBlock size b) : Bounded size b := by
  have hin := h.in_le; have hout := h.out_le; have hused := h.used_le; have hunused := h.unused_eq
  rw [hb.1] at hin hout hused hunused
  exact ⟨hb, UInt64.le_iff_toNat_le.mpr hin, UInt64.le_iff_toNat_le.mpr hout, UInt64.le_iff_toNat_le.mpr hused, hunused⟩

theorem foldl_apply_ok (h : InBlock b) (hb : HasBlock size b) (calls : List Call) :
    InBlock (calls.foldl Call.apply b) ∧ HasBlock size (calls.foldl Call.apply b) := by
  induction calls generalizing b with
  | nil => exact ⟨h, hb⟩
  | cons c calls ih => exact ih (h.apply c) (hb.apply c)

/-- After one `alloc(size)` and any calls the offsets and the counts are in bounds, and
no check fails in the next call: its copies stay in the block, and its sums do not wrap. -/
theorem offsets_and_copies_in_bounds {malloc : Nat → Option (List Byte)} (hm : Malloc malloc) (size : UInt64)
    (hs : size.toNat < 2 ^ 63 - 1) (ha : (alloc malloc new size).1 = 0) (calls : List Call) :
    let b := calls.foldl Call.apply (alloc malloc new size).2
    Bounded size b ∧ ∀ c : Call, c.checked b = some (c.apply b) := by
  have hs' := size_succ_ne_zero hs
  have hblock : HasBlock size (alloc malloc new size).2 := by
    obtain ⟨d, hd, hl, -⟩ := (alloc_queues hm hs' ha).holds.data
    exact ⟨rfl, d, hd, hl⟩
  obtain ⟨hin, hb⟩ := foldl_apply_ok (alloc_queues hm hs' ha).holds.inBlock hblock calls
  exact ⟨bounded_of_inBlock hin hb, apply_checked hin hb⟩

/-- A ring of eight bytes, filled, and used with lengths of all kinds. -/
theorem offsets_and_copies_in_bounds_eight :
    let b := [Call.hasWriten 5, .hasRead 3, .writeBuffer none (-1), .copyInMust (some [1, 2, 3, 4, 5]) 5].foldl Call.apply
      (alloc mallocZeroed new 8).2
    Bounded 8 b ∧ ∀ c : Call, c.checked b = some (c.apply b) :=
  offsets_and_copies_in_bounds malloc_mallocZeroed 8 (by decide) (by decide) _

end Ydx.StreamBuffer
