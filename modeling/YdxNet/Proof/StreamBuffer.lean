import YdxNet.Framework.Ring
import YdxNet.Impl.StreamBuffer
import YdxNet.Spec.MessageFifo

/-!
# The ring of bytes

`InBlock b`: the offsets of the buffer `b` are in its block, and `used()` and
`unused()` count by them. `Holds b bs`: it holds the bytes `bs`, the oldest first.
The offsets run modulo `size_ + 1`, so that a full ring and an empty one differ,
while `used()` adds `size_` when the offsets have wrapped: the count it gives
is then one less than the number of bytes held (`Holds.used`). Bytes that fit
are put behind the others (`copyIn_ok`), and bytes are copied and passed over from
the oldest on (`copyOut_ok`, `Holds.drop`). In a block of no bytes, every call that is
defined leaves the buffer as it is (`NoBytes.apply`).
-/

namespace Ydx.StreamBuffer

open RingBuf

/-- The offsets have wrapped: the next byte goes in below the oldest one. -/
def Wrapped (b : StreamBuffer) : Prop := b.in_ < b.out_

instance (b : StreamBuffer) : Decidable b.Wrapped := inferInstanceAs (Decidable (b.in_ < b.out_))

/-- The offsets are in the block. -/
structure InBlock (b : StreamBuffer) : Prop where
  size : b.size_.toNat < 2 ^ 63 - 1
  in_le : b.in_.toNat ≤ b.size_.toNat
  out_le : b.out_.toNat ≤ b.size_.toNat
  block : b.size_ = 0 ∨ ∃ d, b.data_ = some d ∧ d.length = b.size_.toNat + 1

theorem size_succ_ne_zero {size : UInt64} (hs : size.toNat < 2 ^ 63 - 1) : size + 1 ≠ 0 := by
  rw [Ne, ← UInt64.toNat_inj, UInt64.toNat_add, show (1 : UInt64).toNat = 1 from rfl, Nat.mod_eq_of_lt (by omega)]
  exact Nat.succ_ne_zero _

section

variable {b : StreamBuffer}

theorem toNat_mod_size_succ (hs : b.size_.toNat < 2 ^ 63 - 1) (x : UInt64) :
    (x % (b.size_ + 1)).toNat ≤ b.size_.toNat := by
  have h1 : (b.size_ + 1).toNat = b.size_.toNat + 1 := by
    rw [UInt64.toNat_add, show (1 : UInt64).toNat = 1 from rfl, Nat.mod_eq_of_lt (by omega)]
  have := Nat.mod_lt x.toNat (show 0 < b.size_.toNat + 1 by omega)
  rw [UInt64.toNat_mod, h1]
  omega

theorem InBlock.setIn (h : InBlock b) (x : UInt64) : InBlock { b with in_ := x % (b.size_ + 1) } :=
  ⟨h.size, toNat_mod_size_succ h.size x, h.out_le, h.block⟩

theorem InBlock.setOut (h : InBlock b) (x : UInt64) : InBlock { b with out_ := x % (b.size_ + 1) } :=
  ⟨h.size, h.in_le, toNat_mod_size_succ h.size x, h.block⟩

theorem InBlock.used (h : InBlock b) : b.used.toNat =
    if b.in_.toNat < b.out_.toNat then b.in_.toNat + b.size_.toNat - b.out_.toNat else b.in_.toNat - b.out_.toNat := by
  have hs := h.size; have hi := h.in_le; have ho := h.out_le
  simp only [StreamBuffer.used, toInt64_neg_iff, UInt64.toUInt64_toInt64, UInt64.toNat_sub]
  by_cases hw : b.in_.toNat < b.out_.toNat
  · rw [if_pos hw, if_pos (by omega), UInt64.toNat_add, UInt64.toNat_sub]
    omega
  · rw [if_neg hw, if_neg (by omega), UInt64.toNat_sub]
    omega

theorem InBlock.unused (h : InBlock b) : b.unused.toNat =
    if b.in_.toNat < b.out_.toNat then b.out_.toNat - b.in_.toNat else b.size_.toNat + b.out_.toNat - b.in_.toNat := by
  have hs := h.size; have hi := h.in_le; have ho := h.out_le; have hu := h.used
  rw [StreamBuffer.unused, UInt64.toNat_sub]
  split at hu
  · rename_i hw
    rw [if_pos hw]
    omega
  · rename_i hw
    rw [if_neg hw]
    omega

theorem InBlock.room (h : InBlock b) : b.used.toNat < 2 ^ 63 ∧ b.unused.toNat < 2 ^ 63 := by
  have hs := h.size; have hi := h.in_le; have ho := h.out_le; have hu := h.used; have hn := h.unused
  split at hu <;> split at hn <;> omega

/-- Where the offsets are in a block, no call divides by zero: only `alloc(UINT64_MAX)` leads
out of the calls that are defined. -/
theorem InBlock.defined (h : InBlock b) (c : Call) : c.Defined b := by
  have hne := size_succ_ne_zero h.size
  cases c with
  | clear => trivial
  | copyInMust data len | copyOutMust data len => exact fun _ _ => hne
  | peekOutMust buf len => exact fun _ _ _ => hne
  | hasWriten len | hasRead len | readBuffer buf len => exact fun _ => hne
  | writeBuffer buf len => exact fun _ => ⟨fun _ => hne, fun _ _ => hne⟩

/-- What `alloc(UINT64_MAX)` leaves, with a block of no bytes. -/
structure NoBytes (b : StreamBuffer) : Prop where
  in_eq : b.in_ = 0
  out_eq : b.out_ = 0
  size : b.size_ + 1 = 0
  block : b.data_ ≠ none

theorem NoBytes.used (h : NoBytes b) : b.used = 0 := by
  rw [StreamBuffer.used, h.in_eq, h.out_eq]
  rfl

theorem NoBytes.refused (h : NoBytes b) {len : UInt64} (hl : len ≠ 0) : len > b.used := by
  rw [h.used, GT.gt, UInt64.lt_iff_toNat_lt]
  exact Nat.pos_of_ne_zero fun h0 => hl (UInt64.toNat_inj.mp h0)

/-- There is room for everything. -/
theorem NoBytes.le_unused (h : NoBytes b) (len : UInt64) : len ≤ b.unused := by
  have hs := congrArg UInt64.toNat h.size
  have hu : b.unused.toNat = b.size_.toNat := by rw [StreamBuffer.unused, h.used, UInt64.sub_zero]
  have hlen := len.toNat_lt
  have hsize := b.size_.toNat_lt
  rw [UInt64.toNat_add, show (1 : UInt64).toNat = 1 from rfl, show (0 : UInt64).toNat = 0 from rfl] at hs
  rw [UInt64.le_iff_toNat_le, hu]
  omega

theorem NoBytes.clear (h : NoBytes b) : b.clear = b := by
  obtain ⟨in_, out_, size_, data_⟩ := b
  obtain ⟨rfl, rfl, -, -⟩ := h
  rfl

theorem NoBytes.not_defined_write (h : NoBytes b) (buf : Option (List Byte)) (len : Int32) :
    ¬ (Call.writeBuffer buf len).Defined b := fun hd =>
  (hd (UInt64.not_lt.mpr (h.le_unused _))).1 (h.le_unused _) h.size

theorem NoBytes.readBuffer (h : NoBytes b) (buf : Option (List Byte)) (len : Int32) :
    b.readBuffer buf len = ⟨false, buf, 0, b⟩ := by
  have : sizeofInt > b.used := h.refused (by decide)
  simp only [StreamBuffer.readBuffer, peekOutMust, this, ite_true]

/-- A call that is defined changes nothing. -/
theorem NoBytes.apply (h : NoBytes b) {c : Call} (hc : c.Defined b) : c.apply b = b := by
  have hrefused : ∀ len, (len ≤ b.used → b.size_ + 1 ≠ 0) → len > b.used := fun len hl =>
    UInt64.not_le.mp fun hle => hl hle h.size
  cases c with
  | clear => exact h.clear
  | peekOutMust buf len => rfl
  | copyInMust data len =>
    cases data with
    | none => rfl
    | some data => exact absurd h.size (hc (Option.some_ne_none _) (h.le_unused _))
  | copyOutMust buf len =>
    cases buf with
    | none => rfl
    | some mem => simp only [Call.apply, copyOutMust, hrefused len (hc (Option.some_ne_none _)), if_true]
  | hasWriten len => exact absurd h.size (hc (h.le_unused _))
  | hasRead len => simp only [Call.apply, hasRead, hrefused len hc, if_true]
  | writeBuffer buf len => exact absurd hc (h.not_defined_write buf len)
  | readBuffer buf len => rw [Call.apply, h.readBuffer]

end

/-- `b` holds the bytes `bs`, the oldest first. -/
structure Holds (b : StreamBuffer) (bs : List Byte) : Prop where
  size : b.size_.toNat < 2 ^ 63 - 1
  out : b.out_.toNat ≤ b.size_.toNat
  fits : bs.length ≤ b.size_.toNat
  in_eq : b.in_.toNat = (b.out_.toNat + bs.length) % (b.size_.toNat + 1)
  data : ∃ d, b.data_ = some d ∧ d.length = b.size_.toNat + 1 ∧ window d b.out_.toNat bs.length = bs

namespace Holds

variable {b : StreamBuffer} {bs : List Byte}

theorem in_le (h : Holds b bs) : b.in_.toNat ≤ b.size_.toNat := by
  rw [h.in_eq]; exact Nat.le_of_lt_succ (Nat.mod_lt _ (by omega))

theorem inBlock (h : Holds b bs) : InBlock b := by
  obtain ⟨d, hd, hl, -⟩ := h.data
  exact ⟨h.size, h.in_le, h.out, .inr ⟨d, hd, hl⟩⟩

/-- Where the next byte goes in, with the wrap resolved. -/
theorem in_cases (h : Holds b bs) :
    (¬ b.Wrapped ∧ b.in_.toNat = b.out_.toNat + bs.length) ∨
    (b.Wrapped ∧ b.in_.toNat + (b.size_.toNat + 1) = b.out_.toNat + bs.length) := by
  have ho := h.out; have hf := h.fits; have he := h.in_eq
  simp only [Wrapped, UInt64.lt_iff_toNat_lt]
  by_cases hw : b.out_.toNat + bs.length < b.size_.toNat + 1
  · rw [Nat.mod_eq_of_lt hw] at he
    exact .inl ⟨by omega, he⟩
  · rw [Nat.mod_eq_sub_mod (by omega), Nat.mod_eq_of_lt (by omega)] at he
    exact .inr ⟨by omega, by omega⟩

theorem pos_of_wrapped (h : Holds b bs) (hw : b.Wrapped) : 0 < bs.length := by
  have := h.out
  rcases h.in_cases with ⟨hn, -⟩ | ⟨-, e⟩
  · exact absurd hw hn
  · rw [Wrapped, UInt64.lt_iff_toNat_lt] at hw; omega

/-- `used()`: one too few when the offsets have wrapped. -/
theorem used (h : Holds b bs) :
    b.used.toNat = if b.Wrapped then bs.length - 1 else bs.length := by
  have hu := h.inBlock.used
  rcases h.in_cases with ⟨hw, e⟩ | ⟨hw, e⟩
  · rw [if_neg (by rwa [Wrapped, UInt64.lt_iff_toNat_lt] at hw)] at hu
    rw [if_neg hw]; omega
  · rw [if_pos (UInt64.lt_iff_toNat_lt.mp hw)] at hu
    rw [if_pos hw]; omega

/-- `unused()`: one too many when the offsets have wrapped. -/
theorem unused (h : Holds b bs) : b.unused.toNat =
    if b.Wrapped then b.size_.toNat + 1 - bs.length else b.size_.toNat - bs.length := by
  have hs := h.size; have hf := h.fits; have hu := h.used
  rw [StreamBuffer.unused, UInt64.toNat_sub]
  by_cases hw : b.Wrapped
  · have := h.pos_of_wrapped hw
    rw [if_pos hw] at hu ⊢; omega
  · rw [if_neg hw] at hu ⊢; omega

theorem used_le (h : Holds b bs) : b.used.toNat ≤ bs.length := by
  rw [h.used]; split <;> omega

theorem le_unused (h : Holds b bs) : b.size_.toNat - bs.length ≤ b.unused.toNat := by
  rw [h.unused]; split <;> omega

end Holds

theorem toNat_MIN (a b : UInt64) : (MIN a b).toNat = min a.toNat b.toNat := by
  simp only [MIN, GT.gt, UInt64.lt_iff_toNat_lt]
  split <;> omega

/-- `(o + n) % (size_ + 1)` as a number. -/
theorem toNat_advance {size o n : UInt64} (hs : size.toNat < 2 ^ 63 - 1) (ho : o.toNat ≤ size.toNat)
    (hn : n.toNat ≤ size.toNat + 1) :
    ((o + n) % (size + 1)).toNat = (o.toNat + n.toNat) % (size.toNat + 1) := by
  rw [UInt64.toNat_mod, UInt64.toNat_add, UInt64.toNat_add, Nat.mod_eq_of_lt (a := o.toNat + n.toNat) (by omega),
    Nat.mod_eq_of_lt (a := size.toNat + (1 : UInt64).toNat) (by simp; omega)]
  rfl

theorem toNat_size_succ {b : StreamBuffer} (hs : b.size_.toNat < 2 ^ 63 - 1) (o : UInt64)
    (ho : o.toNat ≤ b.size_.toNat) : (b.size_ + 1 - o).toNat = b.size_.toNat + 1 - o.toNat := by
  rw [UInt64.toNat_sub, UInt64.toNat_add, show (1 : UInt64).toNat = 1 from rfl]; omega

section

variable {b : StreamBuffer} {bs : List Byte}

/-- `copy_out` copies the oldest bytes. -/
theorem copyOut_ok (h : Holds b bs) (buf : List Byte) {n : UInt64} (hn : n.toNat ≤ bs.length) :
    b.copyOut buf n = memcpy buf 0 (bs.take n.toNat) := by
  have hf := h.fits; have ho := h.out
  obtain ⟨d, hd, hl, hw⟩ := h.data
  have hr : readWrapped d b.out_.toNat n.toNat = bs.take n.toNat := by
    rw [readWrapped_eq (by omega) (by omega), ← hw, window, window, List.take_take, Nat.min_eq_left hn]
  have hm : (MIN n (b.size_ + 1 - b.out_)).toNat = min n.toNat (d.length - b.out_.toNat) := by
    rw [toNat_MIN, toNat_size_succ h.size _ ho, hl]
  have hs : (n - MIN n (b.size_ + 1 - b.out_)).toNat = n.toNat - min n.toNat (d.length - b.out_.toNat) := by
    have := n.toNat_lt
    rw [UInt64.toNat_sub, hm]; omega
  have hp : ((d.drop b.out_.toNat).take (min n.toNat (d.length - b.out_.toNat))).length =
      min n.toNat (d.length - b.out_.toNat) := by
    rw [List.length_take, List.length_drop]; omega
  simp only [copyOut, hd, Option.getD_some, hm, hs]
  rw [← hr, readWrapped, ← memcpy_memcpy, hp]

/-- The bytes after `in_` has been moved over a copy of `n` bytes of `data`. -/
theorem copyIn_ok (h : Holds b bs) (data : List Byte) {n : UInt64} (hd : n.toNat ≤ data.length)
    (hn : bs.length + n.toNat ≤ b.size_.toNat) :
    Holds { b.copyIn data n with in_ := (b.in_ + n) % (b.size_ + 1) } (bs ++ data.take n.toNat) := by
  have hf := h.fits; have ho := h.out
  obtain ⟨d, hd', hl, hw⟩ := h.data
  have ht : (data.take n.toNat).length = n.toNat := by rw [List.length_take]; omega
  have hm : (MIN n (b.size_ + 1 - b.in_)).toNat = min n.toNat (d.length - b.in_.toNat) := by
    rw [toNat_MIN, toNat_size_succ h.size _ h.in_le, hl]
  have hs : (n - MIN n (b.size_ + 1 - b.in_)).toNat = n.toNat - min n.toNat (d.length - b.in_.toNat) := by
    have := n.toNat_lt
    rw [UInt64.toNat_sub, hm]; omega
  have hc : (b.copyIn data n).data_ = some (writeWrapped d b.in_.toNat (data.take n.toNat)) := by
    simp only [copyIn, hd', Option.map_some, hm, hs, writeWrapped, ht, List.take_take, List.drop_take]
    rw [Nat.min_eq_left (Nat.min_le_left _ _)]
  refine ⟨h.size, ho, by rw [List.length_append, ht]; exact hn, ?_, _, hc, ?_, ?_⟩
  · simp only [List.length_append, ht]
    rw [toNat_advance h.size h.in_le (by omega), h.in_eq, Nat.mod_add_mod, Nat.add_assoc]
    rfl
  · rw [length_writeWrapped, hl]; rfl
  · rw [List.length_append, h.in_eq, ← hl]
    have e := window_writeWrapped (α := Byte) (o := b.out_.toNat) (n := bs.length) (by omega : _ < d.length)
      (by omega : bs.length + (data.take n.toNat).length ≤ d.length)
    rw [hw] at e
    exact e

/-- The bytes left when the oldest `n` have been passed over. -/
theorem Holds.drop (h : Holds b bs) {n : UInt64} (hn : n.toNat ≤ bs.length) :
    Holds { b with out_ := (b.out_ + n) % (b.size_ + 1) } (bs.drop n.toNat) := by
  have hf := h.fits; have ho := h.out
  obtain ⟨d, hd, hl, hw⟩ := h.data
  have ha := toNat_advance h.size ho (n := n) (by omega)
  refine ⟨h.size, ?_, by rw [List.length_drop]; exact Nat.le_trans (Nat.sub_le _ _) hf, ?_, d, hd, hl, ?_⟩
  · simp only [ha]; exact Nat.le_of_lt_succ (Nat.mod_lt _ (by omega))
  · simp only [ha, List.length_drop]
    rw [h.in_eq, Nat.mod_add_mod, Nat.add_assoc, Nat.add_sub_cancel' hn]
  · simp only [ha, List.length_drop]
    have e := window_add (α := Byte) (o := b.out_.toNat) (m := n.toNat) (n := bs.length - n.toNat)
      (by omega : _ ≤ d.length)
    rw [Nat.add_sub_cancel' hn, hw] at e
    rw [← hl, window_mod]
    conv_rhs => rw [e]
    rw [List.drop_append_of_le_length (by rw [length_window (by omega)]),
      List.drop_of_length_le (by rw [length_window (by omega)]), List.nil_append]

/-- Passing over bytes does not make the offsets wrap. -/
theorem Holds.not_wrapped_drop (h : Holds b bs) {n : UInt64} (hn : n.toNat ≤ bs.length) (hw : ¬ b.Wrapped) :
    ¬ ({ b with out_ := (b.out_ + n) % (b.size_ + 1) } : StreamBuffer).Wrapped := by
  have hf := h.fits; have ho := h.out; have hi := h.in_le
  rcases h.in_cases with ⟨-, e⟩ | ⟨hw', -⟩
  · simp only [Wrapped, UInt64.lt_iff_toNat_lt]
    rw [toNat_advance h.size ho (by omega), Nat.mod_eq_of_lt (by omega)]
    omega
  · exact absurd hw' hw

end

end Ydx.StreamBuffer
