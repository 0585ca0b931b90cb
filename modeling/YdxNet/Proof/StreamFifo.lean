import YdxNet.Proof.StreamBuffer

/-!
# The ring as a queue of messages

`StreamBuffer` against `Spec.fifo`, the bounded queue of messages it is meant
to be. What the counts let in or out is moved as a whole (`writeBuffer_whole`,
`readBuffer_whole`). So `write_buffer` and `read_buffer` are described at a buffer
that holds the frames of the messages queued (`writeBuffer_ok`, `writeBuffer_of_lt`,
`readBuffer_ok`, `readBuffer_empty`), and at the two kinds of calls where the
count of `used()`, one too small once the offsets have wrapped, lets a frame
in that does not fit (`writeBuffer_over`) or keeps the last message back
(`readBuffer_last`). A run gives what the queue gives exactly when it has no
such call (`streamBuffer_outputs_iff`), and none that is not defined: after
`alloc(UINT64_MAX)` no write is.
-/

namespace Ydx.StreamBuffer

open Spec

variable {b : StreamBuffer} {bs : List Byte}

/-! ## The counts and a frame -/

theorem toNat_sizeofInt : sizeofInt.toNat = 4 := rfl

theorem toNat_totb {len : Int32} (h : 0 ≤ len.toInt) :
    (sizeT len + sizeofInt).toNat = len.toInt.toNat + 4 := by
  have := Int32.toInt_lt len
  rw [UInt64.toNat_add, sizeT_of_nonneg h, toNat_sizeofInt]; omega

/-- The room for a frame is tested with a sum that wraps around for the lengths
from -4 to -1. -/
theorem totb_le_iff {room : UInt64} (hr : room.toNat < 2 ^ 63) (len : Int32) :
    ¬ room < sizeT len + sizeofInt ↔ -4 ≤ len.toInt ∧ len.toInt + 4 ≤ room.toNat := by
  have hlo := len.le_toInt; have hhi := len.toInt_lt
  rw [UInt64.lt_iff_toNat_lt, UInt64.toNat_add, toNat_sizeofInt]
  by_cases h0 : 0 ≤ len.toInt
  · rw [sizeT_of_nonneg h0]
    omega
  · have hn := sizeT_of_neg (n := len) (by omega)
    omega

/-- A payload that was counted with its header is not refused behind it. -/
theorem not_sizeT_gt {room room' : UInt64} {len : Int32} (h0 : 0 ≤ len.toInt) (hle : len.toInt + 4 ≤ room.toNat)
    (hr : room.toNat ≤ room'.toNat + 4) : ¬ sizeT len > room' := by
  rw [GT.gt, UInt64.lt_iff_toNat_lt, sizeT_of_nonneg h0]
  omega

theorem sizeofInt_gt_iff (room : UInt64) : sizeofInt > room ↔ ¬ 4 ≤ room.toNat := by
  rw [GT.gt, UInt64.lt_iff_toNat_lt, toNat_sizeofInt, Nat.not_le]

/-- An offset moved over a header, with the wrap resolved. -/
theorem toNat_advance_header {size o : UInt64} (hs : size.toNat < 2 ^ 63 - 1) (ho : o.toNat ≤ size.toNat)
    (h4 : 4 ≤ size.toNat) :
    ((o + sizeofInt) % (size + 1)).toNat = o.toNat + 4 ∨
      ((o + sizeofInt) % (size + 1)).toNat + (size.toNat + 1) = o.toNat + 4 := by
  rw [toNat_advance hs ho (n := sizeofInt) (by rw [toNat_sizeofInt]; omega), toNat_sizeofInt]
  by_cases hw : o.toNat + 4 < size.toNat + 1
  · exact .inl (Nat.mod_eq_of_lt hw)
  · rw [Nat.mod_eq_sub_mod (by omega), Nat.mod_eq_of_lt (by omega)]
    omega

/-- Four bytes put in leave room for all but four of the bytes there was room
for, or more by the count. -/
theorem unused_setIn (h : InBlock b) (hr : 4 ≤ b.unused.toNat) :
    let b' : StreamBuffer := { b with in_ := (b.in_ + sizeofInt) % (b.size_ + 1) }
    b'.in_ ≠ b.in_ ∧ b.unused.toNat ≤ b'.unused.toNat + 4 := by
  intro b'
  have hi := h.in_le; have ho := h.out_le
  have hu := h.unused
  have hu' : b'.unused.toNat = if b'.in_.toNat < b.out_.toNat then b.out_.toNat - b'.in_.toNat
    else b.size_.toNat + b.out_.toNat - b'.in_.toNat := (h.setIn _).unused
  have hle : 4 ≤ b.size_.toNat := by split at hu <;> omega
  have hadv : b'.in_.toNat = b.in_.toNat + 4 ∨ b'.in_.toNat + (b.size_.toNat + 1) = b.in_.toNat + 4 :=
    toNat_advance_header h.size hi hle
  refine ⟨fun e => ?_, ?_⟩
  · rw [← UInt64.toNat_inj] at e
    omega
  · split at hu <;> split at hu' <;> omega

/-- Four bytes passed over leave all but four of those that were counted. -/
theorem used_setOut (h : InBlock b) (hr : 4 ≤ b.used.toNat) :
    let b' : StreamBuffer := { b with out_ := (b.out_ + sizeofInt) % (b.size_ + 1) }
    b'.out_ ≠ b.out_ ∧ b.used.toNat ≤ b'.used.toNat + 4 := by
  intro b'
  have hi := h.in_le; have ho := h.out_le
  have hu := h.used
  have hu' : b'.used.toNat = if b.in_.toNat < b'.out_.toNat then b.in_.toNat + b.size_.toNat - b'.out_.toNat
    else b.in_.toNat - b'.out_.toNat := (h.setOut _).used
  have hle : 4 ≤ b.size_.toNat := by split at hu <;> omega
  have hadv : b'.out_.toNat = b.out_.toNat + 4 ∨ b'.out_.toNat + (b.size_.toNat + 1) = b.out_.toNat + 4 :=
    toNat_advance_header h.size ho hle
  refine ⟨fun e => ?_, ?_⟩
  · rw [← UInt64.toNat_inj] at e
    omega
  · split at hu <;> split at hu' <;> omega

/-! ## Writing -/

theorem writeBuffer_of_lt {buf : Option (List Byte)} {len : Int32} (h0 : 0 ≤ len.toInt)
    (hu : b.unused.toNat < len.toInt.toNat + 4) : b.writeBuffer buf len = (false, b) := by
  have : b.unused < sizeT len + sizeofInt := by rw [UInt64.lt_iff_toNat_lt, toNat_totb h0]; exact hu
  simp only [writeBuffer, this, ite_true]

/-- A frame that the counts let in goes in: its header, then its payload. -/
theorem writeBuffer_whole (h : InBlock b) (buf : List Byte) {len : Int32} (h0 : 0 ≤ len.toInt)
    (hle : len.toInt + 4 ≤ b.unused.toNat) :
    let b₁ : StreamBuffer := { b.copyIn (int32Bytes len) sizeofInt with in_ := (b.in_ + sizeofInt) % (b.size_ + 1) }
    b.writeBuffer (some buf) len =
      (true, { b₁.copyIn buf (sizeT len) with in_ := (b₁.in_ + sizeT len) % (b.size_ + 1) }) := by
  intro b₁
  have ht : ¬ b.unused < sizeT len + sizeofInt := (totb_le_iff h.room.2 len).mpr ⟨by omega, hle⟩
  have h4 : 4 ≤ b.unused.toNat := by omega
  have e₁ : b.copyInMust (some (int32Bytes len)) sizeofInt = (sizeofInt, b₁) := by
    have hg : ¬ sizeofInt > b.unused := fun hg => (sizeofInt_gt_iff _).mp hg h4
    simp only [copyInMust, hg, ite_false]
    rfl
  have hg : ¬ sizeT len > b₁.unused := not_sizeT_gt h0 hle (unused_setIn h h4).2
  simp only [writeBuffer, ht, ite_false, e₁]
  simp only [copyInMust, hg, ite_false, UInt64.add_comm sizeofInt, ne_eq, not_true_eq_false]
  rfl

/-- A frame that fits is queued behind the others. -/
theorem writeBuffer_ok (h : Holds b bs) {buf : List Byte} {len : Int32} (h0 : 0 ≤ len.toInt)
    (hb : len.toInt.toNat ≤ buf.length) (hn : bs.length + (4 + len.toInt.toNat) ≤ b.size_.toNat) :
    (b.writeBuffer (some buf) len).1 = true ∧ (b.writeBuffer (some buf) len).2.size_ = b.size_ ∧
      Holds (b.writeBuffer (some buf) len).2 (bs ++ (int32Bytes len ++ buf.take len.toInt.toNat)) := by
  have hu := h.le_unused
  have hl := sizeT_of_nonneg h0
  have h₁ := copyIn_ok (n := sizeofInt) h (int32Bytes len) (Nat.le_refl 4) (by rw [toNat_sizeofInt]; omega)
  rw [show (int32Bytes len).take sizeofInt.toNat = int32Bytes len from rfl] at h₁
  have h₂ := copyIn_ok h₁ buf (n := sizeT len) (by rw [hl]; exact hb)
    (by rw [hl, List.length_append, length_int32Bytes]; show _ ≤ b.size_.toNat; omega)
  rw [hl, List.append_assoc] at h₂
  rw [writeBuffer_whole h.inBlock buf h0 (by omega)]
  exact ⟨rfl, rfl, h₂⟩

/-- The frame that ends where the oldest byte lies is let in although it is
one byte too long. -/
theorem writeBuffer_over (h : Holds b bs) {buf : List Byte} {len : Int32} (h0 : 0 ≤ len.toInt)
    (hn : b.in_.toNat + (len.toInt.toNat + 4) = b.out_.toNat) : (b.writeBuffer (some buf) len).1 = true := by
  have hu := h.inBlock.unused
  rw [if_pos (by omega)] at hu
  rw [writeBuffer_whole h.inBlock buf h0 (by omega)]

/-! ## Reading -/

/-- The length of the message that is next, when it is looked at. -/
theorem peek_len {m : Message} {rest : List Byte} (h : Holds b (frame m ++ rest)) (len : Int32) :
    int32OfBytes (b.copyOut (int32Bytes len) sizeofInt) = lenInt m.length := by
  rw [copyOut_ok h _ (by rw [List.length_append, length_frame, toNat_sizeofInt]; omega),
    toNat_sizeofInt, frame, List.append_assoc, List.take_append_of_le_length (by simp),
    List.take_of_length_le (by simp), memcpy_zero_of_ge (by simp), List.take_of_length_le (by simp)]
  exact int32OfBytes_int32Bytes _ []

/-- Nothing is read when `used()` counts less than the frame that is next. -/
theorem readBuffer_of_lt {m : Message} {rest : List Byte} (h : Holds b (frame m ++ rest))
    (hm : m.length < 2 ^ 31) (hu : b.used.toNat < 4 + m.length) (buf : Option (List Byte)) (len : Int32) :
    b.readBuffer buf len = ⟨false, buf, 0, b⟩ := by
  by_cases h4 : b.used.toNat < 4
  · have : sizeofInt > b.used := by rw [GT.gt, UInt64.lt_iff_toNat_lt]; exact h4
    simp only [readBuffer, peekOutMust, this, ite_true]
  · have ht : ¬ sizeofInt > b.used := by rw [GT.gt, UInt64.lt_iff_toNat_lt]; exact h4
    have hs : b.used < sizeT (lenInt m.length) + sizeofInt := by
      rw [UInt64.lt_iff_toNat_lt, toNat_totb (by rw [toInt_lenInt hm]; omega), toInt_lenInt hm]; omega
    simp only [readBuffer, peekOutMust, ht, ite_false, Option.map_some, Option.getD_some, peek_len h, hs,
      ite_true]
    rfl

/-- A frame with the length `n` in front goes out when it is counted: the header is
passed over, the payload copied. -/
theorem readBuffer_whole (h : InBlock b) (buf : List Byte) {len n : Int32}
    (hp : int32OfBytes (b.copyOut (int32Bytes len) sizeofInt) = n) (h0 : 0 ≤ n.toInt)
    (hle : n.toInt + 4 ≤ b.used.toNat) :
    let b₁ : StreamBuffer := { b with out_ := (b.out_ + sizeofInt) % (b.size_ + 1) }
    b.readBuffer (some buf) len =
      ⟨true, some (b₁.copyOut buf (sizeT n)), n, { b₁ with out_ := (b₁.out_ + sizeT n) % (b.size_ + 1) }⟩ := by
  intro b₁
  have ht : ¬ b.used < sizeT n + sizeofInt := (totb_le_iff h.room.1 n).mpr ⟨by omega, hle⟩
  have h4 : 4 ≤ b.used.toNat := by omega
  have hg : ¬ sizeofInt > b.used := fun hg => (sizeofInt_gt_iff _).mp hg h4
  have hz : ¬ sizeofInt = 0 := by decide
  have e₁ : b.hasRead sizeofInt = (true, b₁) := by simp only [hasRead, hg, ite_false]; rfl
  have hg₁ : ¬ sizeT n > b₁.used := not_sizeT_gt h0 hle (used_setOut h h4).2
  simp only [readBuffer, peekOutMust, hg, hz, ite_false, Option.map_some, Option.getD_some, hp, ht, e₁, ite_true]
  simp only [copyOutMust, hg₁, ite_false, UInt64.add_comm sizeofInt, ne_eq, not_true_eq_false]
  rfl

/-- The next message is read and taken out when `used()` counts its frame and,
with the offsets wrapped, a byte more. -/
theorem readBuffer_ok {m : Message} {rest : List Byte} (h : Holds b (frame m ++ rest))
    (hm : m.length < 2 ^ 31) (hw : b.Wrapped → rest ≠ []) (buf : List Byte) (len : Int32) :
    ∃ b', b.readBuffer (some buf) len = ⟨true, some (memcpy buf 0 m), lenInt m.length, b'⟩ ∧
      b'.size_ = b.size_ ∧ Holds b' rest := by
  have hbs : (frame m ++ rest).length = 4 + m.length + rest.length := by simp
  have hrest : b.Wrapped → 0 < rest.length := fun h => List.length_pos_iff.mpr (hw h)
  have hu : 4 + m.length ≤ b.used.toNat := by
    rw [h.used, hbs]
    split
    · rename_i hw'
      have := hrest hw'; omega
    · omega
  have hl := toInt_lenInt hm
  have hn := sizeT_lenInt hm
  have h₁ := h.drop (n := sizeofInt) (by rw [hbs, toNat_sizeofInt]; omega)
  rw [toNat_sizeofInt, frame, List.append_assoc, List.drop_append_of_le_length (by simp),
    List.drop_of_length_le (by simp), List.nil_append] at h₁
  have h₂ := h₁.drop (n := sizeT (lenInt m.length)) (by rw [hn, List.length_append]; omega)
  rw [hn, List.drop_append_of_le_length (Nat.le_refl _), List.drop_of_length_le (Nat.le_refl _),
    List.nil_append] at h₂
  refine ⟨_, ?_, ?_, h₂⟩
  · rw [readBuffer_whole h.inBlock buf (peek_len h len) (by omega) (by omega),
      copyOut_ok h₁ buf (by rw [hn, List.length_append]; omega), hn,
      List.take_append_of_le_length (Nat.le_refl _), List.take_of_length_le (Nat.le_refl _)]
  · rfl

/-- Nothing is read from an empty ring. -/
theorem readBuffer_empty (h : Holds b []) (buf : Option (List Byte)) (len : Int32) :
    b.readBuffer buf len = ⟨false, buf, 0, b⟩ := by
  have : sizeofInt > b.used := by
    have := h.used_le
    rw [GT.gt, UInt64.lt_iff_toNat_lt, toNat_sizeofInt]; simp at this; omega
  simp only [readBuffer, peekOutMust, this, ite_true]

/-- The last message of a wrapped ring is kept back. -/
theorem readBuffer_last {m : Message} (h : Holds b (frame m)) (hm : m.length < 2 ^ 31) (hw : b.Wrapped)
    (buf : Option (List Byte)) (len : Int32) : b.readBuffer buf len = ⟨false, buf, 0, b⟩ := by
  have h' : Holds b (frame m ++ []) := by rwa [List.append_nil]
  refine readBuffer_of_lt h' hm ?_ buf len
  rw [h.used, if_pos hw, length_frame]; omega

/-! ## Runs -/

/-- The calls of `StreamBuffer` that `Spec.fifo` has. -/
def machine : Machine StreamBuffer FifoOp FifoOut where
  step
    | b, .write buf len => ((b.writeBuffer (some buf) len).2, .wrote (b.writeBuffer (some buf) len).1)
    | b, .read buf len =>
      let r := b.readBuffer (some buf) len
      (r.sb, .read r.ret (r.buf.getD []) r.len)

/-- The call with its arguments. -/
def fifoCall : FifoOp → Call
  | .write buf len => .writeBuffer (some buf) len
  | .read buf len => .readBuffer (some buf) len

/-- `b` holds the frames of the messages `q`. -/
structure Queues (cap : Nat) (b : StreamBuffer) (q : List Message) : Prop where
  holds : Holds b (q.flatMap frame)
  size : b.size_.toNat = cap
  short : ∀ m ∈ q, m.length < 2 ^ 31

/-- The calls that the count of `used()` serves right: with the offsets
wrapped, no frame is written that would end where the oldest byte lies, and
no message is read that is the only one queued. -/
def Counted : StreamBuffer × List Message → FifoOp → Prop
  | (b, _), .write _ len => ¬ (b.Wrapped ∧ b.in_ + (sizeT len + sizeofInt) = b.out_)
  | (b, q), .read _ _ => ¬ (b.Wrapped ∧ q.length = 1)

instance : ∀ s op, Decidable (Counted s op)
  | (b, _), .write _ len => inferInstanceAs (Decidable (¬ (b.Wrapped ∧ b.in_ + (sizeT len + sizeofInt) = b.out_)))
  | (b, q), .read _ _ => inferInstanceAs (Decidable (¬ (b.Wrapped ∧ q.length = 1)))

instance : ∀ op : FifoOp, Decidable op.Valid
  | .write buf len => inferInstanceAs (Decidable (0 ≤ len.toInt ∧ len.toInt.toNat ≤ buf.length))
  | .read _ _ => inferInstanceAs (Decidable True)

theorem ends_at_out_iff (h : Holds b bs) {len : Int32} (h0 : 0 ≤ len.toInt) :
    b.in_ + (sizeT len + sizeofInt) = b.out_ ↔ b.in_.toNat + (len.toInt.toNat + 4) = b.out_.toNat := by
  have := h.size; have := h.in_le; have := Int32.toInt_lt len
  rw [← UInt64.toNat_inj, UInt64.toNat_add, toNat_totb h0, Nat.mod_eq_of_lt (by omega)]

variable {cap : Nat} {q : List Message}

theorem lenInt_toNat {len : Int32} (h0 : 0 ≤ len.toInt) : lenInt len.toInt.toNat = len := by
  have hl := Int32.toInt_lt len
  apply Int32.toInt_inj.mp
  rw [toInt_lenInt (by omega)]; omega

/-- A write that fits the queue. -/
theorem Queues.write (h : Queues cap b q) {buf : List Byte} {len : Int32} (h0 : 0 ≤ len.toInt)
    (hb : len.toInt.toNat ≤ buf.length) (hn : framesSize q + (4 + len.toInt.toNat) ≤ cap) :
    (b.writeBuffer (some buf) len).1 = true ∧
      Queues cap (b.writeBuffer (some buf) len).2 (q ++ [buf.take len.toInt.toNat]) := by
  obtain ⟨e, hs, hh⟩ := writeBuffer_ok h.holds h0 hb (by rw [h.size]; exact hn)
  have ht : (buf.take len.toInt.toNat).length = len.toInt.toNat := by rw [List.length_take]; omega
  have hl := Int32.toInt_lt len
  refine ⟨e, ⟨?_, by rw [hs, h.size], fun m hm => ?_⟩⟩
  · rw [List.flatMap_append, List.flatMap_singleton, frame, ht, lenInt_toNat h0]; exact hh
  · rcases List.mem_append.mp hm with hm | hm
    · exact h.short m hm
    · rw [List.mem_singleton] at hm; subst hm; omega

/-- A read of the oldest message. -/
theorem Queues.read {m : Message} (h : Queues cap b (m :: q)) (hw : ¬ (b.Wrapped ∧ (m :: q).length = 1))
    (buf : List Byte) (len : Int32) :
    ∃ b', b.readBuffer (some buf) len = ⟨true, some (memcpy buf 0 m), lenInt m.length, b'⟩ ∧
      Queues cap b' q := by
  have hh : Holds b (frame m ++ q.flatMap frame) := h.holds
  have hr : b.Wrapped → q.flatMap frame ≠ [] := fun hb => by
    cases q with
    | nil => exact absurd ⟨hb, rfl⟩ hw
    | cons m' q => simp [frame, int32Bytes]
  obtain ⟨b', e, hs, hh'⟩ := readBuffer_ok hh (h.short m List.mem_cons_self) hr buf len
  exact ⟨b', e, hh', by rw [hs, h.size], fun m' hm' => h.short m' (List.mem_cons_of_mem _ hm')⟩

theorem step_counted {op : FifoOp} (h : Queues cap b q) (hv : op.Valid) (hc : Counted (b, q) op) :
    (machine.step b op).2 = ((fifo cap).step q op).2 ∧
      Queues cap (machine.step b op).1 ((fifo cap).step q op).1 := by
  cases op with
  | write buf len =>
    obtain ⟨h0, hb⟩ := hv
    have ht : (buf.take len.toInt.toNat).length = len.toInt.toNat := by rw [List.length_take]; omega
    simp only [machine, fifo, ht]
    by_cases hn : framesSize q + (4 + len.toInt.toNat) ≤ cap
    · obtain ⟨e, hq⟩ := h.write h0 hb hn
      rw [if_pos hn, e]; exact ⟨rfl, hq⟩
    · have hf : framesSize q = (q.flatMap frame).length := rfl
      have hu := h.holds.unused; have hfit := h.holds.fits; have hsz := h.size
      have e : b.writeBuffer (some buf) len = (false, b) := writeBuffer_of_lt h0 (by
        rw [Counted, ends_at_out_iff h.holds h0] at hc
        rcases h.holds.in_cases with ⟨hw, -⟩ | ⟨hw, ei⟩
        · rw [if_neg hw] at hu; omega
        · rw [if_pos hw] at hu
          have : ¬ b.in_.toNat + (len.toInt.toNat + 4) = b.out_.toNat := fun e => hc ⟨hw, e⟩
          omega)
      rw [if_neg hn, e]; exact ⟨rfl, h⟩
  | read buf len =>
    cases q with
    | nil =>
      have e := readBuffer_empty h.holds (some buf) len
      simp only [machine, fifo, e, Option.getD_some]; exact ⟨trivial, h⟩
    | cons m q =>
      obtain ⟨b', e, hq⟩ := h.read hc buf len
      simp only [machine, fifo, e, Option.getD_some]; exact ⟨trivial, hq⟩

theorem step_miscounted {op : FifoOp} (h : Queues cap b q) (hv : op.Valid) (hc : ¬ Counted (b, q) op) :
    (machine.step b op).2 ≠ ((fifo cap).step q op).2 := by
  cases op with
  | write buf len =>
    obtain ⟨h0, hb⟩ := hv
    rw [Counted, Decidable.not_not, ends_at_out_iff h.holds h0] at hc
    have ht : (buf.take len.toInt.toNat).length = len.toInt.toNat := by rw [List.length_take]; omega
    have hf : framesSize q = (q.flatMap frame).length := rfl
    have hn : ¬ framesSize q + (4 + len.toInt.toNat) ≤ cap := by
      have := h.size
      rcases h.holds.in_cases with ⟨hw, -⟩ | ⟨-, e⟩
      · exact absurd hc.1 hw
      · omega
    simp only [machine, fifo, ht, if_neg hn, writeBuffer_over h.holds h0 hc.2]
    decide
  | read buf len =>
    rw [Counted, Decidable.not_not] at hc
    cases q with
    | nil => simp at hc
    | cons m q =>
      have : q = [] := by simpa using hc.2
      subst this
      have e := readBuffer_last (b := b) (m := m) (by simpa using h.holds) (h.short m List.mem_cons_self) hc.1
        (some buf) len
      simp only [machine, fifo, e]; simp

/-- `malloc(3)`: a block of the length asked for or `NULL`, and `NULL` beyond
`PTRDIFF_MAX`. -/
structure Malloc (malloc : Nat → Option (List Byte)) : Prop where
  length : ∀ n d, malloc n = some d → d.length = n
  bound : ∀ n d, malloc n = some d → n ≤ 2 ^ 63 - 1

/-- A ring just allocated holds nothing. -/
theorem alloc_queues {malloc : Nat → Option (List Byte)} (hm : Malloc malloc) {size : UInt64}
    (hs : size + 1 ≠ 0) (ha : (alloc malloc new size).1 = 0) :
    Queues size.toNat (alloc malloc new size).2 [] := by
  have hn : (size + 1).toNat = size.toNat + 1 := by
    have := size.toNat_lt
    rw [Ne, ← UInt64.toNat_inj, UInt64.toNat_add] at hs
    rw [UInt64.toNat_add]; simp at hs ⊢; omega
  cases hd : malloc (size + 1).toNat with
  | none => simp only [alloc, hd, ite_true] at ha; exact absurd ha (by decide)
  | some d =>
    have hl := hm.length _ _ hd; have hb := hm.bound _ _ hd
    rw [hn] at hl hb
    refine ⟨⟨?_, ?_, ?_, ?_, d, ?_, hl, ?_⟩, rfl, by simp⟩
    · simp only [alloc]; omega
    · simp [alloc, new]
    · simp
    · simp [alloc, new]
    · simp only [alloc, hd]
    · simp

/-- A block of no bytes. -/
theorem alloc_noBytes {malloc : Nat → Option (List Byte)} {size : UInt64} (hs : size + 1 = 0)
    (ha : (alloc malloc new size).1 = 0) : NoBytes (alloc malloc new size).2 := by
  refine ⟨rfl, rfl, hs, fun hd => ?_⟩
  have hnull : malloc (size + 1).toNat = none := hd
  simp only [alloc, hnull, if_true] at ha
  exact absurd ha (by decide)

/-- The states of a run: the buffer holds what is queued, or its block has no bytes, and nothing
is queued. -/
inductive Runs (cap : Nat) (b : StreamBuffer) (q : List Message) : Prop
  | holds (queues : Queues cap b q)
  | noBytes (block : NoBytes b) (empty : q = [])

theorem alloc_runs {malloc : Nat → Option (List Byte)} (hm : Malloc malloc) {size : UInt64}
    (ha : (alloc malloc new size).1 = 0) : Runs size.toNat (alloc malloc new size).2 [] := by
  by_cases hs : size + 1 = 0
  · exact .noBytes (alloc_noBytes hs ha) rfl
  · exact .holds (alloc_queues hm hs ha)

theorem Runs.step_good {op : FifoOp} (h : Runs cap b q) (hv : op.Valid)
    (hp : (fifoCall op).Defined b ∧ Counted (b, q) op) :
    (fifoCall op).Defined b ∧ (machine.step b op).2 = ((fifo cap).step q op).2 ∧
      Runs cap (machine.step b op).1 ((fifo cap).step q op).1 := by
  obtain ⟨hd, hc⟩ := hp
  cases h with
  | holds h =>
    obtain ⟨ho, hq⟩ := step_counted h hv hc
    exact ⟨hd, ho, .holds hq⟩
  | noBytes h hq =>
    subst hq
    cases op with
    | write buf len => exact absurd hd (h.not_defined_write _ len)
    | read buf len =>
      refine ⟨hd, ?_, ?_⟩
      · simp only [machine, fifo, h.readBuffer, Option.getD_some]
      · simp only [machine, fifo, h.readBuffer]
        exact .noBytes h rfl

theorem Runs.step_bad {op : FifoOp} (h : Runs cap b q) (hv : op.Valid)
    (hp : ¬ ((fifoCall op).Defined b ∧ Counted (b, q) op)) :
    ¬ ((fifoCall op).Defined b ∧ (machine.step b op).2 = ((fifo cap).step q op).2) := by
  rintro ⟨hd, ho⟩
  cases h with
  | holds h => exact step_miscounted h hv (fun hc => hp ⟨hd, hc⟩) ho
  | noBytes h hq =>
    subst hq
    cases op with
    | write buf len => exact h.not_defined_write _ len hd
    | read buf len => exact hp ⟨hd, fun hc => absurd hc.2 (by simp)⟩

/-- Every run of `write_buffer` and `read_buffer` after one `alloc(size)` is
defined and gives what the bounded queue of messages gives, if and only if none
of its calls divides by zero, which only those after `alloc(UINT64_MAX)` may do, or
is miscounted. -/
theorem streamBuffer_outputs_iff {malloc : Nat → Option (List Byte)} (hm : Malloc malloc) (size : UInt64)
    (ha : (alloc malloc new size).1 = 0) (ops : List FifoOp) (hv : ∀ op ∈ ops, op.Valid) :
    machine.Along (fun b op => (fifoCall op).Defined b) (alloc malloc new size).2 ops ∧
        machine.outputs (alloc malloc new size).2 ops = (fifo size.toNat).outputs [] ops ↔
      (machine.prod (fifo size.toNat)).Along (fun s op => (fifoCall op).Defined s.1 ∧ Counted s op)
        ((alloc malloc new size).2, []) ops :=
  Machine.outputs_eq_iff (fun _ _ _ h hv => h.step_good hv) (fun _ _ _ h hv => h.step_bad hv) ops _ _
    (alloc_runs hm ha) hv

/-- `malloc` on a machine that never runs out of memory. -/
def mallocZeroed (n : Nat) : Option (List Byte) := if n ≤ 2 ^ 63 - 1 then some (List.replicate n 0) else none

theorem malloc_mallocZeroed : Malloc mallocZeroed where
  length n d h := by
    simp only [mallocZeroed] at h
    split at h <;> simp at h
    rw [← h, List.length_replicate]
  bound n d h := by
    simp only [mallocZeroed] at h
    split at h <;> simp at h
    assumption

/-- Three messages through a ring of 16 bytes: the frame of the second one ends
with the block, and that of the third one is at its start. -/
theorem streamBuffer_outputs_wrap :
    machine.outputs (alloc mallocZeroed new 16).2
        [.write [1, 2, 3, 4] 4, .read [0, 0, 0, 0] 0, .write [5, 6, 7, 8, 9] 5, .write [] 0,
          .read [0, 0, 0, 0, 0] 0] =
      (fifo 16).outputs []
        [.write [1, 2, 3, 4] 4, .read [0, 0, 0, 0] 0, .write [5, 6, 7, 8, 9] 5, .write [] 0,
          .read [0, 0, 0, 0, 0] 0] :=
  ((streamBuffer_outputs_iff malloc_mallocZeroed 16 (by decide) _ (by decide)).mpr (by decide)).2

/-- In a ring of 8 bytes, an empty message is written and read, and then a
message of one byte, whose frame ends at the end of the block: the read that
follows gives nothing. -/
theorem streamBuffer_keeps_last :
    machine.outputs (alloc mallocZeroed new 8).2 [.write [] 0, .read [] 0, .write [7] 1, .read [0] 0] ≠
      (fifo 8).outputs [] [.write [] 0, .read [] 0, .write [7] 1, .read [0] 0] := by
  decide

end Ydx.StreamBuffer
