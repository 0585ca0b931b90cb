import YdxNet.Impl.SenderDrain
import YdxNet.Proof.StreamFailures

/-!
# How much is read into the array

The length of a message is compared with the ring on its way in and with the ring
on its way out, and never with the array. `Queues` says which messages the ring
holds: a frame that `used()` lets in one byte too long makes it appear empty
(`writeBuffer_over_empty`), and everything else is first in, first out
(`Queues.send`, `Queues.drained`). So a call copies the length of the oldest of
them, and the array is large enough exactly when that message is short enough
(`array_fits_iff`).
-/

namespace Ydx

open Spec

namespace StreamBuffer

variable {b : StreamBuffer} {bs : List Byte}

/-- Behind a frame that ends where the oldest byte lies, the ring appears empty. -/
theorem writeBuffer_over_empty (h : Holds b bs) (buf : List Byte) {len : Int32} (h0 : 0 ≤ len.toInt)
    (hn : b.in_.toNat + (len.toInt.toNat + 4) = b.out_.toNat) :
    (b.writeBuffer (some buf) len).2.size_ = b.size_ ∧ Holds (b.writeBuffer (some buf) len).2 [] := by
  have hb := h.inBlock
  have hs := h.size; have ho := h.out
  have hu := hb.unused
  rw [if_pos (by omega)] at hu
  have hb' : InBlock (b.writeBuffer (some buf) len).2 := hb.apply (.writeBuffer (some buf) len)
  have hl := sizeT_of_nonneg h0
  have h₁ := toNat_advance hs h.in_le (n := sizeofInt) (by rw [toNat_sizeofInt]; omega)
  rw [toNat_sizeofInt, Nat.mod_eq_of_lt (by omega)] at h₁
  have h₂ := toNat_advance hs (o := (b.in_ + sizeofInt) % (b.size_ + 1)) (n := sizeT len) (by omega) (by omega)
  rw [h₁, hl, Nat.mod_eq_of_lt (by omega)] at h₂
  have e := writeBuffer_whole hb buf h0 (by omega)
  have hsize : (b.writeBuffer (some buf) len).2.size_ = b.size_ := by rw [e]; rfl
  have hout : (b.writeBuffer (some buf) len).2.in_ = (b.writeBuffer (some buf) len).2.out_ := by
    rw [e, ← UInt64.toNat_inj]
    show (((b.in_ + sizeofInt) % (b.size_ + 1) + sizeT len) % (b.size_ + 1)).toNat = b.out_.toNat
    omega
  refine ⟨hsize, hb'.size, hb'.out_le, Nat.zero_le _, ?_, ?_⟩
  · rw [hout, List.length_nil, Nat.add_zero, Nat.mod_eq_of_lt (Nat.lt_succ_of_le hb'.out_le)]
  · obtain ⟨d, hd, hl⟩ := hb'.block.resolve_left fun hz => by
      rw [hsize, ← UInt64.toNat_inj] at hz
      rw [show (0 : UInt64).toNat = 0 from rfl] at hz
      omega
    exact ⟨d, hd, hl, RingBuf.window_zero ..⟩

end StreamBuffer

namespace SenderDrain

open StreamBuffer

/-- A call of either side. -/
inductive Op
  | send (buf : List Byte) (len : Int32)
  | read
  deriving DecidableEq, Repr

/-- The calls of `send` that a caller may make: the bytes lie at `buf`. -/
def Op.Valid : Op → Prop
  | .send buf len => 0 ≤ len.toInt ∧ len.toInt.toNat ≤ buf.length
  | .read => True

/-- The calls one after another, and beside them the messages that lie in the
ring. -/
def machine : Machine (SenderDrain × List Message) Op Unit where
  step
    | (s, q), .send buf len =>
      let r := s.send buf len
      ((r.2, if r.1 = false then q else if Counted (s.stream_buffer_, q) (.write buf len) then
        q ++ [buf.take len.toInt.toNat] else []), ())
    | (s, q), .read => ((s.drained, if s.read.ret then q.tail else q), ())

/-- The call copies no more than the array holds. -/
def ArrayFits (s : SenderDrain × List Message) (op : Op) : Prop := op = .read → s.1.copied ≤ arraySize

/-- The message that the call gives, if it gives one, is no longer than the
array. -/
def NextShort (s : SenderDrain × List Message) (op : Op) : Prop :=
  ∀ m q, op = .read → s.2 = m :: q → (s.1.stream_buffer_.Wrapped → q ≠ []) → m.length ≤ arraySize

/-- The message, if it is let into the ring, is no longer than the array. -/
def ShortSend (s : SenderDrain × List Message) (op : Op) : Prop :=
  ∀ buf len, op = .send buf len → (s.1.send buf len).1 = true → len.toInt ≤ arraySize

/-- The ring holds the messages `q`. -/
def Good (s : SenderDrain × List Message) : Prop := Queues ringSize.toNat s.1.stream_buffer_ s.2

variable {s : SenderDrain × List Message}

/-- A `send` puts the message behind the others, or makes the ring empty, or
leaves it. -/
theorem Good.send (h : Good s) {buf : List Byte} {len : Int32} (hv : (Op.send buf len).Valid) :
    Good (machine.step s (.send buf len)).1 := by
  obtain ⟨s, q⟩ := s
  obtain ⟨h0, hb⟩ := hv
  have hq : Queues ringSize.toNat s.stream_buffer_ q := h
  by_cases hc : Counted (s.stream_buffer_, q) (.write buf len)
  · have hw : FifoOp.Valid (.write buf len) := ⟨h0, hb⟩
    obtain ⟨he, hq'⟩ := step_counted hq hw hc
    have ht : (buf.take len.toInt.toNat).length = len.toInt.toNat := by
      rw [List.length_take]
      omega
    simp only [StreamBuffer.machine, fifo, ht] at he hq'
    show Queues _ _ _
    simp only [machine, SenderDrain.send, hc, if_true]
    split at he <;> rename_i hn
    · rw [if_pos hn] at hq'
      rw [FifoOut.wrote.inj he, if_neg Bool.noConfusion]
      exact hq'
    · rw [if_neg hn] at hq'
      rw [FifoOut.wrote.inj he, if_pos rfl]
      exact hq'
  · show Queues _ _ _
    have hc' := Decidable.not_not.mp hc
    rw [ends_at_out_iff hq.holds h0] at hc'
    obtain ⟨es, he⟩ := writeBuffer_over_empty hq.holds buf h0 hc'.2
    have ht : (s.stream_buffer_.writeBuffer (some buf) len).1 = true := writeBuffer_over hq.holds h0 hc'.2
    simp only [machine, SenderDrain.send, hc, if_false, ht, reduceCtorEq]
    exact ⟨he, by rw [es, hq.size], fun m hm => absurd hm List.not_mem_nil⟩

/-- A `read_buffer` copies the oldest message, or nothing. -/
theorem Good.read (h : Good s) :
    (∃ m q, s.2 = m :: q ∧ (s.1.stream_buffer_.Wrapped → q ≠ []) ∧ s.1.copied = m.length ∧
      (machine.step s .read).1.2 = q ∧ Good (machine.step s .read).1) ∨
    ((∀ m q, s.2 = m :: q → s.1.stream_buffer_.Wrapped ∧ q = []) ∧ s.1.copied = 0 ∧
      (machine.step s .read).1.2 = s.2 ∧ Good (machine.step s .read).1) := by
  obtain ⟨s, q⟩ := s
  have hq : Queues ringSize.toNat s.stream_buffer_ q := h
  have hnone : s.read = ⟨false, some s.buf, 0, s.stream_buffer_⟩ →
      s.copied = 0 ∧ (machine.step (s, q) .read).1.2 = q ∧ Good (machine.step (s, q) .read).1 := by
    intro e
    simp only [copied, machine, drained, Good, e]
    exact ⟨rfl, rfl, hq⟩
  cases q with
  | nil =>
    refine .inr ⟨fun m q he => (by cases he), ?_⟩
    exact hnone (readBuffer_empty hq.holds (some s.buf) s.nLen)
  | cons m q =>
    by_cases hw : s.stream_buffer_.Wrapped ∧ (m :: q).length = 1
    · have hnil : q = [] := List.length_eq_zero_iff.mp (Nat.succ.inj hw.2)
      subst hnil
      refine .inr ⟨fun m' q' he => ⟨hw.1, (List.cons.inj he).2.symm⟩, ?_⟩
      exact hnone (readBuffer_last (by simpa using hq.holds) (hq.short m List.mem_cons_self) hw.1 _ _)
    · obtain ⟨b', e, hq'⟩ := hq.read hw s.buf s.nLen
      have e : s.read = _ := e
      refine .inl ⟨m, q, rfl, fun hb hnil => hw ⟨hb, by rw [hnil]; rfl⟩, ?_, ?_, ?_⟩
      · simp only [copied, e, if_true]
        exact sizeT_lenInt (hq.short m List.mem_cons_self)
      · simp only [machine, e, if_true, List.tail_cons]
      · simp only [Good, machine, drained, e, if_true, List.tail_cons]
        exact hq'

theorem Good.step (h : Good s) {op : Op} (hv : op.Valid) : Good (machine.step s op).1 := by
  cases op with
  | send buf len => exact h.send hv
  | read => rcases h.read with ⟨m, q, -, -, -, -, hg⟩ | ⟨-, -, -, hg⟩ <;> exact hg

/-- A call copies too much exactly if the message it gives is too long. -/
theorem Good.arrayFits_iff (h : Good s) (op : Op) : ArrayFits s op ↔ NextShort s op := by
  cases op with
  | send buf len => exact iff_of_true (fun he => by cases he) fun m q he => by cases he
  | read =>
    rcases h.read with ⟨m, q, hq, hw, hc, -, -⟩ | ⟨hq, hc, -, -⟩
    · refine ⟨fun hf m' q' _ hq' _ => ?_, fun hn _ => ?_⟩
      · rw [hq] at hq'
        rw [← (List.cons.inj hq').1, ← hc]
        exact hf rfl
      · rw [hc]
        exact hn m q rfl hq hw
    · refine iff_of_true (fun _ => ?_) fun m q _ hm hw => ?_
      · rw [hc]
        exact Nat.zero_le _
      · exact absurd (hq m q hm).2 (hw (hq m q hm).1)

/-- Short messages only are let in, so there are only short ones. -/
theorem Good.short (h : Good s) (hs : ∀ m ∈ s.2, m.length ≤ arraySize) {op : Op} (hv : op.Valid)
    (hss : ShortSend s op) : ∀ m ∈ (machine.step s op).1.2, m.length ≤ arraySize := by
  cases op with
  | send buf len =>
    obtain ⟨s, q⟩ := s
    intro m hm
    simp only [machine] at hm
    split at hm
    · exact hs m hm
    · rename_i hr
      split at hm
      · rcases List.mem_append.mp hm with hm | hm
        · exact hs m hm
        · have hlen : len.toInt ≤ arraySize := hss buf len rfl (by simpa using hr)
          rw [List.mem_singleton.mp hm, List.length_take]
          omega
      · exact absurd hm List.not_mem_nil
  | read =>
    rcases h.read with ⟨m, q, hq, -, -, e, -⟩ | ⟨-, -, e, -⟩
    · rw [e]
      exact fun m' hm' => hs m' (by rw [hq]; exact List.mem_cons_of_mem m hm')
    · rw [e]
      exact hs

/-- Whatever is sent, in any order with the calls of `read_buffer`: none of these
copies more than the array holds exactly if every message that one of them gives
is no longer than the array. If `send` lets only such messages into the ring, it
is so. -/
theorem array_fits_iff {malloc : Nat → Option (List Byte)} (hm : Malloc malloc)
    (ha : (alloc malloc .new ringSize).1 = 0) (buf : List Byte) (ops : List Op) (hv : ∀ op ∈ ops, op.Valid) :
    let s := (start (alloc malloc .new ringSize).2 buf, ([] : List Message))
    (machine.Along ArrayFits s ops ↔ machine.Along NextShort s ops) ∧
      (machine.Along ShortSend s ops → machine.Along ArrayFits s ops) := by
  intro s
  have h : Good s := alloc_queues hm (by decide) ha
  have hvs := Machine.Along.of_forall (M := machine) hv s
  refine ⟨?_, fun hss => ?_⟩
  · exact Machine.along_iff (fun _ op hg _ => hg.arrayFits_iff op) (fun _ _ hg hv _ => hg.step hv) ops s h hvs
  · refine Machine.Along.imp (I := fun s => Good s ∧ ∀ m ∈ s.2, m.length ≤ arraySize) ?_ ops s
      ⟨h, fun m hm => absurd hm List.not_mem_nil⟩ (hvs.and hss)
    intro s op hI hP
    refine ⟨(hI.1.arrayFits_iff op).mpr fun m q _ hq _ => ?_, hI.1.step hP.1, hI.1.short hI.2 hP.1 hP.2⟩
    exact hI.2 m (by rw [hq]; exact List.mem_cons_self)

theorem alloc_ringSize : (alloc mallocZeroed .new ringSize).1 = 0 := by
  have hd : mallocZeroed (ringSize + 1).toNat ≠ none := by
    rw [mallocZeroed, if_pos (by decide)]
    exact Option.some_ne_none _
  simp only [alloc, if_neg hd]

/-- A message of three bytes is sent and read. -/
theorem array_fits_iff_short :
    machine.Along ArrayFits (start (alloc mallocZeroed .new ringSize).2 (List.replicate arraySize 0), [])
      [.send [1, 2, 3] 3, .read] := by
  refine (array_fits_iff malloc_mallocZeroed alloc_ringSize _ _ ?_).2 ⟨?_, ?_, trivial⟩
  · intro op hop
    rcases List.mem_cons.mp hop with rfl | hop
    · exact ⟨by decide, by decide⟩
    · rw [List.mem_singleton.mp hop]
      trivial
  · intro buf len he _
    cases he
    decide
  · intro buf len he
    cases he

/-- The first message that is sent is copied whole, if the ring has room for it. -/
theorem Good.first {s : SenderDrain} (h : Good (s, [])) (ho : s.stream_buffer_.out_ = 0) {buf : List Byte} {len : Int32}
    (hv : (Op.send buf len).Valid) (hn : len.toInt + 4 ≤ ringSize.toNat) :
    (s.send buf len).1 = true ∧ (s.send buf len).2.copied = len.toInt.toNat := by
  obtain ⟨h0, hb⟩ := hv
  have hq₀ : Queues ringSize.toNat s.stream_buffer_ [] := h
  have hu := hq₀.holds.le_unused
  rw [hq₀.size, List.flatMap_nil, List.length_nil] at hu
  have hfit : framesSize [] + (4 + len.toInt.toNat) ≤ ringSize.toNat := by
    show 0 + (4 + len.toInt.toNat) ≤ _
    omega
  obtain ⟨hret, hq⟩ := hq₀.write h0 hb hfit
  have hg : Good ((s.send buf len).2, [buf.take len.toInt.toNat]) := hq
  refine ⟨hret, ?_⟩
  rcases hg.read with ⟨m, q, hm, -, hc, -, -⟩ | ⟨hw, -, -, -⟩
  · rw [hc, ← (List.cons.inj hm).1, List.length_take]
    exact Nat.min_eq_left hb
  · -- nothing has been read, so the offsets have not wrapped
    have hlt : (s.stream_buffer_.writeBuffer (some buf) len).2.in_ <
        (s.stream_buffer_.writeBuffer (some buf) len).2.out_ := (hw _ _ rfl).1
    have eo : (s.stream_buffer_.writeBuffer (some buf) len).2.out_ = s.stream_buffer_.out_ := by
      rw [writeBuffer_whole hq₀.holds.inBlock buf h0 (by omega)]
      rfl
    rw [eo, ho, UInt64.lt_iff_toNat_lt] at hlt
    exact absurd hlt (Nat.not_lt_zero _)

/-- A message of 8193 bytes is let in, and copied to the array. -/
theorem array_overrun :
    let s := start (alloc mallocZeroed .new ringSize).2 (List.replicate arraySize 0)
    let buf := List.replicate 8193 0
    (s.send buf 8193).1 = true ∧ (s.send buf 8193).2.copied = 8193 ∧
      ¬ machine.Along ArrayFits (s, []) [.send buf 8193, .read] := by
  intro s buf
  have h : Good (s, []) := alloc_queues malloc_mallocZeroed (by decide) alloc_ringSize
  have hb : (8193 : Int32).toInt.toNat ≤ buf.length := Nat.le_of_eq (List.length_replicate ..).symm
  have hv : (Op.send buf 8193).Valid := ⟨by decide, hb⟩
  obtain ⟨hret, hc⟩ := h.first rfl hv (by decide)
  refine ⟨hret, hc, fun ha => ?_⟩
  have hle : (s.send buf 8193).2.copied ≤ arraySize := ha.2.1 rfl
  rw [hc] at hle
  exact absurd hle (by decide)

end SenderDrain

end Ydx
