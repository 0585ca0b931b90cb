import YdxNet.Framework.Machine
import YdxNet.Impl.Buffer
import YdxNet.Spec.ByteQueue

/-!
# The byte buffer is a queue of bytes

`Rep b q`: the vector of `b` is some bytes already read, the queue `q`, and
some bytes to be written over. Each operation is described by what it does to
the queue (`retrieve_ok`, `append_ok`, `readFd_ok`, ...), wherever the indices
stand. `buffers_refine_queues` says it of whole runs over any number of
buffers.
-/

namespace Ydx.Buffer

open Spec

/-- The indices are in order and inside the vector. -/
def Good (b : Buffer) : Prop := b.reader_index_ ≤ b.writer_index_ ∧ b.writer_index_ ≤ b.buffer_.length

/-- The readable bytes. -/
def contents (b : Buffer) : List Byte := b.peek.take b.readableBytes

/-- The bytes between the indices of `b` are `q`. -/
def Rep (b : Buffer) (q : List Byte) : Prop :=
  ∃ front back, b.buffer_ = front ++ q ++ back ∧ b.reader_index_ = front.length ∧
    b.writer_index_ = front.length + q.length

variable {b : Buffer} {q : List Byte}

namespace Rep

theorem readableBytes (h : Rep b q) : b.readableBytes = q.length := by
  obtain ⟨front, back, -, hr, hw⟩ := h
  simp only [Buffer.readableBytes]; omega

theorem peek (h : Rep b q) : ∃ back, b.peek = q ++ back ∧ b.beginWrite = back := by
  obtain ⟨front, back, hb, hr, hw⟩ := h
  refine ⟨back, ?_, ?_⟩
  · rw [Buffer.peek, hb, hr, List.append_assoc, List.drop_left]
  · rw [Buffer.beginWrite, hb, hw, ← List.length_append, List.drop_left]

theorem contents_eq (h : Rep b q) : b.contents = q := by
  obtain ⟨back, hp, -⟩ := h.peek
  rw [contents, h.readableBytes, hp, List.take_left]

theorem good (h : Rep b q) : b.Good := by
  obtain ⟨front, back, hb, hr, hw⟩ := h
  have : b.buffer_.length = front.length + q.length + back.length := by rw [hb]; simp only [List.length_append]
  exact ⟨by omega, by omega⟩

end Rep

/-- `Rep` says what `Good` and `contents` say. -/
theorem rep_iff : Rep b q ↔ b.Good ∧ b.contents = q := by
  refine ⟨fun h => ⟨h.good, h.contents_eq⟩, fun ⟨⟨h₁, h₂⟩, hc⟩ => ?_⟩
  refine ⟨b.buffer_.take b.reader_index_, b.buffer_.drop b.writer_index_, ?_, ?_, ?_⟩
  · rw [← hc, contents, Buffer.peek, Buffer.readableBytes, List.append_assoc, ← List.drop_take]
    conv_lhs => rw [← List.take_append_drop b.writer_index_ b.buffer_]
    rw [← List.append_assoc]
    congr 1
    rw [show b.buffer_.take b.reader_index_ = (b.buffer_.take b.writer_index_).take b.reader_index_ by
      rw [List.take_take, Nat.min_eq_left h₁], List.take_append_drop]
  · rw [List.length_take]; omega
  · rw [← hc, contents, Buffer.peek, Buffer.readableBytes, List.length_take, List.length_take, List.length_drop]
    omega

theorem new_ok (n : Nat) : Rep (new n) [] := ⟨[], List.replicate n 0, by simp [new, headSpace], rfl, rfl⟩

/-! ## The operations -/

theorem retrieveAll_ok (b : Buffer) : Rep b.retrieveAll [] := ⟨[], b.buffer_, rfl, rfl, rfl⟩

theorem retrieve_ok (h : Rep b q) (len : Nat) : Rep (b.retrieve len) (q.drop len) := by
  have hl := h.readableBytes
  obtain ⟨front, back, hb, hr, hw⟩ := h
  rw [retrieve, hl]
  split
  · refine ⟨front ++ q.take len, back, ?_, ?_, ?_⟩
    · rw [hb, List.append_assoc front (q.take len), List.take_append_drop]
    · rw [hr, List.length_append, List.length_take]; simp only; omega
    · rw [hw, List.length_append, List.length_take, List.length_drop]; omega
  · rw [List.drop_of_length_le (by omega)]
    exact retrieveAll_ok b

theorem retrieveString_ok (h : Rep b q) {len : Nat} (hl : len ≤ q.length) :
    (b.retrieveString len).1 = q.take len ∧ Rep (b.retrieveString len).2 (q.drop len) := by
  obtain ⟨back, hp, -⟩ := h.peek
  refine ⟨?_, retrieve_ok h len⟩
  rw [retrieveString, hp, List.take_append_of_le_length hl]

theorem hasWritten_ok (h : Rep b q) {len : Nat} (hl : len ≤ b.writeableBytes) :
    Rep (b.hasWritten len) (q ++ b.beginWrite.take len) := by
  obtain ⟨front, back, hb, hr, hw⟩ := h
  have hbw : b.beginWrite = back := by
    rw [Buffer.beginWrite, hb, hw, ← List.length_append, List.drop_left]
  have : b.writeableBytes = back.length := by rw [← hbw, beginWrite, List.length_drop, writeableBytes]
  refine ⟨front, back.drop len, ?_, hr, ?_⟩
  · rw [hasWritten, hbw, hb, List.append_assoc, List.append_assoc, List.append_assoc, List.take_append_drop]
  · rw [hasWritten, hbw, List.length_append, List.length_take]; simp only [hw]; omega

theorem unwrite_ok (h : Rep b q) {len : Nat} (hl : len ≤ q.length) :
    Rep (b.unwrite len) (q.take (q.length - len)) := by
  obtain ⟨front, back, hb, hr, hw⟩ := h
  refine ⟨front, q.drop (q.length - len) ++ back, ?_, hr, ?_⟩
  · rw [unwrite, hb, ← List.append_assoc, List.append_assoc front (q.take _), List.take_append_drop]
  · rw [unwrite, List.length_take]; simp only [hw]; omega

/-- `make_space` keeps the queue, and makes room. -/
theorem makeSpace_ok (h : Rep b q) {len : Nat} (hl : b.writeableBytes < len) :
    Rep (b.makeSpace len) q ∧ len ≤ (b.makeSpace len).writeableBytes := by
  have hlq := h.readableBytes
  obtain ⟨tail, hp, -⟩ := h.peek
  obtain ⟨front, back, hb, hr, hw⟩ := h
  have hL : b.buffer_.length = front.length + q.length + back.length := by rw [hb]; simp only [List.length_append]
  simp only [writeableBytes] at hl
  rw [makeSpace]
  simp only [writeableBytes, prependBytes, headSpace, Nat.add_zero, Nat.zero_add, hlq]
  split
  · refine ⟨⟨front, back ++ List.replicate (b.writer_index_ + len - b.buffer_.length) 0, ?_, hr, hw⟩, ?_⟩
    · rw [resize, List.take_of_length_le (by omega), hb]
      simp only [List.append_assoc]
    · simp only [resize, List.length_append, List.length_take, List.length_replicate]; omega
  · rw [hp, List.take_left, memcpy_of_le (by omega), List.take_zero, List.nil_append, Nat.zero_add]
    refine ⟨⟨[], b.buffer_.drop q.length, rfl, rfl, by simp⟩, ?_⟩
    simp only [List.length_append, List.length_drop]; omega

theorem ensureWriteableBytes_ok (h : Rep b q) (len : Nat) :
    Rep (b.ensureWriteableBytes len) q ∧ len ≤ (b.ensureWriteableBytes len).writeableBytes := by
  rw [ensureWriteableBytes]
  split
  · rename_i hl; exact makeSpace_ok h hl
  · exact ⟨h, by omega⟩

/-- Bytes written behind the queue and counted in. -/
theorem write_ok (h : Rep b q) {bytes : List Byte} (hl : bytes.length ≤ b.writeableBytes) :
    Rep ({ b with buffer_ := memcpy b.buffer_ b.writer_index_ bytes }.hasWritten bytes.length) (q ++ bytes) := by
  obtain ⟨front, back, hb, hr, hw⟩ := h
  have hL : b.buffer_.length = front.length + q.length + back.length := by rw [hb]; simp only [List.length_append]
  simp only [writeableBytes] at hl
  refine ⟨front, back.drop bytes.length, ?_, hr, ?_⟩
  · rw [hasWritten, memcpy_of_le (by omega)]
    simp only
    rw [hb, hw, ← List.length_append, List.take_left, ← List.drop_drop, List.drop_left]
    simp only [List.append_assoc]
  · simp only [hasWritten, hw, List.length_append]; omega

theorem append_ok (h : Rep b q) {data : List Byte} {len : Nat} (hl : len ≤ data.length) :
    Rep (b.append data len) (q ++ data.take len) := by
  have ht : (data.take len).length = len := by rw [List.length_take]; omega
  obtain ⟨h₁, hw⟩ := ensureWriteableBytes_ok h len
  have h₂ := write_ok h₁ (by rw [ht]; exact hw : (data.take len).length ≤ _)
  rw [ht] at h₂
  exact h₂

/-- `shrink` keeps the queue as long as its length fits an `int`. -/
theorem shrink_ok (h : Rep b q) (reserve : Nat) (hl : q.length < 2 ^ 31) : Rep (b.shrink reserve) q := by
  obtain ⟨back, hp, -⟩ := h.peek
  have h₁ := (ensureWriteableBytes_ok (new_ok initSpace) (b.readableBytes + reserve)).1
  simp only [shrink, swap, appendPiece, toStringPiece, hp, h.readableBytes, sizeT_lenInt hl] at h₁ ⊢
  have h₂ := append_ok h₁ (by simp : q.length ≤ (q ++ back).length)
  rwa [List.nil_append, List.take_left] at h₂

/-- `read_fd` puts the bytes that `readv` delivered behind the queue, whether
they fit the vector or not. -/
theorem readFd_ok (h : Rep b q) (bytes : List Byte) :
    Rep (b.readFd (.ok bytes)).2.2 (q ++ bytes) := by
  simp only [readFd]
  split
  · rename_i hl
    rw [List.take_of_length_le hl]
    exact write_ok h hl
  · rename_i hl
    have ht : (bytes.take b.writeableBytes).length = b.writeableBytes := by rw [List.length_take]; omega
    have hg := h.good
    have h₁ := write_ok h (Nat.le_of_eq ht)
    rw [ht, hasWritten] at h₁
    simp only [show b.writer_index_ + b.writeableBytes = b.buffer_.length by
      rw [writeableBytes]; have := hg.2; omega] at h₁
    have hd : (bytes.drop b.writeableBytes).length = bytes.length - b.writeableBytes := List.length_drop ..
    have h₂ := append_ok h₁ (Nat.le_of_eq hd.symm)
    rw [List.take_of_length_le (Nat.le_of_eq hd), List.append_assoc, List.take_append_drop] at h₂
    simp only [length_memcpy]
    exact h₂

/-- `read_fd` returns how many bytes `readv` delivered. -/
theorem readFd_count (b : Buffer) (bytes : List Byte) : (b.readFd (.ok bytes)).1 = bytes.length := by
  unfold readFd
  dsimp only
  split <;> rfl

/-! ## Runs -/

/-- A call on a buffer. -/
inductive Op
  | append (data : List Byte) (len : Nat)
  | retrieve (len : Nat)
  | retrieveAll
  | retrieveString (len : Nat)
  | hasWritten (len : Nat)
  | unwrite (len : Nat)
  | ensureWriteableBytes (len : Nat)
  | shrink (reserve : Nat)
  | readFd (result : ReadvResult)
  deriving DecidableEq, Repr

/-- The buffer after a call. -/
def Op.apply (b : Buffer) : Op → Buffer
  | .append data len => b.append data len
  | .retrieve len => b.retrieve len
  | .retrieveAll => b.retrieveAll
  | .retrieveString len => (b.retrieveString len).2
  | .hasWritten len => b.hasWritten len
  | .unwrite len => b.unwrite len
  | .ensureWriteableBytes len => b.ensureWriteableBytes len
  | .shrink reserve => b.shrink reserve
  | .readFd result => (b.readFd result).2.2

/-- What a call means to the queue: `has_written` puts in what lies behind
it, `read_fd` what `readv` delivered. -/
def Op.meaning (b : Buffer) : Op → QueueOp
  | .append data len => .push (data.take len)
  | .retrieve len => .pop len
  | .retrieveAll => .clear
  | .retrieveString len => .pop len
  | .hasWritten len => .push (b.beginWrite.take len)
  | .unwrite len => .unpush len
  | .ensureWriteableBytes _ => .keep
  | .shrink _ => .keep
  | .readFd (.ok bytes) => .push bytes
  | .readFd (.error _) => .keep

/-- The calls a caller may make of `b`. -/
def Op.Allowed (b : Buffer) : Op → Prop
  | .append data len => len ≤ data.length
  | .retrieveString len => len ≤ b.readableBytes
  | .hasWritten len => len ≤ b.writeableBytes
  | .unwrite len => len ≤ b.readableBytes
  | .shrink _ => b.readableBytes < 2 ^ 31
  | .readFd (.ok bytes) => bytes.length ≤ b.readvCapacity
  | _ => True

instance (b : Buffer) : ∀ op : Op, Decidable (op.Allowed b)
  | .append data len => inferInstanceAs (Decidable (len ≤ data.length))
  | .retrieveString len | .unwrite len => inferInstanceAs (Decidable (len ≤ b.readableBytes))
  | .hasWritten len => inferInstanceAs (Decidable (len ≤ b.writeableBytes))
  | .shrink _ => inferInstanceAs (Decidable (b.readableBytes < 2 ^ 31))
  | .readFd (.ok bytes) => inferInstanceAs (Decidable (bytes.length ≤ b.readvCapacity))
  | .readFd (.error _) | .retrieve _ | .retrieveAll | .ensureWriteableBytes _ => .isTrue trivial

theorem Op.apply_ok (h : Rep b q) {op : Op} (ha : op.Allowed b) :
    Rep (op.apply b) (queueStep q (op.meaning b)) := by
  have hl := h.readableBytes
  have hpop : ∀ len, q.drop (min len q.length) = q.drop len := fun len => by
    rcases Nat.le_total len q.length with hle | hle
    · rw [Nat.min_eq_left hle]
    · rw [Nat.min_eq_right hle, List.drop_of_length_le (Nat.le_refl _), List.drop_of_length_le hle]
  cases op with
  | append data len => exact append_ok h ha
  | retrieve len => simp only [meaning, queueStep, hpop]; exact retrieve_ok h len
  | retrieveAll => exact retrieveAll_ok b
  | retrieveString len => simp only [meaning, queueStep, hpop]; exact retrieve_ok h len
  | hasWritten len => exact hasWritten_ok h ha
  | unwrite len => exact unwrite_ok h (hl ▸ ha)
  | ensureWriteableBytes len => exact (ensureWriteableBytes_ok h len).1
  | shrink reserve => exact shrink_ok h reserve (hl ▸ ha)
  | readFd result =>
    cases result with
    | error errno => exact h
    | ok bytes => exact readFd_ok h bytes

/-- A call on one of many buffers, or a swap of two of them. -/
inductive PoolOp (ι : Type)
  | on (i : ι) (op : Op)
  | swap (i j : ι)
  deriving DecidableEq, Repr

/-- Many buffers, and beside them the queues they stand for. -/
def pool (ι : Type) [DecidableEq ι] : Machine ((ι → Buffer) × (ι → List Byte)) (PoolOp ι) Unit where
  step
    | (bs, qs), .on i op =>
      ((Function.update bs i (op.apply (bs i)), Function.update qs i (queueStep (qs i) (op.meaning (bs i)))), ())
    | (bs, qs), .swap i j =>
      let r := (bs i).swap (bs j)
      ((Function.update (Function.update bs i r.1) j r.2, Function.update (Function.update qs i (qs j)) j (qs i)), ())

/-- The calls a caller may make of many buffers. -/
def PoolOp.Allowed {ι : Type} (s : (ι → Buffer) × (ι → List Byte)) : PoolOp ι → Prop
  | .on i op => op.Allowed (s.1 i)
  | .swap _ _ => True

instance {ι : Type} (s : (ι → Buffer) × (ι → List Byte)) : ∀ op : PoolOp ι, Decidable (op.Allowed s)
  | .on i op => inferInstanceAs (Decidable (op.Allowed (s.1 i)))
  | .swap _ _ => .isTrue trivial

theorem pool_step_ok {ι : Type} [DecidableEq ι] {s : (ι → Buffer) × (ι → List Byte)} {op : PoolOp ι}
    (h : ∀ i, Rep (s.1 i) (s.2 i)) (ha : op.Allowed s) (k : ι) :
    Rep (((pool ι).step s op).1.1 k) (((pool ι).step s op).1.2 k) := by
  cases op with
  | on i op =>
    simp only [pool, Function.update_apply]
    split
    · rename_i e; subst e; exact Op.apply_ok (h _) ha
    · exact h k
  | swap i j =>
    simp only [pool, swap, Function.update_apply]
    split
    · exact h i
    · split
      · exact h j
      · exact h k

/-- In every run over any number of buffers of any initial sizes, the indices
of each buffer stay in order and inside its vector, its readable bytes are
those of its queue, `ensure_writeable_bytes` leaves the room asked for, and
`retrieve_string` gives the front of the queue. -/
theorem buffers_refine_queues {ι : Type} [DecidableEq ι] (sizes : ι → Nat) (ops : List (PoolOp ι))
    (h : (pool ι).Along PoolOp.Allowed (fun i => new (sizes i), fun _ => []) ops) (i : ι) :
    let s := (pool ι).final (fun i => new (sizes i), fun _ => []) ops
    (s.1 i).Good ∧ (s.1 i).contents = s.2 i ∧
      (∀ len, len ≤ ((s.1 i).ensureWriteableBytes len).writeableBytes) ∧
      (∀ len ≤ (s.1 i).readableBytes, ((s.1 i).retrieveString len).1 = (s.2 i).take len) := by
  intro s
  have hr : Rep (s.1 i) (s.2 i) :=
    Machine.invariant (I := fun s => ∀ i, Rep (s.1 i) (s.2 i)) (fun _ _ hs ha => pool_step_ok hs ha) ops _
      (fun i => new_ok (sizes i)) h i
  refine ⟨hr.good, hr.contents_eq, fun len => (ensureWriteableBytes_ok hr len).2, fun len hl => ?_⟩
  exact (retrieveString_ok hr (hr.readableBytes ▸ hl)).1

/-- A run over two buffers in which `make_space` slides the bytes, `read_fd`
spills into its second vector, and the buffers are swapped. -/
theorem buffers_refine_queues_slide_spill :
    let ops : List (PoolOp Bool) := [.on true (.append [1, 2, 3, 4] 4), .on true (.retrieve 3),
      .on true (.append [5, 6] 2), .on true (.readFd (.ok [7, 8, 9])), .on true (.unwrite 1), .swap true false]
    let s := (pool Bool).final (fun _ => new 4, fun _ => []) ops
    s.2 false = [4, 5, 6, 7, 8] ∧ (s.1 false).contents = s.2 false ∧ (s.1 false).Good :=
  have h := buffers_refine_queues (fun _ => 4)
    [.on true (.append [1, 2, 3, 4] 4), .on true (.retrieve 3), .on true (.append [5, 6] 2),
      .on true (.readFd (.ok [7, 8, 9])), .on true (.unwrite 1), .swap true false]
    (by decide) false
  ⟨by decide, h.2.1, h.1⟩

end Ydx.Buffer
