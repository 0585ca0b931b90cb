import YdxNet.Impl.StreamThreads
import YdxNet.Proof.StreamFifo

/-!
# The ring between two threads

With one thread that writes and one that reads, the ring needs no mutex as long as memory is
the same for both: whatever steps of the one fall between those of the other, the messages
read are those written, in their order, and the threads never touch the same cell of the
block (`two_threads_ok`). The writer copies behind the bytes that the offsets show (`ahead`),
and the count that the reader has made can only grow until it moves `out_` itself. The count
of `used()` is trusted only where `Counted` allows it.
-/

namespace Ydx

open Spec

namespace StreamBuffer

open RingBuf

variable {b : StreamBuffer} {bs : List Byte}

/-! ## A byte at a time -/

/-- The ring with `in_` moved by `i`. -/
def ahead (b : StreamBuffer) (i : Nat) : StreamBuffer :=
  { b with in_ := (b.in_ + UInt64.ofNat i) % (b.size_ + 1) }

theorem ahead_zero (h : Holds b bs) : b.ahead 0 = b := by
  have hs := h.size
  have hi := h.in_le
  have he : (b.in_ + UInt64.ofNat 0) % (b.size_ + 1) = b.in_ := by
    have h0 : (UInt64.ofNat 0).toNat = 0 := rfl
    rw [← UInt64.toNat_inj, toNat_advance hs hi (by omega), h0]
    exact Nat.mod_eq_of_lt (by omega)
  rw [ahead, he]

/-- `in_` as it is stored behind the last byte. -/
theorem ahead_toNat (b : StreamBuffer) (len : UInt64) :
    b.ahead len.toNat = { b with in_ := (b.in_ + len) % (b.size_ + 1) } := by
  rw [ahead, UInt64.ofNat_toNat]

/-- What the offsets show is there, whatever lies behind it. -/
theorem Holds.shorten {more : List Byte} {k : Nat} (h : Holds (b.ahead k) (bs ++ more))
    (hin : b.in_.toNat = (b.out_.toNat + bs.length) % (b.size_.toNat + 1)) : Holds b bs := by
  obtain ⟨d, hd, hl, hw⟩ := h.data
  have hfits := h.fits
  rw [List.length_append] at hfits hw
  refine ⟨h.size, h.out, Nat.le_trans (Nat.le_add_right _ _) hfits, hin, d, hd, hl, ?_⟩
  have hadd : window d b.out_.toNat (bs.length + more.length) =
      window d b.out_.toNat bs.length ++ window d (b.out_.toNat + bs.length) more.length := by
    apply window_add
    have hsize : (b.ahead k).size_.toNat = b.size_.toNat := rfl
    omega
  have hw' : window d b.out_.toNat (bs.length + more.length) = bs ++ more := hw
  rw [hadd] at hw'
  exact (List.append_inj hw' (length_window (by
    have hsize : (b.ahead k).size_.toNat = b.size_.toNat := rfl
    omega))).1

/-- Byte `i` goes behind the bytes before it, through the two parts of `copy_in`. -/
theorem cellIn_eq (h : Holds b bs) {len : UInt64} {i : Nat} (hi : i < len.toNat)
    (hn : bs.length + len.toNat ≤ b.size_.toNat) :
    b.cellIn len i = (b.out_.toNat + (bs.length + i)) % (b.size_.toNat + 1) := by
  have hin := h.in_le
  have heq : (b.out_.toNat + (bs.length + i)) % (b.size_.toNat + 1) = (b.in_.toNat + i) % (b.size_.toNat + 1) := by
    rw [h.in_eq, Nat.mod_add_mod, Nat.add_assoc]
  rw [heq, cellIn, toNat_MIN, toNat_size_succ h.size _ hin]
  split
  · rw [Nat.mod_eq_of_lt (by omega)]
  · rw [Nat.mod_eq_sub_mod (by omega), Nat.mod_eq_of_lt (by omega)]
    omega

/-- The same of `copy_out`. -/
theorem cellOut_eq (h : Holds b bs) {len : UInt64} {i : Nat} (hi : i < len.toNat) (hn : len.toNat ≤ bs.length) :
    b.cellOut len i = (b.out_.toNat + i) % (b.size_.toNat + 1) := by
  have hout := h.out
  have hfits := h.fits
  rw [cellOut, toNat_MIN, toNat_size_succ h.size _ hout]
  split
  · rw [Nat.mod_eq_of_lt (by omega)]
  · rw [Nat.mod_eq_sub_mod (by omega), Nat.mod_eq_of_lt (by omega)]
    omega

/-- A byte is copied in. -/
theorem Holds.putByte (h : Holds b bs) {data : List Byte} {len : UInt64} {i : Nat} (hlen : len.toNat ≤ data.length)
    (hi : i < len.toNat) (hn : bs.length + len.toNat ≤ b.size_.toNat)
    (ha : Holds (b.ahead i) (bs ++ data.take i)) :
    Holds (b.putByte data len i) bs ∧ Holds ((b.putByte data len i).ahead (i + 1)) (bs ++ data.take (i + 1)) := by
  obtain ⟨d, hd, hl, hw⟩ := ha.data
  have hd' : b.data_ = some d := hd
  have hl' : d.length = b.size_.toNat + 1 := hl
  have htake : (data.take i).length = i := by
    rw [List.length_take]
    omega
  have hone : data.take (i + 1) = data.take i ++ [data.getD i 0] := by
    rw [List.take_add_one, List.getD_eq_getElem?_getD, List.getElem?_eq_getElem (by omega), Option.toList_some,
      Option.getD_some]
  have hsize := h.size
  have hin := h.in_le
  have hout := h.out
  have hnext : Holds ((b.putByte data len i).ahead (i + 1)) (bs ++ data.take (i + 1)) := by
    refine ⟨h.size, h.out, ?_, ?_, d.set (b.cellIn len i) (data.getD i 0), ?_, ?_, ?_⟩
    · rw [hone, List.length_append, List.length_append, htake, List.length_singleton]
      show bs.length + (i + 1) ≤ b.size_.toNat
      omega
    · have hk : (UInt64.ofNat (i + 1)).toNat = i + 1 := UInt64.toNat_ofNat_of_lt' (by
        show i + 1 < 2 ^ 64
        omega)
      show ((b.in_ + UInt64.ofNat (i + 1)) % (b.size_ + 1)).toNat = _
      rw [toNat_advance hsize hin (by omega), hk, h.in_eq, Nat.mod_add_mod, Nat.add_assoc, hone, List.length_append,
        List.length_append, htake, List.length_singleton]
      rfl
    · show b.data_.map _ = _
      rw [hd', Option.map_some]
    · rw [List.length_set]
      exact hl
    · have hset := window_set (show b.out_.toNat < d.length by omega) (show bs.length + i < d.length by omega)
        (data.getD i 0)
      have hw' : window d b.out_.toNat (bs.length + i) = bs ++ data.take i := by
        rw [List.length_append, htake] at hw
        exact hw
      rw [hl', ← cellIn_eq h hi hn, hw'] at hset
      rw [hone, ← List.append_assoc]
      simp only [List.length_append, htake, List.length_singleton]
      exact hset
  exact ⟨hnext.shorten h.in_eq, hnext⟩

/-- A byte is copied out. -/
theorem getByte_eq (h : Holds b bs) (buf : List Byte) {len : UInt64} {i : Nat} (hi : i < len.toNat)
    (hn : len.toNat ≤ bs.length) : b.getByte buf len i = buf.set i (bs.getD i 0) := by
  obtain ⟨d, hd, hl, hw⟩ := h.data
  have hfits := h.fits
  have hcell : (window d b.out_.toNat bs.length)[i]? = d[(b.out_.toNat + i) % d.length]? :=
    window_getElem? (by omega) (by omega)
  rw [getByte, cellOut_eq h hi hn, hd, Option.getD_some, List.getD_eq_getElem?_getD, List.getD_eq_getElem?_getD, ← hl,
    ← hcell, hw]

/-- Bytes that are put in are counted, or at least none less. -/
theorem used_le_ahead (h : Holds b bs) {more : List Byte} (h' : Holds (b.ahead more.length) (bs ++ more)) :
    b.used.toNat ≤ (b.ahead more.length).used.toNat := by
  cases more with
  | nil => rw [List.length_nil, ahead_zero h]
  | cons x more =>
    have hle := h.used_le
    have hused := h'.used
    have hl : (bs ++ x :: more).length = bs.length + (more.length + 1) := by
      rw [List.length_append, List.length_cons]
    split at hused
    · omega
    · omega

end StreamBuffer

namespace StreamThreads

open StreamBuffer

variable {s : StreamThreads} {b b' : StreamBuffer} {bs bs' : List Byte} {cap : Nat} {queue queue' : List Message}

/-! ## The invariant -/

/-- The bytes of the write in hand that `in_` does not show yet. -/
def unwritten : WriterPc → List Byte
  | .payload buf len _ _ => (buf.getD []).take len.toInt.toNat
  | _ => []

/-- Its message, once its length is stored. -/
def inHand : WriterPc → List Message
  | .payload buf len _ _ => [(buf.getD []).take len.toInt.toNat]
  | _ => []

/-- The bytes of the messages `queue` that the reader has not passed over. -/
def unread : ReaderPc → List Message → List Byte
  | .payload .., m :: queue => m ++ queue.flatMap frame
  | _, queue => queue.flatMap frame

/-- How many of the `n` bytes at `data` lie behind the bytes `bs` of the ring. -/
def CopiedIn (b : StreamBuffer) (bs data : List Byte) (n : Nat) : CopyPc → Prop
  | .testing => True
  | .copying i => i ≤ n ∧ Holds (b.ahead i) (bs ++ data.take i)

/-- There is room for what the writer is about to copy. -/
def WriterOk (b : StreamBuffer) (bs : List Byte) : WriterPc → Prop
  | .idle => True
  | .header buf len pc => ∃ data, buf = some data ∧ 0 ≤ len.toInt ∧ len.toInt.toNat ≤ data.length ∧
      bs.length + (4 + len.toInt.toNat) ≤ b.size_.toNat ∧ CopiedIn b bs (int32Bytes len) 4 pc
  | .payload buf len inb pc => ∃ data, buf = some data ∧ 0 ≤ len.toInt ∧ len.toInt.toNat ≤ data.length ∧
      bs.length + len.toInt.toNat ≤ b.size_.toNat ∧ inb = sizeofInt ∧ CopiedIn b bs data len.toInt.toNat pc

/-- How much of the message `m` has been copied to `mem`. -/
def CopiedOut (mem : List Byte) (m : Message) : CopyPc → Prop
  | .testing => True
  | .copying i => i ≤ m.length ∧ m.length ≤ mem.length ∧ mem.take i = m.take i

/-- What the reader has counted is there. -/
def ReaderOk (b : StreamBuffer) (bs : List Byte) (queue : List Message) : ReaderPc → Prop
  | .idle => True
  | .peeking buf len i => buf ≠ none ∧ 4 ≤ bs.length ∧ len.length = 4 ∧ i ≤ 4 ∧ len.take i = bs.take i
  | .testing buf len => buf ≠ none ∧ ∃ m q, queue = m :: q ∧ len = lenInt m.length
  | .skipping buf len | .skipped buf len =>
      buf ≠ none ∧ ∃ m q, queue = m :: q ∧ len = lenInt m.length ∧ m.length + 4 ≤ b.used.toNat
  | .payload buf len outb pc => ∃ mem m q, buf = some mem ∧ queue = m :: q ∧ len = lenInt m.length ∧
      outb = sizeofInt ∧ m.length ≤ b.used.toNat ∧ CopiedOut mem m pc

/-- What holds between two steps: the ring shows the bytes `bs`, and `queue` are the messages that
are not yet received, the one in hand included. -/
structure Inv (cap : Nat) (s : StreamThreads) (bs : List Byte) (queue : List Message) : Prop where
  size : s.ring.size_.toNat = cap
  holds : Holds s.ring bs
  short : ∀ m ∈ queue, m.length < 2 ^ 31
  bytes : bs ++ unwritten s.writer = unread s.reader queue
  order : s.written ++ inHand s.writer = s.received ++ queue
  errors : s.errors = 0
  writer : WriterOk s.ring bs s.writer
  reader : ReaderOk s.ring bs queue s.reader

theorem start_inv (h : b.Queues cap []) : Inv cap (start b) [] [] where
  size := h.size
  holds := h.holds
  short := h.short
  bytes := rfl
  order := rfl
  errors := rfl
  writer := trivial
  reader := trivial

/-- The reader does not mind what is put behind. -/
theorem ReaderOk.mono {pc : ReaderPc} (h : ReaderOk b bs queue pc) (hbs : bs <+: bs') (hq : queue <+: queue')
    (hu : b.used.toNat ≤ b'.used.toNat) : ReaderOk b' bs' queue' pc := by
  obtain ⟨more, rfl⟩ := hbs
  obtain ⟨new, rfl⟩ := hq
  cases pc with
  | idle => trivial
  | peeking buf len i =>
    obtain ⟨hbuf, h4, hlen, hi, htake⟩ := h
    refine ⟨hbuf, ?_, hlen, hi, ?_⟩
    · rw [List.length_append]
      omega
    · rw [htake, List.take_append_of_le_length (by omega)]
  | testing buf len =>
    obtain ⟨hbuf, m, q, rfl, hlen⟩ := h
    exact ⟨hbuf, m, q ++ new, rfl, hlen⟩
  | skipping buf len | skipped buf len =>
    obtain ⟨hbuf, m, q, rfl, hlen, hused⟩ := h
    exact ⟨hbuf, m, q ++ new, rfl, hlen, Nat.le_trans hused hu⟩
  | payload buf len outb pc =>
    obtain ⟨mem, m, q, hbuf, rfl, hlen, hout, hused, hpc⟩ := h
    exact ⟨mem, m, q ++ new, hbuf, rfl, hlen, hout, Nat.le_trans hused hu, hpc⟩

/-- A message goes behind the others. -/
theorem unread_concat {pc : ReaderPc} (h : ReaderOk b bs queue pc) (m : Message) :
    unread pc (queue ++ [m]) = unread pc queue ++ frame m := by
  cases pc with
  | payload buf len outb pc =>
    obtain ⟨mem, m', q, -, rfl, -⟩ := h
    simp [unread]
  | _ => simp [unread]

/-- The writer has more room when bytes are passed over. -/
theorem WriterOk.drop {pc : WriterPc} (h : WriterOk b bs pc) {n : UInt64} (hn : n.toNat ≤ bs.length) :
    WriterOk { b with out_ := (b.out_ + n) % (b.size_ + 1) } (bs.drop n.toNat) pc := by
  have hcopied : ∀ {data : List Byte} {k : Nat} {pc : CopyPc}, CopiedIn b bs data k pc →
      CopiedIn { b with out_ := (b.out_ + n) % (b.size_ + 1) } (bs.drop n.toNat) data k pc := by
    intro data k pc hc
    cases pc with
    | testing => trivial
    | copying i =>
      obtain ⟨hi, ha⟩ := hc
      refine ⟨hi, ?_⟩
      have hdrop := ha.drop (n := n) (by
        rw [List.length_append]
        omega)
      rwa [List.drop_append_of_le_length hn] at hdrop
  cases pc with
  | idle => trivial
  | header buf len pc =>
    obtain ⟨data, hbuf, h0, hlen, hroom, hc⟩ := h
    refine ⟨data, hbuf, h0, hlen, ?_, hcopied hc⟩
    rw [List.length_drop]
    exact Nat.le_trans (Nat.add_le_add_right (Nat.sub_le _ _) _) hroom
  | payload buf len inb pc =>
    obtain ⟨data, hbuf, h0, hlen, hroom, hinb, hc⟩ := h
    refine ⟨data, hbuf, h0, hlen, ?_, hinb, hcopied hc⟩
    rw [List.length_drop]
    exact Nat.le_trans (Nat.add_le_add_right (Nat.sub_le _ _) _) hroom

/-! ## The writer -/

/-- The writer moves on, without a store. -/
theorem Inv.moveWriter (h : Inv cap s bs queue) {pc : WriterPc} (hu : unwritten pc = unwritten s.writer)
    (hh : inHand pc = inHand s.writer) (hw : WriterOk s.ring bs pc) : Inv cap { s with writer := pc } bs queue where
  size := h.size
  holds := h.holds
  short := h.short
  bytes := by
    rw [hu]
    exact h.bytes
  order := by
    rw [hh]
    exact h.order
  errors := h.errors
  writer := hw
  reader := h.reader

/-- It copies a byte. -/
theorem Inv.putByte (h : Inv cap s bs queue) {data : List Byte} {len : UInt64} {i : Nat} {pc : WriterPc}
    (hu : unwritten pc = unwritten s.writer) (hh : inHand pc = inHand s.writer)
    (hholds : Holds (s.ring.putByte data len i) bs) (hw : WriterOk (s.ring.putByte data len i) bs pc) :
    Inv cap { s with ring := s.ring.putByte data len i, writer := pc } bs queue where
  size := h.size
  holds := hholds
  short := h.short
  bytes := by
    rw [hu]
    exact h.bytes
  order := by
    rw [hh]
    exact h.order
  errors := h.errors
  writer := hw
  reader := h.reader.mono (List.prefix_refl _) (List.prefix_refl _) (Nat.le_refl _)

theorem Inv.write_header (h : Inv cap s bs queue) {buf : Option (List Byte)} {len : Int32} {pc : CopyPc}
    (hpc : s.writer = .header buf len pc) : ∃ bs' queue', Inv cap s.write bs' queue' := by
  have hw := h.writer
  rw [hpc] at hw
  obtain ⟨data, hbuf, h0, hlen, hroom, hc⟩ := hw
  have hint := Int32.toInt_lt len
  cases pc with
  | testing =>
    have hle := h.holds.le_unused
    refine ⟨bs, queue, ?_⟩
    rw [StreamThreads.write, hpc]
    dsimp only
    rw [if_neg (by rw [sizeofInt_gt_iff]; omega)]
    refine h.moveWriter (by rw [hpc]; rfl) (by rw [hpc]; rfl) ⟨data, hbuf, h0, hlen, hroom, Nat.zero_le _, ?_⟩
    rw [ahead_zero h.holds, List.take_zero, List.append_nil]
    exact h.holds
  | copying i =>
    obtain ⟨hi, ha⟩ := hc
    have hl4 : (int32Bytes len).length = sizeofInt.toNat := rfl
    rw [StreamThreads.write, hpc]
    dsimp only
    by_cases hlt : i < sizeofInt.toNat
    · rw [if_pos hlt]
      obtain ⟨hput, hnext⟩ := h.holds.putByte (Nat.le_of_eq hl4.symm) hlt (by
        rw [toNat_sizeofInt]
        omega) ha
      exact ⟨bs, queue, h.putByte (by rw [hpc]; rfl) (by rw [hpc]; rfl) hput
        ⟨data, hbuf, h0, hlen, hroom, hlt, hnext⟩⟩
    · -- The length is stored: from here on the message belongs to the queue.
      rw [if_neg hlt]
      have hi4 : i = sizeofInt.toNat := Nat.le_antisymm hi (Nat.le_of_not_lt hlt)
      subst hi4
      have htake : (int32Bytes len).take sizeofInt.toNat = int32Bytes len := rfl
      rw [htake] at ha
      have hm : (data.take len.toInt.toNat).length = len.toInt.toNat := by
        rw [List.length_take]
        omega
      have hused : s.ring.used.toNat ≤ (s.ring.ahead (int32Bytes len).length).used.toNat :=
        used_le_ahead h.holds (by rwa [hl4])
      rw [hl4, ahead_toNat] at hused
      rw [ahead_toNat] at ha
      refine ⟨bs ++ int32Bytes len, queue ++ [data.take len.toInt.toNat], ?_⟩
      have hframe : frame (data.take len.toInt.toNat) = int32Bytes len ++ data.take len.toInt.toNat := by
        rw [frame, hm, lenInt_toNat h0]
      have hbytes : bs ++ [] = unread s.reader queue := by
        rw [← h.bytes, hpc]
        rfl
      have horder : s.written ++ [] = s.received ++ queue := by
        rw [← h.order, hpc]
        rfl
      rw [List.append_nil] at hbytes horder
      refine ⟨h.size, ha, fun m hmem => ?_, ?_, ?_, h.errors, ?_, ?_⟩
      · rcases List.mem_append.mp hmem with hmem | hmem
        · exact h.short m hmem
        · rw [List.mem_singleton] at hmem
          subst hmem
          omega
      · show (bs ++ int32Bytes len) ++ (buf.getD []).take len.toInt.toNat = unread s.reader _
        rw [unread_concat h.reader, hframe, ← hbytes, hbuf, Option.getD_some, List.append_assoc]
      · show s.written ++ [(buf.getD []).take len.toInt.toNat] = s.received ++ (queue ++ [_])
        rw [horder, hbuf, Option.getD_some, List.append_assoc]
      · refine ⟨data, hbuf, h0, hlen, ?_, rfl, trivial⟩
        rw [List.length_append, length_int32Bytes]
        show bs.length + 4 + len.toInt.toNat ≤ s.ring.size_.toNat
        omega
      · exact h.reader.mono (List.prefix_append _ _) (List.prefix_append _ _) hused

theorem Inv.write_payload (h : Inv cap s bs queue) {buf : Option (List Byte)} {len : Int32} {inb : UInt64} {pc : CopyPc}
    (hpc : s.writer = .payload buf len inb pc) : ∃ bs' queue', Inv cap s.write bs' queue' := by
  have hw := h.writer
  rw [hpc] at hw
  obtain ⟨data, rfl, h0, hlen, hroom, rfl, hc⟩ := hw
  have hint := Int32.toInt_lt len
  have hsize := sizeT_of_nonneg h0
  cases pc with
  | testing =>
    have hle := h.holds.le_unused
    refine ⟨bs, queue, ?_⟩
    rw [StreamThreads.write, hpc]
    dsimp only
    rw [if_neg (by rw [GT.gt, UInt64.lt_iff_toNat_lt]; omega)]
    refine h.moveWriter (by rw [hpc]; rfl) (by rw [hpc]; rfl) ⟨data, rfl, h0, hlen, hroom, rfl, Nat.zero_le _, ?_⟩
    rw [ahead_zero h.holds, List.take_zero, List.append_nil]
    exact h.holds
  | copying i =>
    obtain ⟨hi, ha⟩ := hc
    rw [StreamThreads.write, hpc]
    dsimp only
    by_cases hlt : i < (sizeT len).toNat
    · rw [if_pos hlt]
      obtain ⟨hput, hnext⟩ := h.holds.putByte (show (sizeT len).toNat ≤ data.length by omega) hlt (by omega) ha
      exact ⟨bs, queue, h.putByte (by rw [hpc]; rfl) (by rw [hpc]; rfl) hput
        ⟨data, rfl, h0, hlen, hroom, rfl, by omega, hnext⟩⟩
    · rw [if_neg hlt]
      have hilen : i = (sizeT len).toNat := by omega
      subst hilen
      have hm : (data.take (sizeT len).toNat).length = (sizeT len).toNat := by
        rw [List.length_take]
        omega
      have hused : s.ring.used.toNat ≤ (s.ring.ahead (sizeT len).toNat).used.toNat := by
        have hle : s.ring.used.toNat ≤ (s.ring.ahead (data.take (sizeT len).toNat).length).used.toNat :=
          used_le_ahead h.holds (by rwa [hm])
        rwa [hm] at hle
      rw [ahead_toNat] at ha hused
      refine ⟨bs ++ data.take (sizeT len).toNat, queue, ?_⟩
      have hbytes := h.bytes
      have horder := h.order
      rw [hpc] at hbytes horder
      rw [wrote, if_neg (by rw [UInt64.add_comm]; simp)]
      refine ⟨h.size, ha, h.short, ?_, ?_, h.errors, trivial, ?_⟩
      · show (bs ++ data.take (sizeT len).toNat) ++ [] = unread s.reader queue
        rw [List.append_nil, ← hbytes, hsize]
        rfl
      · show (s.written ++ [data.take len.toInt.toNat]) ++ [] = s.received ++ queue
        rw [List.append_nil, ← horder]
        rfl
      · exact h.reader.mono (List.prefix_append _ _) (List.prefix_refl _) hused

/-! ## The reader -/

/-- The reader moves on, without a store. -/
theorem Inv.moveReader (h : Inv cap s bs queue) {pc : ReaderPc} (hu : unread pc queue = unread s.reader queue)
    (hr : ReaderOk s.ring bs queue pc) : Inv cap { s with reader := pc } bs queue where
  size := h.size
  holds := h.holds
  short := h.short
  bytes := h.bytes.trans hu.symm
  order := h.order
  errors := h.errors
  writer := h.writer
  reader := hr

theorem take_set_eq {xs ys : List Byte} {i : Nat} (hx : i < xs.length) (hy : i < ys.length) (h : xs.take i = ys.take i) :
    (xs.set i (ys.getD i 0)).take (i + 1) = ys.take (i + 1) := by
  have hlen : i < (xs.set i (ys.getD i 0)).length := by
    rw [List.length_set]
    exact hx
  rw [List.take_add_one, List.take_add_one, List.take_set_of_le (Nat.le_refl i), h, List.getElem?_eq_getElem hlen,
    List.getElem_set_self, List.getD_eq_getElem?_getD, List.getElem?_eq_getElem hy, Option.getD_some]

/-- Four bytes are the length of the oldest message. -/
theorem Inv.head (h : Inv cap s bs queue) (hu : unread s.reader queue = queue.flatMap frame) (h4 : 4 ≤ bs.length) :
    ∃ m q, queue = m :: q ∧ bs.take 4 = int32Bytes (lenInt m.length) := by
  have hbytes := h.bytes.trans hu
  cases queue with
  | nil =>
    have hlen := congrArg List.length hbytes
    rw [List.length_append, List.flatMap_nil, List.length_nil] at hlen
    omega
  | cons m q =>
    refine ⟨m, q, rfl, ?_⟩
    have htake := congrArg (List.take 4) hbytes
    rw [List.take_append_of_le_length h4] at htake
    rw [htake]
    rfl

theorem Inv.read_peeking (h : Inv cap s bs queue) {buf : Option (List Byte)} {len : List Byte} {i : Nat}
    (hpc : s.reader = .peeking buf len i) : Inv cap s.read bs queue := by
  have hr := h.reader
  rw [hpc] at hr
  obtain ⟨hbuf, h4, hlen, hi, htake⟩ := hr
  have hunread : unread s.reader queue = queue.flatMap frame := by
    rw [hpc]
    rfl
  rw [StreamThreads.read, hpc]
  dsimp only
  by_cases hlt : i < sizeofInt.toNat
  · rw [if_pos hlt, getByte_eq h.holds len hlt h4]
    rw [toNat_sizeofInt] at hlt
    refine h.moveReader hunread.symm ⟨hbuf, h4, ?_, hlt, take_set_eq (by omega) (by omega) htake⟩
    rw [List.length_set, hlen]
  · rw [if_neg hlt]
    have hi4 : i = 4 := Nat.le_antisymm hi (Nat.le_of_not_lt hlt)
    subst hi4
    obtain ⟨m, q, rfl, hm⟩ := h.head hunread h4
    rw [List.take_of_length_le (Nat.le_of_eq hlen), hm] at htake
    refine h.moveReader hunread.symm ⟨hbuf, m, q, rfl, ?_⟩
    rw [htake]
    exact int32OfBytes_int32Bytes _ []

theorem Inv.read_testing (h : Inv cap s bs queue) {buf : Option (List Byte)} {len : Int32}
    (hpc : s.reader = .testing buf len) : Inv cap s.read bs queue := by
  have hr := h.reader
  rw [hpc] at hr
  obtain ⟨hbuf, m, q, rfl, rfl⟩ := hr
  have hunread : unread s.reader (m :: q) = (m :: q).flatMap frame := by
    rw [hpc]
    rfl
  rw [StreamThreads.read, hpc]
  dsimp only
  split
  · exact h.moveReader hunread.symm trivial
  · rename_i hle
    rw [totb_le_iff h.holds.inBlock.room.1, toInt_lenInt (h.short m List.mem_cons_self)] at hle
    exact h.moveReader hunread.symm ⟨hbuf, m, q, rfl, rfl, by omega⟩

theorem Inv.read_skipping (h : Inv cap s bs queue) {buf : Option (List Byte)} {len : Int32}
    (hpc : s.reader = .skipping buf len) : Inv cap s.read bs queue := by
  have hr := h.reader
  rw [hpc] at hr
  obtain ⟨hbuf, m, q, rfl, rfl, hused⟩ := hr
  rw [StreamThreads.read, hpc]
  dsimp only
  rw [if_neg (by rw [sizeofInt_gt_iff]; omega)]
  exact h.moveReader (by rw [hpc]; rfl) ⟨hbuf, m, q, rfl, rfl, hused⟩

/-- The length of the oldest message is passed over. -/
theorem Inv.read_skipped (h : Inv cap s bs queue) {buf : Option (List Byte)} {len : Int32}
    (hpc : s.reader = .skipped buf len) : Inv cap s.read (bs.drop 4) queue := by
  have hr := h.reader
  rw [hpc] at hr
  obtain ⟨hbuf, m, q, rfl, rfl, hused⟩ := hr
  have hle := h.holds.used_le
  have h4 : sizeofInt.toNat ≤ bs.length := by
    rw [toNat_sizeofInt]
    omega
  obtain ⟨-, hcount⟩ := used_setOut h.holds.inBlock (by omega)
  obtain ⟨mem, hmem⟩ := Option.ne_none_iff_exists'.mp hbuf
  rw [StreamThreads.read, hpc]
  refine ⟨h.size, h.holds.drop h4, h.short, ?_, h.order, h.errors, h.writer.drop h4,
    ⟨mem, m, q, hmem, rfl, rfl, rfl, ?_, trivial⟩⟩
  · have hdrop : (bs ++ unwritten s.writer).drop sizeofInt.toNat = (frame m ++ q.flatMap frame).drop 4 := by
      rw [h.bytes, hpc]
      rfl
    rw [List.drop_append_of_le_length h4] at hdrop
    exact hdrop
  · exact Nat.le_of_add_le_add_right (Nat.le_trans hused hcount)

theorem Inv.read_payload (h : Inv cap s bs queue) {buf : Option (List Byte)} {len : Int32} {outb : UInt64} {pc : CopyPc}
    (hpc : s.reader = .payload buf len outb pc) (hroom : len.toInt.toNat ≤ (buf.getD []).length) :
    ∃ bs' queue', Inv cap s.read bs' queue' := by
  have hr := h.reader
  rw [hpc] at hr
  obtain ⟨mem, m, q, rfl, rfl, rfl, rfl, hused, hc⟩ := hr
  have hle := h.holds.used_le
  have hint := toInt_lenInt (h.short m List.mem_cons_self)
  have hsize := sizeT_of_nonneg (n := lenInt m.length) (by omega)
  rw [hint, Int.toNat_natCast] at hsize hroom
  rw [Option.getD_some] at hroom
  cases pc with
  | testing =>
    refine ⟨bs, m :: q, ?_⟩
    rw [StreamThreads.read, hpc]
    dsimp only
    rw [if_neg (by rw [GT.gt, UInt64.lt_iff_toNat_lt]; omega)]
    exact h.moveReader (by rw [hpc]; rfl) ⟨mem, m, q, rfl, rfl, rfl, rfl, hused, Nat.zero_le _, hroom, rfl⟩
  | copying i =>
    obtain ⟨hi, -, htake⟩ := hc
    have hbytes : bs ++ unwritten s.writer = m ++ q.flatMap frame := by
      rw [h.bytes, hpc]
      rfl
    rw [StreamThreads.read, hpc]
    dsimp only
    by_cases hlt : i < (sizeT (lenInt m.length)).toNat
    · rw [if_pos hlt, getByte_eq h.holds mem hlt (by omega)]
      have hbyte : bs.getD i 0 = m.getD i 0 := by
        have hget : (bs ++ unwritten s.writer)[i]? = (m ++ q.flatMap frame)[i]? := by rw [hbytes]
        rw [List.getElem?_append_left (by omega), List.getElem?_append_left (by omega)] at hget
        rw [List.getD_eq_getElem?_getD, List.getD_eq_getElem?_getD, hget]
      rw [hbyte]
      refine ⟨bs, m :: q, h.moveReader (by rw [hpc]; rfl)
        ⟨_, m, q, rfl, rfl, rfl, rfl, hused, by omega, ?_, take_set_eq (by omega) (by omega) htake⟩⟩
      rw [List.length_set]
      exact hroom
    · -- The last byte is copied: the message is given out.
      rw [if_neg hlt]
      have hdrop : (sizeT (lenInt m.length)).toNat ≤ bs.length := by omega
      have him : i = m.length := by omega
      subst him
      rw [List.take_length] at htake
      refine ⟨bs.drop (sizeT (lenInt m.length)).toNat, q, ?_⟩
      rw [gave, if_neg (by rw [UInt64.add_comm]; simp)]
      refine ⟨h.size, h.holds.drop hdrop, fun m' hm' => h.short m' (List.mem_cons_of_mem _ hm'), ?_, ?_, h.errors,
        h.writer.drop hdrop, trivial⟩
      · show bs.drop _ ++ unwritten s.writer = q.flatMap frame
        rw [← List.drop_append_of_le_length hdrop, hbytes, hsize, List.drop_left]
      · show s.written ++ inHand s.writer = (s.received ++ [mem.take (lenInt m.length).toInt.toNat]) ++ q
        rw [hint, Int.toNat_natCast, htake, h.order, List.append_assoc]
        rfl

/-! ## Runs -/

/-- The bytes that are written lie at `buf` and are counted right, and the buffer read to has room
for the message. -/
def Undisturbed (s : StreamThreads) : Action → Prop
  | .writeBuffer buf len => s.writer = .idle →
      buf ≠ none ∧ 0 ≤ len.toInt ∧ len.toInt.toNat ≤ (buf.getD []).length ∧ Counted (s.ring, []) (.write [] len)
  | .write => True
  | .readBuffer buf _ => buf ≠ none
  | .read =>
    match s.reader with
    | .payload buf len _ _ => len.toInt.toNat ≤ (buf.getD []).length
    | _ => True

instance (s : StreamThreads) : ∀ a, Decidable (Undisturbed s a)
  | .writeBuffer _ _ => inferInstanceAs (Decidable (_ → _ ∧ _ ∧ _ ∧ _))
  | .write => inferInstanceAs (Decidable True)
  | .readBuffer _ _ => inferInstanceAs (Decidable (_ ≠ _))
  | .read =>
    match h : s.reader with
    | .payload buf len _ _ =>
      decidable_of_iff (len.toInt.toNat ≤ (buf.getD []).length) (by simp [Undisturbed, h])
    | .idle | .peeking .. | .testing .. | .skipping .. | .skipped .. => isTrue (by simp [Undisturbed, h])

theorem Inv.writeBuffer (h : Inv cap s bs queue) {buf : Option (List Byte)} {len : Int32} (hw : s.writer = .idle)
    (hu : Undisturbed s (.writeBuffer buf len)) : Inv cap (s.writeBuffer buf len) bs queue := by
  obtain ⟨hbuf, h0, hlen, hcount⟩ := hu hw
  obtain ⟨data, rfl⟩ := Option.ne_none_iff_exists'.mp hbuf
  unfold StreamThreads.writeBuffer
  dsimp only
  split
  · exact h
  · rename_i hle
    rw [totb_le_iff h.holds.inBlock.room.2] at hle
    rw [Counted, ends_at_out_iff h.holds h0] at hcount
    have hunused := h.holds.unused
    have hroom : bs.length + (4 + len.toInt.toNat) ≤ s.ring.size_.toNat := by
      rcases h.holds.in_cases with ⟨hwrap, -⟩ | ⟨hwrap, hin⟩
      · rw [if_neg hwrap] at hunused
        omega
      · rw [if_pos hwrap] at hunused
        have hne : ¬ s.ring.in_.toNat + (len.toInt.toNat + 4) = s.ring.out_.toNat := fun he => hcount ⟨hwrap, he⟩
        omega
    exact h.moveWriter (by rw [hw]; rfl) (by rw [hw]; rfl) ⟨data, rfl, h0, hlen, hroom, trivial⟩

theorem Inv.readBuffer (h : Inv cap s bs queue) {buf : Option (List Byte)} {len : Int32} (hr : s.reader = .idle)
    (hbuf : buf ≠ none) : Inv cap (s.readBuffer buf len) bs queue := by
  unfold StreamThreads.readBuffer
  split
  · exact h
  · rename_i hle
    rw [sizeofInt_gt_iff, Decidable.not_not] at hle
    have hused := h.holds.used_le
    exact h.moveReader (by rw [hr]; rfl) ⟨hbuf, by omega, rfl, Nat.zero_le _, rfl⟩

theorem Inv.step (h : Inv cap s bs queue) {a : Action} (hu : Undisturbed s a) :
    ∃ bs' queue', Inv cap (s.step a) bs' queue' := by
  cases a with
  | writeBuffer buf len =>
    simp only [StreamThreads.step]
    split
    · rename_i hw
      exact ⟨bs, queue, h.writeBuffer hw hu⟩
    · exact ⟨bs, queue, h⟩
  | write =>
    show ∃ bs' queue', Inv cap s.write bs' queue'
    cases hpc : s.writer with
    | idle =>
      rw [StreamThreads.write, hpc]
      exact ⟨bs, queue, h⟩
    | header buf len pc => exact h.write_header hpc
    | payload buf len inb pc => exact h.write_payload hpc
  | readBuffer buf len =>
    simp only [StreamThreads.step]
    split
    · rename_i hr
      exact ⟨bs, queue, h.readBuffer hr hu⟩
    · exact ⟨bs, queue, h⟩
  | read =>
    show ∃ bs' queue', Inv cap s.read bs' queue'
    cases hpc : s.reader with
    | idle =>
      rw [StreamThreads.read, hpc]
      exact ⟨bs, queue, h⟩
    | peeking buf len i => exact ⟨_, _, h.read_peeking hpc⟩
    | testing buf len => exact ⟨_, _, h.read_testing hpc⟩
    | skipping buf len => exact ⟨_, _, h.read_skipping hpc⟩
    | skipped buf len => exact ⟨_, _, h.read_skipped hpc⟩
    | payload buf len outb pc =>
      rw [Undisturbed, hpc] at hu
      exact h.read_payload hpc hu

/-- The writer stores behind the bytes that the offsets show. -/
theorem Inv.putCell (h : Inv cap s bs queue) {x : Nat} (hx : s.putCell = some x) :
    ∃ k, bs.length ≤ k ∧ k ≤ s.ring.size_.toNat ∧ x = (s.ring.out_.toNat + k) % (s.ring.size_.toNat + 1) := by
  have hw := h.writer
  unfold StreamThreads.putCell at hx
  split at hx
  · rename_i buf len i hpc
    rw [hpc] at hw
    obtain ⟨data, -, -, -, hroom, -⟩ := hw
    split at hx
    · rename_i hi
      rw [toNat_sizeofInt] at hi
      refine ⟨bs.length + i, by omega, by omega, ?_⟩
      rw [← Option.some.inj hx, cellIn_eq h.holds hi (by rw [toNat_sizeofInt]; omega)]
    · cases hx
  · rename_i data len inb i hpc
    rw [hpc] at hw
    obtain ⟨data', -, h0, -, hroom, -⟩ := hw
    have hsize := sizeT_of_nonneg h0
    split at hx
    · rename_i hi
      refine ⟨bs.length + i, by omega, by omega, ?_⟩
      rw [← Option.some.inj hx, cellIn_eq h.holds hi (by omega)]
    · cases hx
  · cases hx

/-- The reader loads one of those bytes. -/
theorem Inv.getCell (h : Inv cap s bs queue) {y : Nat} (hy : s.getCell = some y) :
    ∃ k, k < bs.length ∧ y = (s.ring.out_.toNat + k) % (s.ring.size_.toNat + 1) := by
  have hr := h.reader
  have hle := h.holds.used_le
  unfold StreamThreads.getCell at hy
  split at hy
  · rename_i buf len i hpc
    rw [hpc] at hr
    obtain ⟨-, h4, -⟩ := hr
    split at hy
    · rename_i hi
      refine ⟨i, Nat.lt_of_lt_of_le hi h4, ?_⟩
      rw [← Option.some.inj hy, cellOut_eq h.holds hi h4]
    · cases hy
  · rename_i mem len outb i hpc
    rw [hpc] at hr
    obtain ⟨mem', m, q, -, rfl, rfl, -, hused, -⟩ := hr
    have hint := toInt_lenInt (h.short m List.mem_cons_self)
    have hsize := sizeT_of_nonneg (n := lenInt m.length) (by omega)
    rw [hint, Int.toNat_natCast] at hsize
    split at hy
    · rename_i hi
      refine ⟨i, by omega, ?_⟩
      rw [← Option.some.inj hy, cellOut_eq h.holds hi (by omega)]
    · cases hy
  · cases hy

/-- In every interleaving of the two threads, with writes that are counted right and reads with
room for the message: no call ends with an error, the messages received are the first of those
written, the one in hand last; the threads never touch the same byte of the block; and when
both are outside, the ring is a queue of the messages that are still to be received. -/
theorem two_threads_ok {malloc : Nat → Option (List Byte)} (hm : Malloc malloc) (size : UInt64) (hs : size + 1 ≠ 0)
    (ha : (alloc malloc .new size).1 = 0) (actions : List Action)
    (hu : machine.Along Undisturbed (start (alloc malloc .new size).2) actions) :
    let s := machine.final (start (alloc malloc .new size).2) actions
    s.errors = 0 ∧ s.received <+: s.written ++ inHand s.writer ∧
      (∀ x y, s.putCell = some x → s.getCell = some y → x ≠ y) ∧
      (s.writer = .idle → s.reader = .idle →
        ∃ queue, s.ring.Queues size.toNat queue ∧ s.written = s.received ++ queue) := by
  intro s
  obtain ⟨bs, queue, h⟩ : ∃ bs queue, Inv size.toNat s bs queue :=
    Machine.invariant (I := fun s => ∃ bs queue, Inv size.toNat s bs queue)
      (fun _ _ ⟨_, _, h⟩ hu => h.step hu) actions _ ⟨[], [], start_inv (alloc_queues hm hs ha)⟩ hu
  refine ⟨h.errors, ?_, fun x y hx hy he => ?_, fun hw hr => ⟨queue, ⟨?_, h.size, h.short⟩, ?_⟩⟩
  · rw [h.order]
    exact List.prefix_append _ _
  · obtain ⟨k, hk, hle, rfl⟩ := h.putCell hx
    obtain ⟨j, hj, rfl⟩ := h.getCell hy
    have hmod : k ≡ j [MOD s.ring.size_.toNat + 1] := Nat.ModEq.add_left_cancel' _ he
    have heq := Nat.ModEq.eq_of_lt_of_lt hmod (by omega) (by omega)
    omega
  · have hbytes : bs ++ [] = queue.flatMap frame := by
      have := h.bytes
      rw [hw, hr] at this
      exact this
    rw [List.append_nil] at hbytes
    rw [← hbytes]
    exact h.holds
  · have horder : s.written ++ [] = s.received ++ queue := by
      rw [← h.order, hw]
      rfl
    rw [List.append_nil] at horder
    exact horder

/-- The length of a message is stored, the reader finds it, and then comes the message. -/
def meeting : List Action :=
  .writeBuffer (some [5, 6]) 2 :: List.replicate 6 .write ++
    .readBuffer (some [0, 0, 0]) 0 :: List.replicate 5 .read ++ List.replicate 4 .write ++ List.replicate 7 .read

theorem two_threads_ok_meeting :
    let s := machine.final (start (alloc mallocZeroed .new 8).2) meeting
    s.received = [[5, 6]] ∧ s.errors = 0 ∧ ∃ queue, s.ring.Queues 8 queue ∧ s.written = s.received ++ queue := by
  intro s
  obtain ⟨he, -, -, hidle⟩ := two_threads_ok malloc_mallocZeroed 8 (by decide) (by decide) meeting (by decide +kernel)
  exact ⟨by decide +kernel, he, hidle (by decide +kernel) (by decide +kernel)⟩

end StreamThreads

end Ydx
