import YdxNet.Proof.Receiver
import YdxNet.Proof.Transfers

/-!
# From `Sender::send` to `Receiver::receive`

A sender, a receiver, and the network between them. On each connection the network
delivers the bytes that the kernel took from the sender, in their order and cut in any
way, to `handleRead` of the receiver's end. Its decoder locks the mutex in each turn of
its loop, so that `receive` may take messages out of the ring between two turns.
Connections are lost and made again, and what was on its way on one may still arrive
after bytes of the next.

No message is made up, changed or given out twice (`received_was_sent`), and on each
connection the messages are handed over in the order in which they were taken out of the
sender's queue. If there was one connection only, and it has brought everything, then
all that was sent is there, in its order (`everything_arrives`).
-/

namespace Ydx

open Spec

namespace StreamBuffer

/-! ## Writes to the ring, one after another -/

theorem copyIn_take (b : StreamBuffer) (buf : List Byte) (len : UInt64) :
    b.copyIn (buf.take len.toNat) len = b.copyIn buf len := by
  have hle : (MIN len (b.size_ + 1 - b.in_)).toNat ≤ len.toNat := by
    rw [toNat_MIN]
    exact Nat.min_le_left _ _
  have hsub : (len - MIN len (b.size_ + 1 - b.in_)).toNat = len.toNat - (MIN len (b.size_ + 1 - b.in_)).toNat :=
    UInt64.toNat_sub_of_le _ _ (UInt64.le_iff_toNat_le.mpr hle)
  simp only [copyIn, hsub, List.take_take, Nat.min_eq_left hle, List.drop_take, Nat.min_self]

/-- Only the bytes asked for are looked at. -/
theorem writeBuffer_take (b : StreamBuffer) (buf : List Byte) {len : Int32} (h0 : 0 ≤ len.toInt) :
    b.writeBuffer (some (buf.take len.toInt.toNat)) len = b.writeBuffer (some buf) len := by
  simp only [writeBuffer, copyInMust, ← sizeT_of_nonneg h0, copyIn_take]

/-- The call that writes a message. -/
def writeOp (m : Message) : FifoOp := .write m (lenInt m.length)

variable {b : StreamBuffer} {cap : Nat} {q : List Message}

/-- A message goes behind the others, or is refused. -/
theorem Queues.writeOp (h : Queues cap b q) {m : Message} (hm : m.length < 2 ^ 31) (hc : Counted (b, []) (writeOp m)) :
    (machine.step b (StreamBuffer.writeOp m)).2 = .wrote true ∧
        Queues cap (machine.step b (StreamBuffer.writeOp m)).1 (q ++ [m]) ∨
      (machine.step b (StreamBuffer.writeOp m)).2 = .wrote false ∧
        Queues cap (machine.step b (StreamBuffer.writeOp m)).1 q := by
  have hl := toInt_lenInt hm
  have ht : m.take (lenInt m.length).toInt.toNat = m := by
    rw [hl, Int.toNat_natCast, List.take_length]
  have hv : (StreamBuffer.writeOp m).Valid := ⟨by omega, by omega⟩
  obtain ⟨ho, hq⟩ := step_counted h hv hc
  by_cases hroom : framesSize q + (4 + m.length) ≤ cap
  · have e : (fifo cap).step q (StreamBuffer.writeOp m) = (q ++ [m], .wrote true) := by
      simp only [fifo, StreamBuffer.writeOp, ht, if_pos hroom]
    rw [e] at ho hq
    exact .inl ⟨ho, hq⟩
  · have e : (fifo cap).step q (StreamBuffer.writeOp m) = (q, .wrote false) := by
      simp only [fifo, StreamBuffer.writeOp, ht, if_neg hroom]
    rw [e] at ho hq
    exact .inr ⟨ho, hq⟩

/-- A read gives the oldest message, or nothing. -/
theorem Queues.read_cases (h : Queues cap b q) (buf : List Byte) (len : Int32) :
    (∃ m q' b', q = m :: q' ∧ b.readBuffer (some buf) len = ⟨true, some (memcpy buf 0 m), lenInt m.length, b'⟩ ∧
        Queues cap b' q') ∨
      b.readBuffer (some buf) len = ⟨false, some buf, 0, b⟩ := by
  cases q with
  | nil => exact .inr (readBuffer_empty h.holds _ _)
  | cons m q =>
    by_cases hw : b.Wrapped ∧ (m :: q).length = 1
    · -- The last message of a wrapped ring is kept back.
      obtain rfl : q = [] := by simpa using hw.2
      have hh : Holds b (frame m) := by simpa using h.holds
      exact .inr (readBuffer_last hh (h.short m List.mem_cons_self) hw.1 _ _)
    · obtain ⟨b', e, hq⟩ := h.read hw buf len
      exact .inl ⟨m, q, b', rfl, e, hq⟩

end StreamBuffer

namespace Receiver

/-- One turn of the decoder's loop: the call, and the counter. -/
def handOver (r : Receiver) (w : WriteCall) : Receiver := r.deliver w.payload w.len

/-- What the decoder hands over, and leaves in the buffer, does not depend on the receiver. -/
theorem onMessage_calls (fuel : Nat) (r r' : Receiver) (b : Buffer) {d : Decoded} (h : onMessage fuel r b = .ok d) :
    ∃ d', onMessage fuel r' b = .ok d' ∧ d'.calls = d.calls ∧ d'.buf = d.buf := by
  induction fuel generalizing r r' b d with
  | zero => cases h
  | succ fuel ih =>
    simp only [onMessage] at h ⊢
    by_cases h0 : b.readableBytes = 0
    · rw [if_pos h0] at h ⊢
      cases h
      exact ⟨_, rfl, rfl, rfl⟩
    · rw [if_neg h0] at h ⊢
      by_cases h4 : b.peek.length < 4
      · rw [if_pos h4] at h
        cases h
      · rw [if_neg h4] at h ⊢
        by_cases hl : payloadBytes b < int32OfBytes b.peek
        · rw [if_pos hl] at h ⊢
          cases h
          exact ⟨_, rfl, rfl, rfl⟩
        · rw [if_neg hl] at h ⊢
          split at h
          · cases h
          · rename_i d₁ hd₁
            cases h
            obtain ⟨d', e, hc, hb⟩ := ih _ (r'.deliver (b.peek.drop 4) (int32OfBytes b.peek)) _ hd₁
            rw [e]
            exact ⟨_, rfl, by rw [← hc], hb⟩

/-- The decoder leaves the receiver as its turns do, one after another. -/
theorem onMessage_turns (fuel : Nat) (r : Receiver) (b : Buffer) {d : Decoded} (h : onMessage fuel r b = .ok d)
    (h0 : ∀ w ∈ d.calls, 0 ≤ w.len.toInt) : d.receiver = d.calls.foldl handOver r := by
  induction fuel generalizing r b d with
  | zero => cases h
  | succ fuel ih =>
    rw [onMessage] at h
    split at h
    · cases h
      rfl
    · split at h
      · cases h
      · dsimp only at h
        split at h
        · cases h
          rfl
        · split at h
          · cases h
          · rename_i d' hd'
            cases h
            have hlen := h0 _ List.mem_cons_self
            have hfirst : ∀ payload, r.deliver payload (int32OfBytes b.peek) =
                r.handOver ⟨int32OfBytes b.peek, payload.take (int32OfBytes b.peek).toInt.toNat⟩ := fun payload => by
              rw [handOver, deliver, deliver, StreamBuffer.writeBuffer_take _ _ hlen]
            rw [ih _ _ hd' fun w hw => h0 w (List.mem_cons_of_mem _ hw), hfirst, List.foldl_cons]

end Receiver

/-- A sender, a receiver, and what has happened between them. -/
structure Delivery where
  sender : SenderWire
  /-- `inputBuffer_` of the receiver's end of a connection. -/
  inputBuffers : Nat → Buffer
  /-- How many bytes of a connection have arrived. -/
  arrived : Nat → Nat
  /-- The turns of the decoder's loop that the receiver's loop thread has still to make. -/
  pending : List (Nat × WriteCall)
  receiver : Receiver
  /-- Why the decoder did not return. -/
  stopped : Option Stop
  /-- The messages that `write_buffer` of the sender had room for. -/
  accepted : List Message
  /-- The messages taken out of the sender's queue, with the connection there was. -/
  taken : List (Option Nat × Message)
  /-- The calls of `write_buffer` of the receiver, with the connection they were made for. -/
  handed : List (Nat × WriteCall)
  /-- How many of these returned false. -/
  refused : Nat
  /-- The messages that `receive` has given out. -/
  received : List Message

namespace Delivery

open SenderWire (accepts takes extends_step queue_step short_accepts)

/-- What is on its way on a connection: the bytes the kernel took that have not arrived. -/
def inFlight (s : Delivery) (c : Nat) : List Byte :=
  match s.sender.conns c with
  | none => []
  | some w => w.wired.drop (s.arrived c)

/-- `handleRead` of the receiver's end of connection `c`, for a chunk that has arrived. The turns
that it makes do not depend on the receiver (`Receiver.onMessage_calls`), and made one after
another they leave it as `onMessage` does (`Receiver.onMessage_turns`). -/
def decode (s : Delivery) (c : Nat) (chunk : List Byte) : Except Stop Decoded :=
  s.receiver.handleRead ((s.inputBuffers c).readableBytes + chunk.length + 1) (s.inputBuffers c) chunk

inductive Action
  /-- A step of the sender. -/
  | sender (a : SenderWire.Action)
  /-- Of the bytes on their way on connection `c`, `n` arrive, and the receiver's loop thread
  reads them. -/
  | arrive (c n : Nat)
  /-- It makes a turn of the decoder's loop, with the mutex locked. -/
  | turn
  /-- A thread calls `receive`, or goes on behind its wait. -/
  | receive (pData : List Byte) (nSize : Int32)

/-- The connection's bytes arrive. -/
def arrive (s : Delivery) (c : Nat) (chunk : List Byte) : Delivery :=
  match s.decode c chunk with
  | .error e => { s with stopped := some e }
  | .ok d =>
    { s with
      inputBuffers := Function.update s.inputBuffers c d.buf
      arrived := Function.update s.arrived c (s.arrived c + chunk.length)
      pending := d.calls.map (Prod.mk c) }

/-- One step. The loop thread reads again when all turns are made. -/
def step (s : Delivery) : Action → Delivery
  | .sender a =>
    { s with
      sender := (SenderWire.machine.step s.sender a).1
      accepted := s.accepted ++ accepts s.sender.sender a
      taken := s.taken ++ takes s.sender.sender a }
  | .arrive c n =>
    if s.stopped = none ∧ s.pending = [] ∧ (s.inFlight c).take n ≠ [] then s.arrive c ((s.inFlight c).take n) else s
  | .turn =>
    match s.pending with
    | [] => s
    | x :: pending =>
      { s with
        pending
        receiver := s.receiver.handOver x.2
        handed := s.handed ++ [x]
        refused := s.refused + if (s.receiver.stream_buffer_.writeBuffer (some x.2.payload) x.2.len).1 then 0 else 1 }
  | .receive pData nSize =>
    let r := s.receiver.receive (some pData) nSize
    { s with
      receiver := r.2
      received := if r.1.ret then s.received ++ [(r.1.buf.getD []).take r.1.len.toInt.toNat] else s.received }

/-- Sender, network and receiver, interleaved in any way. -/
def machine : Machine Delivery Action Unit where
  step s a := (s.step a, ())

/-- Before the first call, with this ring. -/
def start (epoller_ : EPollPoller) (ring : StreamBuffer) : Delivery where
  sender := .start epoller_
  inputBuffers _ := .new Buffer.initSpace
  arrived _ := 0
  pending := []
  receiver := ⟨ring, 0, 0⟩
  stopped := none
  accepted := []
  taken := []
  handed := []
  refused := 0
  received := []

/-- A chunk that arrives on a connection where each write after one that failed with `EPIPE` or
`ECONNRESET` has failed so too, and that does not mislead the decoder. -/
def Legible (s : Delivery) (c n : Nat) (w : WireConn) : Prop :=
  let chunk := (s.inFlight c).take n
  let b := ((s.inputBuffers c).readFd (.ok chunk)).2.2
  let k := Receiver.tailLen w.dequeued (s.arrived c + chunk.length)
  FaultsStay w.acts ∧ b.readableBytes ≤ 2 ^ 31 + 3 ∧ (0 < k → k < 4 → Receiver.HeaderOk b k)

instance (s : Delivery) (c n : Nat) (w : WireConn) : Decidable (Legible s c n w) :=
  inferInstanceAs (Decidable (_ ∧ _ ∧ (_ → _ → _)))

/-- The steps that nothing disturbs: what arrives is legible, in the receiver's ring no frame
ends where the oldest byte lies, and the memory given to `receive` holds the message. -/
def Undisturbed (s : Delivery) : Action → Prop
  | .sender _ => True
  | .arrive c n => ∀ w ∈ s.sender.conns c, s.Legible c n w
  | .turn => ∀ x ∈ s.pending.head?, StreamBuffer.Counted (s.receiver.stream_buffer_, []) (.write x.2.payload x.2.len)
  | .receive pData nSize =>
    let r := s.receiver.stream_buffer_.readBuffer (some pData) nSize
    r.ret = true → r.len.toInt.toNat ≤ pData.length

instance (s : Delivery) : ∀ a, Decidable (Undisturbed s a)
  | .sender _ => inferInstanceAs (Decidable True)
  | .arrive _ _ => inferInstanceAs (Decidable (∀ _ ∈ s.sender.conns _, _))
  | .turn => inferInstanceAs (Decidable (∀ _ ∈ s.pending.head?, _))
  | .receive _ _ => inferInstanceAs (Decidable (_ → _))

/-! ## What holds before every step -/

/-- Of a connection on which the kernel took `wired`: of the messages taken out of the queue
for it, the turns of `done` are made or pending, and `p` begins the frames of `rest`. -/
structure Link (s : Delivery) (c : Nat) (wired : List Byte) (done rest : List Message) (p : List Byte) : Prop where
  taken : withKey (some c) s.taken = done ++ rest
  turns : withKey c (s.handed ++ s.pending) = done.map Receiver.call
  within : s.arrived c ≤ wired.length
  bytes : wired.take (s.arrived c) = done.flatMap frame ++ p
  begins : Receiver.Begins p rest
  rep : Buffer.Rep (s.inputBuffers c) p

/-- The ring holds what was handed over, without what was refused and received. -/
structure Kept (cap : Nat) (s : Delivery) (queued : List Message) : Prop where
  queues : StreamBuffer.Queues cap s.receiver.stream_buffer_ queued
  sublist : (s.received ++ queued).Sublist (s.handed.map fun x => x.2.payload)
  count : (s.received ++ queued).length + s.refused = s.handed.length

/-- What holds before every step, with a receiver's ring of size `cap`. -/
structure Inv (cap : Nat) (s : Delivery) : Prop where
  sender : SenderWire.Inv s.sender
  numbered : SenderWire.IdsGiven s.sender
  running : s.stopped = none
  accounts : s.taken.map Prod.snd ++ s.sender.sender.stream_buffer_.map Numbered.bytes = s.accepted
  short : ∀ m ∈ s.accepted, m.length ≤ 2 ^ 31 - 5
  linked : ∀ c w, s.sender.conns c = some w → ∃ done rest p, w.dequeued = done ++ rest ∧ Link s c w.wired done rest p
  unmade : ∀ c, s.sender.conns c = none → Link s c [] [] [] []
  kept : ∃ queued, Kept cap s queued

variable {cap : Nat} {d : Delivery}

/-- It is about what the receiver has done. -/
theorem Kept.of_eq {e : Delivery} {queued : List Message} (h : Kept cap d queued) (hr : e.receiver = d.receiver)
    (hd : e.received = d.received) (hh : e.handed = d.handed) (hf : e.refused = d.refused) : Kept cap e queued :=
  ⟨hr ▸ h.queues, hd ▸ hh ▸ h.sublist, hd ▸ hh ▸ hf ▸ h.count⟩

theorem start_inv (epoller_ : EPollPoller) {ring : StreamBuffer} (h : StreamBuffer.Queues cap ring []) :
    Inv cap (start epoller_ ring) where
  sender := SenderWire.start_inv epoller_
  numbered c w hw := absurd hw (by simp [start, SenderWire.start])
  running := rfl
  accounts := rfl
  short m hm := absurd hm List.not_mem_nil
  linked c w hw := absurd hw (by simp [start, SenderWire.start])
  unmade c _ := ⟨rfl, rfl, Nat.le_refl 0, rfl, rfl, Buffer.new_ok _⟩
  kept := ⟨[], h, .slnil, rfl⟩

/-- A message taken out of the queue was put in. -/
theorem Inv.mem_accepted (h : Inv cap d) {c : Nat} {m : Message} (hm : m ∈ withKey (some c) d.taken) :
    m ∈ d.accepted := by
  rw [← h.accounts]
  exact List.mem_append_left _ ((withKey_sublist _ _).subset hm)

/-- Every connection is in order, made or not. -/
theorem Inv.link (h : Inv cap d) (c : Nat) : ∃ wired done rest p, Link d c wired done rest p := by
  cases hc : d.sender.conns c with
  | none => exact ⟨_, _, _, _, h.unmade c hc⟩
  | some w =>
    obtain ⟨done, rest, p, -, hl⟩ := h.linked c w hc
    exact ⟨_, _, _, _, hl⟩

/-- Every turn is that of a message that was sent. -/
theorem Inv.turn_of_mem (h : Inv cap d) {x : Nat × WriteCall} (hx : x ∈ d.handed ++ d.pending) :
    ∃ m, x.2 = Receiver.call m ∧ m ∈ withKey (some x.1) d.taken ∧ m.length ≤ 2 ^ 31 - 5 := by
  obtain ⟨wired, done, rest, p, hl⟩ := h.link x.1
  have hmem : x.2 ∈ withKey x.1 (d.handed ++ d.pending) := List.mem_filterMap.mpr ⟨x, hx, if_pos rfl⟩
  rw [hl.turns] at hmem
  obtain ⟨m, hm, he⟩ := List.mem_map.mp hmem
  have ht : m ∈ withKey (some x.1) d.taken := by
    rw [hl.taken]
    exact List.mem_append_left _ hm
  exact ⟨m, he.symm, ht, h.short m (h.mem_accepted ht)⟩

theorem begins_append {p : List Byte} {rest : List Message} (h : Receiver.Begins p rest) (new : List Message) :
    Receiver.Begins p (rest ++ new) := by
  cases rest with
  | nil =>
    obtain rfl : p = [] := h
    exact Receiver.begins_nil _
  | cons m rest => exact h

/-! ### A step of the sender -/

/-- More bytes are on their way, and more messages are taken out of the queue. -/
theorem Link.sender {c : Nat} {wired wired' : List Byte} {done rest : List Message} {p : List Byte}
    (h : Link d c wired done rest p) (hw : wired <+: wired') (t : SenderWire) (accepted : List Message)
    (new : List (Option Nat × Message)) :
    Link { d with sender := t, accepted, taken := d.taken ++ new } c wired' done (rest ++ withKey (some c) new) p := by
  obtain ⟨more, rfl⟩ := hw
  refine ⟨?_, h.turns, ?_, ?_, begins_append h.begins _, h.rep⟩
  · show withKey (some c) (d.taken ++ new) = _
    rw [withKey_append, h.taken, List.append_assoc]
  · rw [List.length_append]
    exact Nat.le_trans h.within (Nat.le_add_right _ _)
  · show (wired ++ more).take (d.arrived c) = _
    rw [List.take_append_of_le_length h.within, h.bytes]

theorem Inv.sender_step (h : Inv cap d) (a : SenderWire.Action) : Inv cap (d.step (.sender a)) := by
  have he := extends_step h.sender h.numbered a
  refine ⟨SenderWire.step_inv h.sender a, he.idsGiven h.numbered, h.running, ?_, ?_, ?_, ?_,
    h.kept.imp fun _ hk => hk.of_eq rfl rfl rfl rfl⟩
  · show (d.taken ++ takes d.sender.sender a).map Prod.snd ++
      (SenderWire.machine.step d.sender a).1.sender.stream_buffer_.map _ = d.accepted ++ accepts d.sender.sender a
    rw [List.map_append, List.append_assoc, queue_step, ← List.append_assoc, h.accounts]
  · intro m hm
    rcases List.mem_append.mp hm with hm | hm
    · exact h.short m hm
    · exact short_accepts _ _ m hm
  · intro c w' hw'
    cases hc : d.sender.conns c with
    | none =>
      obtain ⟨hnew, hfresh⟩ := he.new c hc
      obtain ⟨hwired, hdeq, -⟩ := hfresh w' hw'
      have hl := (h.unmade c hc).sender List.prefix_rfl (SenderWire.machine.step d.sender a).1
        (d.accepted ++ accepts d.sender.sender a) (takes d.sender.sender a)
      rw [hnew] at hl
      exact ⟨[], [], [], hdeq, hwired ▸ hl⟩
    | some w =>
      obtain ⟨done, rest, p, hdeq, hl⟩ := h.linked c w hc
      obtain ⟨v, hv, hwired, hd⟩ := he.old c w hc
      obtain rfl : v = w' := Option.some.inj (hv.symm.trans hw')
      exact ⟨done, _, p, by rw [hd, hdeq, List.append_assoc], hl.sender hwired _ _ _⟩
  · intro c hc'
    have hc : d.sender.conns c = none := by
      refine Option.eq_none_iff_forall_ne_some.mpr fun w hw => ?_
      obtain ⟨v, hv, -⟩ := he.old c w hw
      exact absurd (hc'.symm.trans hv) (Option.some_ne_none v).symm
    have hl := (h.unmade c hc).sender List.prefix_rfl (SenderWire.machine.step d.sender a).1
      (d.accepted ++ accepts d.sender.sender a) (takes d.sender.sender a)
    rw [(he.new c hc).1] at hl
    exact hl

/-! ### A chunk that arrives -/

/-- Of the bytes on their way, `chunk` are the next. -/
theorem take_inFlight {c n : Nat} {w : WireConn} (hw : d.sender.conns c = some w)
    (hle : d.arrived c ≤ w.wired.length) :
    w.wired.take (d.arrived c + ((d.inFlight c).take n).length) =
        w.wired.take (d.arrived c) ++ (d.inFlight c).take n ∧
      d.arrived c + ((d.inFlight c).take n).length ≤ w.wired.length := by
  have hi : d.inFlight c = w.wired.drop (d.arrived c) := by
    simp only [inFlight, hw]
  have hp : (d.inFlight c).take n <+: w.wired.drop (d.arrived c) := by
    rw [hi]
    exact List.take_prefix _ _
  constructor
  · rw [List.take_add, ← List.prefix_iff_eq_take.mp hp]
  · have := hp.length_le
    rw [List.length_drop] at this
    omega

/-- A chunk that is legible is decoded: some more turns are pending. -/
theorem Inv.decode_ok (h : Inv cap d) {c n : Nat} {w : WireConn} (hw : d.sender.conns c = some w)
    (hidle : d.pending = []) (hne : (d.inFlight c).take n ≠ []) (hu : d.Legible c n w) :
    ∃ done rest p r b, d.decode c ((d.inFlight c).take n) = .ok ⟨done.map Receiver.call, r, b⟩ ∧
      (∃ before, w.dequeued = before ++ (done ++ rest) ∧
        withKey c d.handed = before.map Receiver.call ∧
        w.wired.take (d.arrived c + ((d.inFlight c).take n).length) = (before ++ done).flatMap frame ++ p) ∧
      Receiver.Begins p rest ∧ Buffer.Rep b p := by
  obtain ⟨before, rest, p, hdeq, hl⟩ := h.linked c w hw
  obtain ⟨hstay, h31, hhead⟩ := hu
  obtain ⟨htake, -⟩ := take_inFlight (n := n) hw hl.within
  have hread := Buffer.readFd_ok hl.rep ((d.inFlight c).take n)
  -- The bytes that have arrived begin the frames of the messages taken out for the connection.
  have hpre : (before.flatMap frame ++ (p ++ (d.inFlight c).take n)) <+: before.flatMap frame ++ rest.flatMap frame := by
    have hframes := (h.sender.framed c w hw).taken hstay
    rw [WireConn.frames, hdeq, List.flatMap_append] at hframes
    rw [← List.append_assoc, ← hl.bytes, ← htake]
    exact (List.take_prefix _ _).trans hframes
  obtain ⟨y, hy⟩ := (List.prefix_append_right_inj _).mp hpre
  have hshort : ∀ m ∈ rest, m.length ≤ 2 ^ 31 - 5 := fun m hm => by
    refine h.short m (h.mem_accepted (c := c) ?_)
    rw [hl.taken]
    exact List.mem_append_right _ hm
  have harr : d.arrived c = framesSize before + p.length := by
    have := congrArg List.length hl.bytes
    rwa [List.length_take, Nat.min_eq_left hl.within, List.length_append] at this
  rw [hread.readableBytes] at h31
  rw [hdeq, harr, Nat.add_assoc, ← List.length_append, Receiver.tailLen_append] at hhead
  have hfuel : (p ++ (d.inFlight c).take n).length <
      (d.inputBuffers c).readableBytes + ((d.inFlight c).take n).length + 1 := by
    rw [hl.rep.readableBytes, List.length_append]
    exact Nat.lt_succ_self _
  obtain ⟨done, rest, p', r, b, rfl, hx, hb, e, hp⟩ :=
    Receiver.onMessage_ok rest _ d.receiver _ (p ++ (d.inFlight c).take n) y hread hy hshort h31 hfuel hhead
  refine ⟨done, rest, p', r, b, ?_, ⟨before, hdeq, ?_, ?_⟩, hb, hp⟩
  · rw [decode, Receiver.handleRead_eq _ _ _ hne]
    exact e
  · have := hl.turns
    rwa [hidle, List.append_nil] at this
  · rw [htake, hl.bytes, List.append_assoc, hx, List.flatMap_append, List.append_assoc]

/-- A chunk changes nothing of the other connections. -/
theorem Link.arrive_of_ne {c e : Nat} {wired : List Byte} {done rest : List Message} {p : List Byte}
    (h : Link d e wired done rest p) (hne : e ≠ c) (hidle : d.pending = []) (b : Buffer) (n : Nat)
    (calls : List WriteCall) :
    Link { d with inputBuffers := Function.update d.inputBuffers c b, arrived := Function.update d.arrived c n,
                  pending := calls.map (Prod.mk c) } e wired done rest p := by
  have hturns := h.turns
  rw [hidle, List.append_nil] at hturns
  refine ⟨h.taken, ?_, ?_, ?_, h.begins, ?_⟩
  · show withKey e (d.handed ++ calls.map (Prod.mk c)) = _
    rw [withKey_append, withKey_map_of_ne (Ne.symm hne), List.append_nil, hturns]
  · show Function.update d.arrived c n e ≤ _
    rw [Function.update_of_ne hne]
    exact h.within
  · show wired.take (Function.update d.arrived c n e) = _
    rw [Function.update_of_ne hne]
    exact h.bytes
  · show Buffer.Rep (Function.update d.inputBuffers c b e) p
    rw [Function.update_of_ne hne]
    exact h.rep

theorem Inv.arrive_step (h : Inv cap d) {c n : Nat} (hu : d.Undisturbed (.arrive c n)) :
    Inv cap (d.step (.arrive c n)) := by
  simp only [step]
  split
  · rename_i hgo
    obtain ⟨-, hidle, hne⟩ := hgo
    cases hw : d.sender.conns c with
    | none =>
      refine absurd ?_ hne
      simp only [inFlight, hw, List.take_nil]
    | some w =>
      obtain ⟨done, rest, p, r, b, e, ⟨before, hdeq, hturns, hbytes⟩, hb, hrep⟩ :=
        h.decode_ok hw hidle hne (hu w hw)
      have hs : d.arrive c ((d.inFlight c).take n) =
          { d with inputBuffers := Function.update d.inputBuffers c b
                   arrived := Function.update d.arrived c (d.arrived c + ((d.inFlight c).take n).length)
                   pending := (done.map Receiver.call).map (Prod.mk c) } := by
        simp only [Delivery.arrive, e]
      rw [hs]
      refine ⟨h.sender, h.numbered, h.running, h.accounts, h.short, fun k v hv => ?_, fun k hk => ?_,
        h.kept.imp fun _ hk => hk.of_eq rfl rfl rfl rfl⟩
      · by_cases hkc : k = c
        · subst hkc
          obtain rfl : w = v := Option.some.inj (hw.symm.trans hv)
          obtain ⟨before', rest', p', hdeq', hl⟩ := h.linked k w hw
          refine ⟨before ++ done, rest, p, by rw [hdeq, List.append_assoc], ?_, ?_, ?_, ?_, hb, ?_⟩
          · show withKey (some k) d.taken = _
            rw [hl.taken, ← hdeq', hdeq, List.append_assoc]
          · show withKey k (d.handed ++ (done.map Receiver.call).map (Prod.mk k)) = _
            rw [withKey_append, withKey_map_self, hturns, List.map_append]
          · show Function.update d.arrived k _ k ≤ _
            rw [Function.update_self]
            exact (take_inFlight hw hl.within).2
          · show w.wired.take (Function.update d.arrived k _ k) = _
            rw [Function.update_self, hbytes]
          · show Buffer.Rep (Function.update d.inputBuffers k _ k) p
            rw [Function.update_self]
            exact hrep
        · obtain ⟨done', rest', p', hdeq', hl⟩ := h.linked k v hv
          exact ⟨done', rest', p', hdeq', hl.arrive_of_ne hkc hidle _ _ _⟩
      · refine (h.unmade k hk).arrive_of_ne ?_ hidle _ _ _
        rintro rfl
        exact absurd (hw.symm.trans hk) (Option.some_ne_none w)
  · exact h

/-! ### The receiver's threads -/

/-- Only the queue and the calls that are made change. -/
theorem Link.turned {c : Nat} {wired : List Byte} {done rest : List Message} {p : List Byte}
    (h : Link d c wired done rest p) {handed pending : List (Nat × WriteCall)}
    (he : handed ++ pending = d.handed ++ d.pending) {receiver : Receiver} {refused : Nat} {received : List Message} :
    Link { d with handed, pending, receiver, refused, received } c wired done rest p :=
  ⟨h.taken, (congrArg (withKey c) he).trans h.turns, h.within, h.bytes, h.begins, h.rep⟩

theorem Kept.turn {queued : List Message} (h : Kept cap d queued) {c : Nat} {m : Message} (hm : m.length < 2 ^ 31)
    {pending : List (Nat × WriteCall)}
    (hp : d.pending = (c, Receiver.call m) :: pending) (hu : d.Undisturbed .turn) :
    ∃ queued', Kept cap (d.step .turn) queued' := by
  have hc : StreamBuffer.Counted (d.receiver.stream_buffer_, []) (StreamBuffer.writeOp m) := by
    refine hu (c, Receiver.call m) ?_
    rw [hp]
    rfl
  have hs : d.step .turn =
      { d with
        pending
        receiver := d.receiver.handOver (Receiver.call m)
        handed := d.handed ++ [(c, Receiver.call m)]
        refused := d.refused +
          if (d.receiver.stream_buffer_.writeBuffer (some (Receiver.call m).payload) (Receiver.call m).len).1 then 0
          else 1 } := by
    simp only [step, hp]
  have hhanded : (d.handed ++ [(c, Receiver.call m)]).map (fun x => x.2.payload) =
      d.handed.map (fun x => x.2.payload) ++ [m] := List.map_append
  have hcount := h.count
  rw [hs]
  rcases h.queues.writeOp hm hc with ⟨ho, hq⟩ | ⟨ho, hq⟩
  · have hret : (d.receiver.stream_buffer_.writeBuffer (some m) (lenInt m.length)).1 = true := FifoOut.wrote.inj ho
    refine ⟨queued ++ [m], hq, ?_, ?_⟩
    · show (d.received ++ (queued ++ [m])).Sublist ((d.handed ++ [_]).map _)
      rw [hhanded, ← List.append_assoc]
      exact h.sublist.append (List.Sublist.refl [m])
    · show (d.received ++ (queued ++ [m])).length +
        (d.refused + if (d.receiver.stream_buffer_.writeBuffer (some m) (lenInt m.length)).1 then 0 else 1) =
          (d.handed ++ [_]).length
      rw [hret, if_pos rfl]
      simp only [List.length_append, List.length_singleton] at hcount ⊢
      omega
  · have hret : (d.receiver.stream_buffer_.writeBuffer (some m) (lenInt m.length)).1 = false := FifoOut.wrote.inj ho
    refine ⟨queued, hq, ?_, ?_⟩
    · show (d.received ++ queued).Sublist ((d.handed ++ [_]).map _)
      rw [hhanded]
      exact h.sublist.trans (List.sublist_append_left _ _)
    · show (d.received ++ queued).length +
        (d.refused + if (d.receiver.stream_buffer_.writeBuffer (some m) (lenInt m.length)).1 then 0 else 1) =
          (d.handed ++ [_]).length
      rw [hret, if_neg Bool.false_ne_true]
      simp only [List.length_append, List.length_singleton] at hcount ⊢
      omega

theorem Inv.turn_step (h : Inv cap d) (hu : d.Undisturbed .turn) : Inv cap (d.step .turn) := by
  cases hp : d.pending with
  | nil =>
    have hs : d.step .turn = d := by
      simp only [step, hp]
    rwa [hs]
  | cons x pending =>
    obtain ⟨c, w⟩ := x
    obtain ⟨m, hx, -, hm⟩ := h.turn_of_mem (x := (c, w)) (List.mem_append_right _ (hp ▸ List.mem_cons_self))
    obtain rfl : w = Receiver.call m := hx
    obtain ⟨queued, hk⟩ := h.kept
    have hk' := hk.turn (by omega) hp hu
    have he : (d.handed ++ [(c, Receiver.call m)]) ++ pending = d.handed ++ d.pending := by
      rw [hp, List.append_assoc, List.singleton_append]
    simp only [step, hp] at hk' ⊢
    refine ⟨h.sender, h.numbered, h.running, h.accounts, h.short, fun e v hv => ?_, fun e hv => ?_, hk'⟩
    · obtain ⟨done, rest, p, hdeq, hl⟩ := h.linked e v hv
      exact ⟨done, rest, p, hdeq, hl.turned he⟩
    · exact (h.unmade e hv).turned he

theorem Kept.receive {queued : List Message} (h : Kept cap d queued) {pData : List Byte} {nSize : Int32}
    (hu : d.Undisturbed (.receive pData nSize)) : ∃ queued', Kept cap (d.step (.receive pData nSize)) queued' := by
  rcases h.queues.read_cases pData nSize with ⟨m, q, b, rfl, e, hq⟩ | e
  · have hlen := toInt_lenInt (h.queues.short m List.mem_cons_self)
    have hfit : m.length ≤ pData.length := by
      have := hu (by rw [e])
      rwa [e, hlen, Int.toNat_natCast] at this
    have hgot : (memcpy pData 0 m).take m.length = m := by
      rw [memcpy_of_le (by omega), List.take_zero, List.nil_append, List.take_left]
    have hs : d.step (.receive pData nSize) =
        { d with receiver := ⟨b, d.receiver.msg_count_ - 1, d.receiver.notified⟩, received := d.received ++ [m] } := by
      simp only [step, Receiver.receive, e, if_true, Option.getD_some, hlen, Int.toNat_natCast, hgot]
    have hmove : d.received ++ [m] ++ q = d.received ++ m :: q := by
      rw [List.append_assoc, List.singleton_append]
    rw [hs]
    exact ⟨q, hq, hmove ▸ h.sublist, hmove ▸ h.count⟩
  · have hs : d.step (.receive pData nSize) = d := by
      simp only [step, Receiver.receive, e, Bool.false_eq_true, if_false]
    rw [hs]
    exact ⟨queued, h⟩

theorem Inv.receive_step (h : Inv cap d) {pData : List Byte} {nSize : Int32}
    (hu : d.Undisturbed (.receive pData nSize)) : Inv cap (d.step (.receive pData nSize)) := by
  obtain ⟨queued, hk⟩ := h.kept
  have hk' := hk.receive hu
  obtain ⟨receiver, received, e⟩ : ∃ receiver received, d.step (.receive pData nSize) = { d with receiver, received } :=
    ⟨_, _, rfl⟩
  rw [e] at hk' ⊢
  refine ⟨h.sender, h.numbered, h.running, h.accounts, h.short, fun c w hw => ?_, fun c hc => ?_, hk'⟩
  · obtain ⟨done, rest, p, hdeq, hl⟩ := h.linked c w hw
    exact ⟨done, rest, p, hdeq, hl.turned rfl⟩
  · exact (h.unmade c hc).turned rfl

theorem step_inv (h : Inv cap d) (a : Action) (hu : d.Undisturbed a) : Inv cap (machine.step d a).1 := by
  cases a with
  | sender a => exact h.sender_step a
  | arrive c n => exact h.arrive_step hu
  | turn => exact h.turn_step hu
  | receive pData nSize => exact h.receive_step hu

/-! ## Whole runs -/

theorem final_inv {malloc : Nat → Option (List Byte)} (hm : StreamBuffer.Malloc malloc) {size : UInt64}
    (hs : size + 1 ≠ 0) (ha : (StreamBuffer.alloc malloc .new size).1 = 0) (epoller_ : EPollPoller)
    (actions : List Action)
    (hu : machine.Along Undisturbed (start epoller_ (StreamBuffer.alloc malloc .new size).2) actions) :
    Inv size.toNat (machine.final (start epoller_ (StreamBuffer.alloc malloc .new size).2) actions) :=
  Machine.invariant (I := Inv size.toNat) (fun _ a h hu => step_inv h a hu) actions _
    (start_inv epoller_ (StreamBuffer.alloc_queues hm hs ha)) hu

/-- Every message handed over was taken out of the sender's queue, and as often. -/
theorem Inv.subperm (h : Inv cap d) :
    ((d.handed ++ d.pending).map fun x => (some x.1, x.2.payload)).Subperm d.taken := by
  rw [List.subperm_ext_iff]
  intro y hy
  obtain ⟨x, hx, rfl⟩ := List.mem_map.mp hy
  obtain ⟨wired, done, rest, p, hl⟩ := h.link x.1
  have hkey : withKey (some x.1) ((d.handed ++ d.pending).map fun x => (some x.1, x.2.payload)) =
      (withKey x.1 (d.handed ++ d.pending)).map WriteCall.payload := withKey_map_key (Option.some_injective _) _ _ _
  rw [← count_withKey (some x.1) x.2.payload, ← count_withKey (some x.1) x.2.payload, hkey, hl.turns, hl.taken,
    List.map_map]
  have hid : WriteCall.payload ∘ Receiver.call = id := rfl
  rw [hid, List.map_id]
  exact (List.sublist_append_left done rest).count_le _

/-- In a run that nothing disturbs, what the receiver has given out and what is in its ring
are messages that were sent, none of them more often than it was; on each connection they
were handed over in the order in which they were taken out of the sender's queue. -/
theorem received_was_sent {malloc : Nat → Option (List Byte)} (hm : StreamBuffer.Malloc malloc) (size : UInt64)
    (hs : size + 1 ≠ 0) (ha : (StreamBuffer.alloc malloc .new size).1 = 0) (epoller_ : EPollPoller)
    (actions : List Action)
    (hu : machine.Along Undisturbed (start epoller_ (StreamBuffer.alloc malloc .new size).2) actions) :
    let s := machine.final (start epoller_ (StreamBuffer.alloc malloc .new size).2) actions
    s.stopped = none ∧
      (∃ queued, s.receiver.stream_buffer_.Queues size.toNat queued ∧
        (s.received ++ queued).Subperm s.accepted ∧
        (s.received ++ queued).Sublist (s.handed.map fun x => x.2.payload) ∧
        (s.received ++ queued).length + s.refused = s.handed.length) ∧
      ∀ c, (withKey c s.handed).map WriteCall.payload <+: withKey (some c) s.taken := by
  intro s
  have h : Inv size.toNat s := final_inv hm hs ha epoller_ actions hu
  obtain ⟨queued, hk⟩ := h.kept
  refine ⟨h.running, ⟨queued, hk.queues, ?_, hk.sublist, hk.count⟩, fun c => ?_⟩
  · have hle : (s.handed.map fun x => (some x.1, x.2.payload)).Subperm s.taken := by
      refine List.Subperm.trans ?_ h.subperm
      rw [List.map_append]
      exact (List.sublist_append_left _ _).subperm
    obtain ⟨l, hperm, hsub⟩ := hle
    have hhanded : (s.handed.map fun x => x.2.payload).Subperm (s.taken.map Prod.snd) :=
      ⟨l.map Prod.snd, by simpa [Function.comp_def] using hperm.map Prod.snd, hsub.map Prod.snd⟩
    refine (hk.sublist.subperm.trans hhanded).trans ?_
    rw [← h.accounts]
    exact (List.sublist_append_left _ _).subperm
  · obtain ⟨wired, done, rest, p, hl⟩ := h.link c
    have hturns := congrArg (List.map WriteCall.payload) hl.turns
    have hid : WriteCall.payload ∘ Receiver.call = id := rfl
    rw [withKey_append, List.map_append, List.map_map, hid, List.map_id] at hturns
    rw [hl.taken, ← hturns]
    exact (List.prefix_append _ _).trans (List.prefix_append _ _)

/-- Two messages for the first connection, which is reset while they are on their way, and one
for the second. The bytes of the first arrive after some of the second. -/
def resetDelivery : List Action :=
  SenderWire.resetRun.map .sender ++
    [.arrive 2 4, .arrive 1 9, .sender (.callback 2 .writeCallback_ (.ok []) (.accepted 9)), .arrive 2 9, .turn,
      .receive [0, 0, 0, 0] 0]

theorem received_was_sent_resetDelivery :
    let s := machine.final (start .new (StreamBuffer.alloc StreamBuffer.mallocZeroed .new 64).2) resetDelivery
    s.received = [[5, 6]] ∧ s.accepted = [[1, 2, 3], [4], [5, 6]] ∧ s.stopped = none ∧
      ∃ queued, (s.received ++ queued).Subperm s.accepted := by
  obtain ⟨hr, ⟨queued, -, hsub, -, -⟩, -⟩ :=
    received_was_sent StreamBuffer.malloc_mallocZeroed 64 (by decide) (by decide) .new resetDelivery (by decide +kernel)
  exact ⟨by decide +kernel, by decide +kernel, hr, queued, hsub⟩

/-- Everything that was sent has gone out on connection `c`, and arrived. -/
structure Quiet (s : Delivery) (c : Nat) (w : WireConn) : Prop where
  empty : s.sender.sender.stream_buffer_ = []
  owes : SenderWire.owed s.sender.sender.client_.connection_ (SenderWire.owedBy s.sender.sender.drain) c = []
  faultless : w.acts.any Act.fault = false
  flushed : w.conn.outputBuffer_.contents = []
  arrived : s.arrived c = w.wired.length
  turned : s.pending = []
  kept : s.refused = 0

/-- If there was one connection only, the turns made are those of the first messages sent. -/
theorem Inv.handed_prefix (h : Inv cap d) {c : Nat} (hone : ∀ x ∈ d.taken, x.1 = some c) :
    d.handed.map (fun x => x.2.payload) <+: withKey (some c) d.taken := by
  have hkeys : ∀ x ∈ d.handed, x.1 = c := fun x hx => by
    obtain ⟨m, -, hm, -⟩ := h.turn_of_mem (List.mem_append_left _ hx)
    obtain ⟨y, hy, he⟩ := List.mem_filterMap.mp hm
    split at he
    · rename_i hk
      exact Option.some.inj (hk.symm.trans (hone y hy))
    · cases he
  obtain ⟨wired, done, rest, p, hl⟩ := h.link c
  have hturns := congrArg (List.map WriteCall.payload) hl.turns
  have hid : WriteCall.payload ∘ Receiver.call = id := rfl
  rw [withKey_append, withKey_of_forall hkeys, List.map_append, List.map_map, List.map_map, hid, List.map_id] at hturns
  rw [hl.taken, ← hturns]
  exact (List.prefix_append _ _).trans (List.prefix_append _ _)

/-- When everything has arrived, the turns of all messages are made. -/
theorem Inv.handed_all (h : Inv cap d) {c : Nat} {w : WireConn} (hw : d.sender.conns c = some w)
    (hone : ∀ x ∈ d.taken, x.1 = some c) (hq : d.Quiet c w) :
    d.handed.length = d.accepted.length := by
  obtain ⟨done, rest, p, hdeq, hl⟩ := h.linked c w hw
  -- What the kernel took are the frames of all messages, so that none is left to decode.
  have hwired := (h.sender.framed c w hw).whole hq.faultless
  rw [hq.flushed, hq.owes, List.append_nil, List.append_nil, WireConn.frames, hdeq, List.flatMap_append] at hwired
  have hbytes := hl.bytes
  rw [hq.arrived, List.take_length, hwired, List.append_cancel_left_eq] at hbytes
  have hrest : rest = [] := by
    cases rest with
    | nil => rfl
    | cons m rest =>
      have hlt : p.length < 4 + m.length := hl.begins
      have := congrArg List.length hbytes
      rw [List.flatMap_cons, List.length_append, length_frame] at this
      omega
  have hdone := hl.taken
  rw [hrest, List.append_nil, withKey_of_forall hone] at hdone
  have hsent : done = d.accepted := by
    have := h.accounts
    rwa [hq.empty, List.map_nil, List.append_nil, hdone] at this
  have hturns := congrArg List.length hl.turns
  have hkeys := (h.handed_prefix hone).length_le
  rw [hq.turned, List.append_nil, List.length_map, hsent] at hturns
  rw [withKey_of_forall hone, hdone, hsent, List.length_map] at hkeys
  have := (withKey_sublist c d.handed).length_le
  rw [List.length_map] at this
  omega

/-- In a run that nothing disturbs, with one connection only, what the receiver has given out
and what is in its ring come in the order in which they were sent; and when everything has
arrived and the ring never was full, they are all that was sent. -/
theorem everything_arrives {malloc : Nat → Option (List Byte)} (hm : StreamBuffer.Malloc malloc) (size : UInt64)
    (hs : size + 1 ≠ 0) (ha : (StreamBuffer.alloc malloc .new size).1 = 0) (epoller_ : EPollPoller)
    (actions : List Action)
    (hu : machine.Along Undisturbed (start epoller_ (StreamBuffer.alloc malloc .new size).2) actions) (c : Nat)
    (hone : ∀ x ∈ (machine.final (start epoller_ (StreamBuffer.alloc malloc .new size).2) actions).taken,
      x.1 = some c) :
    let s := machine.final (start epoller_ (StreamBuffer.alloc malloc .new size).2) actions
    ∃ queued, s.receiver.stream_buffer_.Queues size.toNat queued ∧ (s.received ++ queued).Sublist s.accepted ∧
      ∀ w, s.sender.conns c = some w → s.Quiet c w → s.received ++ queued = s.accepted := by
  intro s
  have h : Inv size.toNat s := final_inv hm hs ha epoller_ actions hu
  obtain ⟨queued, hk⟩ := h.kept
  have hsub : (s.received ++ queued).Sublist s.accepted := by
    refine (hk.sublist.trans (h.handed_prefix hone).sublist).trans ?_
    rw [withKey_of_forall hone, ← h.accounts]
    exact List.sublist_append_left _ _
  refine ⟨queued, hk.queues, hsub, fun w hw hq => hsub.eq_of_length ?_⟩
  have hcount := hk.count
  rw [hq.kept, Nat.add_zero, h.handed_all hw hone hq] at hcount
  exact hcount

/-- Two messages over one connection: the second is written in two parts, and its length
arrives in two. -/
def pairDelivery : List Action :=
  (.newConnection 7 :: SenderWire.passMessage [1, 2, 3] (.accepted 4) (.accepted 3) ++
      SenderWire.passMessage [4] (.accepted 4) (.error EWOULDBLOCK EWOULDBLOCK)).map .sender ++
    [.arrive 1 9, .turn, .sender (.callback 1 .writeCallback_ (.ok []) (.accepted 1)), .receive [0, 0, 0, 0] 0,
      .arrive 1 9, .turn]

/-- Where it ends. -/
def pairDelivered : Delivery :=
  machine.final (start .new (StreamBuffer.alloc StreamBuffer.mallocZeroed .new 64).2) pairDelivery

theorem everything_arrives_pairDelivery :
    pairDelivered.received = [[1, 2, 3]] ∧ ∃ queued, pairDelivered.received ++ queued = [[1, 2, 3], [4]] := by
  have hall := everything_arrives StreamBuffer.malloc_mallocZeroed 64 (by decide) (by decide) .new pairDelivery
    (by decide +kernel) 1 (by decide +kernel)
  rw [← pairDelivered] at hall
  obtain ⟨queued, -, -, hall⟩ := hall
  have hw : (pairDelivered.sender.conns 1).map
      (fun w => (w.acts.any Act.fault, w.conn.outputBuffer_.contents, w.wired.length)) = some (false, [], 12) := by
    decide +kernel
  obtain ⟨w, hw, heq⟩ := Option.map_eq_some_iff.mp hw
  simp only [Prod.mk.injEq] at heq
  obtain ⟨hfault, hbuf, hwired⟩ := heq
  have harrived : pairDelivered.arrived 1 = 12 := by decide +kernel
  have hq : pairDelivered.Quiet 1 w :=
    ⟨by decide +kernel, by decide +kernel, hfault, hbuf, harrived.trans hwired.symm, by decide +kernel,
      by decide +kernel⟩
  have haccepted : pairDelivered.accepted = [[1, 2, 3], [4]] := by decide +kernel
  refine ⟨by decide +kernel, queued, ?_⟩
  rw [← haccepted]
  exact hall w hw hq

end Delivery

end Ydx
