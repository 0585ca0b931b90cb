import YdxNet.Impl.SenderWire
import YdxNet.Proof.OutputStream
import YdxNet.Proof.Sender

/-!
# What the sender puts on the wire

A message goes out in two calls of the connection's `send`, its length and its
bytes. What the drain thread still owes the current connection is the rest of
the frame of the message in its hands (`owed`). As long as no write of a
connection has failed with `EPIPE` or `ECONNRESET`, the bytes the kernel took,
those in `outputBuffer_` and those owed are the frames of the messages taken
out of the queue while it was the current one (`WireConn.Framed`); afterwards
the kernel takes nothing more. `framed_ok` says so of every run.
-/

namespace Ydx

open Spec

/-- A call of `write`. -/
def Act.isWrite : Act → Bool
  | .write .. => true
  | _ => false

/-- Of one socket: once a write fails with `EPIPE` or `ECONNRESET`, every later
one fails with one of these. -/
def FaultsStay (acts : List Act) : Prop :=
  acts.Pairwise fun a b => a.fault = true → b.isWrite = true → b.fault = true

instance (acts : List Act) : Decidable (FaultsStay acts) := inferInstanceAs (Decidable (List.Pairwise _ _))

/-- A write that fails gives the kernel nothing. -/
theorem Act.wire_of_fault {a : Act} (h : a.isWrite = true → a.fault = true) : a.wire = [] := by
  cases a with
  | write data result =>
    cases result with
    | accepted n => exact absurd (h rfl) Bool.false_ne_true
    | error errno => rfl
  | _ => rfl

/-- The bytes the kernel took on a connection. -/
def WireConn.wired (w : WireConn) : List Byte := w.acts.flatMap Act.wire

/-- The frames of the messages taken out of the queue for a connection. -/
def WireConn.frames (w : WireConn) : List Byte := w.dequeued.flatMap frame

namespace TcpConnection

/-- The writing flag is in step with the buffer, or the channel is not writing
any more. -/
def Calm (c : TcpConnection) : Prop := InStep c ∨ c.channel_.isWriting = false

/-- What an operation does to the output of a connection: either its write
fails, or the kernel takes what was buffered and `sent`, up to what is buffered
afterwards. -/
structure Passes (c : TcpConnection) (sent : List Byte) (r : EPollPoller × TcpConnection × List Act) : Prop where
  fault : r.2.2.any Act.fault = true → r.2.2.flatMap Act.wire = []
  whole : r.2.2.any Act.fault = false →
    r.2.2.flatMap Act.wire ++ r.2.1.outputBuffer_.contents = c.outputBuffer_.contents ++ sent
  calm : r.2.1.Calm

variable {p : EPollPoller} {c : TcpConnection}

/-- All writes of an operation have the same result. -/
theorem wire_of_any_fault {acts : List Act} {result : WriteResult} (h : ∀ a ∈ acts, ∃ bytes, a = .write bytes result)
    (hf : acts.any Act.fault = true) : acts.flatMap Act.wire = [] := by
  obtain ⟨a, ha, hfa⟩ := List.any_eq_true.mp hf
  obtain ⟨_, rfl⟩ := h a ha
  rw [List.flatMap_eq_nil_iff]
  intro b hb
  obtain ⟨_, rfl⟩ := h b hb
  cases result with
  | accepted n => exact absurd hfa Bool.false_ne_true
  | error errno => rfl

theorem send_passes (h : InStep c) (p : EPollPoller) {data : List Byte} {len : Int32} (result : WriteResult)
    (hl : len.toInt = data.length) :
    Passes c data (c.send p data len result) ∧ InStep (c.send p data len result).2.1 := by
  have hv : Call.Valid (.send data len result) := ⟨by omega, by omega⟩
  have hk := send_ok (p := p) h hv
  refine ⟨⟨wire_of_any_fault (acts_send p c data len result), ?_, .inl hk.1⟩, hk.1⟩
  intro hf
  have := hk.2
  rwa [Call.sent, if_neg (by rw [hf]; exact Bool.false_ne_true), hl, Int.toNat_natCast, List.take_length] at this

/-- An operation that leaves the output alone, and the writing flag unless it
clears it. -/
theorem passes_of_eq {r : EPollPoller × TcpConnection × List Act} (h : c.Calm)
    (hb : r.2.1.outputBuffer_ = c.outputBuffer_)
    (hw : r.2.1.channel_.isWriting = c.channel_.isWriting ∨ r.2.1.channel_.isWriting = false)
    (ha : r.2.2.any Act.isWrite = false) : Passes c [] r := by
  have hwire : r.2.2.flatMap Act.wire = [] := by
    rw [List.flatMap_eq_nil_iff]
    intro a hm
    exact Act.wire_of_fault fun h => absurd h (List.any_eq_false.mp ha a hm)
  refine ⟨fun _ => hwire, fun _ => by rw [hwire, hb, List.nil_append, List.append_nil], ?_⟩
  rcases hw with hw | hw
  · rcases h with h | h
    · exact .inl (by rw [InStep, hb, hw]; exact h)
    · exact .inr (hw.trans h)
  · exact .inr hw

theorem handleWrite_passes (h : c.Calm) (p : EPollPoller) (result : WriteResult) :
    Passes c [] (c.handleWrite p result) := by
  rcases h with h | h
  · have hk := handleWrite_ok (p := p) h result
    exact ⟨wire_of_any_fault (acts_handleWrite p c result), fun _ => hk.2, .inl hk.1⟩
  · have hr : c.handleWrite p result = (p, c, []) := by
      unfold handleWrite
      rw [if_neg (by rw [h]; exact Bool.false_ne_true)]
    rw [hr]
    exact passes_of_eq (.inr h) rfl (.inl rfl) rfl

theorem handleClose_passes (h : c.Calm) (p : EPollPoller) : Passes c [] (c.handleClose p) := by
  unfold handleClose
  split
  · exact passes_of_eq h rfl (.inr (Channel.isWriting_disableAll ..)) rfl
  · exact passes_of_eq h rfl (.inl rfl) rfl

theorem connectDestroyed_passes (h : c.Calm) (p : EPollPoller) : Passes c [] (c.connectDestroyed p) := by
  by_cases hs : c.state_ = .kConnected
  · simp only [connectDestroyed, if_pos hs]
    exact passes_of_eq h rfl (.inr (Channel.isWriting_disableAll p c.channel_)) rfl
  · simp only [connectDestroyed, if_neg hs]
    exact passes_of_eq h rfl (.inl rfl) rfl

theorem handleRead_passes (h : c.Calm) (p : EPollPoller) (result : ReadvResult) :
    Passes c [] (c.handleRead p result) := by
  unfold handleRead
  dsimp only
  split
  · exact passes_of_eq h rfl (.inl rfl) rfl
  · split
    · have hp := handleClose_passes (c := { c with inputBuffer_ := (c.inputBuffer_.readFd result).2.2 }) h p
      exact ⟨hp.fault, hp.whole, hp.calm⟩
    · exact passes_of_eq h rfl (.inl rfl) rfl

/-- A callback sends nothing new. -/
theorem handler_passes (h : c.Calm) (p : EPollPoller) (cb : Callback) (readv : ReadvResult) (write : WriteResult) :
    Passes c [] (TcpServer.handler readv write cb p c) := by
  cases cb with
  | closeCallback_ => exact handleClose_passes h p
  | errorCallback_ => exact passes_of_eq h rfl (.inl rfl) rfl
  | readCallback_ => exact handleRead_passes h p readv
  | writeCallback_ => exact handleWrite_passes h p write

/-- A callback keeps the writing flag in step, unless it closes the
connection. -/
theorem handler_inStep (h : InStep c) (p : EPollPoller) (cb : Callback) (readv : ReadvResult) (write : WriteResult)
    (hc : Act.closeCallback ∉ (TcpServer.handler readv write cb p c).2.2) :
    InStep (TcpServer.handler readv write cb p c).2.1 := by
  have hclose : ∀ {c : TcpConnection}, InStep c → Act.closeCallback ∉ (c.handleClose p).2.2 →
      InStep (c.handleClose p).2.1 := by
    intro c h hc
    unfold handleClose at hc ⊢
    split at hc
    · exact absurd (by simp) hc
    · rw [if_neg (by assumption)]
      exact h
  cases cb with
  | closeCallback_ => exact hclose h hc
  | errorCallback_ => exact h
  | readCallback_ =>
    simp only [TcpServer.handler] at hc ⊢
    unfold handleRead at hc ⊢
    dsimp only at hc ⊢
    split at hc
    · rw [if_pos (by assumption)]
      exact h
    · rw [if_neg (by assumption)]
      split at hc
      · rw [if_pos (by assumption)]
        exact hclose (c := { c with inputBuffer_ := (c.inputBuffer_.readFd readv).2.2 }) h hc
      · rw [if_neg (by assumption)]
        exact h
  | writeCallback_ => exact (handleWrite_ok h write).1

end TcpConnection

namespace WireConn

variable {w : WireConn} {owed rest : List Byte}

/-- A connection to which the drain thread owes some bytes. Without a fault the
bytes taken, buffered and owed are the frames; with one, those taken are the
first of them. -/
structure Framed (w : WireConn) (owed : List Byte) : Prop where
  whole : w.acts.any Act.fault = false → w.wired ++ w.conn.outputBuffer_.contents ++ owed = w.frames
  taken : FaultsStay w.acts → w.wired <+: w.frames
  calm : w.conn.Calm

/-- An operation of the connection that sends `sent`. -/
theorem Framed.passes {sent : List Byte} (h : w.Framed (sent ++ rest))
    {r : EPollPoller × TcpConnection × List Act} (hr : w.conn.Passes sent r) :
    Framed { w with conn := r.2.1, acts := w.acts ++ r.2.2 } rest := by
  have hwired : ∀ acts : List Act, (w.acts ++ acts).flatMap Act.wire = w.wired ++ acts.flatMap Act.wire := fun _ =>
    List.flatMap_append
  have whole : (w.acts ++ r.2.2).any Act.fault = false →
      (w.acts ++ r.2.2).flatMap Act.wire ++ r.2.1.outputBuffer_.contents ++ rest = w.frames := by
    intro hf
    rw [List.any_append, Bool.or_eq_false_iff] at hf
    rw [hwired, List.append_assoc, List.append_assoc w.wired, ← List.append_assoc (r.2.2.flatMap _),
      hr.whole hf.2, ← h.whole hf.1]
    simp only [List.append_assoc]
  refine ⟨whole, ?_, hr.calm⟩
  intro hs
  obtain ⟨hs₁, -, hs₂⟩ := List.pairwise_append.mp hs
  cases hf : (w.acts ++ r.2.2).any Act.fault with
  | false => exact ⟨r.2.1.outputBuffer_.contents ++ rest, (List.append_assoc ..).symm.trans (whole hf)⟩
  | true =>
    have hnil : r.2.2.flatMap Act.wire = [] := by
      rw [List.any_append, Bool.or_eq_true] at hf
      rcases hf with hf | hf
      · obtain ⟨a, ha, hfa⟩ := List.any_eq_true.mp hf
        exact List.flatMap_eq_nil_iff.mpr fun b hb => Act.wire_of_fault (hs₂ a ha b hb hfa)
      · exact hr.fault hf
    show (w.acts ++ r.2.2).flatMap Act.wire <+: w.frames
    rw [hwired, hnil, List.append_nil]
    exact h.taken hs₁

/-- A message is taken out of the queue, and its frame is owed. -/
theorem Framed.dequeue (h : w.Framed []) (m : Message) :
    Framed { w with dequeued := w.dequeued ++ [m] } (frame m) := by
  have hframes : (w.dequeued ++ [m]).flatMap frame = w.frames ++ frame m := by
    rw [List.flatMap_append, List.flatMap_singleton]
    rfl
  refine ⟨fun hf => ?_, fun hs => ?_, h.calm⟩
  · show w.wired ++ _ ++ _ = (w.dequeued ++ [m]).flatMap frame
    rw [hframes, ← h.whole hf, List.append_nil]
  · show w.wired <+: (w.dequeued ++ [m]).flatMap frame
    rw [hframes]
    exact (h.taken hs).trans (List.prefix_append ..)

/-- A connection just established. -/
theorem framed_established (p : EPollPoller) (this : Nat) (sockfd : Fd) :
    let r := (TcpConnection.new this sockfd).connectEstablished p
    Framed ⟨r.2.1, r.2.2, []⟩ [] := by
  intro r
  obtain ⟨h, hnil⟩ := TcpConnection.established_inStep p this sockfd
  refine ⟨fun _ => ?_, fun _ => List.prefix_rfl, .inl h⟩
  show [] ++ r.2.1.outputBuffer_.contents ++ [] = []
  rw [List.append_nil]
  exact hnil

end WireConn

namespace SenderWire

open Sender

/-! ## The messages -/

/-- The length of a message is an `int`. -/
def Short (m : Numbered) : Prop := m.bytes.length < 2 ^ 31

/-- All messages of the sender are short. -/
def AllShort (s : Sender) : Prop := ∀ m ∈ s.stream_buffer_ ++ inHand s.drain, Short m

theorem short_of_room {s : Sender} {buf : Message} (h : s.Room capacity buf) (id : Nat) : Short ⟨id, buf⟩ := by
  unfold Sender.Room capacity at h
  show buf.length < 2 ^ 31
  omega

variable {t : Sender}

/-- Messages come into the queue through `write_buffer` only. -/
theorem allShort_step (h : AllShort t) (a : Sender.Action) : AllShort (t.step capacity a) := by
  cases a with
  | write i buf =>
    simp only [step]
    split
    · intro m hm
      dsimp only at hm
      split at hm
      · rename_i hr
        rw [decide_eq_true_eq] at hr
        simp only [List.append_assoc, List.mem_append, List.mem_singleton] at hm
        rcases hm with hm | rfl | hm
        · exact h m (List.mem_append_left _ hm)
        · exact short_of_room hr _
        · exact h m (List.mem_append_right _ hm)
      · exact h m hm
    · exact h
  | count i =>
    simp only [step]
    split
    · intro m hm
      dsimp only at hm
      apply h m
      split at hm
      · rwa [inHand_notify] at hm
      · exact hm
    · exact h
    · exact h
  | _ =>
    unfold step callSend AllShort at *
    grind [inHand]

/-! ## What is owed -/

/-- What the drain thread has still to send of the message in its hands. -/
def owedBy : DrainPc → List Byte
  | .check (some m) | .sendLen m => frame m.bytes
  | .sendBuf m => m.bytes
  | _ => []

theorem owedBy_notify (pc : DrainPc) : owedBy (notify pc) = owedBy pc := by
  cases pc <;> rfl

/-- The steps that do not deal with the connection. -/
def Aside : Sender.Action → Prop
  | .newConnection | .removeConnection | .read | .sendLen | .sendBuf => False
  | _ => True

/-- The client gets and loses its connection in `run_one_poll()` only. -/
theorem client_step {a : Sender.Action} (hn : a ≠ .newConnection) (hr : a ≠ .removeConnection) :
    (t.step capacity a).client_ = t.client_ := by
  cases a with
  | newConnection => exact absurd rfl hn
  | removeConnection => exact absurd rfl hr
  | _ =>
    unfold step callSend
    grind

/-- A message is let go only without a connection. -/
theorem owedBy_step (hc : t.client_.connect_ = true) {a : Sender.Action} (ha : Aside a) :
    owedBy (t.step capacity a).drain = owedBy t.drain := by
  cases a with
  | newConnection | removeConnection | read | sendLen | sendBuf => exact absurd ha id
  | count i =>
    simp only [step]
    split
    · dsimp only
      split
      · exact owedBy_notify _
      · rfl
    · rfl
    · rfl
  | _ =>
    unfold step
    grind [owedBy, TcpClient.isConnected]

/-- What is owed to connection `c`. -/
def owed (connection : Option Nat) (bytes : List Byte) (c : Nat) : List Byte :=
  if connection = some c then bytes else []

/-- Every connection has sent frames. -/
def AllFramed (conns : Nat → Option WireConn) (connection : Option Nat) (bytes : List Byte) : Prop :=
  ∀ c w, conns c = some w → w.Framed (owed connection bytes c)

/-- What holds before every step. -/
structure Inv (s : SenderWire) : Prop where
  short : AllShort s.sender
  current : ∀ c, s.sender.client_.connection_ = some c →
    s.sender.client_.connect_ = true ∧ ∃ w, s.conns c = some w ∧ w.conn.InStep
  framed : AllFramed s.conns s.sender.client_.connection_ (owedBy s.sender.drain)

variable {s : SenderWire} {c : Nat} {w : WireConn} {conns : Nat → Option WireConn}

theorem owed_nil (connection : Option Nat) (c : Nat) : owed connection [] c = [] := ite_self _

/-- One connection changes, and to the others nothing more is owed. -/
theorem AllFramed.update {connection connection' : Option Nat} {bytes bytes' : List Byte}
    (h : AllFramed conns connection bytes) (hw : w.Framed (owed connection' bytes' c))
    (ho : ∀ d ≠ c, owed connection' bytes' d = owed connection bytes d) :
    AllFramed (Function.update conns c (some w)) connection' bytes' := by
  intro d v hd
  by_cases hdc : d = c
  · subst hdc
    rw [Function.update_self, Option.some.injEq] at hd
    exact hd ▸ hw
  · rw [Function.update_of_ne hdc] at hd
    rw [ho d hdc]
    exact h d v hd

theorem start_inv (epoller_ : EPollPoller) : Inv (start epoller_) where
  short m hm := absurd hm List.not_mem_nil
  current c hc := absurd hc (by simp [start, Sender.start, TcpClient.new, TcpClient.enableRetry])
  framed c w hw := absurd hw (by simp [start])

/-- The sender goes on, and owes its connection what it did. -/
theorem Inv.proceed (h : Inv s) (hs : AllShort t) (hc : t.client_ = s.sender.client_)
    (ho : ∀ c, s.sender.client_.connection_ = some c → owedBy t.drain = owedBy s.sender.drain) :
    Inv { s with sender := t } := by
  refine ⟨hs, ?_, ?_⟩
  · show ∀ c, t.client_.connection_ = some c → _
    rw [hc]
    exact h.current
  · intro c w hw
    show w.Framed (owed t.client_.connection_ (owedBy t.drain) c)
    have hf := h.framed c w hw
    rw [hc]
    unfold owed at hf ⊢
    split at hf
    · rename_i hcur
      rwa [if_pos hcur, ho c hcur]
    · rename_i hcur
      rwa [if_neg hcur]

/-- The current connection changes, stays in step, and is owed what the sender
has not sent yet. -/
theorem Inv.onCurrent (h : Inv s) (hcur : s.sender.client_.connection_ = some c) (hs : AllShort t)
    (hc : t.client_ = s.sender.client_) (hw : w.conn.InStep) (hf : w.Framed (owedBy t.drain))
    (epoller_ : EPollPoller) : Inv ⟨t, epoller_, Function.update s.conns c (some w)⟩ := by
  refine ⟨hs, ?_, ?_⟩
  · intro d hd
    rw [show (SenderWire.sender ⟨t, epoller_, _⟩).client_ = s.sender.client_ from hc, hcur, Option.some.injEq] at hd
    subst hd
    refine ⟨?_, w, Function.update_self .., hw⟩
    show t.client_.connect_ = true
    rw [hc]
    exact (h.current c hcur).1
  · refine h.framed.update ?_ ?_
    · show w.Framed (owed t.client_.connection_ (owedBy t.drain) c)
      rw [hc, owed, if_pos hcur]
      exact hf
    · intro d hd
      have hne : ¬ s.sender.client_.connection_ = some d := by
        rw [hcur, Option.some.injEq]
        exact fun he => hd he.symm
      show owed t.client_.connection_ _ d = _
      rw [hc, owed, owed, if_neg hne, if_neg hne]

/-! ## One step -/

theorem Inv.dequeue (h : Inv s) (hcur : s.sender.client_.connection_ = some c) (hs : AllShort t)
    (hc : t.client_ = s.sender.client_) {m : Message} (hb : owedBy s.sender.drain = []) (ho : owedBy t.drain = frame m) :
    Inv ({ s with sender := t }.dequeue c m) := by
  obtain ⟨-, w, hw, hin⟩ := h.current c hcur
  have hf := h.framed c w hw
  rw [hb, owed_nil] at hf
  rw [SenderWire.dequeue, show ({ s with sender := t } : SenderWire).conns c = some w from hw]
  exact h.onCurrent (w := { w with dequeued := w.dequeued ++ [m] }) hcur hs hc hin (ho ▸ hf.dequeue m) s.epoller_

theorem Inv.send (h : Inv s) (hcur : s.sender.client_.connection_ = some c) (hs : AllShort t)
    (hc : t.client_ = s.sender.client_) {data : List Byte} {len : Int32} (hl : len.toInt = data.length)
    (ho : owedBy s.sender.drain = data ++ owedBy t.drain) (result : WriteResult) :
    Inv ({ s with sender := t }.onConn c fun p conn => conn.send p data len result) := by
  obtain ⟨-, w, hw, hin⟩ := h.current c hcur
  have hf := h.framed c w hw
  rw [owed, if_pos hcur, ho] at hf
  obtain ⟨hp, hin'⟩ := TcpConnection.send_passes hin s.epoller_ result hl
  rw [onConn, show ({ s with sender := t } : SenderWire).conns c = some w from hw]
  exact h.onCurrent hcur hs hc hin' (hf.passes hp) _

theorem Inv.read (h : Inv s) (result : WriteResult) : Inv (s.thread .read result) := by
  have hs := allShort_step h.short .read
  simp only [SenderWire.thread]
  split
  · rename_i m q c hd hq hcur
    have ht : s.sender.step capacity .read = { s.sender with stream_buffer_ := q, drain := .check (some m) } := by
      simp only [step, hd, hq]
    rw [ht] at hs ⊢
    exact h.dequeue hcur hs rfl (by rw [hd]; rfl) rfl
  · rename_i hne
    refine h.proceed hs (client_step Sender.Action.noConfusion Sender.Action.noConfusion) ?_
    intro c hcur
    simp only [step]
    split
    · rename_i hd
      split
      · rw [hd]; rfl
      · rename_i m q hq
        exact absurd hcur (hne m q c hd hq)
    · rfl

theorem Inv.sendLen (h : Inv s) (result : WriteResult) : Inv (s.thread .sendLen result) := by
  have hs := allShort_step h.short .sendLen
  simp only [SenderWire.thread]
  split
  · rename_i m c hd hcur
    have ht : (s.sender.step capacity .sendLen).drain = .sendBuf m := by
      simp only [step, hd, callSend, hcur]
    refine h.send hcur hs (client_step Sender.Action.noConfusion Sender.Action.noConfusion) rfl ?_ result
    rw [ht, hd]
    rfl
  · rename_i hne
    refine h.proceed hs (client_step Sender.Action.noConfusion Sender.Action.noConfusion) ?_
    intro c hcur
    simp only [step]
    split
    · rename_i m hd
      exact absurd hcur (hne m c hd)
    · rfl

theorem Inv.sendBuf (h : Inv s) (result : WriteResult) : Inv (s.thread .sendBuf result) := by
  have hs := allShort_step h.short .sendBuf
  simp only [SenderWire.thread]
  split
  · rename_i m c hd hcur
    have ht : (s.sender.step capacity .sendBuf).drain = .decrement := by
      simp only [step, hd, callSend, hcur]
    have hm : Short m := h.short m (by rw [hd]; exact List.mem_append_right _ (List.mem_singleton.mpr rfl))
    refine h.send hcur hs (client_step Sender.Action.noConfusion Sender.Action.noConfusion) (toInt_lenInt hm) ?_ result
    rw [ht, hd]
    exact (List.append_nil _).symm
  · rename_i hne
    refine h.proceed hs (client_step Sender.Action.noConfusion Sender.Action.noConfusion) ?_
    intro c hcur
    simp only [step]
    split
    · rename_i m hd
      exact absurd hcur (hne m c hd)
    · rfl

theorem Inv.thread (h : Inv s) (a : Sender.Action) (result : WriteResult) : Inv (s.thread a result) := by
  have haside : Aside a → Inv { s with sender := s.sender.step capacity a } := by
    intro ha
    have hn : a ≠ .newConnection := by rintro rfl; exact ha
    have hr : a ≠ .removeConnection := by rintro rfl; exact ha
    exact h.proceed (allShort_step h.short a) (client_step hn hr) fun c hcur => owedBy_step (h.current c hcur).1 ha
  cases a with
  | newConnection | removeConnection => exact h
  | read => exact h.read result
  | sendLen => exact h.sendLen result
  | sendBuf => exact h.sendBuf result
  | _ => exact haside trivial

theorem Inv.newConnection (h : Inv s) (sockfd : Fd) : Inv (s.newConnection sockfd) := by
  unfold SenderWire.newConnection
  split
  · rename_i hd
    have ht : s.sender.step capacity .newConnection =
        { s.sender with client_ := s.sender.client_.newConnection } := by
      simp only [step, hd]
    refine ⟨allShort_step h.short .newConnection, ?_, ?_⟩
    · intro c hc
      simp only [ht, TcpClient.newConnection, Option.some.injEq] at hc ⊢
      subst hc
      exact ⟨trivial, _, Function.update_self .., (TcpConnection.established_inStep ..).1⟩
    · have hb : ∀ cur c, owed cur (owedBy s.sender.drain) c = [] := fun cur c => by rw [hd]; exact owed_nil cur c
      simp only [ht]
      refine h.framed.update ?_ ?_
      · rw [hb]
        exact WireConn.framed_established ..
      · intro d _
        rw [hb, hb]
  · exact h

/-- In `run_one_poll()`, an operation of a connection that sends nothing new. -/
theorem AllFramed.onConn {connection : Option Nat} (h : AllFramed s.conns connection [])
    {op : EPollPoller → TcpConnection → EPollPoller × TcpConnection × List Act}
    (hop : ∀ p (conn : TcpConnection), conn.Calm → conn.Passes [] (op p conn)) (c : Nat) :
    AllFramed (s.onConn c op).conns connection [] := by
  unfold SenderWire.onConn
  split
  · exact h
  · rename_i w hw
    refine h.update ?_ fun _ _ => rfl
    have hf := h c w hw
    rw [owed_nil, ← List.append_nil ([] : List Byte)] at hf
    rw [owed_nil]
    exact hf.passes (hop _ _ hf.calm)

/-- Where nothing is owed, it does not matter which connection is current. -/
theorem AllFramed.of_current {connection connection' : Option Nat} (h : AllFramed conns connection []) :
    AllFramed conns connection' [] := by
  intro c w hw
  rw [owed_nil, ← owed_nil connection c]
  exact h c w hw

theorem sender_onConn (s : SenderWire) (c : Nat)
    (op : EPollPoller → TcpConnection → EPollPoller × TcpConnection × List Act) :
    (s.onConn c op).sender = s.sender := by
  unfold onConn
  split <;> rfl

/-- After `removeConnection` there is no current connection. -/
theorem inv_removeConnection (hs : AllShort s.sender) (hd : s.sender.drain = .poll)
    (hf : AllFramed s.conns s.sender.client_.connection_ []) (c : Nat) : Inv (s.removeConnection c) := by
  have ht : s.sender.step capacity .removeConnection =
      { s.sender with client_ := s.sender.client_.removeConnection } := by
    simp only [step, hd]
  have hf' : AllFramed (s.removeConnection c).conns s.sender.client_.connection_ [] :=
    AllFramed.onConn (s := { s with sender := s.sender.step capacity .removeConnection }) hf
      (fun p conn hc => TcpConnection.connectDestroyed_passes hc p) c
  have hsender : (s.removeConnection c).sender = s.sender.step capacity .removeConnection := sender_onConn ..
  refine ⟨?_, ?_, ?_⟩
  · rw [hsender]
    exact allShort_step hs .removeConnection
  · intro d hcur
    rw [hsender, ht] at hcur
    cases hcur
  · rw [hsender, ht]
    show AllFramed _ none (owedBy s.sender.drain)
    rw [hd]
    exact hf'.of_current

theorem Inv.callback (h : Inv s) (c : Nat) (cb : Callback) (readv : ReadvResult) (write : WriteResult) :
    Inv (s.callback c cb readv write) := by
  unfold SenderWire.callback
  split
  · rename_i w hd hw
    have hf : AllFramed s.conns s.sender.client_.connection_ [] := by
      have := h.framed
      rwa [hd] at this
    have hf₁ := hf.onConn (fun p conn hc => TcpConnection.handler_passes hc p cb readv write) c
    dsimp only
    split
    · refine inv_removeConnection ?_ ?_ (by rw [sender_onConn]; exact hf₁) c
      · rw [sender_onConn]; exact h.short
      · rw [sender_onConn]; exact hd
    · rename_i hclose
      refine ⟨?_, ?_, ?_⟩
      · rw [sender_onConn]
        exact h.short
      · intro d hcur
        rw [sender_onConn] at hcur ⊢
        obtain ⟨hconn, v, hv, hin⟩ := h.current d hcur
        refine ⟨hconn, ?_⟩
        simp only [onConn, hw]
        by_cases hdc : d = c
        · subst hdc
          rw [Function.update_self]
          rw [hw, Option.some.injEq] at hv
          subst hv
          exact ⟨_, rfl, TcpConnection.handler_inStep hin s.epoller_ cb readv write hclose⟩
        · rw [Function.update_of_ne hdc]
          exact ⟨v, hv, hin⟩
      · rw [sender_onConn, hd]
        exact hf₁
  · exact h

theorem step_inv (h : Inv s) (a : Action) : Inv (machine.step s a).1 := by
  cases a with
  | thread a result => exact h.thread a result
  | newConnection sockfd => exact h.newConnection sockfd
  | callback c cb readv write => exact h.callback c cb readv write
  | others epoller_ => exact ⟨h.short, h.current, h.framed⟩

/-- The wire of every connection stays framed: in every run, whatever `write`
returns, whatever callbacks are called and however often the connection is lost
and made again, the bytes the kernel took on a connection are a prefix of the
frames of the messages taken out of the queue while it was the current one, in
their order, if a socket keeps failing once it has failed with `EPIPE` or
`ECONNRESET`. -/
theorem framed_ok (epoller_ : EPollPoller) (actions : List Action) (c : Nat) (w : WireConn)
    (hw : (machine.final (start epoller_) actions).conns c = some w) (hs : FaultsStay w.acts) :
    w.acts.flatMap Act.wire <+: w.dequeued.flatMap frame := by
  have h : Inv (machine.final (start epoller_) actions) :=
    Machine.always (I := Inv) (fun _ a h => step_inv h a) actions _ (start_inv epoller_)
  exact (h.framed c w hw).taken hs

/-- One message of thread 0 goes to the current connection, with these results
of the two writes. -/
def passMessage (buf : Message) (len bytes : WriteResult) : List Action :=
  [.thread (.write 0 buf) len, .thread (.count 0) len, .thread (.ret 0) len, .thread .polled len, .thread .test len,
    .thread .read len, .thread .check len, .thread .sendLen len, .thread .sendBuf bytes, .thread .decrement bytes]

/-- A short write of the length, then of what is buffered, and then the peer
resets the connection; the next message goes to the next connection. -/
def resetRun : List Action :=
  .newConnection 7 :: passMessage [1, 2, 3] (.accepted 2) (.accepted 9) ++
    [.callback 1 .writeCallback_ (.ok []) (.accepted 3),
      .callback 1 .writeCallback_ (.ok []) (.error ECONNRESET ECONNRESET)] ++
    passMessage [4] (.error EWOULDBLOCK EWOULDBLOCK) (.accepted 9) ++
    [.callback 1 .writeCallback_ (.ok []) (.error EPIPE EPIPE),
      .callback 1 .closeCallback_ (.ok []) (.error EPIPE EPIPE), .newConnection 8] ++
    passMessage [5, 6] (.accepted 4) (.accepted 1)

/-- What the first connection of `resetRun` does. -/
def resetActs : List Act :=
  [.connectionCallback .kConnected, .write [3, 0, 0, 0] (.accepted 2), .write [0, 0, 1, 2, 3] (.accepted 3),
    .write [2, 3] (.error ECONNRESET ECONNRESET), .write [2, 3, 1, 0, 0, 0, 4] (.error EPIPE EPIPE),
    .handleClose, .connectionCallback .kDisconnected, .closeCallback]

theorem framed_ok_resetRun :
    (∃ w, (machine.final (start .new) resetRun).conns 1 = some w ∧ w.acts = resetActs ∧ FaultsStay resetActs) ∧
      resetActs.flatMap Act.wire <+: [[1, 2, 3], [4]].flatMap frame := by
  have h : ((machine.final (start .new) resetRun).conns 1).map (fun w => (w.acts, w.dequeued)) =
      some (resetActs, [[1, 2, 3], [4]]) := by
    decide +kernel
  have hs : FaultsStay resetActs := by decide
  obtain ⟨w, hw, heq⟩ := Option.map_eq_some_iff.mp h
  rw [Prod.mk.injEq] at heq
  obtain ⟨ha, hd⟩ := heq
  refine ⟨⟨w, hw, ha, hs⟩, ?_⟩
  rw [← ha, ← hd]
  exact framed_ok .new resetRun 1 w hw (ha ▸ hs)

end SenderWire

end Ydx
