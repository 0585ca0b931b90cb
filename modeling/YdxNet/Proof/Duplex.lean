import YdxNet.Proof.GracefulClose

/-!
# Two ends of a connection

Both ends are connections of this library, which send, shut down and read as they like. The
network cuts the bytes of each direction anywhere and keeps their order, and reports the end
of the input when the other end has shut down or closed its socket and all its bytes have
been read. What one end has received is always the beginning of what the other has sent; at
the end of the input the rest is what the other end still has in its buffer, and there is none
if the other end has not found the end of its own input (`nothing_lost_at_end`).
-/

namespace Ydx

namespace TcpConnection

open Buffer

/-! ## The system -/

/-- One end. -/
structure End where
  poller : EPollPoller
  conn : TcpConnection
  /-- What it has done to the outside. -/
  acts : List Act
  /-- The data of its sends, without those that failed. -/
  sent : List Byte
  /-- How many bytes have arrived from the other end. -/
  arrived : Nat
  /-- What the program has taken out of `inputBuffer_`. -/
  taken : List Byte
  /-- `readv` has returned 0. -/
  ended : Bool
  /-- The socket is closed. -/
  closed : Bool

namespace End

/-- The bytes that the kernel took. -/
def wired (e : End) : List Byte := e.acts.flatMap Act.wire

/-- No more bytes will come from this end. -/
def finished (e : End) : Bool := decide (.shutdownWrite ∈ e.acts) || e.closed

def received (e : End) : List Byte := e.taken ++ e.conn.inputBuffer_.contents

/-- A function of the connection runs. -/
def call (e : End) (c : Call) : End :=
  let r := machine.step (e.poller, e.conn) c
  { e with poller := r.1.1, conn := r.1.2, acts := e.acts ++ r.2, sent := e.sent ++ c.sent r.2 }

/-- What `readv` gives: at most `n` of the bytes on their way, or the end of the input. -/
def readv (e peer : End) (n : Nat) : ReadvResult :=
  if (peer.wired.drop e.arrived).take n ≠ [] then .ok ((peer.wired.drop e.arrived).take n)
  else if peer.wired.length ≤ e.arrived ∧ peer.finished then .ok []
  else .error EWOULDBLOCK

/-- The loop calls `handleRead()`. -/
def read (e peer : End) (n : Nat) : End :=
  let r := e.conn.handleRead e.poller (e.readv peer n)
  { e with
    poller := r.1
    conn := r.2.1
    acts := e.acts ++ r.2.2
    arrived := e.arrived + ((peer.wired.drop e.arrived).take n).length
    ended := decide (e.readv peer n = .ok []) }

/-- The program takes `n` bytes out of `inputBuffer_`. -/
def take (e : End) (n : Nat) : End :=
  { e with
    conn := { e.conn with inputBuffer_ := e.conn.inputBuffer_.retrieve n }
    taken := e.taken ++ e.conn.inputBuffer_.contents.take n }

/-- `connectDestroyed()`, and the destructors of the connection and its socket. -/
def destroy (e : End) : End :=
  let r := e.conn.connectDestroyed e.poller
  { e with poller := r.1, conn := r.2.1, acts := e.acts ++ r.2.2, closed := true }

end End

/-- The two ends, `true` and `false`. -/
abbrev Duplex := Bool → End

namespace Duplex

inductive Action
  | call (i : Bool) (c : Call)
  | read (i : Bool) (n : Nat)
  | take (i : Bool) (n : Nat)
  | destroy (i : Bool)
  deriving DecidableEq

/-- One step. The channel of an end that has found the end of the input is not polled for input, and
an end whose socket is closed is gone. -/
def step (s : Duplex) : Action → Duplex
  | .call i c => if (s i).closed then s else Function.update s i ((s i).call c)
  | .read i n => if (s i).ended then s else Function.update s i ((s i).read (s !i) n)
  | .take i n => Function.update s i ((s i).take n)
  | .destroy i => if (s i).ended then Function.update s i (s i).destroy else s

/-- Both ends and the network, interleaved in any way. -/
def machine : Machine Duplex Action Unit where
  step s a := (s.step a, ())

/-- Two established connections. -/
def start (epoller_ : Bool → EPollPoller) (this : Bool → Nat) (sockfd : Bool → Fd) : Duplex := fun i =>
  let pc := established (epoller_ i) (this i) (sockfd i)
  ⟨pc.1, pc.2, [], [], 0, [], false, false⟩

/-- A call that the program or the loop makes, with what the kernel does: it refuses what is written
behind `shutdownWrite` with `EPIPE`, and `printf` leaves this `errno` alone. -/
def Sound (shut : Bool) : Call → Prop
  | .send data len result =>
    0 ≤ len.toInt ∧ len.toInt.toNat ≤ data.length ∧ (shut = true → result = .error EPIPE EPIPE)
  | .handleWrite result => shut = true → result = .error EPIPE EPIPE
  | .handleRead _ => False
  | .shutdown _ | .shutdownInLoop => True

/-- The calls are such calls. -/
def Undisturbed (s : Duplex) : Action → Prop
  | .call i c => Sound (decide (.shutdownWrite ∈ (s i).acts)) c
  | _ => True

instance (shut : Bool) : DecidablePred (Sound shut)
  | .send .. => inferInstanceAs (Decidable (_ ∧ _ ∧ (_ → _)))
  | .handleWrite _ => inferInstanceAs (Decidable (_ → _))
  | .handleRead _ => inferInstanceAs (Decidable False)
  | .shutdown _ | .shutdownInLoop => inferInstanceAs (Decidable True)

instance (s : Duplex) : ∀ a, Decidable (Undisturbed s a)
  | .call .. => inferInstanceAs (Decidable (Sound _ _))
  | .read .. | .take .. | .destroy _ => inferInstanceAs (Decidable True)

end Duplex

/-! ## A call -/

variable {p : EPollPoller} {c : TcpConnection} {shut : Bool} {a : Call}

theorem Duplex.Sound.valid (h : Duplex.Sound shut a) : a.Valid := by
  cases a with
  | send data len result => exact ⟨h.1, h.2.1⟩
  | handleRead result => exact h.elim
  | handleWrite result | shutdown inLoop | shutdownInLoop => trivial

/-- Only what is buffered decides what `send` adds to the buffer. -/
theorem outputBuffer_send (p : EPollPoller) (c : TcpConnection) (channel_ : Channel) (data : List Byte) (len : Int32)
    (result : WriteResult) :
    (c.send p data len result).2.1.outputBuffer_ =
      (TcpConnection.send p { c with channel_ := channel_ } data len result).2.1.outputBuffer_ ∧
    (c.send p data len result).2.2 = (TcpConnection.send p { c with channel_ := channel_ } data len result).2.2 := by
  have he : ∀ w, (c.enqueue p data w).2.outputBuffer_ =
      (TcpConnection.enqueue p { c with channel_ := channel_ } data w).2.outputBuffer_ := by
    intro w
    unfold enqueue
    dsimp only
    split
    · split <;> split <;> rfl
    · rfl
  unfold TcpConnection.send
  dsimp only
  split
  · exact ⟨he _, rfl⟩
  · exact ⟨he _, rfl⟩

/-- Nothing is written, and the buffer is as before. -/
theorem stream_of_eq (hg : c.outputBuffer_.Good) {c' : TcpConnection} {acts : List Act} {sent : List Byte}
    (hb : c'.outputBuffer_ = c.outputBuffer_) (ha : acts.flatMap Act.wire = []) (hn : sent = []) :
    c'.outputBuffer_.Good ∧
    acts.flatMap Act.wire ++ c'.outputBuffer_.contents = c.outputBuffer_.contents ++ sent := by
  rw [hb, ha, hn, List.append_nil]
  exact ⟨hg, rfl⟩

/-- Every call keeps the stream, also when the flag is not in step with the buffer. -/
theorem stream_step (hg : c.outputBuffer_.Good) (hs : Duplex.Sound shut a) (p : EPollPoller) :
    (machine.step (p, c) a).1.2.outputBuffer_.Good ∧
    (machine.step (p, c) a).2.flatMap Act.wire ++ (machine.step (p, c) a).1.2.outputBuffer_.contents =
      c.outputBuffer_.contents ++ a.sent (machine.step (p, c) a).2 := by
  cases a with
  | send data len result =>
    -- The channel that would be in step.
    let channel_ := if c.outputBuffer_.contents = [] then (c.channel_.disableWriting p).2 else (c.channel_.enableWriting p).2
    have hstep : InStep { c with channel_ := channel_ } := by
      refine ⟨hg, ?_⟩
      show channel_.isWriting = true ↔ c.outputBuffer_.contents ≠ []
      by_cases hn : c.outputBuffer_.contents = []
      · simp [channel_, hn]
      · simp [channel_, hn]
    obtain ⟨hb, ha⟩ := outputBuffer_send p c channel_ data len result
    have hk := send_ok (p := p) hstep hs.valid
    rw [Keeps, InStep, ← hb, ← ha] at hk
    exact ⟨hk.1.1, hk.2⟩
  | handleWrite result =>
    simp only [machine]
    by_cases hw : c.channel_.isWriting = true
    · by_cases hn : c.outputBuffer_.contents = []
      · -- Nothing is buffered, and nothing is written.
        have hr : c.outputBuffer_.readableBytes = 0 := by
          rw [(rep_iff.mpr ⟨hg, rfl⟩).readableBytes, hn]
          rfl
        have hv : ¬ result.value 0 > 0 := by cases result <;> simp [WriteResult.value]
        have ha : c.handleWrite p result = (p, c, [.write [] result]) := by
          unfold TcpConnection.handleWrite
          rw [if_pos hw, hr]
          dsimp only
          rw [if_neg hv, List.take_zero]
        rw [ha]
        exact stream_of_eq hg rfl (by cases result <;> simp [Act.wire]) rfl
      · exact ⟨(handleWrite_ok ⟨hg, iff_of_true hw hn⟩ result).1.1, (handleWrite_ok ⟨hg, iff_of_true hw hn⟩ result).2⟩
    · have ha : c.handleWrite p result = (p, c, []) := if_neg hw
      rw [ha]
      exact stream_of_eq hg rfl rfl rfl
  | handleRead result => exact hs.elim
  | shutdown inLoop =>
    refine stream_of_eq hg ?_ ?_ rfl
    · simp only [machine, TcpConnection.shutdown]
      split <;> rfl
    · simp only [machine]
      split
      · exact wire_shutdownInLoop _
      · rfl
  | shutdownInLoop => exact stream_of_eq hg rfl (wire_shutdownInLoop _) rfl

/-- Nothing is written behind `shutdownWrite`. -/
theorem wire_shut (hs : Duplex.Sound true a) (p : EPollPoller) (c : TcpConnection) :
    (machine.step (p, c) a).2.flatMap Act.wire = [] := by
  rw [List.flatMap_eq_nil_iff]
  intro act hm
  cases a with
  | send data len result =>
    obtain ⟨bytes, rfl⟩ := acts_send _ _ _ _ _ act hm
    rw [hs.2.2 rfl]
    rfl
  | handleWrite result =>
    obtain ⟨bytes, rfl⟩ := acts_handleWrite _ _ _ act hm
    rw [hs rfl]
    rfl
  | handleRead result => exact hs.elim
  | shutdown inLoop =>
    simp only [machine] at hm
    split at hm
    · exact List.flatMap_eq_nil_iff.mp (wire_shutdownInLoop _) act hm
    · cases hm
  | shutdownInLoop => exact List.flatMap_eq_nil_iff.mp (wire_shutdownInLoop _) act hm

/-- Behind `shutdownWrite`, and in the call that makes it, nothing is added to an empty buffer. -/
theorem sent_shut (hg : c.outputBuffer_.Good) (hs : Duplex.Sound shut a) (hn : c.outputBuffer_.contents = [])
    (hshut : shut = true ∨ .shutdownWrite ∈ (machine.step (p, c) a).2) : a.sent (machine.step (p, c) a).2 = [] := by
  cases a with
  | send data len result =>
    rcases hshut with hshut | hshut
    · have hr : c.outputBuffer_.readableBytes = 0 := by
        rw [(rep_iff.mpr ⟨hg, rfl⟩).readableBytes, hn]
        rfl
      have hresult := hs.2.2 hshut
      subst hresult
      have hfault : ∀ bytes, Act.fault (.write bytes (.error EPIPE EPIPE)) = true := fun _ => rfl
      simp [machine, TcpConnection.send, hr, Call.sent, hfault]
    · obtain ⟨bytes, hw⟩ := acts_send _ _ _ _ _ _ hshut
      cases hw
  | handleWrite result | handleRead result | shutdown inLoop | shutdownInLoop => rfl

/-- A call does not touch the input. -/
theorem inputBuffer_step (hs : Duplex.Sound shut a) (p : EPollPoller) (c : TcpConnection) :
    (machine.step (p, c) a).1.2.inputBuffer_ = c.inputBuffer_ := by
  cases a with
  | send data len result =>
    have he : ∀ w, (c.enqueue p data w).2.inputBuffer_ = c.inputBuffer_ := by
      intro w
      unfold enqueue
      dsimp only
      split
      · split <;> rfl
      · rfl
    simp only [machine, TcpConnection.send]
    split
    · exact he _
    · exact he _
  | handleWrite result =>
    simp only [machine, TcpConnection.handleWrite]
    split
    · split
      · split <;> rfl
      · rfl
    · rfl
  | handleRead result => exact hs.elim
  | shutdown inLoop =>
    simp only [machine, TcpConnection.shutdown]
    split <;> rfl
  | shutdownInLoop => rfl

/-- A call does not close the connection. -/
theorem closeCallback_step (hs : Duplex.Sound shut a) (p : EPollPoller) (c : TcpConnection) :
    .closeCallback ∉ (machine.step (p, c) a).2 := by
  have hshutdown : ∀ c : TcpConnection, .closeCallback ∉ c.shutdownInLoop := by
    intro c
    unfold TcpConnection.shutdownInLoop
    split <;> simp
  intro hm
  cases a with
  | send data len result =>
    obtain ⟨bytes, hw⟩ := acts_send _ _ _ _ _ _ hm
    cases hw
  | handleWrite result =>
    obtain ⟨bytes, hw⟩ := acts_handleWrite _ _ _ _ hm
    cases hw
  | handleRead result => exact hs.elim
  | shutdown inLoop =>
    simp only [machine] at hm
    split at hm
    · exact hshutdown _ hm
    · cases hm
  | shutdownInLoop => exact hshutdown _ hm

/-- `shutdown()` is the only call that changes the state, of a connection that is up. -/
theorem state_step (hs : Duplex.Sound shut a) (p : EPollPoller) (c : TcpConnection) :
    (machine.step (p, c) a).1.2.state_ = c.state_ ∨
      c.state_ = .kConnected ∧ (machine.step (p, c) a).1.2.state_ = .kDisconnecting := by
  cases a with
  | send data len result => exact .inl (state_send ..)
  | handleWrite result => exact .inl (state_handleWrite ..)
  | handleRead result => exact hs.elim
  | shutdown inLoop =>
    simp only [machine, TcpConnection.shutdown]
    split
    · exact .inr ⟨‹_›, rfl⟩
    · exact .inl rfl
  | shutdownInLoop => exact .inl rfl

/-! ## One end -/

namespace End

variable {e e' peer peer' : End}

/-- What the end has sent is on its way or in its buffer, and the buffer is empty when it has shut down,
unless it found the end of its input before. -/
structure Sends (e : End) : Prop where
  good : e.conn.outputBuffer_.Good
  stream : e.wired ++ e.conn.outputBuffer_.contents = e.sent
  inStep : e.ended = false → InStep e.conn
  drained : e.ended = false → .shutdownWrite ∈ e.acts → e.conn.outputBuffer_.contents = []

/-- What the end has received are the first bytes that the other one has given to the kernel, and all
of them at the end of the input. -/
structure Receives (peer e : End) : Prop where
  good : e.conn.inputBuffer_.Good
  input : e.received = peer.wired.take e.arrived
  arrived : e.arrived ≤ peer.wired.length
  atEnd : e.ended = true → peer.wired.length ≤ e.arrived ∧ peer.finished = true

/-- `closeCallback_` is called once, at the end of the input. -/
structure Closes (e : End) : Prop where
  up : e.ended = false → e.conn.state_ = .kConnected ∨ e.conn.state_ = .kDisconnecting
  down : e.ended = true → e.conn.state_ = .kDisconnected
  once : e.acts.count .closeCallback = if e.ended then 1 else 0
  closed : e.closed = true → e.ended = true

theorem Sends.call (h : Sends e) (hs : Duplex.Sound (decide (.shutdownWrite ∈ e.acts)) a) : Sends (e.call a) := by
  obtain ⟨hg, hkeeps⟩ := stream_step h.good hs e.poller
  refine ⟨hg, ?_, fun he => (step_ok (e.poller, e.conn) a (h.inStep he) hs.valid).1, fun he hm => ?_⟩
  · show (e.acts ++ _).flatMap Act.wire ++ (machine.step (e.poller, e.conn) a).1.2.outputBuffer_.contents = e.sent ++ _
    rw [List.flatMap_append, List.append_assoc, hkeeps, ← List.append_assoc, ← h.stream]
    rfl
  · -- The buffer was empty before, and nothing was added.
    have hcases := List.mem_append.mp hm
    have hnil : e.conn.outputBuffer_.contents = [] := by
      rcases hcases with hm | hm
      · exact h.drained he hm
      · exact contents_of_shutdownWrite (s := (e.poller, e.conn)) (h.inStep he) hm
    have hsent := sent_shut (p := e.poller) h.good hs hnil (hcases.imp_left fun hm => decide_eq_true hm)
    rw [hsent, List.append_nil] at hkeeps
    exact (List.append_eq_nil_iff.mp (hkeeps.trans hnil)).2

theorem Closes.call (h : Closes e) (hs : Duplex.Sound shut a) : Closes (e.call a) where
  up he := by
    rcases state_step hs e.poller e.conn with hstate | ⟨-, hstate⟩
    · exact (h.up he).imp hstate.trans hstate.trans
    · exact .inr hstate
  down he := by
    rcases state_step hs e.poller e.conn with hstate | ⟨hup, -⟩
    · exact hstate.trans (h.down he)
    · exact StateE.noConfusion (hup.symm.trans (h.down he))
  once := by
    show (e.acts ++ _).count .closeCallback = if e.ended then 1 else 0
    rw [List.count_append, List.count_eq_zero.mpr (closeCallback_step hs e.poller e.conn), Nat.add_zero]
    exact h.once
  closed := h.closed

/-- The end does something that leaves its input alone. -/
theorem Receives.same (h : Receives peer e) (hb : e'.conn.inputBuffer_ = e.conn.inputBuffer_) (ht : e'.taken = e.taken)
    (ha : e'.arrived = e.arrived) (he : e'.ended = e.ended) : Receives peer e' where
  good := by
    rw [hb]
    exact h.good
  input := by
    rw [received, hb, ht, ha]
    exact h.input
  arrived := by
    rw [ha]
    exact h.arrived
  atEnd := by
    rw [he, ha]
    exact h.atEnd

/-- What an end gives to the kernel grows, and no more when it is finished. -/
structure Grows (e e' : End) : Prop where
  wired : e.wired <+: e'.wired
  finished : e.finished = true → e'.finished = true ∧ e'.wired = e.wired

/-- The end does nothing but calls of the program. -/
theorem Grows.of_acts {more : List Act} (h : e'.acts = e.acts ++ more) (hm : more.flatMap Act.wire = [])
    (hc : e.closed = true → e'.closed = true) : Grows e e' := by
  have hw : e'.wired = e.wired := by
    rw [End.wired, End.wired, h, List.flatMap_append, hm, List.append_nil]
  refine ⟨hw ▸ List.prefix_refl _, fun hf => ⟨?_, hw⟩⟩
  rw [End.finished, Bool.or_eq_true] at hf ⊢
  refine hf.imp (fun hf => decide_eq_true ?_) hc
  rw [h]
  exact List.mem_append_left _ (of_decide_eq_true hf)

/-- More is written at the other end. -/
theorem Receives.grows (h : Receives peer e) (hg : Grows peer peer') : Receives peer' e where
  good := h.good
  input := by
    obtain ⟨more, hmore⟩ := hg.wired
    rw [← hmore, List.take_append_of_le_length h.arrived]
    exact h.input
  arrived := Nat.le_trans h.arrived hg.wired.length_le
  atEnd he := by
    obtain ⟨hle, hfin⟩ := h.atEnd he
    obtain ⟨hfin', heq⟩ := hg.finished hfin
    rw [heq]
    exact ⟨hle, hfin'⟩

theorem grows_call (e : End) (hc : e.closed = false) (hs : Duplex.Sound (decide (.shutdownWrite ∈ e.acts)) a) :
    Grows e (e.call a) where
  wired := by
    rw [wired, wired, End.call, List.flatMap_append]
    exact List.prefix_append _ _
  finished hf := by
    rw [finished, hc, Bool.or_false] at hf
    rw [hf] at hs
    refine ⟨?_, ?_⟩
    · rw [finished, Bool.or_eq_true]
      exact .inl (decide_eq_true (List.mem_append_left _ (of_decide_eq_true hf)))
    · rw [wired, wired, End.call, List.flatMap_append, wire_shut hs, List.append_nil]

/-! ## Reading -/

/-- What `readv` gives is on its way, or the end of the input. -/
theorem readv_cases (e peer : End) (n : Nat) :
    (∃ bytes, bytes ≠ [] ∧ bytes = (peer.wired.drop e.arrived).take n ∧ e.readv peer n = .ok bytes) ∨
    (peer.wired.drop e.arrived).take n = [] ∧
      (peer.wired.length ≤ e.arrived ∧ peer.finished = true ∧ e.readv peer n = .ok [] ∨
        e.readv peer n = .error EWOULDBLOCK) := by
  unfold readv
  split
  · exact .inl ⟨_, ‹_›, rfl, rfl⟩
  · refine .inr ⟨Classical.not_not.mp ‹_›, ?_⟩
    split
    · exact .inl ⟨(‹_ ∧ _› : _ ∧ _).1, (‹_ ∧ _› : _ ∧ _).2, rfl⟩
    · exact .inr rfl

/-- Bytes have arrived. -/
theorem handleRead_bytes (p : EPollPoller) (c : TcpConnection) {bytes : List Byte} (hb : bytes ≠ []) :
    c.handleRead p (.ok bytes) =
      (p, { c with inputBuffer_ := (c.inputBuffer_.readFd (.ok bytes)).2.2 }, [.messageCallback]) := by
  have hpos : 0 < bytes.length := List.length_pos_iff.mpr hb
  unfold handleRead
  dsimp only
  rw [readFd_count]
  exact if_pos (by omega)

/-- The end of the input. -/
theorem handleRead_end (p : EPollPoller) (c : TcpConnection) (hc : c.state_ = .kConnected ∨ c.state_ = .kDisconnecting) :
    ∃ channel_, c.handleRead p (.ok []) =
      ((channel_ : EPollPoller × Channel).1,
        ⟨.kDisconnected, channel_.2, (c.inputBuffer_.readFd (.ok [])).2.2, c.outputBuffer_⟩,
        [.handleClose, .connectionCallback .kDisconnected, .closeCallback]) := by
  refine ⟨c.channel_.disableAll p, ?_⟩
  unfold handleRead handleClose
  dsimp only
  rw [readFd_count, if_neg (by simp), if_pos (by simp), if_pos hc]
  rfl

/-- What `handleRead()` may do to an end that is up. -/
inductive Reads (peer e : End) : End → Prop
  /-- The message callback is called for some bytes. -/
  | bytes (b : Buffer) (more : List Byte) (hb : Rep b (e.conn.inputBuffer_.contents ++ more))
      (hmore : more = (peer.wired.drop e.arrived).take more.length) :
      Reads peer e { e with
        conn := { e.conn with inputBuffer_ := b }
        acts := e.acts ++ [.messageCallback]
        arrived := e.arrived + more.length }
  /-- The connection is closed, at the end of the input. -/
  | close (p : EPollPoller) (c : Channel) (b : Buffer) (hb : Rep b e.conn.inputBuffer_.contents)
      (hle : peer.wired.length ≤ e.arrived) (hfin : peer.finished = true) :
      Reads peer e { e with
        poller := p
        conn := ⟨.kDisconnected, c, b, e.conn.outputBuffer_⟩
        acts := e.acts ++ [.handleClose, .connectionCallback .kDisconnected, .closeCallback]
        ended := true }
  /-- Nothing is there. -/
  | nothing : Reads peer e { e with acts := e.acts ++ [] }

theorem read_cases (h : Receives peer e) (hc : Closes e) (he : e.ended = false) (n : Nat) :
    Reads peer e (e.read peer n) := by
  have hrep : Rep e.conn.inputBuffer_ e.conn.inputBuffer_.contents := rep_iff.mpr ⟨h.good, rfl⟩
  unfold End.read
  dsimp only
  rcases readv_cases e peer n with ⟨bytes, hne, hbytes, hr⟩ | ⟨hnil, ⟨hle, hfin, hr⟩ | hr⟩
  · rw [hr, handleRead_bytes _ _ hne, ← hbytes, decide_eq_false (fun h => hne (ReadvResult.ok.inj h)), ← he]
    refine .bytes _ bytes (readFd_ok hrep bytes) ?_
    have hlen : bytes.length ≤ n := by
      rw [hbytes]
      exact List.length_take_le ..
    rw [hbytes, List.length_take, List.take_eq_take_iff]
    omega
  · obtain ⟨channel_, hclose⟩ := handleRead_end e.poller e.conn (hc.up he)
    rw [hr, hclose, hnil, decide_eq_true rfl]
    have hb := readFd_ok hrep []
    rw [List.append_nil] at hb
    exact .close _ _ _ hb hle hfin
  · rw [hr, hnil]
    rw [show decide (ReadvResult.error EWOULDBLOCK = ReadvResult.ok []) = e.ended by rw [he]; rfl]
    exact .nothing

theorem Reads.sends (hr : Reads peer e e') (h : Sends e) (he : e.ended = false) : Sends e' := by
  have hw : ∀ acts : List Act, acts.flatMap Act.wire = [] →
      (e.acts ++ acts).flatMap Act.wire ++ e.conn.outputBuffer_.contents = e.sent := by
    intro acts ha
    rw [List.flatMap_append, ha, List.append_nil]
    exact h.stream
  cases hr with
  | bytes b more hb hmore =>
    exact ⟨h.good, hw _ rfl, fun _ => h.inStep he, fun _ hm => h.drained he (by simpa using hm)⟩
  | close p c b hb hle hfin =>
    exact ⟨h.good, hw _ rfl, fun hf => absurd hf Bool.noConfusion, fun hf => absurd hf Bool.noConfusion⟩
  | nothing => exact ⟨h.good, hw _ rfl, fun _ => h.inStep he, fun _ hm => h.drained he (by simpa using hm)⟩

theorem Reads.receives (hr : Reads peer e e') (h : Receives peer e) (he : e.ended = false) : Receives peer e' := by
  cases hr with
  | bytes b more hb hmore =>
    refine ⟨hb.good, ?_, ?_, fun hf => ?_⟩
    · show e.taken ++ b.contents = peer.wired.take (e.arrived + more.length)
      rw [hb.contents_eq, ← List.append_assoc, List.take_add, ← hmore]
      exact congrArg (· ++ more) h.input
    · have hlen := congrArg List.length hmore
      rw [List.length_take, List.length_drop] at hlen
      have := h.arrived
      show e.arrived + more.length ≤ _
      omega
    · exact absurd (he.symm.trans hf) Bool.false_ne_true
  | close p c b hb hle hfin =>
    refine ⟨hb.good, ?_, h.arrived, fun _ => ⟨hle, hfin⟩⟩
    show e.taken ++ b.contents = _
    rw [hb.contents_eq]
    exact h.input
  | nothing => exact h.same rfl rfl rfl rfl

theorem Reads.closes (hr : Reads peer e e') (h : Closes e) (he : e.ended = false) : Closes e' := by
  have hzero : e.acts.count .closeCallback = 0 := by
    rw [h.once, he]
    rfl
  cases hr with
  | bytes b more hb hmore =>
    refine ⟨fun _ => h.up he, h.down, ?_, h.closed⟩
    rw [List.count_append]
    exact h.once
  | close p c b hb hle hfin =>
    refine ⟨fun hf => absurd hf Bool.noConfusion, fun _ => rfl, ?_, fun _ => rfl⟩
    rw [List.count_append, hzero]
    rfl
  | nothing =>
    refine ⟨fun _ => h.up he, h.down, ?_, h.closed⟩
    rw [List.append_nil]
    exact h.once

theorem Reads.grows (hr : Reads peer e e') : Grows e e' := by
  cases hr with
  | bytes b more hb hmore => exact .of_acts rfl rfl id
  | close p c b hb hle hfin => exact .of_acts rfl rfl id
  | nothing => exact .of_acts rfl rfl id

/-! ## Taking bytes out, and the end -/

theorem Receives.take (h : Receives peer e) (n : Nat) : Receives peer (e.take n) := by
  have hrep := retrieve_ok (rep_iff.mpr ⟨h.good, rfl⟩) n
  refine ⟨hrep.good, ?_, h.arrived, h.atEnd⟩
  show (e.taken ++ e.conn.inputBuffer_.contents.take n) ++ (e.conn.inputBuffer_.retrieve n).contents = _
  rw [hrep.contents_eq, List.append_assoc, List.take_append_drop]
  exact h.input

/-- `connectDestroyed()` of a connection that is closed only takes the channel out of the poller. -/
theorem connectDestroyed_down (p : EPollPoller) (c : TcpConnection) (hc : c.state_ = .kDisconnected) :
    c.connectDestroyed p = ((c.channel_.remove p).1, { c with channel_ := (c.channel_.remove p).2 }, []) := by
  unfold connectDestroyed
  rw [if_neg (by rw [hc]; exact StateE.noConfusion)]

theorem destroy_eq (h : Closes e) (he : e.ended = true) :
    e.destroy = { e with
      poller := (e.conn.channel_.remove e.poller).1
      conn := { e.conn with channel_ := (e.conn.channel_.remove e.poller).2 }
      acts := e.acts ++ []
      closed := true } := by
  unfold destroy
  rw [connectDestroyed_down _ _ (h.down he)]

end End

/-! ## Both ends -/

namespace Duplex

variable {s : Duplex} {i : Bool} {e' : End}

/-- What holds of both ends. -/
structure Inv (s : Duplex) : Prop where
  sends : ∀ i, (s i).Sends
  receives : ∀ i, End.Receives (s !i) (s i)
  closes : ∀ i, (s i).Closes

/-- One end does something. -/
theorem Inv.update (h : Inv s) (hs : e'.Sends) (hr : End.Receives (s !i) e') (hc : e'.Closes) (hg : End.Grows (s i) e') :
    Inv (Function.update s i e') := by
  have hother : Function.update s i e' (!i) = s !i := Function.update_of_ne (Bool.not_ne_self i) ..
  have hself : Function.update s i e' i = e' := Function.update_self ..
  refine ⟨fun j => ?_, fun j => ?_, fun j => ?_⟩ <;> rcases Bool.eq_or_eq_not j i with rfl | rfl
  · rw [hself]
    exact hs
  · exact hother ▸ h.sends _
  · rw [hself, hother]
    exact hr
  · rw [hother, Bool.not_not, hself]
    have := h.receives !i
    rw [Bool.not_not] at this
    exact this.grows hg
  · rw [hself]
    exact hc
  · exact hother ▸ h.closes _

theorem inv_step (s : Duplex) (a : Action) (h : Inv s) (hu : Undisturbed s a) : Inv (machine.step s a).1 := by
  show Inv (s.step a)
  cases a with
  | call i c =>
    simp only [step]
    split
    · exact h
    · have hc : (s i).closed = false := Bool.eq_false_iff.mpr ‹_›
      exact h.update ((h.sends i).call hu) ((h.receives i).same (inputBuffer_step hu _ _) rfl rfl rfl)
        ((h.closes i).call hu) (End.grows_call _ hc hu)
  | read i n =>
    simp only [step]
    split
    · exact h
    · have he : (s i).ended = false := Bool.eq_false_iff.mpr ‹_›
      have hr := End.read_cases (h.receives i) (h.closes i) he n
      exact h.update (hr.sends (h.sends i) he) (hr.receives (h.receives i) he) (hr.closes (h.closes i) he) hr.grows
  | take i n =>
    have hs := h.sends i
    have hc := h.closes i
    exact h.update ⟨hs.good, hs.stream, hs.inStep, hs.drained⟩ ((h.receives i).take n)
      ⟨hc.up, hc.down, hc.once, hc.closed⟩ (.of_acts (List.append_nil _).symm rfl id)
  | destroy i =>
    simp only [step]
    split
    · have he : (s i).ended = true := ‹_›
      have hs := h.sends i
      have hc := h.closes i
      rw [End.destroy_eq hc he]
      refine h.update ?_ ((h.receives i).same rfl rfl rfl rfl) ?_ (.of_acts rfl rfl fun _ => rfl)
      · have hf : (s i).ended ≠ false := by rw [he]; exact Bool.noConfusion
        refine ⟨hs.good, ?_, fun hf' => absurd hf' hf, fun hf' => absurd hf' hf⟩
        show ((s i).acts ++ []).flatMap Act.wire ++ _ = _
        rw [List.append_nil]
        exact hs.stream
      · refine ⟨fun hf => absurd (he.symm.trans hf) Bool.noConfusion, hc.down, ?_, fun _ => he⟩
        rw [List.append_nil]
        exact hc.once
    · exact h

theorem start_inv (epoller_ : Bool → EPollPoller) (this : Bool → Nat) (sockfd : Bool → Fd) :
    Inv (start epoller_ this sockfd) := by
  have hstep := fun i => established_inStep (epoller_ i) (this i) (sockfd i)
  refine ⟨fun i => ⟨(hstep i).1.1, ?_, fun _ => (hstep i).1, fun _ hm => ?_⟩, fun i => ⟨?_, ?_, ?_, ?_⟩, fun i => ?_⟩
  · exact (hstep i).2
  · exact absurd hm List.not_mem_nil
  · exact (new_ok initSpace).good
  · exact (new_ok initSpace).contents_eq
  · exact Nat.le_refl _
  · exact fun hf => absurd hf Bool.false_ne_true
  · exact ⟨fun _ => .inl rfl, fun hf => absurd hf Bool.false_ne_true, rfl, fun hf => absurd hf Bool.false_ne_true⟩

end Duplex

/-- In every run of two ends that talk, what an end has received is always the beginning of what the
other one has sent. When it finds the end of the input, what is missing is what the other end has
in `outputBuffer_`, and nothing is missing unless the other end has found the end of its input as
well. `closeCallback_` is called once, then. -/
theorem nothing_lost_at_end (epoller_ : Bool → EPollPoller) (this : Bool → Nat) (sockfd : Bool → Fd)
    (as : List Duplex.Action) (h : Duplex.machine.Along Duplex.Undisturbed (Duplex.start epoller_ this sockfd) as)
    (i : Bool) :
    let s := Duplex.machine.final (Duplex.start epoller_ this sockfd) as
    (s i).received <+: (s !i).sent ∧
    ((s i).ended = true → (s i).received ++ (s !i).conn.outputBuffer_.contents = (s !i).sent ∧
      ((s !i).ended = false → (s i).received = (s !i).sent)) ∧
    (s i).acts.count .closeCallback = if (s i).ended then 1 else 0 := by
  intro s
  have hinv : Duplex.Inv s := Machine.invariant Duplex.inv_step as _ (Duplex.start_inv epoller_ this sockfd) h
  have hr := hinv.receives i
  have hs := hinv.sends !i
  refine ⟨?_, fun he => ?_, (hinv.closes i).once⟩
  · rw [hr.input, ← hs.stream]
    exact (List.take_prefix _ _).trans (List.prefix_append _ _)
  · obtain ⟨hle, hfin⟩ := hr.atEnd he
    have hall : (s i).received = (s !i).wired := by rw [hr.input, List.take_of_length_le hle]
    refine ⟨by rw [hall]; exact hs.stream, fun hne => ?_⟩
    -- The socket of the other end is not closed, so it has shut down.
    have hclosed : (s !i).closed = false := by
      rw [Bool.eq_false_iff]
      intro hc
      exact absurd (hne.symm.trans ((hinv.closes _).closed hc)) Bool.false_ne_true
    rw [End.finished, hclosed, Bool.or_false] at hfin
    rw [hall, ← hs.stream, hs.drained hne (of_decide_eq_true hfin), List.append_nil]

/-- One end sends and shuts down with bytes in its buffer, and the other one answers, reads all and finds
the end. -/
def goodbye : List Duplex.Action :=
  [.call true (.send [1, 2, 3] 3 (.accepted 1)), .call true (.shutdown false), .read false 8,
    .call true (.handleWrite (.accepted 9)), .call true .shutdownInLoop, .call false (.send [7, 8] 2 (.accepted 2)),
    .take false 1, .read false 1, .read false 8, .read true 8, .read false 8]

theorem nothing_lost_at_end_goodbye :
    let s := Duplex.machine.final (Duplex.start (fun _ => .new) (fun _ => 0) fun _ => 5) goodbye
    (s false).ended = true ∧ (s true).ended = false ∧ (s true).sent = [1, 2, 3] ∧ (s false).received = (s true).sent := by
  intro s
  have hall : (s false).ended = true ∧ (s true).ended = false ∧ (s true).sent = [1, 2, 3] := by decide +kernel
  have h := nothing_lost_at_end (fun _ => .new) (fun _ => 0) (fun _ => 5) goodbye (by decide +kernel) false
  exact ⟨hall.1, hall.2.1, hall.2.2, (h.2.1 hall.1).2 hall.2.1⟩

end TcpConnection

end Ydx
