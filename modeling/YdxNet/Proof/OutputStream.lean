import YdxNet.Framework.Machine
import YdxNet.Impl.TcpConnection
import YdxNet.Proof.Buffer

/-!
# The output stream of a connection

What a connection gives to the kernel is a prefix of what its callers sent,
and the rest waits in `outputBuffer_`. A step may write directly, append to
the buffer, or write from the buffer; `step_ok` says that each keeps the
stream whole and the writing flag in step with the buffer (`InStep`), and
`outputStream_ok` says it of every run from `connectEstablished` on.
-/

namespace Ydx

namespace Channel

variable (p : EPollPoller) (c : Channel)

/-- Registration leaves the events of a channel alone. -/
@[simp] theorem events_updateChannel : (p.updateChannel c).2.events_ = c.events_ := by
  unfold EPollPoller.updateChannel
  cases c.index_ <;> dsimp only
  split <;> rfl

@[simp] theorem isWriting_enableWriting : (c.enableWriting p).2.isWriting = true := by
  rw [enableWriting, isWriting, events_updateChannel]
  exact Bool.or_true _

@[simp] theorem isWriting_disableWriting : (c.disableWriting p).2.isWriting = false := by
  rw [disableWriting, isWriting, events_updateChannel]
  exact Bool.and_false _

@[simp] theorem isWriting_enableReading : (c.enableReading p).2.isWriting = c.isWriting := by
  rw [enableReading, isWriting, events_updateChannel]
  exact Bool.or_false _

@[simp] theorem isWriting_disableAll : (c.disableAll p).2.isWriting = false := by
  rw [disableAll, isWriting, events_updateChannel]
  rfl

end Channel

namespace Act

/-- The bytes the kernel took. -/
def wire : Act → List Byte
  | .write data (.accepted n) => data.take n
  | _ => []

/-- A write that failed with `EPIPE` or `ECONNRESET`, by `errno` as `send` tests it:
the error of `write` itself, where `printf` leaves it alone. -/
def fault : Act → Bool
  | .write _ (.error errno printed) => errno != EWOULDBLOCK && (printed == EPIPE || printed == ECONNRESET)
  | _ => false

/-- Where `printf` leaves `errno` alone. -/
theorem fault_error_self (data : List Byte) (errno : Nat) :
    fault (.write data (.error errno errno)) = true ↔ errno = EPIPE ∨ errno = ECONNRESET := by
  simp only [fault, Bool.and_eq_true, Bool.or_eq_true, beq_iff_eq, bne_iff_ne, and_iff_right_iff_imp]
  rintro (rfl | rfl) <;> decide

end Act

namespace TcpConnection

open Buffer

/-- A call on an established connection. -/
inductive Call
  | send (data : List Byte) (len : Int32) (result : WriteResult)
  | handleWrite (result : WriteResult)
  | handleRead (result : ReadvResult)
  | shutdown (inLoop : Bool)
  | shutdownInLoop
  deriving DecidableEq, Repr

/-- The calls on a connection that is not closed: a message has the length its
caller says, and `readv` does not report the end of the input. -/
def Call.Valid : Call → Prop
  | .send data len _ => 0 ≤ len.toInt ∧ len.toInt.toNat ≤ data.length
  | .handleRead (.ok bytes) => bytes ≠ []
  | _ => True

instance : ∀ call : Call, Decidable call.Valid
  | .send .. => inferInstanceAs (Decidable (_ ∧ _))
  | .handleRead (.ok _) => inferInstanceAs (Decidable (_ ≠ _))
  | .handleRead (.error _) | .handleWrite _ | .shutdown _ | .shutdownInLoop => inferInstanceAs (Decidable True)

/-- A connection and the poller of its loop, one call after another. Given to
its loop by a call of `shutdown` from elsewhere, `shutdownInLoop` is a call of
its own. -/
def machine : Machine (EPollPoller × TcpConnection) Call (List Act) where
  step s call :=
    let (p, c, acts) : EPollPoller × TcpConnection × List Act := match call with
      | .send data len result => s.2.send s.1 data len result
      | .handleWrite result => s.2.handleWrite s.1 result
      | .handleRead result => s.2.handleRead s.1 result
      | .shutdown inLoop =>
        let cs := s.2.shutdown
        (s.1, cs.1, if cs.2 && inLoop then cs.1.shutdownInLoop else [])
      | .shutdownInLoop => (s.1, s.2, s.2.shutdownInLoop)
    ((p, c), acts)

/-- A new connection after `connectEstablished`. -/
def established (p : EPollPoller) (this : Nat) (sockfd : Fd) : EPollPoller × TcpConnection :=
  let pc := (new this sockfd).connectEstablished p
  (pc.1, pc.2.1)

/-- What a call adds to the stream: the data of a `send`, unless its write
failed with `EPIPE` or `ECONNRESET`. -/
def Call.sent : Call → List Act → List Byte
  | .send data len _, acts => if acts.any Act.fault then [] else data.take len.toInt.toNat
  | _, _ => []

/-- The data of the sends of a run, in their order. -/
def allSent (calls : List Call) (outs : List (List Act)) : List Byte := (List.zipWith Call.sent calls outs).flatten

/-- All bytes the kernel took in a run. -/
def allWired (outs : List (List Act)) : List Byte := outs.flatten.flatMap Act.wire

/-! ## One step -/

/-- The writing flag is in step with the buffer. -/
def InStep (c : TcpConnection) : Prop :=
  c.outputBuffer_.Good ∧ (c.channel_.isWriting = true ↔ c.outputBuffer_.contents ≠ [])

variable {p : EPollPoller} {c : TcpConnection} {q : List Byte}

theorem inStep_of_rep (h : Rep c.outputBuffer_ q) (hw : c.channel_.isWriting = true ↔ q ≠ []) :
    InStep c ∧ c.outputBuffer_.contents = q := by
  obtain ⟨hg, hc⟩ := rep_iff.mp h
  exact ⟨⟨hg, by rw [hc]; exact hw⟩, hc⟩

/-- Appending keeps the flag in step: it is set as soon as there is a byte. -/
theorem enqueue_ok (h : Rep c.outputBuffer_ q) (hw : c.channel_.isWriting = true ↔ q ≠ []) {data : List Byte}
    {w : DirectWrite} (hr : w.nwrote + w.remaining ≤ data.length) :
    let rest := if w.faultError then [] else (data.drop w.nwrote).take w.remaining
    InStep (c.enqueue p data w).2 ∧ (c.enqueue p data w).2.outputBuffer_.contents = q ++ rest := by
  intro rest
  have hd : w.remaining ≤ (data.drop w.nwrote).length := by rw [List.length_drop]; omega
  unfold enqueue
  by_cases hf : w.faultError = true
  · simp only [rest, hf, Bool.not_true, Bool.false_and, Bool.false_eq_true, if_false, if_true, List.append_nil]
    exact inStep_of_rep h hw
  · simp only [rest, hf, Bool.not_false, Bool.true_and, decide_eq_true_eq, Bool.false_eq_true, if_false]
    by_cases h0 : w.remaining > 0
    · have hne : q ++ (data.drop w.nwrote).take w.remaining ≠ [] := by
        intro hn
        have := congrArg List.length hn
        rw [List.length_append, List.length_take] at this
        simp only [List.length_nil] at this
        omega
      have ha := append_ok h hd
      rw [if_pos h0]
      split
      · rename_i hi
        exact inStep_of_rep ha ⟨fun _ => hne, fun _ => hi⟩
      · exact inStep_of_rep ha ⟨fun _ => hne, fun _ => Channel.isWriting_enableWriting ..⟩
    · rw [if_neg h0, show w.remaining = 0 by omega, List.take_zero, List.append_nil]
      exact inStep_of_rep h hw

/-- One operation keeps the stream: what the kernel takes, and what is
buffered afterwards, is what was buffered before and what is sent. -/
def Keeps (c : TcpConnection) (sent : List Byte) (r : EPollPoller × TcpConnection × List Act) : Prop :=
  InStep r.2.1 ∧ r.2.2.flatMap Act.wire ++ r.2.1.outputBuffer_.contents = c.outputBuffer_.contents ++ sent

/-- A short write and what is left of it. -/
theorem take_append_remaining (data : List Byte) (n count : Nat) :
    (data.take count).take n ++ (data.drop (min n count)).take (count - min n count) = data.take count := by
  have ht : (data.take count).take n = (data.take count).take (min n count) := by
    rw [List.take_take, List.take_take, Nat.min_assoc, Nat.min_self]
  rw [ht, ← List.drop_take, List.take_append_drop]

theorem send_ok (h : InStep c) {data : List Byte} {len : Int32} {result : WriteResult}
    (hv : Call.Valid (.send data len result)) :
    Keeps c (Call.sent (.send data len result) (c.send p data len result).2.2) (c.send p data len result) := by
  obtain ⟨h0, hl⟩ := hv
  have hrep : Rep c.outputBuffer_ c.outputBuffer_.contents := rep_iff.mpr ⟨h.1, rfl⟩
  unfold send
  rw [sizeT_of_nonneg h0]
  by_cases he : c.outputBuffer_.readableBytes = 0
  · rw [if_pos he]
    have hnil : c.outputBuffer_.contents = [] := List.length_eq_zero_iff.mp (hrep.readableBytes ▸ he)
    cases result with
    | accepted n =>
      obtain ⟨h₁, h₂⟩ := enqueue_ok hrep h.2 (p := p) (w := directWrite len.toInt.toNat (.accepted n))
        (show min n len.toInt.toNat + (len.toInt.toNat - min n len.toInt.toNat) ≤ data.length by omega)
      refine ⟨h₁, ?_⟩
      rw [h₂, hnil]
      show (data.take len.toInt.toNat).take n ++ [] ++
        (data.drop (min n len.toInt.toNat)).take (len.toInt.toNat - min n len.toInt.toNat) = data.take len.toInt.toNat
      rw [List.append_nil, take_append_remaining]
    | error errno printed =>
      obtain ⟨h₁, h₂⟩ := enqueue_ok hrep h.2 (p := p) (w := directWrite len.toInt.toNat (.error errno printed))
        (show 0 + len.toInt.toNat ≤ data.length by omega)
      refine ⟨h₁, ?_⟩
      rw [h₂, Call.sent]
      simp only [List.any_cons, List.any_nil, Bool.or_false]
      rfl
  · rw [if_neg he]
    obtain ⟨h₁, h₂⟩ := enqueue_ok hrep h.2 (p := p) (w := ⟨0, len.toInt.toNat, false⟩)
      (show 0 + len.toInt.toNat ≤ data.length by omega)
    exact ⟨h₁, h₂⟩

theorem handleWrite_ok (h : InStep c) (result : WriteResult) : Keeps c [] (c.handleWrite p result) := by
  have hrep : Rep c.outputBuffer_ c.outputBuffer_.contents := rep_iff.mpr ⟨h.1, rfl⟩
  have hpeek : c.outputBuffer_.peek.take c.outputBuffer_.readableBytes = c.outputBuffer_.contents := rfl
  unfold handleWrite
  split
  · rename_i hw
    simp only [hpeek]
    cases result with
    | error errno printed => exact ⟨h, (List.append_nil _).symm⟩
    | accepted n =>
      have hr := retrieve_ok hrep (min n c.outputBuffer_.readableBytes)
      have hdrop : c.outputBuffer_.contents.drop (min n c.outputBuffer_.readableBytes) =
          c.outputBuffer_.contents.drop n := by
        rw [hrep.readableBytes]
        by_cases hn : n ≤ c.outputBuffer_.contents.length
        · rw [Nat.min_eq_left hn]
        · rw [List.drop_of_length_le (by omega), List.drop_of_length_le (by omega)]
      have hcat : [Act.write c.outputBuffer_.contents (.accepted n)].flatMap Act.wire ++
          c.outputBuffer_.contents.drop n = c.outputBuffer_.contents ++ [] := by
        show c.outputBuffer_.contents.take n ++ [] ++ c.outputBuffer_.contents.drop n = _
        rw [List.append_nil, List.append_nil, List.take_append_drop]
      have hlen := hr.readableBytes
      rw [hdrop] at hr hlen
      rw [show (WriteResult.accepted n).value c.outputBuffer_.readableBytes =
        ((min n c.outputBuffer_.readableBytes : Nat) : Int) from rfl, Int.toNat_natCast]
      by_cases hz : ((min n c.outputBuffer_.readableBytes : Nat) : Int) > 0
      · rw [if_pos hz]
        split
        · rename_i hz
          have hnil := List.length_eq_zero_iff.mp (hlen ▸ hz)
          obtain ⟨h₁, h₂⟩ := inStep_of_rep hr (c := { c with
              outputBuffer_ := c.outputBuffer_.retrieve (min n c.outputBuffer_.readableBytes)
              channel_ := (c.channel_.disableWriting p).2 })
            ⟨fun ht => absurd (Channel.isWriting_disableWriting .. ▸ ht) Bool.false_ne_true, fun hne => absurd hnil hne⟩
          exact ⟨h₁, h₂ ▸ hcat⟩
        · rename_i hz
          obtain ⟨h₁, h₂⟩ := inStep_of_rep hr (c := { c with
              outputBuffer_ := c.outputBuffer_.retrieve (min n c.outputBuffer_.readableBytes) })
            ⟨fun _ hn => hz (by rw [hlen, hn]; rfl), fun _ => hw⟩
          exact ⟨h₁, h₂ ▸ hcat⟩
      · rw [if_neg hz]
        have hd0 : c.outputBuffer_.contents.drop n = c.outputBuffer_.contents := by
          rw [← hdrop, show min n c.outputBuffer_.readableBytes = 0 by omega, List.drop_zero]
        rw [hd0] at hcat
        exact ⟨h, hcat⟩
  · exact ⟨h, (List.append_nil _).symm⟩

/-- Neither the output nor the writing flag changes. -/
theorem keeps_of_eq {r : EPollPoller × TcpConnection × List Act} (h : InStep c)
    (hb : r.2.1.outputBuffer_ = c.outputBuffer_) (hc : r.2.1.channel_ = c.channel_)
    (ha : r.2.2.flatMap Act.wire = []) : Keeps c [] r := by
  refine ⟨?_, ?_⟩
  · rw [InStep, hb, hc]; exact h
  · rw [ha, hb, List.nil_append, List.append_nil]

theorem wire_shutdownInLoop (c : TcpConnection) : c.shutdownInLoop.flatMap Act.wire = [] := by
  unfold shutdownInLoop
  split <;> rfl

theorem handleRead_ok (h : InStep c) {result : ReadvResult} (hv : Call.Valid (.handleRead result)) :
    Keeps c [] (c.handleRead p result) := by
  cases result with
  | error errno => exact keeps_of_eq h rfl rfl rfl
  | ok bytes =>
    have hp : 0 < bytes.length := List.length_pos_iff.mpr hv
    unfold handleRead
    simp only [readFd_count]
    rw [if_pos (by omega)]
    exact keeps_of_eq h rfl rfl rfl

theorem shutdown_ok (h : InStep c) (inLoop : Bool) :
    Keeps c [] (p, c.shutdown.1, if c.shutdown.2 && inLoop then c.shutdown.1.shutdownInLoop else []) := by
  have hw : (if c.shutdown.2 && inLoop then c.shutdown.1.shutdownInLoop else []).flatMap Act.wire = [] := by
    split
    · exact wire_shutdownInLoop _
    · rfl
  refine keeps_of_eq h ?_ ?_ hw <;> (unfold shutdown; split <;> rfl)

/-- Every call keeps the stream. -/
theorem step_ok (s : EPollPoller × TcpConnection) (call : Call) (h : InStep s.2) (hv : call.Valid) :
    InStep (machine.step s call).1.2 ∧
    (machine.step s call).2.flatMap Act.wire ++ (machine.step s call).1.2.outputBuffer_.contents =
      s.2.outputBuffer_.contents ++ call.sent (machine.step s call).2 := by
  cases call with
  | send data len result => exact send_ok h hv
  | handleWrite result => exact handleWrite_ok h result
  | handleRead result => exact handleRead_ok h hv
  | shutdown inLoop => exact shutdown_ok (p := s.1) h inLoop
  | shutdownInLoop => exact keeps_of_eq (r := (s.1, s.2, s.2.shutdownInLoop)) h rfl rfl (wire_shutdownInLoop _)

/-! ## Runs -/

/-- A run keeps the stream. -/
theorem run_ok : ∀ (calls : List Call) (s : EPollPoller × TcpConnection), InStep s.2 →
    (∀ call ∈ calls, call.Valid) →
    InStep (machine.final s calls).2 ∧
    allWired (machine.outputs s calls) ++ (machine.final s calls).2.outputBuffer_.contents =
      s.2.outputBuffer_.contents ++ allSent calls (machine.outputs s calls)
  | [], s, h, _ => ⟨h, (List.append_nil _).symm⟩
  | call :: calls, s, h, hv => by
    obtain ⟨h₁, h₂⟩ := step_ok s call h (hv call List.mem_cons_self)
    obtain ⟨h₃, h₄⟩ := run_ok calls _ h₁ fun c hc => hv c (List.mem_cons_of_mem _ hc)
    refine ⟨h₃, ?_⟩
    have hw : allWired (machine.outputs s (call :: calls)) = (machine.step s call).2.flatMap Act.wire ++
        allWired (machine.outputs (machine.step s call).1 calls) := List.flatMap_append ..
    have hs : allSent (call :: calls) (machine.outputs s (call :: calls)) =
        call.sent (machine.step s call).2 ++ allSent calls (machine.outputs (machine.step s call).1 calls) := rfl
    rw [hw, hs, List.append_assoc]
    show _ ++ (_ ++ (machine.final (machine.step s call).1 calls).2.outputBuffer_.contents) = _
    rw [h₄, ← List.append_assoc, h₂, List.append_assoc]

theorem isWriting_of_shutdownWrite (hm : Act.shutdownWrite ∈ c.shutdownInLoop) : ¬ c.channel_.isWriting = true := by
  intro hw
  rw [shutdownInLoop, if_pos hw] at hm
  exact absurd hm List.not_mem_nil

/-- `send` does nothing to the outside but write. -/
theorem acts_send (p : EPollPoller) (c : TcpConnection) (data : List Byte) (len : Int32) (result : WriteResult) :
    ∀ a ∈ (c.send p data len result).2.2, ∃ bytes, a = .write bytes result := by
  intro a ha
  unfold send at ha
  dsimp only at ha
  split at ha
  · exact ⟨_, List.mem_singleton.mp ha⟩
  · exact absurd ha List.not_mem_nil

/-- `handleWrite` does nothing to the outside but write. -/
theorem acts_handleWrite (p : EPollPoller) (c : TcpConnection) (result : WriteResult) :
    ∀ a ∈ (c.handleWrite p result).2.2, ∃ bytes, a = .write bytes result := by
  intro a ha
  unfold handleWrite at ha
  split at ha
  · refine ⟨c.outputBuffer_.peek.take c.outputBuffer_.readableBytes, List.mem_singleton.mp ?_⟩
    dsimp only at ha
    split at ha
    · split at ha <;> exact ha
    · exact ha
  · exact absurd ha List.not_mem_nil

/-- Only `shutdownInLoop` shuts the socket down, and only with an empty
buffer. -/
theorem contents_of_shutdownWrite {s : EPollPoller × TcpConnection} {call : Call} (h : InStep s.2)
    (hm : Act.shutdownWrite ∈ (machine.step s call).2) : s.2.outputBuffer_.contents = [] := by
  obtain ⟨p, c⟩ := s
  have hnil : ¬ c.channel_.isWriting = true → c.outputBuffer_.contents = [] := fun hw =>
    Classical.not_not.mp fun hne => hw (h.2.mpr hne)
  cases call with
  | send data len result =>
    obtain ⟨_, h⟩ := acts_send _ _ _ _ _ _ hm
    exact absurd h Act.noConfusion
  | handleWrite result =>
    obtain ⟨_, h⟩ := acts_handleWrite _ _ _ _ hm
    exact absurd h Act.noConfusion
  | handleRead result =>
    simp only [machine, handleRead, handleClose, handleError] at hm
    split at hm
    · simp at hm
    · split at hm
      · split at hm <;> simp at hm
      · simp at hm
  | shutdown inLoop =>
    have hc : c.shutdown.1.channel_ = c.channel_ := by unfold shutdown; split <;> rfl
    simp only [machine] at hm
    split at hm
    · exact hnil (hc ▸ isWriting_of_shutdownWrite hm)
    · exact absurd hm List.not_mem_nil
  | shutdownInLoop => exact hnil (isWriting_of_shutdownWrite hm)

theorem established_inStep (p : EPollPoller) (this : Nat) (sockfd : Fd) :
    InStep (established p this sockfd).2 ∧ (established p this sockfd).2.outputBuffer_.contents = [] := by
  have hw : (established p this sockfd).2.channel_.isWriting = false := Channel.isWriting_enableReading ..
  exact inStep_of_rep (new_ok initSpace) ⟨fun h => absurd (hw ▸ h) Bool.false_ne_true, fun h => absurd rfl h⟩

/-- The output stream of an established connection, whatever the results of
its writes: the bytes the kernel took and the readable bytes of
`outputBuffer_` are the data of the sends in their order, without those that
failed with `EPIPE` or `ECONNRESET`; the channel is writing exactly when there
are readable bytes; and the socket is shut down for writing only when all has
been given to the kernel. -/
theorem outputStream_ok (p : EPollPoller) (this : Nat) (sockfd : Fd) (calls : List Call)
    (hv : ∀ call ∈ calls, call.Valid) :
    let s := machine.final (established p this sockfd) calls
    let outs := machine.outputs (established p this sockfd) calls
    allWired outs ++ s.2.outputBuffer_.contents = allSent calls outs ∧
    (s.2.channel_.isWriting = true ↔ s.2.outputBuffer_.readableBytes ≠ 0) ∧
    ∀ call : Call, Act.shutdownWrite ∈ (machine.step s call).2 → allWired outs = allSent calls outs := by
  intro s outs
  obtain ⟨h₀, hnil⟩ := established_inStep p this sockfd
  obtain ⟨h, hcat⟩ := run_ok calls _ h₀ hv
  rw [hnil, List.nil_append] at hcat
  have hrep : Rep s.2.outputBuffer_ s.2.outputBuffer_.contents := rep_iff.mpr ⟨h.1, rfl⟩
  refine ⟨hcat, ?_, ?_⟩
  · rw [hrep.readableBytes, ne_eq, List.length_eq_zero_iff]
    exact h.2
  · intro call hm
    have he : s.2.outputBuffer_.contents = [] := contents_of_shutdownWrite h hm
    rw [← hcat, he, List.append_nil]

/-- A short write, a write that would block, one that drains the buffer, a
send that fails and one after it, and then `shutdown`. -/
def talk : List Call :=
  [.send [1, 2, 3] 3 (.accepted 1), .send [4] 1 (.error EWOULDBLOCK EWOULDBLOCK),
    .handleWrite (.error EWOULDBLOCK EWOULDBLOCK), .handleWrite (.accepted 9), .send [5, 6] 2 (.error EPIPE EPIPE),
    .send [7] 1 (.accepted 1)]

theorem outputStream_ok_talk :
    (∀ call ∈ talk, call.Valid) ∧
    allSent talk (machine.outputs (established .new 0 5) talk) = [1, 2, 3, 4, 7] ∧
    Act.shutdownWrite ∈ (machine.step (machine.final (established .new 0 5) talk) (.shutdown true)).2 ∧
    allWired (machine.outputs (established .new 0 5) talk) = [1, 2, 3, 4, 7] := by
  have hv : ∀ call ∈ talk, call.Valid := by decide
  have hs : allSent talk (machine.outputs (established .new 0 5) talk) = [1, 2, 3, 4, 7] := by decide +kernel
  have hm : Act.shutdownWrite ∈ (machine.step (machine.final (established .new 0 5) talk) (.shutdown true)).2 := by
    decide +kernel
  exact ⟨hv, hs, hm, ((outputStream_ok .new 0 5 talk hv).2.2 _ hm).trans hs⟩

end TcpConnection

end Ydx
