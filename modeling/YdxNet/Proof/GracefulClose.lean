import YdxNet.Proof.OutputStream

/-!
# `shutdown` of a connection with output left

`shutdown` makes a connection `kDisconnecting` and has `shutdownInLoop` run,
which shuts the socket down for writing unless the channel is writing. Then it
is left to `handleWrite`, which does nothing about it when the buffer is
drained. So the socket is shut down in every state where it should be, exactly
when no `handleWrite` drains the buffer of a connection whose shutdown waits
(`gracefulClose_iff`).
-/

namespace Ydx.TcpConnection

/-- An established connection, and how far its shutdown is. -/
structure Closing where
  conn : EPollPoller × TcpConnection
  /-- `shutdownInLoop` has run in state `kDisconnecting`. -/
  ran : Bool
  /-- `SHUT_WR` has been issued. -/
  issued : Bool

/-- The call runs `shutdownInLoop` for a `shutdown`. -/
def Call.runsShutdown (c : TcpConnection) : Call → Bool
  | .shutdown inLoop => c.shutdown.2 && inLoop
  | .shutdownInLoop => c.state_ == .kDisconnecting
  | _ => false

/-- The connection, one call after another. -/
def closing : Machine Closing Call (List Act) where
  step s call :=
    let r := machine.step s.conn call
    (⟨r.1, s.ran || call.runsShutdown s.conn.2, s.issued || r.2.contains .shutdownWrite⟩, r.2)

/-- A connection whose shutdown has begun, and whose output is all written, is
shut down. -/
def Closing.Complete (s : Closing) : Prop :=
  s.conn.2.state_ = .kDisconnecting → s.ran = true → s.conn.2.outputBuffer_.readableBytes = 0 → s.issued = true

/-- The shutdown was put off because the channel was writing. -/
def Closing.Deferred (s : Closing) : Prop :=
  s.conn.2.state_ = .kDisconnecting ∧ s.ran = true ∧ s.issued = false

/-- No `handleWrite` writes all that is left while the shutdown is put off. -/
def NoLateDrain (s : Closing) : Call → Prop
  | .handleWrite result =>
    ¬ (s.Deferred ∧ result.value s.conn.2.outputBuffer_.readableBytes = s.conn.2.outputBuffer_.readableBytes)
  | _ => True

/-! ## One step -/

variable {p : EPollPoller} {c : TcpConnection}

theorem readableBytes_eq (h : InStep c) : c.outputBuffer_.readableBytes = c.outputBuffer_.contents.length :=
  (Buffer.rep_iff.mpr ⟨h.1, rfl⟩).readableBytes

/-- `send` does not empty the buffer. -/
theorem contents_send (h : InStep c) {data : List Byte} {len : Int32} {result : WriteResult}
    (hv : Call.Valid (.send data len result)) (hn : (c.send p data len result).2.1.outputBuffer_.contents = []) :
    c.outputBuffer_.contents = [] := by
  have hk := (send_ok (p := p) h hv).2
  by_cases hr : c.outputBuffer_.readableBytes = 0
  · exact List.length_eq_zero_iff.mp (readableBytes_eq h ▸ hr)
  · have ha : (c.send p data len result).2.2 = [] := by
      unfold send
      dsimp only
      rw [if_neg hr]
    rw [ha, hn] at hk
    exact (List.append_eq_nil_iff.mp hk.symm).1

/-- `handleWrite` on a channel that is writing empties the buffer exactly when
all of it is written. -/
theorem contents_handleWrite (h : InStep c) (hw : c.outputBuffer_.contents ≠ []) (result : WriteResult) :
    (c.handleWrite p result).2.1.outputBuffer_.contents = [] ↔
      result.value c.outputBuffer_.readableBytes = c.outputBuffer_.readableBytes := by
  have hk := (handleWrite_ok (p := p) h result).2
  have ha : (c.handleWrite p result).2.2 = [.write c.outputBuffer_.contents result] := by
    unfold handleWrite
    rw [if_pos (h.2.mpr hw)]
    dsimp only
    split
    · split <;> rfl
    · rfl
  have hl := readableBytes_eq h
  have hp := List.length_pos_iff.mpr hw
  rw [ha, List.append_nil, List.flatMap_singleton] at hk
  have hlen := congrArg List.length hk
  rw [List.length_append] at hlen
  rw [← List.length_eq_zero_iff, hl]
  cases result with
  | error errno =>
    simp only [Act.wire, List.length_nil] at hlen
    simp only [WriteResult.value]
    omega
  | accepted n =>
    simp only [Act.wire, List.length_take] at hlen
    simp only [WriteResult.value]
    omega

theorem state_send (p : EPollPoller) (c : TcpConnection) (data : List Byte) (len : Int32) (result : WriteResult) :
    (c.send p data len result).2.1.state_ = c.state_ := by
  have he : ∀ w, (c.enqueue p data w).2.state_ = c.state_ := by
    intro w
    unfold enqueue
    dsimp only
    split
    · split <;> rfl
    · rfl
  unfold send
  dsimp only
  split <;> exact he _

theorem state_handleWrite (p : EPollPoller) (c : TcpConnection) (result : WriteResult) :
    (c.handleWrite p result).2.1.state_ = c.state_ := by
  unfold handleWrite
  dsimp only
  split
  · split
    · split <;> rfl
    · rfl
  · rfl

/-- `handleRead` of an open connection changes the input only. -/
theorem handleRead_open (p : EPollPoller) (c : TcpConnection) {result : ReadvResult}
    (hv : Call.Valid (.handleRead result)) :
    (c.handleRead p result).2.1.state_ = c.state_ ∧
      (c.handleRead p result).2.1.outputBuffer_ = c.outputBuffer_ := by
  cases result with
  | error errno => exact ⟨rfl, rfl⟩
  | ok bytes =>
    have hp : 0 < bytes.length := List.length_pos_iff.mpr hv
    unfold handleRead
    simp only [Buffer.readFd_count]
    rw [if_pos (by omega)]
    exact ⟨rfl, rfl⟩

/-- With nothing left to write, `shutdownInLoop` shuts the socket down. -/
theorem shutdownInLoop_drained (h : InStep c) (hn : c.outputBuffer_.contents = []) :
    c.shutdownInLoop = [.shutdownWrite] := by
  unfold shutdownInLoop
  rw [if_neg fun hw => h.2.mp hw hn]

/-- What holds of a connection as long as no shutdown has been lost. -/
structure Closing.Inv (s : Closing) : Prop where
  inStep : InStep s.conn.2
  begun : s.ran = true → s.conn.2.state_ ≠ .kConnected
  complete : s.Complete

variable {s : Closing}

/-- A call that neither changes the state nor runs `shutdownInLoop`. -/
theorem Closing.Inv.begun_same (h : s.Inv) {call : Call} (hc : call.runsShutdown s.conn.2 = false)
    (hs : (closing.step s call).1.conn.2.state_ = s.conn.2.state_) (hr : (closing.step s call).1.ran = true) :
    (closing.step s call).1.conn.2.state_ ≠ .kConnected := by
  simp only [closing, hc, Bool.or_false] at hr
  rw [hs]
  exact h.begun hr

theorem Closing.Inv.begun_step (h : s.Inv) {call : Call} (hv : call.Valid)
    (hr : (closing.step s call).1.ran = true) : (closing.step s call).1.conn.2.state_ ≠ .kConnected := by
  cases call with
  | send data len result => exact h.begun_same rfl (state_send ..) hr
  | handleWrite result => exact h.begun_same rfl (state_handleWrite ..) hr
  | handleRead result => exact h.begun_same rfl (handleRead_open _ _ hv).1 hr
  | shutdown inLoop =>
    show s.conn.2.shutdown.1.state_ ≠ .kConnected
    unfold shutdown
    split
    · exact StateE.noConfusion
    · assumption
  | shutdownInLoop =>
    simp only [closing, Call.runsShutdown, Bool.or_eq_true, beq_iff_eq] at hr
    show s.conn.2.state_ ≠ .kConnected
    rcases hr with hr | hr
    · exact h.begun hr
    · rw [hr]; exact StateE.noConfusion

theorem readableBytes_eq_zero (h : InStep c) : c.outputBuffer_.readableBytes = 0 ↔ c.outputBuffer_.contents = [] := by
  rw [readableBytes_eq h, List.length_eq_zero_iff]

/-- A call that neither changes the state nor runs `shutdownInLoop`, and does not
empty the buffer. -/
theorem Closing.Inv.complete_same (h : s.Inv) {call : Call} (hc : call.runsShutdown s.conn.2 = false)
    (hs : (closing.step s call).1.conn.2.state_ = s.conn.2.state_)
    (he : (closing.step s call).1.conn.2.outputBuffer_.readableBytes = 0 → s.conn.2.outputBuffer_.readableBytes = 0) :
    (closing.step s call).1.Complete := by
  intro hs' hr he'
  simp only [closing, hc, Bool.or_false] at hr
  exact Bool.or_eq_true_iff.mpr (.inl (h.complete (hs.symm.trans hs') hr (he he')))

/-- `handleWrite` never shuts the socket down, so it must not drain the buffer
while the shutdown is put off. -/
theorem Closing.Inv.complete_handleWrite (h : s.Inv) (result : WriteResult) :
    (closing.step s (.handleWrite result)).1.Complete ↔ NoLateDrain s (.handleWrite result) := by
  obtain ⟨⟨p, c⟩, ran, issued⟩ := s
  have hin : InStep c := h.inStep
  have hi : (closing.step ⟨(p, c), ran, issued⟩ (.handleWrite result)).1.issued = issued := by
    have hm : ((c.handleWrite p result).2.2.contains .shutdownWrite) = false := by
      rw [Bool.eq_false_iff, ne_eq, List.contains_iff_mem]
      intro hm
      obtain ⟨_, hb⟩ := acts_handleWrite _ _ _ _ hm
      exact absurd hb Act.noConfusion
    show (issued || (c.handleWrite p result).2.2.contains .shutdownWrite) = issued
    rw [hm, Bool.or_false]
  have hs : (closing.step ⟨(p, c), ran, issued⟩ (.handleWrite result)).1.conn.2.state_ = c.state_ :=
    state_handleWrite ..
  have hr : (closing.step ⟨(p, c), ran, issued⟩ (.handleWrite result)).1.ran = ran := Bool.or_false _
  rw [Closing.Complete, hi, hs, hr, NoLateDrain]
  show (_ → _ → (c.handleWrite p result).2.1.outputBuffer_.readableBytes = 0 → _) ↔ _
  rw [readableBytes_eq_zero (handleWrite_ok hin result).1]
  have hne : c.state_ = .kDisconnecting → ran = true → issued = false → c.outputBuffer_.contents ≠ [] := by
    intro hs hr hi hn
    have := h.complete hs hr ((readableBytes_eq_zero hin).mpr hn)
    exact absurd (hi.symm.trans this) Bool.false_ne_true
  constructor
  · rintro hc ⟨⟨hs, hr, hi⟩, hd⟩
    have := hc hs hr ((contents_handleWrite hin (hne hs hr hi) result).mpr hd)
    exact absurd (hi.symm.trans this) Bool.false_ne_true
  · intro hc hs hr he
    cases hi : issued with
    | true => rfl
    | false => exact absurd ⟨⟨hs, hr, hi⟩, (contents_handleWrite hin (hne hs hr hi) result).mp he⟩ hc

/-- `shutdown` that runs `shutdownInLoop` on a drained connection shuts the socket
down. -/
theorem Closing.Inv.complete_shutdown (h : s.Inv) (inLoop : Bool) :
    (closing.step s (.shutdown inLoop)).1.Complete := by
  obtain ⟨⟨p, c⟩, ran, issued⟩ := s
  intro hs hr he
  by_cases hc : c.state_ = .kConnected
  · have hsd : c.shutdown = (c.setState .kDisconnecting, true) := if_pos hc
    have hran : ran = false := Bool.eq_false_iff.mpr fun hr => h.begun hr hc
    simp only [closing, Call.runsShutdown, hsd, hran, Bool.false_or, Bool.true_and] at hr
    simp only [closing, machine, hsd] at he
    have hd : (c.setState .kDisconnecting).shutdownInLoop = [.shutdownWrite] :=
      shutdownInLoop_drained h.inStep ((readableBytes_eq_zero h.inStep).mp he)
    simp only [closing, machine, hsd, hr, Bool.true_and, if_true, hd, Bool.or_eq_true]
    exact .inr rfl
  · have hsd : c.shutdown = (c, false) := if_neg hc
    simp only [closing, Call.runsShutdown, hsd, Bool.false_and, Bool.or_false] at hr
    simp only [closing, machine, hsd] at hs he
    simp only [closing, Bool.or_eq_true]
    exact .inl (h.complete hs hr he)

/-- After one call the connection is shut down where it should be, unless the
call drains the buffer while the shutdown is put off. -/
theorem Closing.Inv.complete_step (h : s.Inv) {call : Call} (hv : call.Valid) :
    (closing.step s call).1.Complete ↔ NoLateDrain s call := by
  cases call with
  | handleWrite result => exact h.complete_handleWrite result
  | send data len result =>
    refine iff_of_true (h.complete_same rfl (state_send ..) fun he => ?_) trivial
    have hin := (send_ok (p := s.conn.1) h.inStep hv).1
    exact (readableBytes_eq_zero h.inStep).mpr (contents_send h.inStep hv ((readableBytes_eq_zero hin).mp he))
  | handleRead result =>
    obtain ⟨h₁, h₂⟩ := handleRead_open s.conn.1 s.conn.2 hv
    exact iff_of_true (h.complete_same rfl h₁ fun he => (congrArg Buffer.readableBytes h₂).symm.trans he) trivial
  | shutdown inLoop => exact iff_of_true (h.complete_shutdown inLoop) trivial
  | shutdownInLoop =>
    refine iff_of_true ?_ trivial
    intro hs hr he
    have hd := shutdownInLoop_drained h.inStep ((readableBytes_eq_zero h.inStep).mp he)
    simp only [closing, machine, hd, Bool.or_eq_true]
    exact .inr rfl

/-- For every run of an established connection: in every state reached in which
it is `kDisconnecting`, `shutdownInLoop` has run and there are no readable
bytes, `SHUT_WR` has been issued, if and only if no `handleWrite` of the run
writes all that is left while the shutdown is put off. -/
theorem gracefulClose_iff (p : EPollPoller) (this : Nat) (sockfd : Fd) (calls : List Call)
    (hv : ∀ call ∈ calls, call.Valid) :
    closing.Along (fun s call => (closing.step s call).1.Complete) ⟨established p this sockfd, false, false⟩ calls ↔
      closing.Along NoLateDrain ⟨established p this sockfd, false, false⟩ calls := by
  have h₀ : Closing.Inv ⟨established p this sockfd, false, false⟩ :=
    ⟨(established_inStep p this sockfd).1, fun h => absurd h Bool.false_ne_true, fun _ h => absurd h Bool.false_ne_true⟩
  refine Machine.along_iff (V := fun _ call => call.Valid) (I := Closing.Inv) ?_ ?_ calls _ h₀
    (Machine.Along.of_forall hv _)
  · intro s call h hv
    exact h.complete_step hv
  · intro s call h hv hc
    exact ⟨(step_ok s.conn call h.inStep hv).1, h.begun_step hv, (h.complete_step hv).mpr hc⟩

instance (s : Closing) : Decidable s.Complete := inferInstanceAs (Decidable (_ → _ → _ → _))

instance : ∀ s call, Decidable (NoLateDrain s call)
  | s, .handleWrite result => inferInstanceAs (Decidable (¬ ((_ ∧ _ ∧ _) ∧
      result.value s.conn.2.outputBuffer_.readableBytes = s.conn.2.outputBuffer_.readableBytes)))
  | _, .send .. | _, .handleRead _ | _, .shutdown _ | _, .shutdownInLoop => inferInstanceAs (Decidable True)

/-- A short write that `handleWrite` completes before `shutdown`. -/
theorem gracefulClose_iff_drained :
    closing.Along (fun s call => (closing.step s call).1.Complete) ⟨established .new 0 5, false, false⟩
      [.send [1, 2] 2 (.accepted 1), .handleWrite (.accepted 1), .shutdown false, .shutdownInLoop] :=
  (gracefulClose_iff .new 0 5 _ (by decide)).mpr (by decide +kernel)

/-- A short write, `shutdown`, and then the `handleWrite` that writes the rest:
the socket is not shut down. -/
theorem gracefulClose_lost :
    ¬ closing.Along (fun s call => (closing.step s call).1.Complete) ⟨established .new 0 5, false, false⟩
      [.send [1, 2] 2 (.accepted 1), .shutdown true, .handleWrite (.accepted 1)] := by
  decide +kernel

end Ydx.TcpConnection
