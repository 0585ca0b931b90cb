import YdxNet.Proof.LoopConnections

/-!
# Removals and the base loop

The base loop of a server never calls `enable_wakeup()`: with IO threads, the
only descriptor registered with it is the listening socket. A connection that
is closed on an IO loop has its removal queued in the base loop, which looks at
its functors only after an event. `Same` says that a function of the server
leaves alone what matters to this; the steps that do not are the close of a
connection and the base loop's own. A removal is left behind, with nothing to
end the wait, exactly when a connection is closed while the base loop waits, or
the base loop waits again over a removal queued meanwhile, and no client is
there to be accepted (`stranded_iff`).
-/

namespace Ydx

/-- The functor removes a connection. -/
def Functor.isRemoval : Functor → Bool
  | .removeConnectionInLoop _ => true
  | _ => false

namespace EventLoop

/-- A removal is pending. -/
def removing (e : EventLoop Functor) : Bool := e.pendingFunctors_.any Functor.isRemoval

end EventLoop

namespace TcpServer

/-- A server, and the clients that have connected and are not yet accepted. -/
structure Listening where
  server : TcpServer
  backlog : Nat

/-- A step of a server or of its clients. -/
inductive ListenAction
  /-- A client connects. -/
  | connect
  /-- The base loop comes to the acceptor's channel. If `accept` fails, a client
  may be lost all the same. -/
  | accept (connfd : Option Fd) (lost : Bool)
  /-- Another step of one of the threads. -/
  | act (a : Action)
  deriving DecidableEq, Repr

/-- The base loop is at the acceptor's channel. -/
def accepting (s : TcpServer) : Bool :=
  match (s.loops 0).phase with
  | .handling [] (.acceptChannel_ :: _) => true
  | _ => false

/-- The listening socket is ready when there is a client to accept, and `accept`
takes it. -/
def listening : Machine Listening ListenAction Unit where
  step s
    | .connect => (⟨s.server, s.backlog + 1⟩, ())
    | .accept connfd lost =>
      if s.server.accepting then
        if s.backlog = 0 then (⟨s.server.step (.accept none), 0⟩, ())
        else (⟨s.server.step (.accept connfd), if connfd.isSome || lost then s.backlog - 1 else s.backlog⟩, ())
      else (s, ())
    | .act (.accept _) => (s, ())
    | .act (.epollWait l ready) =>
      (⟨s.server.step (.epollWait l (ready.filter fun x => x != .listen || decide (0 < s.backlog))), s.backlog⟩, ())
    | .act a => (⟨s.server.step a, s.backlog⟩, ())

/-- No descriptor registered with the base loop is ready. -/
def Listening.Idle (s : Listening) : Prop :=
  ((s.server.loops 0).listening = true → s.backlog = 0) ∧
  ((s.server.loops 0).wakeupEnabled = true → (s.server.loops 0).wakeupFd_ = 0) ∧
  ∀ fd, (s.server.loops 0).poller.interest fd = none

/-- The base loop waits, nothing will end the wait, and a removal is pending. -/
def Listening.Stranded (s : Listening) : Prop :=
  (s.server.loops 0).phase = .waiting ∧ s.Idle ∧ ∃ c, .removeConnectionInLoop c ∈ (s.server.loops 0).pendingFunctors_

/-- The next callback of the loop `l` closes its connection. -/
def closes (s : TcpServer) (l : Nat) (readv : ReadvResult) : Bool :=
  match (s.loops l).phase with
  | .handling ((c, cb) :: _) _ =>
    (s.conns[c]?.any fun C => C.conn.closable) && (cb == .closeCallback_ || (cb == .readCallback_ && readv == .ok []))
  | _ => false

/-- With no client to accept, no IO loop closes a connection while the base loop
waits, and the base loop does not wait again while a removal is pending. -/
def Prompt (s : Listening) : ListenAction → Prop
  | .act (.callback l readv _) =>
    l ≠ 0 → s.server.closes l readv = true → (s.server.loops 0).phase = .waiting → 0 < s.backlog
  | .act (.functor 0) =>
    (s.server.loops 0).phase = .calling [] → (s.server.loops 0).removing = true → 0 < s.backlog
  | _ => True

/-! ## What the base loop sees -/

/-- The connections are on IO loops, and the base loop has only the listening
socket. -/
structure Based (s : TcpServer) : Prop where
  threads : s.threadPool_.numThreads_ ≠ 0
  io : ∀ C ∈ s.conns, C.epoller_ ≠ 0
  interest : ∀ fd, (s.loops 0).poller.interest fd = none
  wakeup : (s.loops 0).wakeupEnabled = false
  listening : (s.loops 0).listening = true

/-- Neither where the base loop is, nor the removals pending, nor what is
registered with it changes. -/
structure Same (s s' : TcpServer) : Prop where
  phase : (s'.loops 0).phase = (s.loops 0).phase
  removing : (s'.loops 0).removing = (s.loops 0).removing
  based : s.Based → s'.Based

theorem Same.refl (s : TcpServer) : Same s s := ⟨rfl, rfl, id⟩

theorem Same.trans {s₁ s₂ s₃ : TcpServer} (h₁ : Same s₁ s₂) (h₂ : Same s₂ s₃) : Same s₁ s₃ :=
  ⟨h₂.phase.trans h₁.phase, h₂.removing.trans h₁.removing, fun h => h₂.based (h₁.based h)⟩

variable {s : TcpServer} {e : EventLoop Functor} {l c : Nat} {f : Functor}

/-- Another loop moves on. -/
theorem same_setLoop (s : TcpServer) (e : EventLoop Functor) (hl : l ≠ 0) : Same s (s.setLoop l e) := by
  have h0 : (s.setLoop l e).loops 0 = s.loops 0 := loops_setLoop_ne s e hl.symm
  refine ⟨by rw [h0], by rw [h0], fun h => ⟨h.threads, h.io, ?_, ?_, ?_⟩⟩
  · rw [h0]; exact h.interest
  · rw [h0]; exact h.wakeup
  · rw [h0]; exact h.listening

/-- The base loop moves on. -/
theorem Based.setLoop (h : s.Based) (hp : e.poller = (s.loops 0).poller)
    (hw : e.wakeupEnabled = (s.loops 0).wakeupEnabled) (hl : e.listening = (s.loops 0).listening) :
    (s.setLoop 0 e).Based := by
  refine ⟨h.threads, h.io, ?_, ?_, ?_⟩
  · rw [loops_setLoop_self, hp]; exact h.interest
  · rw [loops_setLoop_self, hw]; exact h.wakeup
  · rw [loops_setLoop_self, hl]; exact h.listening

/-- A functor that is no removal is queued. -/
theorem same_queueInLoop (s : TcpServer) (caller l : Nat) (hf : f.isRemoval = false) :
    Same s (s.queueInLoop caller l f) := by
  by_cases hl : l = 0
  · subst hl
    refine ⟨?_, ?_, fun h => h.setLoop rfl rfl rfl⟩
    · rw [queueInLoop, loops_setLoop_self]
      rfl
    · rw [queueInLoop, loops_setLoop_self]
      simp [EventLoop.removing, EventLoop.queueInLoop, hf]
  · exact same_setLoop s _ hl

/-- A connection changes, and stays on its loop. -/
theorem same_set {C : ServerConn} (s : TcpServer) (C' : ServerConn) (hc : s.conns[c]? = some C)
    (he : C'.epoller_ = C.epoller_) (entries : String → Option Nat) :
    Same s { s with connections_ := entries, conns := s.conns.set c C' } := by
  refine ⟨rfl, rfl, fun h => ⟨h.threads, ?_, h.interest, h.wakeup, h.listening⟩⟩
  intro D hD
  rcases List.mem_or_eq_of_mem_set hD with hD | rfl
  · exact h.io D hD
  · rw [he]; exact h.io C (List.mem_of_getElem? hc)

/-- A connection changes, and the poller of its loop. -/
theorem same_store {C : ServerConn} (s : TcpServer) (p : EPollPoller) (C' : ServerConn)
    (hc : s.conns[c]? = some C) (he : C'.epoller_ = C.epoller_) : Same s (s.store c p C') := by
  by_cases hl : C'.epoller_ = 0
  · refine ⟨?_, ?_, fun h => absurd (he.symm.trans hl) (h.io C (List.mem_of_getElem? hc))⟩ <;>
      rw [store, hl] <;> simp only [loops_setLoop_self]
    rfl
  · have h₁ := same_setLoop s { s.loops C'.epoller_ with poller := p } hl
    exact h₁.trans (same_set (s.setLoop C'.epoller_ _) C' hc he s.connections_)

theorem same_removeConnectionInLoop (s : TcpServer) (caller c : Nat) : Same s (s.removeConnectionInLoop caller c) := by
  unfold removeConnectionInLoop
  split
  · exact Same.refl s
  · rename_i C hc
    have h₁ := same_queueInLoop (f := .connectDestroyed c) s caller C.epoller_ rfl
    refine h₁.trans ?_
    dsimp only
    refine same_set (C := C) (s.queueInLoop caller C.epoller_ (.connectDestroyed c)) _ hc ?_ _
    rfl

/-- A function of a connection that does not call `closeCallback_`, or is called
on the base loop. -/
theorem same_call (s : TcpServer) (caller c : Nat) (entry : List Note)
    {g : EPollPoller → TcpConnection → EPollPoller × TcpConnection × List Act}
    (h : (∀ C, s.conns[c]? = some C → .closeCallback ∉ (g (s.loops C.epoller_).poller C.conn).2.2) ∨ caller = 0) :
    Same s (s.call caller c entry g) := by
  unfold call
  split
  · exact Same.refl s
  · rename_i C hc
    have h₁ := same_store s (g (s.loops C.epoller_).poller C.conn).1 { C with
        conn := (g (s.loops C.epoller_).poller C.conn).2.1
        history := C.history ++ entry ++ (g (s.loops C.epoller_).poller C.conn).2.2.map .act } hc rfl
    dsimp only
    split
    · rename_i hm
      rcases h with h | rfl
      · exact absurd hm (h C hc)
      · rw [removeConnection, runInLoop, if_pos rfl]
        exact h₁.trans (same_removeConnectionInLoop _ 0 c)
    · exact h₁

/-- A function of a connection that calls `closeCallback_` on an IO loop. -/
theorem call_removing {C : ServerConn} (s : TcpServer) {caller : Nat} (hcaller : caller ≠ 0) (entry : List Note)
    {g : EPollPoller → TcpConnection → EPollPoller × TcpConnection × List Act} (hc : s.conns[c]? = some C)
    (hm : .closeCallback ∈ (g (s.loops C.epoller_).poller C.conn).2.2) :
    ((s.call caller c entry g).loops 0).phase = (s.loops 0).phase ∧
      ((s.call caller c entry g).loops 0).removing = true ∧ (s.Based → (s.call caller c entry g).Based) := by
  have h₁ := same_store s (g (s.loops C.epoller_).poller C.conn).1 { C with
      conn := (g (s.loops C.epoller_).poller C.conn).2.1
      history := C.history ++ entry ++ (g (s.loops C.epoller_).poller C.conn).2.2.map .act } hc rfl
  simp only [call, hc, hm, if_true, removeConnection, runInLoop, hcaller, if_false, queueInLoop, loops_setLoop_self]
  refine ⟨h₁.phase, ?_, fun h => (h₁.based h).setLoop rfl rfl rfl⟩
  simp [EventLoop.removing, EventLoop.queueInLoop, Functor.isRemoval]

theorem not_mem_connectDestroyed (p : EPollPoller) (conn : TcpConnection) :
    .closeCallback ∉ (conn.connectDestroyed p).2.2 := by
  unfold TcpConnection.connectDestroyed
  by_cases hs : conn.state_ = .kConnected
  · simp only [if_pos hs, List.mem_singleton]
    exact Act.noConfusion
  · simp only [if_neg hs]
    exact List.not_mem_nil

theorem not_mem_shutdownInLoop (conn : TcpConnection) : .closeCallback ∉ conn.shutdownInLoop := by
  unfold TcpConnection.shutdownInLoop
  split
  · exact List.not_mem_nil
  · rw [List.mem_singleton]
    exact Act.noConfusion

theorem same_exec (s : TcpServer) (l : Nat) (f : Functor) : Same s (s.exec l f) := by
  cases f with
  | connectEstablished c =>
    refine same_call s l c _ (.inl fun C _ => ?_)
    simp [TcpConnection.connectEstablished]
  | connectDestroyed c => exact same_call s l c _ (.inl fun C _ => not_mem_connectDestroyed _ _)
  | removeConnectionInLoop c => exact same_removeConnectionInLoop s l c
  | shutdownInLoop c =>
    show Same s (s.call l c [] fun p conn => (p, conn, conn.shutdownInLoop))
    exact same_call s l c [] (.inl fun C _ => not_mem_shutdownInLoop C.conn)

theorem same_shutdown (s : TcpServer) (caller c : Nat) : Same s (s.shutdown caller c) := by
  unfold shutdown
  split
  · exact Same.refl s
  · rename_i C hc
    have h₁ := same_set s { C with conn := C.conn.shutdown.1 } hc rfl s.connections_
    dsimp only
    split
    · unfold runInLoop
      split
      · exact h₁.trans (same_exec _ _ _)
      · exact h₁.trans (same_queueInLoop _ _ _ rfl)
    · exact h₁

/-- With IO threads, a new connection is on one of their loops. -/
theorem same_newConnection (h : s.Based) (sockfd : Fd) : Same s (s.newConnection sockfd) := by
  have hl : s.threadPool_.getNextLoop.1 ≠ 0 ∧ s.threadPool_.getNextLoop.2.numThreads_ = s.threadPool_.numThreads_ := by
    rw [EPollerThreadPool.getNextLoop, if_neg h.threads]
    exact ⟨Nat.succ_ne_zero _, rfl⟩
  unfold newConnection
  dsimp only
  rw [runInLoop, if_neg hl.1.symm]
  refine Same.trans ?_ (same_queueInLoop _ 0 _ rfl)
  refine ⟨rfl, rfl, fun h => ⟨?_, ?_, h.interest, h.wakeup, h.listening⟩⟩
  · rw [hl.2]; exact h.threads
  · intro C hC
    rcases List.mem_append.mp hC with hC | hC
    · exact h.io C hC
    · rw [List.mem_singleton.mp hC]; exact hl.1

/-- `closeCallback_` is called at the end of the input, or on a hang-up. -/
theorem mem_handler_iff (readv : ReadvResult) (write : WriteResult) (cb : Callback) (p : EPollPoller)
    (conn : TcpConnection) :
    .closeCallback ∈ (handler readv write cb p conn).2.2 ↔
      conn.closable = true ∧ (cb = .closeCallback_ ∨ (cb = .readCallback_ ∧ readv = .ok [])) := by
  have hclose : ∀ conn : TcpConnection, .closeCallback ∈ (conn.handleClose p).2.2 ↔ conn.closable = true := by
    intro conn
    unfold TcpConnection.handleClose TcpConnection.closable
    split
    · rename_i h
      simpa using h
    · rename_i h
      simpa using h
  cases cb with
  | closeCallback_ => simp [handler, hclose]
  | errorCallback_ => simp [handler, TcpConnection.handleError]
  | readCallback_ =>
    cases readv with
    | error errno => simp [handler, TcpConnection.handleRead, Buffer.readFd, TcpConnection.handleError]
    | ok bytes =>
      cases bytes with
      | nil =>
        show .closeCallback ∈ (TcpConnection.handleClose p { conn with inputBuffer_ := _ }).2.2 ↔ _
        rw [hclose]
        simp [TcpConnection.closable]
      | cons byte bytes =>
        simp [handler, TcpConnection.handleRead, Buffer.readFd_count]
  | writeCallback_ =>
    refine iff_of_false ?_ (by simp)
    intro hm
    obtain ⟨_, h⟩ := TcpConnection.acts_handleWrite _ _ _ _ hm
    exact absurd h Act.noConfusion

/-! ## Steps -/

variable {L : Listening}

/-- In a server with IO threads, only a client that connects ends the wait of the
base loop. -/
theorem Based.left_waiting_iff (h : L.server.Based) :
    L.Stranded ↔
      (L.server.loops 0).phase = .waiting ∧ L.backlog = 0 ∧ (L.server.loops 0).removing = true := by
  have hi : L.Idle ↔ L.backlog = 0 := by
    refine ⟨fun hi => hi.1 h.listening, fun hb => ⟨fun _ => hb, fun hw => ?_, h.interest⟩⟩
    exact absurd (h.wakeup.symm.trans hw) Bool.false_ne_true
  have hr : (∃ c, .removeConnectionInLoop c ∈ (L.server.loops 0).pendingFunctors_) ↔
      (L.server.loops 0).removing = true := by
    rw [EventLoop.removing, List.any_eq_true]
    constructor
    · rintro ⟨c, hc⟩
      exact ⟨_, hc, rfl⟩
    · rintro ⟨f, hf, hr⟩
      cases f with
      | removeConnectionInLoop c => exact ⟨c, hf⟩
      | _ => exact absurd hr Bool.false_ne_true
  rw [Listening.Stranded, hi, hr]

/-- What a step must show: the base loop is as it should be, and has not been left
behind exactly if `ok`. -/
def StepOk (L' : Listening) (ok : Prop) : Prop := L'.server.Based ∧ (¬ L'.Stranded ↔ ok)

theorem stepOk_same (h : L.server.Based) (hn : ¬ L.Stranded) {t : TcpServer} (hs : Same L.server t) :
    StepOk ⟨t, L.backlog⟩ True := by
  refine ⟨hs.based h, iff_of_true ?_ trivial⟩
  rw [Based.left_waiting_iff (L := ⟨t, L.backlog⟩) (hs.based h), hs.phase, hs.removing, ← h.left_waiting_iff]
  exact hn

/-- The base loop does not wait. -/
theorem stepOk_busy {t : TcpServer} {n : Nat} (hb : t.Based) (hp : (t.loops 0).phase ≠ .waiting) :
    StepOk ⟨t, n⟩ True :=
  ⟨hb, iff_of_true (fun hs => hp hs.1) trivial⟩

/-- The base loop moves on, or keeps waiting. -/
theorem stepOk_setLoop (h : L.server.Based) (hn : ¬ L.Stranded) (hp : e.poller = (L.server.loops 0).poller)
    (hw : e.wakeupEnabled = (L.server.loops 0).wakeupEnabled) (hl : e.listening = (L.server.loops 0).listening)
    (he : e.phase = .waiting → (L.server.loops 0).phase = .waiting ∧ e.removing = (L.server.loops 0).removing) :
    StepOk ⟨L.server.setLoop 0 e, L.backlog⟩ True := by
  have hb := h.setLoop hp hw hl
  refine ⟨hb, iff_of_true ?_ trivial⟩
  rw [Based.left_waiting_iff (L := ⟨L.server.setLoop 0 e, L.backlog⟩) hb]
  dsimp only
  rw [loops_setLoop_self]
  rintro ⟨hph, hb0, hr⟩
  obtain ⟨h₁, h₂⟩ := he hph
  exact hn (h.left_waiting_iff.mpr ⟨h₁, hb0, h₂ ▸ hr⟩)

theorem stepOk_epollWait (h : L.server.Based) (hn : ¬ L.Stranded) (l : Nat) (ready : List Ready) :
    StepOk ⟨L.server.step (.epollWait l ready), L.backlog⟩ True := by
  by_cases hl : l = 0
  · subst hl
    have hsame : ((L.server.loops 0).epollWait ready).phase = .waiting →
        (L.server.loops 0).epollWait ready = L.server.loops 0 := by
      unfold EventLoop.epollWait
      split
      · split
        · exact fun _ => rfl
        · exact fun h => nomatch h
      · exact fun _ => rfl
    have hf : ((L.server.loops 0).epollWait ready).poller = (L.server.loops 0).poller ∧
        ((L.server.loops 0).epollWait ready).wakeupEnabled = (L.server.loops 0).wakeupEnabled ∧
        ((L.server.loops 0).epollWait ready).listening = (L.server.loops 0).listening := by
      unfold EventLoop.epollWait
      split
      · split <;> exact ⟨rfl, rfl, rfl⟩
      · exact ⟨rfl, rfl, rfl⟩
    refine stepOk_setLoop h hn hf.1 hf.2.1 hf.2.2 fun hph => ?_
    have heq := hsame hph
    rw [heq] at hph ⊢
    exact ⟨hph, rfl⟩
  · exact stepOk_same h hn (same_setLoop _ _ hl)

theorem stepOk_nextChannel (h : L.server.Based) (hn : ¬ L.Stranded) (l : Nat) :
    StepOk ⟨L.server.step (.nextChannel l), L.backlog⟩ True := by
  by_cases hl : l = 0
  · subst hl
    unfold TcpServer.step EventLoop.nextChannel
    dsimp only
    split
    · exact stepOk_setLoop h hn rfl rfl rfl fun hph => nomatch hph
    · exact stepOk_setLoop h hn rfl rfl rfl fun hph => nomatch hph
    · exact stepOk_setLoop h hn rfl rfl rfl fun hph => ⟨hph, rfl⟩
  · exact stepOk_same h hn (same_setLoop _ _ hl)

theorem stepOk_doPendingFunctors (h : L.server.Based) (hn : ¬ L.Stranded) (l : Nat) :
    StepOk ⟨L.server.step (.doPendingFunctors l), L.backlog⟩ True := by
  by_cases hl : l = 0
  · subst hl
    unfold TcpServer.step EventLoop.doPendingFunctors
    dsimp only
    split
    · exact stepOk_setLoop h hn rfl rfl rfl fun hph => nomatch hph
    · exact stepOk_setLoop h hn rfl rfl rfl fun hph => ⟨hph, rfl⟩
  · exact stepOk_same h hn (same_setLoop _ _ hl)

/-- A functor on an IO loop queues no removal; the base loop waits again when it
has called all of its own. -/
theorem stepOk_functor (h : L.server.Based) (hn : ¬ L.Stranded) (l : Nat) :
    StepOk ⟨L.server.step (.functor l), L.backlog⟩ (Prompt L (.act (.functor l))) := by
  by_cases hl : l = 0
  · subst hl
    simp only [TcpServer.step, Prompt]
    split
    · rename_i f functors hph
      have hb : (L.server.setLoop 0 { L.server.loops 0 with phase := .calling functors }).Based :=
        h.setLoop rfl rfl rfl
      have hs := same_exec (L.server.setLoop 0 { L.server.loops 0 with phase := .calling functors }) 0 f
      have hok := stepOk_busy (n := L.backlog) (hs.based hb)
        (by rw [hs.phase, loops_setLoop_self]; intro hc; cases hc)
      refine ⟨hok.1, hok.2.trans (iff_of_true trivial ?_)⟩
      intro hc
      rw [hph] at hc
      cases hc
    · rename_i hph
      have hb : (L.server.setLoop 0 { L.server.loops 0 with phase := .waiting }).Based := h.setLoop rfl rfl rfl
      refine ⟨hb, ?_⟩
      rw [Based.left_waiting_iff (L := ⟨L.server.setLoop 0 { L.server.loops 0 with phase := .waiting }, L.backlog⟩) hb]
      dsimp only
      rw [loops_setLoop_self]
      show ¬ (_ ∧ L.backlog = 0 ∧ (L.server.loops 0).removing = true) ↔ _
      constructor
      · intro hns _ hr
        exact Nat.pos_of_ne_zero fun hb0 => hns ⟨rfl, hb0, hr⟩
      · rintro hp ⟨-, hb0, hr⟩
        exact absurd hb0 (Nat.ne_of_gt (hp hph hr))
    · rename_i hph₁ hph₂
      have hok := stepOk_same h hn (Same.refl L.server)
      refine ⟨hok.1, hok.2.trans (iff_of_true trivial ?_)⟩
      exact fun hc => absurd hc hph₂
  · have hp : Prompt L (.act (.functor l)) ↔ True := by
      cases l with
      | zero => exact absurd rfl hl
      | succ l => exact Iff.rfl
    have hs : Same L.server (L.server.step (.functor l)) := by
      unfold TcpServer.step
      dsimp only
      split
      · exact (same_setLoop _ _ hl).trans (same_exec _ _ _)
      · exact same_setLoop _ _ hl
      · exact Same.refl _
    have hok := stepOk_same h hn hs
    exact ⟨hok.1, hok.2.trans hp.symm⟩

/-- A removal has been queued. -/
theorem stepOk_removing {t : TcpServer} (hb : t.Based) (hp : (t.loops 0).phase = (L.server.loops 0).phase)
    (hr : (t.loops 0).removing = true) :
    StepOk ⟨t, L.backlog⟩ ((L.server.loops 0).phase = .waiting → 0 < L.backlog) := by
  refine ⟨hb, ?_⟩
  rw [Based.left_waiting_iff (L := ⟨t, L.backlog⟩) hb]
  dsimp only
  rw [hp, hr]
  constructor
  · intro hns hw
    exact Nat.pos_of_ne_zero fun hb0 => hns ⟨hw, hb0, rfl⟩
  · rintro hok ⟨hw, hb0, -⟩
    exact absurd hb0 (Nat.ne_of_gt (hok hw))

theorem closes_iff {cb : Callback} {callbacks : List (Nat × Callback)} {active : List Active}
    (readv : ReadvResult) (hph : (s.loops l).phase = .handling ((c, cb) :: callbacks) active) :
    s.closes l readv = true ↔ ∃ C, s.conns[c]? = some C ∧
      (C.conn.closable = true ∧ (cb = .closeCallback_ ∨ (cb = .readCallback_ ∧ readv = .ok []))) := by
  rw [closes, hph]
  cases hc : s.conns[c]? with
  | none => simp [hc]
  | some C => simp [hc]

/-- A callback on an IO loop queues a removal if it closes its connection. -/
theorem stepOk_callback (h : L.server.Based) (hn : ¬ L.Stranded) (l : Nat) (readv : ReadvResult) (write : WriteResult) :
    StepOk ⟨L.server.step (.callback l readv write), L.backlog⟩ (Prompt L (.act (.callback l readv write))) := by
  by_cases hph : ∃ c cb callbacks active, (L.server.loops l).phase = .handling ((c, cb) :: callbacks) active
  · obtain ⟨c, cb, callbacks, active, hph⟩ := hph
    have hstep : L.server.step (.callback l readv write) =
        (L.server.setLoop l { L.server.loops l with phase := .handling callbacks active }).call l c []
          (handler readv write cb) := by
      simp only [TcpServer.step, hph]
    rw [hstep]
    by_cases hl : l = 0
    · subst hl
      have hs := same_call (L.server.setLoop 0 { L.server.loops 0 with phase := .handling callbacks active }) 0 c []
        (g := handler readv write cb) (.inr rfl)
      have hok := stepOk_busy (n := L.backlog) (hs.based (h.setLoop rfl rfl rfl))
        (by rw [hs.phase, loops_setLoop_self]; intro hc; cases hc)
      exact ⟨hok.1, hok.2.trans (iff_of_true trivial fun hl => absurd rfl hl)⟩
    · have h₁ := same_setLoop L.server { L.server.loops l with phase := .handling callbacks active } hl
      have hcl := closes_iff readv hph
      by_cases hc : L.server.closes l readv = true
      · obtain ⟨C, hC, hclose⟩ := hcl.mp hc
        obtain ⟨hp, hr, hb⟩ := call_removing (g := handler readv write cb)
          (L.server.setLoop l { L.server.loops l with phase := .handling callbacks active }) hl [] hC
          ((mem_handler_iff ..).mpr hclose)
        have hok := stepOk_removing (L := L) (hb (h₁.based h)) (hp.trans h₁.phase) hr
        exact ⟨hok.1, hok.2.trans ⟨fun hw _ _ => hw, fun hw => hw hl hc⟩⟩
      · have hs := same_call (L.server.setLoop l { L.server.loops l with phase := .handling callbacks active }) l c []
          (g := handler readv write cb) (.inl fun C hC hm => hc (hcl.mpr ⟨C, hC, (mem_handler_iff ..).mp hm⟩))
        have hok := stepOk_same h hn (h₁.trans hs)
        exact ⟨hok.1, hok.2.trans (iff_of_true trivial fun _ hc' => absurd hc' hc)⟩
  · have hstep : L.server.step (.callback l readv write) = L.server := by
      unfold TcpServer.step
      dsimp only
      split
      · rename_i hph'
        exact absurd ⟨_, _, _, _, hph'⟩ hph
      · rfl
    have hcl : L.server.closes l readv = false := by
      unfold closes
      split
      · rename_i hph'
        exact absurd ⟨_, _, _, _, hph'⟩ hph
      · rfl
    rw [hstep]
    have hok := stepOk_same h hn (Same.refl L.server)
    refine ⟨hok.1, hok.2.trans (iff_of_true trivial fun _ hc => ?_)⟩
    exact absurd (hcl.symm.trans hc) Bool.false_ne_true

theorem stepOk_accept (h : L.server.Based) (hn : ¬ L.Stranded) (connfd : Option Fd) (lost : Bool) :
    StepOk (listening.step L (.accept connfd lost)).1 True := by
  have haccept : ∀ (fd : Option Fd) (n : Nat), L.server.accepting = true → StepOk ⟨L.server.step (.accept fd), n⟩ True := by
    intro fd n ha
    unfold accepting at ha
    split at ha
    · rename_i active hph
      have hb : (L.server.setLoop 0 { L.server.loops 0 with phase := .handling [] active }).Based :=
        h.setLoop rfl rfl rfl
      simp only [TcpServer.step, hph]
      cases fd with
      | none => exact stepOk_busy hb (by rw [loops_setLoop_self]; intro hc; cases hc)
      | some fd =>
        have hs := same_newConnection hb fd
        exact stepOk_busy (hs.based hb) (by rw [hs.phase, loops_setLoop_self]; intro hc; cases hc)
    · exact absurd ha Bool.false_ne_true
  simp only [listening]
  split
  · rename_i ha
    split
    · exact haccept none 0 ha
    · exact haccept connfd _ ha
  · exact stepOk_same h hn (Same.refl _)

/-- One step: the base loop is left behind over a removal exactly if the step is
not prompt. -/
theorem stepOk (h : L.server.Based) (hn : ¬ L.Stranded) (a : ListenAction) :
    StepOk (listening.step L a).1 (Prompt L a) := by
  cases a with
  | connect =>
    refine ⟨h, iff_of_true (fun hs => ?_) trivial⟩
    exact absurd (hs.2.1.1 h.listening) (Nat.succ_ne_zero _)
  | accept connfd lost => exact stepOk_accept h hn connfd lost
  | act a =>
    cases a with
    | epollWait l ready => exact stepOk_epollWait h hn l _
    | nextChannel l => exact stepOk_nextChannel h hn l
    | accept connfd => exact stepOk_same h hn (Same.refl _)
    | callback l readv write => exact stepOk_callback h hn l readv write
    | doPendingFunctors l => exact stepOk_doPendingFunctors h hn l
    | functor l => exact stepOk_functor h hn l
    | shutdown caller c => exact stepOk_same h hn (same_shutdown _ _ _)
    | send caller c data len result =>
      refine stepOk_same h hn (same_call L.server caller c [] (g := fun p conn => conn.send p data len result)
        (.inl fun C _ hm => ?_))
      obtain ⟨_, ha⟩ := TcpConnection.acts_send _ _ _ _ _ _ hm
      exact absurd ha Act.noConfusion

theorem start_based (name hostport : String) (numThreads : Nat) : (start name hostport (numThreads + 1) false).Based :=
  ⟨Nat.succ_ne_zero _, fun _ hC => absurd hC List.not_mem_nil, fun _ => rfl, rfl, rfl⟩

theorem start_not_stranded (name hostport : String) (numThreads : Nat) :
    ¬ Listening.Stranded ⟨start name hostport (numThreads + 1) false, 0⟩ := fun ⟨_, _, _, hc⟩ => absurd hc List.not_mem_nil

/-- For every run of a server with IO threads, whose base loop has not called
`enable_wakeup()`: no state is reached in which the base loop waits, nothing
registered with it is ready, and a removal is pending, if and only if, while no
client is there to be accepted, no IO loop closes a connection while the base
loop waits and the base loop does not wait again over a pending removal. -/
theorem stranded_iff (name hostport : String) (numThreads : Nat) (actions : List ListenAction) :
    let s : Listening := ⟨start name hostport (numThreads + 1) false, 0⟩
    listening.Along (fun s a => ¬ (listening.step s a).1.Stranded) s actions ↔ listening.Along Prompt s actions := by
  intro s
  refine Machine.along_iff_of_inv (I := fun s => s.server.Based ∧ ¬ s.Stranded) ?_ ?_ actions s
    ⟨start_based .., start_not_stranded name hostport numThreads⟩
  · intro s a h
    exact (stepOk h.1 h.2 a).2
  · intro s a h hp
    exact ⟨(stepOk h.1 h.2 a).1, (stepOk h.1 h.2 a).2.mpr hp⟩

/-- A client connects and is accepted, and its connection comes up on the IO loop,
where the end of its input is next. The base loop waits. -/
def lonelyClient : List ListenAction :=
  let readable : Events := ⟨true, false, false, false, false, false⟩
  [.connect, .act (.epollWait 0 [.listen]), .accept (some 5) false, .act (.doPendingFunctors 0), .act (.functor 0),
    .act (.epollWait 1 [.wakeup]), .act (.nextChannel 1), .act (.doPendingFunctors 1), .act (.functor 1),
    .act (.functor 1), .act (.epollWait 1 [.socket 5 readable]), .act (.nextChannel 1)]

instance : ∀ s a, Decidable (Prompt s a)
  | _, .act (.callback ..) => inferInstanceAs (Decidable (_ → _ → _ → _))
  | _, .act (.functor 0) => inferInstanceAs (Decidable (_ → _ → _))
  | _, .connect | _, .accept .. | _, .act (.epollWait ..) | _, .act (.nextChannel _) | _, .act (.accept _)
  | _, .act (.doPendingFunctors _) | _, .act (.functor (_ + 1)) | _, .act (.shutdown ..) | _, .act (.send ..) =>
    inferInstanceAs (Decidable True)

/-- The removal of the connection is left behind. -/
theorem stranded_lonelyClient :
    (listening.final ⟨start "echo" "127.0.0.1:2007" 1 false, 0⟩
      (lonelyClient ++ [.act (.callback 1 (.ok []) (.accepted 0))])).Stranded := by
  have hs := Machine.invariant (M := listening) (P := Prompt) (I := fun s => s.server.Based ∧ ¬ s.Stranded)
    (fun s a h hp => ⟨(stepOk h.1 h.2 a).1, (stepOk h.1 h.2 a).2.mpr hp⟩) lonelyClient
    ⟨start "echo" "127.0.0.1:2007" 1 false, 0⟩ ⟨start_based .., start_not_stranded "echo" "127.0.0.1:2007" 0⟩
    (by decide +kernel)
  rw [Machine.final_append]
  have hok := stepOk hs.1 hs.2 (.act (.callback 1 (.ok []) (.accepted 0)))
  refine Classical.not_not.mp (mt hok.2.mp ?_)
  decide +kernel

end TcpServer

end Ydx
