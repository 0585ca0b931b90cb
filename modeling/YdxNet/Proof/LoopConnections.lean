import YdxNet.Impl.TcpServer
import YdxNet.Proof.Destroyed

/-!
# The connections of a loop

Whatever a server does, a loop only ever comes to channels of connections that
are its own: a function of a connection registers no channel but its own
(`Owns`), and with the poller of the connection's loop. What holds over the parts
that the functions of a server are made of holds over each of them (`Frame`).
`Extends` says what they keep between two steps of a loop, in any run and with
any results of the system calls; `Homed` is the invariant that follows.
-/

namespace Ydx

theorem getElem?_concat_of_some {α : Type} {xs : List α} {x y : α} {i : Nat} (h : xs[i]? = some y) :
    (xs ++ [x])[i]? = some y := by
  rw [List.getElem?_append_left (List.getElem?_eq_some_iff.mp h).1]
  exact h

/-- What a list with one more element has, it had, or it is that element. -/
theorem getElem?_concat_cases {α : Type} {xs : List α} {x y : α} {i : Nat} (h : (xs ++ [x])[i]? = some y) :
    xs[i]? = some y ∨ i = xs.length ∧ y = x := by
  by_cases hi : i < xs.length
  · rw [List.getElem?_append_left hi] at h
    exact .inl h
  · have hlt := (List.getElem?_eq_some_iff.mp h).1
    rw [List.length_append, List.length_singleton] at hlt
    have he : i = xs.length := by omega
    subst he
    rw [List.getElem?_concat_length] at h
    exact .inr ⟨rfl, (Option.some.inj h).symm⟩

namespace EPollPoller

variable {p : EPollPoller} {c : Channel} {fd : Fd} {i : Events × Nat}

theorem mem_update {op : CtlOp} (h : (p.update op c).interest fd = some i) : p.interest fd = some i ∨ i.2 = c.this := by
  by_cases hfd : fd = c.fd_
  · subst hfd
    unfold update at h
    split at h
    · simp only [Function.update_self, Option.some.injEq] at h
      exact .inr (by rw [← h])
    · simp only [Function.update_self, Option.some.injEq] at h
      exact .inr (by rw [← h])
    · simp only [Function.update_self] at h
      cases h
    · exact .inl h
  · rw [interest_update_of_ne hfd] at h
    exact .inl h

theorem mem_updateChannel {e : Events} (h : (p.updateChannel { c with events_ := e }).1.interest fd = some i) :
    p.interest fd = some i ∨ i.2 = c.this := by
  unfold updateChannel at h
  split at h
  · have hi := mem_update h
    exact hi
  · have hi := mem_update h
    exact hi
  · split at h
    · have hi := mem_update h
      exact hi
    · have hi := mem_update h
      exact hi

theorem mem_removeChannel (h : (p.removeChannel c).1.interest fd = some i) : p.interest fd = some i ∨ i.2 = c.this := by
  unfold removeChannel at h
  dsimp only at h
  split at h
  · have hi := mem_update h
    exact hi
  · exact .inl h

theorem this_updateChannel (p : EPollPoller) (c : Channel) : (p.updateChannel c).2.this = c.this := by
  unfold updateChannel
  split
  · rfl
  · rfl
  · split
    · rfl
    · rfl

end EPollPoller

namespace TcpConnection

open EPollPoller

variable {p : EPollPoller} {conn : TcpConnection}

/-- A function of a connection registers no channel but the connection's. -/
structure Owns (p : EPollPoller) (conn : TcpConnection) (p' : EPollPoller) (conn' : TcpConnection) : Prop where
  this : conn'.channel_.this = conn.channel_.this
  interest : ∀ fd i, p'.interest fd = some i → p.interest fd = some i ∨ i.2 = conn.channel_.this

theorem owns_touched {b : Bool} {p' : EPollPoller} {conn' : TcpConnection}
    (h : Touched p conn.channel_ b (p', conn'.channel_)) : Owns p conn p' conn' := by
  cases b with
  | true =>
    obtain ⟨e, he⟩ := h
    have hp : p' = (p.updateChannel { conn.channel_ with events_ := e }).1 := congrArg Prod.fst he
    have hc : conn'.channel_ = (p.updateChannel { conn.channel_ with events_ := e }).2 := congrArg Prod.snd he
    refine ⟨by rw [hc, this_updateChannel], fun fd i hi => ?_⟩
    rw [hp] at hi
    exact mem_updateChannel hi
  | false =>
    obtain ⟨hp, hc⟩ := Prod.mk.inj (show (p', conn'.channel_) = (p, conn.channel_) from h)
    exact ⟨by rw [hc], fun fd i hi => .inl (by rw [← hp]; exact hi)⟩

theorem owns_connectEstablished (p : EPollPoller) (conn : TcpConnection) :
    Owns p conn (conn.connectEstablished p).1 (conn.connectEstablished p).2.1 :=
  ⟨this_updateChannel .., fun _ _ hi => mem_updateChannel hi⟩

theorem owns_connectDestroyed (p : EPollPoller) (conn : TcpConnection) :
    Owns p conn (conn.connectDestroyed p).1 (conn.connectDestroyed p).2.1 := by
  unfold connectDestroyed
  by_cases hs : conn.state_ = .kConnected
  · simp only [if_pos hs]
    refine ⟨this_updateChannel .., fun fd i hi => ?_⟩
    rcases mem_removeChannel hi with hi | hi
    · exact mem_updateChannel hi
    · exact .inr (hi.trans (this_updateChannel ..))
  · simp only [if_neg hs]
    exact ⟨rfl, fun fd i hi => mem_removeChannel hi⟩

theorem owns_handler (readv : ReadvResult) (write : WriteResult) (cb : Callback) (p : EPollPoller) (conn : TcpConnection) :
    Owns p conn (TcpServer.handler readv write cb p conn).1 (TcpServer.handler readv write cb p conn).2.1 := by
  cases cb with
  | closeCallback_ => exact owns_touched (touched_handleClose p conn)
  | errorCallback_ => exact ⟨rfl, fun _ _ hi => .inl hi⟩
  | readCallback_ => exact owns_touched (touched_handleRead p conn readv)
  | writeCallback_ => exact owns_touched (touched_handleWrite p conn write)

theorem owns_send (p : EPollPoller) (conn : TcpConnection) (data : List Byte) (len : Int32) (result : WriteResult) :
    Owns p conn (conn.send p data len result).1 (conn.send p data len result).2.1 :=
  owns_touched (touched_send p conn data len result)

end TcpConnection

/-- A callback of connection `c` is to come in this round. -/
def Phase.Mentions {φ : Type} (c : Nat) : Phase φ → Prop
  | .handling callbacks active => (∃ cb, (c, cb) ∈ callbacks) ∨ ∃ revents, .connection c revents ∈ active
  | _ => False

namespace TcpServer

open TcpConnection

variable {s s' s₁ s₂ s₃ : TcpServer} {C : ServerConn} {l c : Nat}

/-- Connection `c` is on the loop `l`. -/
def On (s : TcpServer) (l c : Nat) : Prop := ∃ C, s.conns[c]? = some C ∧ C.epoller_ = l

/-- The number of a connection is the address of its channel. -/
def Addressed (s : TcpServer) : Prop := ∀ (c : Nat) (C : ServerConn), s.conns[c]? = some C → C.conn.channel_.this = c

/-- `newConnection` up to `connectEstablished`. -/
def added (s : TcpServer) (sockfd : Fd) : TcpServer :=
  { s with
    threadPool_ := s.threadPool_.getNextLoop.2
    nextConnId_ := s.nextConnId_ + 1
    conns := s.conns ++ [⟨s.threadPool_.getNextLoop.1, s.connName, .new s.conns.length sockfd, []⟩]
    connections_ := Function.update s.connections_ s.connName (some s.conns.length) }

/-- A relation of a server with what becomes of it that all operations on its
connections keep, because what they are made of does. -/
structure Frame (R : TcpServer → TcpServer → Prop) : Prop where
  refl : ∀ s, R s s
  trans : ∀ {s₁ s₂ s₃}, R s₁ s₂ → R s₂ s₃ → R s₁ s₃
  queueInLoop : ∀ s caller l f, R s (s.queueInLoop caller l f)
  /-- A connection changes, keeps its place and its name, and entries of
  `connections_` are taken out. -/
  set : ∀ {s : TcpServer} {c : Nat} {C C' : ServerConn} (entries : String → Option Nat), s.conns[c]? = some C →
    C'.epoller_ = C.epoller_ → C'.name_ = C.name_ → C'.conn.channel_.this = C.conn.channel_.this →
    (∀ n d, entries n = some d → s.connections_ n = some d) →
    R s { s with connections_ := entries, conns := s.conns.set c C' }
  /-- A function of a connection changes it, and the poller of its loop. -/
  store : ∀ {s : TcpServer} {c : Nat} {C C' : ServerConn} {p' : EPollPoller}, s.conns[c]? = some C →
    C'.epoller_ = C.epoller_ → C'.name_ = C.name_ → Owns (s.loops C.epoller_).poller C.conn p' C'.conn →
    R s (s.store c p' C')

namespace Frame

variable {R : TcpServer → TcpServer → Prop}

theorem removeConnectionInLoop (h : Frame R) (s : TcpServer) (caller c : Nat) :
    R s (s.removeConnectionInLoop caller c) := by
  unfold TcpServer.removeConnectionInLoop
  split
  · exact h.refl s
  · rename_i C hc
    refine h.trans (h.queueInLoop s caller C.epoller_ (.connectDestroyed c)) ?_
    refine h.set (s := s.queueInLoop caller C.epoller_ (.connectDestroyed c)) (C := C) _ hc rfl rfl rfl fun n d hd => ?_
    by_cases hn : n = C.name_
    · rw [hn, Function.update_self] at hd
      cases hd
    · rwa [Function.update_of_ne hn] at hd

theorem removeConnection (h : Frame R) (s : TcpServer) (caller c : Nat) : R s (s.removeConnection caller c) := by
  unfold TcpServer.removeConnection runInLoop
  split
  · exact h.removeConnectionInLoop s caller c
  · exact h.queueInLoop s caller 0 _

theorem call (h : Frame R) (s : TcpServer) (caller c : Nat) (entry : List Note)
    {g : EPollPoller → TcpConnection → EPollPoller × TcpConnection × List Act}
    (hg : ∀ p conn, Owns p conn (g p conn).1 (g p conn).2.1) : R s (s.call caller c entry g) := by
  unfold TcpServer.call
  split
  · exact h.refl s
  · rename_i C hc
    have h₁ : R s (s.store c (g (s.loops C.epoller_).poller C.conn).1 { C with
        conn := (g (s.loops C.epoller_).poller C.conn).2.1
        history := C.history ++ entry ++ (g (s.loops C.epoller_).poller C.conn).2.2.map .act }) :=
      h.store hc rfl rfl (hg _ _)
    dsimp only
    split
    · exact h.trans h₁ (h.removeConnection _ caller c)
    · exact h₁

theorem exec (h : Frame R) (s : TcpServer) (l : Nat) (f : Functor) : R s (s.exec l f) := by
  cases f with
  | connectEstablished c => exact h.call s l c _ owns_connectEstablished
  | connectDestroyed c => exact h.call s l c _ owns_connectDestroyed
  | removeConnectionInLoop c => exact h.removeConnectionInLoop s l c
  | shutdownInLoop c =>
    exact h.call s l c [] (g := fun p conn => (p, conn, conn.shutdownInLoop)) fun _ _ => ⟨rfl, fun _ _ => .inl⟩

theorem shutdown (h : Frame R) (s : TcpServer) (caller c : Nat) : R s (s.shutdown caller c) := by
  unfold TcpServer.shutdown
  split
  · exact h.refl s
  · rename_i C hc
    have hthis : C.conn.shutdown.1.channel_.this = C.conn.channel_.this := by
      unfold TcpConnection.shutdown
      split
      · rfl
      · rfl
    have h₁ : R s { s with conns := s.conns.set c { C with conn := C.conn.shutdown.1 } } :=
      h.set s.connections_ hc rfl rfl hthis fun _ _ => id
    dsimp only
    split
    · unfold runInLoop
      split
      · exact h.trans h₁ (h.exec _ _ _)
      · exact h.trans h₁ (h.queueInLoop _ _ _ _)
    · exact h₁

theorem newConnection (h : Frame R) (s : TcpServer) (sockfd : Fd) : R (s.added sockfd) (s.newConnection sockfd) := by
  unfold TcpServer.newConnection runInLoop
  dsimp only
  split
  · exact h.exec (s.added sockfd) _ _
  · exact h.queueInLoop (s.added sockfd) _ _ _

end Frame

/-- The connections stay on their loops, the loops stay where they are, functors
are only added, and only channels of a loop's own connections are registered. -/
structure Extends (s s' : TcpServer) : Prop where
  pool : s'.threadPool_ = s.threadPool_
  on : ∀ l c, s'.On l c ↔ s.On l c
  addressed : s.Addressed → s'.Addressed
  phase : ∀ l, (s'.loops l).phase = (s.loops l).phase
  pending : ∀ l f, f ∈ (s.loops l).pendingFunctors_ → f ∈ (s'.loops l).pendingFunctors_
  interest : s.Addressed → ∀ l fd i, (s'.loops l).poller.interest fd = some i →
    (s.loops l).poller.interest fd = some i ∨ s.On l i.2

theorem Extends.refl (s : TcpServer) : Extends s s :=
  ⟨rfl, fun _ _ => Iff.rfl, id, fun _ => rfl, fun _ _ => id, fun _ _ _ _ => .inl⟩

theorem Extends.trans (h₁ : Extends s₁ s₂) (h₂ : Extends s₂ s₃) : Extends s₁ s₃ where
  pool := h₂.pool.trans h₁.pool
  on l c := (h₂.on l c).trans (h₁.on l c)
  addressed h := h₂.addressed (h₁.addressed h)
  phase l := (h₂.phase l).trans (h₁.phase l)
  pending l f h := h₂.pending l f (h₁.pending l f h)
  interest ha l fd i h := by
    rcases h₂.interest (h₁.addressed ha) l fd i h with h | h
    · exact h₁.interest ha l fd i h
    · exact .inr ((h₁.on l i.2).mp h)

theorem loops_setLoop (s : TcpServer) (l l' : Nat) (e : EventLoop Functor) :
    (s.setLoop l e).loops l' = if l' = l then e else s.loops l' := Function.update_apply ..

theorem loops_setLoop_self (s : TcpServer) (l : Nat) (e : EventLoop Functor) : (s.setLoop l e).loops l = e :=
  Function.update_self ..

theorem loops_setLoop_ne (s : TcpServer) {l l' : Nat} (e : EventLoop Functor) (h : l' ≠ l) :
    (s.setLoop l e).loops l' = s.loops l' := Function.update_of_ne h ..

/-- A loop changes. -/
theorem extends_setLoop {e : EventLoop Functor} (hph : e.phase = (s.loops l).phase)
    (hq : ∀ f, f ∈ (s.loops l).pendingFunctors_ → f ∈ e.pendingFunctors_)
    (hi : s.Addressed → ∀ fd i, e.poller.interest fd = some i → (s.loops l).poller.interest fd = some i ∨ s.On l i.2) :
    Extends s (s.setLoop l e) := by
  refine ⟨rfl, fun _ _ => Iff.rfl, id, fun l' => ?_, fun l' f hf => ?_, fun ha l' fd i h => ?_⟩
  · rw [loops_setLoop]
    split
    · rename_i he
      rw [hph, he]
    · rfl
  · rw [loops_setLoop]
    split
    · rename_i he
      rw [he] at hf
      exact hq f hf
    · exact hf
  · rw [loops_setLoop] at h
    split at h
    · rename_i he
      rw [he]
      exact hi ha fd i h
    · exact .inl h

theorem extends_queueInLoop (s : TcpServer) (caller l : Nat) (f : Functor) : Extends s (s.queueInLoop caller l f) :=
  extends_setLoop rfl (fun _ hf => List.mem_append_left _ hf) fun _ _ _ => .inl

/-- A connection changes, and stays where it is. -/
theorem extends_set {C' : ServerConn} (hc : s.conns[c]? = some C) (he : C'.epoller_ = C.epoller_)
    (ht : C'.conn.channel_.this = C.conn.channel_.this) (entries : String → Option Nat) :
    Extends s { s with connections_ := entries, conns := s.conns.set c C' } := by
  have hlt : c < s.conns.length := (List.getElem?_eq_some_iff.mp hc).1
  have hget : ∀ c', (s.conns.set c C')[c']? = if c' = c then some C' else s.conns[c']? := by
    intro c'
    by_cases h : c' = c
    · rw [if_pos h, h, List.getElem?_set_self hlt]
    · rw [if_neg h, List.getElem?_set_ne (Ne.symm h)]
  refine ⟨rfl, fun l c' => ?_, fun ha c' D hD => ?_, fun _ => rfl, fun _ _ => id, fun _ _ _ _ => .inl⟩
  · simp only [On, hget]
    split
    · rename_i h
      rw [h, hc]
      simp [he]
    · exact Iff.rfl
  · simp only [hget] at hD
    split at hD
    · rename_i h
      rw [← Option.some.inj hD, ht, h]
      exact ha c C hc
    · exact ha c' D hD

/-- A function of a connection changes it, and the poller of its loop. -/
theorem extends_store {p' : EPollPoller} {C' : ServerConn} (hc : s.conns[c]? = some C) (he : C'.epoller_ = C.epoller_)
    (ho : Owns (s.loops C.epoller_).poller C.conn p' C'.conn) : Extends s (s.store c p' C') := by
  have h₁ : Extends s (s.setLoop C'.epoller_ { s.loops C'.epoller_ with poller := p' }) := by
    refine extends_setLoop rfl (fun _ => id) fun ha fd i hi => ?_
    rw [he]
    rcases ho.interest fd i hi with h | h
    · exact .inl h
    · exact .inr ⟨C, by rw [h, ha c C hc]; exact hc, rfl⟩
  have h₂ := extends_set (s := s.setLoop C'.epoller_ { s.loops C'.epoller_ with poller := p' }) hc he ho.this s.connections_
  exact h₁.trans h₂

theorem extends_frame : Frame Extends where
  refl := Extends.refl
  trans := Extends.trans
  queueInLoop := extends_queueInLoop
  set entries hc he _ ht _ := extends_set hc he ht entries
  store hc he _ ho := extends_store hc he ho

theorem On.added (h : s.On l c) (sockfd : Fd) : (s.added sockfd).On l c := by
  obtain ⟨D, hD, hl⟩ := h
  exact ⟨D, getElem?_concat_of_some hD, hl⟩

/-! ## The invariant -/

/-- Connections are on loops that there are, and a loop knows only of its own. -/
structure Homed (s : TcpServer) : Prop where
  addressed : s.Addressed
  registered : ∀ l fd i, (s.loops l).poller.interest fd = some i → s.On l i.2
  mentioned : ∀ l c, (s.loops l).phase.Mentions c → s.On l c
  range : ∀ l c, s.On l c → l ≤ s.threadPool_.numThreads_
  next : s.threadPool_.numThreads_ = 0 ∨ s.threadPool_.next_ < s.threadPool_.numThreads_

theorem Homed.extends (h : Homed s) (he : Extends s s') : Homed s' where
  addressed := he.addressed h.addressed
  registered l fd i hi := by
    refine (he.on l i.2).mpr ?_
    rcases he.interest h.addressed l fd i hi with hi | hi
    · exact h.registered l fd i hi
    · exact hi
  mentioned l c hm := by
    rw [he.phase] at hm
    exact (he.on l c).mpr (h.mentioned l c hm)
  range l c hc := by
    rw [he.pool]
    exact h.range l c ((he.on l c).mp hc)
  next := by
    rw [he.pool]
    exact h.next

/-- A loop moves on. -/
theorem Homed.setLoop {e : EventLoop Functor} (h : Homed s) (hp : e.poller = (s.loops l).poller)
    (hm : ∀ c, e.phase.Mentions c → s.On l c) : Homed (s.setLoop l e) := by
  refine ⟨h.addressed, fun l' fd i hi => ?_, fun l' c hc => ?_, h.range, h.next⟩
  · rw [loops_setLoop] at hi
    split at hi
    · rename_i he
      rw [hp] at hi
      rw [he]
      exact h.registered l fd i hi
    · exact h.registered l' fd i hi
  · rw [loops_setLoop] at hc
    split at hc
    · rename_i he
      rw [he]
      exact hm c hc
    · exact h.mentioned l' c hc

theorem homed_start (name hostport : String) (numThreads : Nat) (baseWakeup : Bool) :
    Homed (start name hostport numThreads baseWakeup) := by
  have hloop : ∀ l, ((start name hostport numThreads baseWakeup).loops l).phase = .waiting ∧
      ∀ fd, ((start name hostport numThreads baseWakeup).loops l).poller.interest fd = none := by
    intro l
    simp only [start]
    split
    · exact ⟨rfl, fun _ => rfl⟩
    · exact ⟨rfl, fun _ => rfl⟩
  refine ⟨fun c C hC => ?_, fun l fd i hi => ?_, fun l c hm => ?_, fun l c hc => ?_, Nat.eq_zero_or_pos numThreads⟩
  · cases hC
  · rw [(hloop l).2] at hi
    cases hi
  · rw [(hloop l).1] at hm
    exact hm.elim
  · obtain ⟨C, hC, -⟩ := hc
    cases hC

theorem getNextLoop_le {t : EPollerThreadPool} (h : t.numThreads_ = 0 ∨ t.next_ < t.numThreads_) :
    t.getNextLoop.1 ≤ t.numThreads_ ∧ t.getNextLoop.2.numThreads_ = t.numThreads_ ∧
      (t.getNextLoop.2.numThreads_ = 0 ∨ t.getNextLoop.2.next_ < t.getNextLoop.2.numThreads_) := by
  unfold EPollerThreadPool.getNextLoop
  split
  · exact ⟨Nat.zero_le _, rfl, h⟩
  · rename_i hne
    have hlt := h.resolve_left hne
    refine ⟨hlt, rfl, .inr ?_⟩
    dsimp only
    split
    · exact Nat.pos_of_ne_zero hne
    · omega

theorem Homed.added (h : Homed s) (sockfd : Fd) : Homed (s.added sockfd) := by
  obtain ⟨hle, hnum, hnext⟩ := getNextLoop_le h.next
  have hold : ∀ l c, s.On l c → (s.added sockfd).On l c := fun _ _ hc => hc.added sockfd
  refine ⟨fun c D hD => ?_, fun l fd i hi => ?_, fun l c hm => ?_, fun l c hc => ?_, hnext⟩
  · rcases getElem?_concat_cases hD with hD | ⟨rfl, rfl⟩
    · exact h.addressed c D hD
    · rfl
  · exact hold l i.2 (h.registered l fd i hi)
  · exact hold l c (h.mentioned l c hm)
  · obtain ⟨D, hD, hl⟩ := hc
    show l ≤ s.threadPool_.getNextLoop.2.numThreads_
    rw [hnum]
    rcases getElem?_concat_cases hD with hD | ⟨-, rfl⟩
    · exact h.range l c ⟨D, hD, hl⟩
    · exact hl ▸ hle

theorem Homed.newConnection (h : Homed s) (sockfd : Fd) : Homed (s.newConnection sockfd) :=
  (h.added sockfd).extends (extends_frame.newConnection s sockfd)

/-- A loop comes only to what is registered with it. -/
theorem Homed.mentions_epollWait (h : Homed s) {ready : List Ready}
    (hm : ((s.loops l).epollWait ready).phase.Mentions c) : s.On l c := by
  unfold EventLoop.epollWait at hm
  split at hm
  · split at hm
    · exact h.mentioned l c hm
    · rcases hm with ⟨cb, hm⟩ | ⟨revents, hm⟩
      · exact absurd hm List.not_mem_nil
      · obtain ⟨r, -, hr⟩ := List.mem_filterMap.mp hm
        cases r with
        | wakeup =>
          dsimp only at hr
          split at hr <;> cases hr
        | listen =>
          dsimp only at hr
          split at hr <;> cases hr
        | socket fd events =>
          obtain ⟨i, hi, he⟩ := Option.map_eq_some_iff.mp hr
          have hc : i.2 = c := (Active.connection.inj he).1
          have hon := h.registered l fd i hi
          rw [hc] at hon
          exact hon
  · exact h.mentioned l c hm

theorem mentions_nextChannel {e : EventLoop Functor} (hm : e.nextChannel.phase.Mentions c) : e.phase.Mentions c := by
  unfold EventLoop.nextChannel at hm
  split at hm
  · rename_i active hph
    rw [hph]
    rcases hm with ⟨cb, hm⟩ | ⟨revents, hm⟩
    · exact absurd hm List.not_mem_nil
    · exact .inr ⟨revents, List.mem_cons_of_mem _ hm⟩
  · rename_i this revents active hph
    rw [hph]
    rcases hm with ⟨cb, hm⟩ | ⟨revents', hm⟩
    · obtain ⟨cb', -, he⟩ := List.mem_map.mp hm
      have hc : this = c := congrArg Prod.fst he
      exact .inr ⟨revents, by rw [hc]; exact List.mem_cons_self⟩
    · exact .inr ⟨revents', List.mem_cons_of_mem _ hm⟩
  · exact hm

theorem mentions_doPendingFunctors {e : EventLoop Functor} (hm : e.doPendingFunctors.phase.Mentions c) :
    e.phase.Mentions c := by
  unfold EventLoop.doPendingFunctors at hm
  split at hm
  · exact hm.elim
  · exact hm

theorem poller_epollWait (e : EventLoop Functor) (ready : List Ready) : (e.epollWait ready).poller = e.poller := by
  unfold EventLoop.epollWait
  split
  · split <;> rfl
  · rfl

theorem poller_nextChannel (e : EventLoop Functor) : e.nextChannel.poller = e.poller := by
  unfold EventLoop.nextChannel
  split <;> rfl

theorem poller_doPendingFunctors (e : EventLoop Functor) : e.doPendingFunctors.poller = e.poller := by
  unfold EventLoop.doPendingFunctors
  split <;> rfl

/-- Every step of a server keeps it. -/
theorem Homed.step (h : Homed s) (a : Action) : Homed (s.step a) := by
  cases a with
  | epollWait l ready => exact h.setLoop (poller_epollWait _ ready) fun _ hm => h.mentions_epollWait hm
  | nextChannel l => exact h.setLoop (poller_nextChannel _) fun c hm => h.mentioned l c (mentions_nextChannel hm)
  | accept connfd =>
    simp only [TcpServer.step]
    split
    · rename_i active hph
      have h₁ : Homed (s.setLoop 0 { s.loops 0 with phase := .handling [] active }) := by
        refine h.setLoop rfl fun c hm => h.mentioned 0 c ?_
        rw [hph]
        rcases hm with ⟨cb, hm⟩ | ⟨r, hm⟩
        · exact absurd hm List.not_mem_nil
        · exact .inr ⟨r, List.mem_cons_of_mem _ hm⟩
      split
      · exact h₁.newConnection _
      · exact h₁
    · exact h
  | callback l readv write =>
    simp only [TcpServer.step]
    split
    · rename_i c cb callbacks active hph
      have h₁ : Homed (s.setLoop l { s.loops l with phase := .handling callbacks active }) := by
        refine h.setLoop rfl fun c' hm => h.mentioned l c' ?_
        rw [hph]
        rcases hm with ⟨cb, hm⟩ | hm
        · exact .inl ⟨cb, List.mem_cons_of_mem _ hm⟩
        · exact .inr hm
      exact h₁.extends (extends_frame.call _ l c [] (owns_handler readv write cb))
    · exact h
  | doPendingFunctors l =>
    exact h.setLoop (poller_doPendingFunctors _) fun c hm => h.mentioned l c (mentions_doPendingFunctors hm)
  | functor l =>
    simp only [TcpServer.step]
    split
    · rename_i f functors hph
      have h₁ : Homed (s.setLoop l { s.loops l with phase := .calling functors }) := h.setLoop rfl fun _ hm => hm.elim
      exact h₁.extends (extends_frame.exec _ l f)
    · exact h.setLoop rfl fun _ hm => hm.elim
    · exact h
  | shutdown caller c => exact h.extends (extends_frame.shutdown s caller c)
  | send caller c data len result =>
    exact h.extends (extends_frame.call s caller c [] fun p conn => owns_send p conn data len result)

end TcpServer

end Ydx
