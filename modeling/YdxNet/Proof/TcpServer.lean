import YdxNet.Proof.Lifecycle

/-!
# The life of a server's connections

Every function of a server keeps the invariant of `Lifecycle`: the functors
(`Inv.exec`), the events of a connection (`Inv.handleRead`), accepting
(`Inv.newConnection`), and what the loops do between these calls. So in every
interleaving of the loops each connection comes up once, is closed once after
that, then leaves `connections_` and is destroyed (`lifecycle_ok`). What is
assumed of the kernel and of the program is `Allowed`.
-/

namespace Ydx

/-- The descriptor of a socket that is reported. -/
def Ready.fd : Ready → Option Fd
  | .socket fd _ => some fd
  | _ => none

/-- The events of a socket that is reported. -/
def Ready.revents : Ready → Events
  | .socket _ revents => revents
  | _ => .kNoneEvent

namespace TcpServer

variable {s s' : TcpServer} {hand hand' : List (Nat × Functor)} {c l : Nat} {C : ServerConn} {f : Functor}
  {p : EPollPoller}

/-! ## The functors -/

theorem Inv.connectEstablished (h : s.Inv ((l, .connectEstablished c) :: hand)) (caller : Nat) :
    (s.call caller c [.connectEstablished] TcpConnection.connectEstablished).Inv hand := by
  obtain ⟨C, hc, how, hzero⟩ := h.owing (c := c) rfl rfl
  have hst : C.stage = .created := Stage.eq_of_owes how
  have hd : C.stage ≠ .destroyed := by rw [hst]; exact Stage.noConfusion
  have hat := h.conn c C hc
  have hch := hat.channel
  have hown := h.interest_own hc hd
  rw [hst] at hch
  rw [if_neg (by rw [hst]; exact Stage.noConfusion)] at hown
  obtain ⟨hp, hconn, hacts⟩ := TcpConnection.connectEstablished_ok hch.1 hch.2 hown
  rw [call_eq hc]
  dsimp only
  rw [hacts, if_neg (by decide), hconn]
  refine h.store .up 0 hc hd ?_ rfl rfl rfl hat.this (.inl rfl) ⟨rfl, rfl⟩ ?_ ?_ ?_ ?_ (fun _ _ => rfl)
  · rw [lifecycle_append]
    obtain ⟨k, hn⟩ := hat.notes
    rw [hn, hst]
    rfl
  · rw [hp, if_pos rfl, hat.this]
  · intro l' f' hf' hl'
    rw [hzero l' f' hf' hl']
    rfl
  · intro l' f' hf'
    exact owed_done s hand l hf' l'
  · rw [hst]
    rfl

theorem Inv.connectDestroyed (h : s.Inv ((l, .connectDestroyed c) :: hand)) (caller : Nat) :
    (s.call caller c [.connectDestroyed] TcpConnection.connectDestroyed).Inv hand := by
  obtain ⟨C, hc, how, hzero⟩ := h.owing (c := c) rfl rfl
  have hst : C.stage = .removed := Stage.eq_of_owes how
  have hd : C.stage ≠ .destroyed := by rw [hst]; exact Stage.noConfusion
  have hup : C.stage ≠ .up := by rw [hst]; exact Stage.noConfusion
  have hat := h.conn c C hc
  have hch := hat.channel
  have hs := hat.state
  have hown := h.interest_own hc hd
  rw [hst] at hch hs
  rw [if_neg hup] at hown
  have hs' : C.conn.state_ ≠ .kConnected := by rw [show C.conn.state_ = .kDisconnected from hs]; exact StateE.noConfusion
  obtain ⟨hp, hconn, hacts⟩ := TcpConnection.connectDestroyed_ok (p := (s.loops C.epoller_).poller) hs' hch.1
  rw [call_eq hc]
  dsimp only
  rw [hacts, if_neg (by decide), hconn]
  obtain ⟨k, hn⟩ := hat.notes
  refine h.store .destroyed k hc hd ?_ rfl rfl rfl hat.this hs ⟨Index.noConfusion, hch.2⟩ ?_ ?_ ?_ ?_ ?_
  · rw [lifecycle_append, hn, hst]
    rfl
  · rw [hp, if_neg Stage.noConfusion, ← hown, Function.update_eq_self]
  · intro l' f' hf' hl'
    rw [hzero l' f' hf' hl']
    rfl
  · intro l' f' hf'
    exact owed_done s hand l hf' l'
  · rw [hst]
    rfl
  · intro l' hm
    exact absurd hm (h.not_reading hc hup l')

/-- `removeConnectionInLoop` finds the entry of its connection, and erases it. -/
theorem Inv.removeConnectionInLoop (h : s.Inv ((l, .removeConnectionInLoop c) :: hand)) (caller : Nat) :
    (s.removeConnectionInLoop caller c).Inv hand := by
  obtain ⟨C, hc, how, hzero⟩ := h.owing (c := c) rfl rfl
  have hst : C.stage = .closed := Stage.eq_of_owes how
  have hup : C.stage ≠ .up := by rw [hst]; exact Stage.noConfusion
  have hat := h.conn c C hc
  rw [hst] at hat
  have hentry : s.connections_ C.name_ = some c := hat.entry
  obtain ⟨k, hn⟩ := hat.notes
  unfold TcpServer.removeConnectionInLoop
  simp only [hc]
  have hq := owed_queueInLoop s hand caller C.epoller_ (f := .connectDestroyed c)
  have hn' : ServerConn.lifecycle { C with history := C.history ++ [.removeConnectionInLoop (some c)] } =
      Stage.removed.notes c k := by
    rw [lifecycle_append C C.conn, hn]
    rfl
  have hst' := ServerConn.stage_eq hn'
  have hreg : ∀ l fd e c', (s.queueInLoop caller C.epoller_ (.connectDestroyed c)).Registered l fd e c' ↔
      s.Registered l fd e c' := by
    intro l fd e c'
    unfold Registered
    rw [(queueInLoop_frame s caller C.epoller_ (.connectDestroyed c) l).1]
  have hconns : s.conns.set c { C with history := C.history ++ [.removeConnectionInLoop (s.connections_ C.name_)] } =
      s.conns.set c { C with history := C.history ++ [.removeConnectionInLoop (some c)] } := by rw [hentry]
  refine h.update hc hconns rfl rfl rfl ?_ (fun l fd e c' _ => hreg l fd e c') ?_ ?_ ?_
    (fun l => (queueInLoop_frame ..).2) ?_
  · rw [hst']
    refine ⟨⟨k, hn'⟩, hat.state, hat.this, hat.channel, ?_, ?_, ?_⟩
    · intro l fd e
      refine (hreg l fd e c).trans ((hat.registered l fd e).trans ?_)
      simp only [reduceCtorEq, false_and]
    · intro l f hf hl
      refine (hq l f).trans ?_
      rw [owed_cons, hzero l f hf hl]
      simp only [Stage.owes, Option.some.injEq, Nat.zero_add]
    · exact Function.update_self ..
  · intro l' f hf
    refine (hq l' f).trans ?_
    rw [← owed_done s hand C.epoller_ (f := .connectDestroyed c) hf l']
    exact owed_done s hand l (f := .removeConnectionInLoop c) hf l'
  · intro n hne
    exact Function.update_of_ne hne ..
  · rw [hst]
    exact Stage.noConfusion
  · intro l hm
    exact absurd hm (h.not_reading hc hup l)

theorem Inv.removeConnection (h : s.Inv ((0, .removeConnectionInLoop c) :: hand)) (caller : Nat) :
    (s.removeConnection caller c).Inv hand :=
  h.runInLoop (h.removeConnectionInLoop caller) caller

/-! ## The events of a connection -/

theorem opening_append (k j : Nat) :
    Stage.opening k ++ List.replicate j (.act .messageCallback) = Stage.opening (k + j) := by
  simp only [Stage.opening, List.append_assoc, List.replicate_append_replicate]

/-- A connection stays up, and gets `j` messages. -/
theorem Inv.kept {conn : TcpConnection} {notes : List Note} {j : Nat} (h : s.Inv hand) (hc : s.conns[c]? = some C)
    (hup : C.stage = .up) (hk : TcpConnection.Kept (s.loops C.epoller_).poller C.conn p conn)
    (hj : notes.filter Note.isLifecycle = List.replicate j (.act .messageCallback)) :
    (s.store c p { C with conn := conn, history := C.history ++ notes }).Inv hand := by
  have hat := h.conn c C hc
  rw [hup] at hat
  obtain ⟨k, hn⟩ := hat.notes
  have hthis : conn.channel_.this = c := hk.this.trans hat.this
  refine h.store .up (k + j) hc ?_ ?_ rfl rfl hk.fd hthis ?_ ⟨hk.index, hk.reading⟩ ?_ hat.owed
    (fun _ _ _ => rfl) ?_ (fun _ _ => rfl)
  · rw [hup]
    exact Stage.noConfusion
  · rw [lifecycle_append, hn, hj]
    exact opening_append k j
  · rw [hk.state]
    exact hat.state
  · rw [hk.interest, hthis]
    rfl
  · rw [hup]

/-- A connection is closed, and its removal is in hand. -/
theorem Inv.closed (h : s.Inv hand) (conn : TcpConnection) (hc : s.conns[c]? = some C) (hup : C.stage = .up)
    (hr : ∀ l, c ∉ (s.loops l).phase.reading) (hs : conn.state_ = C.conn.state_)
    (hch : conn.channel_ = C.conn.channel_) :
    let r := conn.handleClose (s.loops C.epoller_).poller
    .closeCallback ∈ r.2.2 ∧
      (s.store c r.1 { C with conn := r.2.1, history := C.history ++ r.2.2.map .act }).Inv
        ((0, .removeConnectionInLoop c) :: hand) := by
  intro r
  have hat := h.conn c C hc
  have hreg := h.registered_up hc hup
  rw [hup] at hat
  obtain ⟨k, hn⟩ := hat.notes
  have hreg' : conn.Registered (s.loops C.epoller_).poller := by
    refine ⟨?_, ?_, ?_⟩ <;> rw [hch]
    · exact hreg.index
    · exact hreg.reading
    · exact hreg.interest
  obtain ⟨hp, hconn, hacts⟩ := TcpConnection.handleClose_ok hreg' (by rw [hs]; exact hat.state)
  rw [show r.2.2 = _ from hacts, show r.2.1 = _ from hconn]
  have hfd : conn.channel_.fd_ = C.conn.channel_.fd_ := by rw [hch]
  have hthis : conn.channel_.this = c := by rw [hch]; exact hat.this
  refine ⟨by decide, ?_⟩
  refine h.store .closed k hc ?_ ?_ rfl rfl hfd hthis rfl ⟨Index.noConfusion, rfl⟩ ?_ ?_ ?_ ?_
    fun l hm => absurd hm (hr l)
  · rw [hup]
    exact Stage.noConfusion
  · rw [lifecycle_append, hn]
    rfl
  · rw [show r.1.interest = _ from hp, hch, if_neg Stage.noConfusion]
  · intro l f hf hl
    have hzero : s.owed hand l f = 0 := hat.owed l f hf hl
    rw [owed_cons, hzero]
    simp only [Stage.owes, Option.some.injEq, Nat.zero_add]
  · intro l f hf
    exact (owed_done s hand 0 (f := .removeConnectionInLoop c) hf l).symm
  · rw [hup]
    rfl

theorem Inv.handleRead (h : s.Inv hand) (hc : s.conns[c]? = some C) (hup : C.stage = .up)
    (hr : ∀ l, c ∉ (s.loops l).phase.reading) (result : ReadvResult) (caller : Nat) :
    (s.call caller c [] fun p conn => conn.handleRead p result).Inv hand := by
  have hreg := h.registered_up hc hup
  rw [call_eq hc]
  dsimp only
  obtain ⟨b, hm | he | he⟩ := C.conn.handleRead_cases (s.loops C.epoller_).poller result
  · rw [hm, if_neg (by simp)]
    exact h.kept (j := 1) hc hup (hreg.kept rfl rfl) rfl
  · rw [he]
    obtain ⟨hcb, h'⟩ := h.closed { C.conn with inputBuffer_ := b } hc hup hr rfl rfl
    rw [if_pos hcb]
    exact h'.removeConnection caller
  · rw [he, if_neg (by simp)]
    exact h.kept (j := 0) hc hup (hreg.kept rfl rfl) rfl

/-- Writes are no lifecycle events, and call no callback. -/
theorem writes_inert {acts : List Act} {result : WriteResult} (ha : ∀ a ∈ acts, ∃ bytes, a = .write bytes result) :
    .closeCallback ∉ acts ∧ (acts.map Note.act).filter Note.isLifecycle = [] := by
  refine ⟨?_, ?_⟩
  · intro hm
    obtain ⟨_, h⟩ := ha _ hm
    exact absurd h Act.noConfusion
  · rw [List.filter_eq_nil_iff]
    intro x hx
    obtain ⟨a, hm, rfl⟩ := List.mem_map.mp hx
    obtain ⟨_, rfl⟩ := ha a hm
    exact Bool.false_ne_true

theorem Inv.send (h : s.Inv hand) (hup : ∀ C, s.conns[c]? = some C → C.stage = .up) (data : List Byte) (len : Int32)
    (result : WriteResult) (caller : Nat) :
    (s.call caller c [] fun p conn => conn.send p data len result).Inv hand := by
  cases hc : s.conns[c]? with
  | none => simp only [call, hc]; exact h
  | some C =>
    obtain ⟨h₁, h₂⟩ := writes_inert (C.conn.acts_send (s.loops C.epoller_).poller data len result)
    rw [call_eq hc]
    dsimp only
    rw [if_neg h₁]
    exact h.kept (j := 0) hc (hup C hc) (TcpConnection.send_kept (h.registered_up hc (hup C hc)) data len result) h₂

/-- `handleWrite` may come after the connection was closed; then it does nothing. -/
theorem Inv.handleWrite (h : s.Inv hand) (result : WriteResult) (caller : Nat) :
    (s.call caller c [] fun p conn => conn.handleWrite p result).Inv hand := by
  cases hc : s.conns[c]? with
  | none => simp only [call, hc]; exact h
  | some C =>
    obtain ⟨h₁, h₂⟩ := writes_inert (C.conn.acts_handleWrite (s.loops C.epoller_).poller result)
    rw [call_eq hc]
    dsimp only
    rw [if_neg h₁]
    by_cases hup : C.stage = .up
    · exact h.kept (j := 0) hc hup (TcpConnection.handleWrite_kept (h.registered_up hc hup) result) h₂
    · have hw : C.conn.channel_.isWriting = false := by
        rw [Channel.isWriting, Stage.events_of_not_up (h.conn c C hc).channel hup]
        rfl
      simp only [TcpConnection.handleWrite, hw, Bool.false_eq_true, if_false]
      exact h.inert hc rfl (Function.update_eq_self ..) rfl rfl rfl rfl (by rw [lifecycle_append]; exact List.append_nil _)
        (h.conn c C hc).state

theorem Inv.shutdownInLoop (h : s.Inv hand) (caller : Nat) :
    (s.call caller c [] fun p conn => (p, conn, conn.shutdownInLoop)).Inv hand := by
  cases hc : s.conns[c]? with
  | none => simp only [call, hc]; exact h
  | some C =>
    have hacts : .closeCallback ∉ C.conn.shutdownInLoop ∧
        (C.conn.shutdownInLoop.map Note.act).filter Note.isLifecycle = [] := by
      unfold TcpConnection.shutdownInLoop
      split <;> decide
    rw [call_eq hc]
    dsimp only
    rw [if_neg hacts.1]
    refine h.inert hc rfl (Function.update_eq_self ..) rfl rfl rfl rfl ?_ (h.conn c C hc).state
    rw [lifecycle_append, List.nil_append, hacts.2, List.append_nil]

theorem Inv.handleError (h : s.Inv hand) (caller : Nat) :
    (s.call caller c [] fun p conn => conn.handleError p).Inv hand := by
  cases hc : s.conns[c]? with
  | none => simp only [call, hc]; exact h
  | some C =>
    rw [call_eq hc]
    exact h.inert hc rfl (Function.update_eq_self ..) rfl rfl rfl rfl (by rw [lifecycle_append]; exact List.append_nil _)
      (h.conn c C hc).state

/-- Functors in hand that concern no stage come and go. -/
theorem Inv.hand_congr (h : s.Inv hand) (ho : ∀ l f, f.isLifecycle → s.owed hand' l f = s.owed hand l f)
    (hc : ∀ l f, 0 < s.owed hand' l f → f.conn < s.conns.length) : s.Inv hand' := by
  refine ⟨?_, h.registered, hc, h.listed, h.names, h.fds, h.quiet, h.nodup, h.reading⟩
  intro c C hC
  have hat := h.conn c C hC
  refine ⟨hat.notes, hat.state, hat.this, hat.channel, hat.registered, ?_, hat.entry⟩
  intro l f hfc hf
  rw [ho l f hf]
  exact hat.owed l f hfc hf

theorem owed_shutdownInLoop (s : TcpServer) (hand : List (Nat × Functor)) (l c l' : Nat) {f' : Functor}
    (hf : f'.isLifecycle) : s.owed ((l, .shutdownInLoop c) :: hand) l' f' = s.owed hand l' f' := by
  rw [owed_cons, if_neg, Nat.add_zero]
  rw [Prod.mk.injEq]
  rintro ⟨-, rfl⟩
  exact absurd hf Bool.false_ne_true

theorem Inv.shutdown (h : s.Inv hand) (caller c : Nat) : (s.shutdown caller c).Inv hand := by
  unfold TcpServer.shutdown
  cases hc : s.conns[c]? with
  | none => exact h
  | some C =>
    have hat := h.conn c C hc
    simp only [TcpConnection.shutdown]
    by_cases hs : C.conn.state_ = .kConnected
    · have hup : C.stage = .up := by
        have hst := hat.state
        rw [hs] at hst
        cases hst' : C.stage with
        | up => rfl
        | created | closed | removed | destroyed => rw [hst'] at hst; exact absurd hst StateE.noConfusion
      simp only [hs, if_true]
      have h' : Inv { s with conns := s.conns.set c { C with conn := C.conn.setState .kDisconnecting } } hand :=
        h.inert hc rfl rfl rfl rfl rfl rfl rfl (by rw [hup]; exact .inr rfl)
      refine Inv.runInLoop (h'.hand_congr (fun l f hf => owed_shutdownInLoop _ _ _ _ _ hf) ?_)
        (h'.shutdownInLoop caller) caller
      intro l f hpos
      rw [owed_cons] at hpos
      split at hpos
      · rename_i heq
        rw [Prod.mk.injEq] at heq
        rw [← heq.2, List.length_set]
        exact (List.getElem?_eq_some_iff.mp hc).1
      · exact h'.owed l f hpos
    · simp only [hs, if_false, Bool.false_eq_true]
      exact h.inert hc rfl rfl rfl rfl rfl rfl rfl hat.state

theorem Inv.exec (h : s.Inv ((l, f) :: hand)) : (s.exec l f).Inv hand := by
  cases f with
  | connectEstablished c => exact h.connectEstablished l
  | connectDestroyed c => exact h.connectDestroyed l
  | removeConnectionInLoop c => exact h.removeConnectionInLoop l
  | shutdownInLoop c =>
    refine (h.hand_congr (fun l' f hf => (owed_shutdownInLoop s hand l c l' hf).symm) ?_).shutdownInLoop l
    intro l' f' hpos
    refine h.owed l' f' ?_
    rw [owed_cons]
    exact Nat.lt_of_lt_of_le hpos (Nat.le_add_right ..)

/-! ## Accepting -/

/-- The functor of a new connection is in hand. -/
theorem owed_added (hloops : s'.loops = s.loops) (l' : Nat) (f' : Functor) :
    s'.owed ((l, f) :: hand) l' f' = s.owed hand l' f' + if (l, f) = (l', f') then 1 else 0 := by
  rw [owed_cons, TcpServer.owed, hloops, TcpServer.owed]

/-- A new connection before `connectEstablished`. -/
theorem Inv.at_added {n : String} {fd : Fd} (h : s.Inv hand) (hloops : s'.loops = s.loops)
    (hmap : s'.connections_ = Function.update s.connections_ n (some s.conns.length)) :
    s'.At ((l, .connectEstablished s.conns.length) :: hand) s.conns.length ⟨l, n, .new s.conns.length fd, []⟩
      .created := by
  refine ⟨⟨0, rfl⟩, rfl, rfl, ⟨rfl, rfl⟩, ?_, ?_, ?_⟩
  · intro l' fd' e
    rw [Registered, hloops]
    refine iff_of_false (fun hr => ?_) fun hs => absurd hs.1 Stage.noConfusion
    exact absurd (h.registered l' fd' e _ hr) (Nat.lt_irrefl _)
  · intro l' f' hf _
    have hzero : s.owed hand l' f' = 0 := by
      by_contra hne
      have := h.owed l' f' (Nat.pos_of_ne_zero hne)
      omega
    rw [owed_added hloops, hzero, Nat.zero_add]
    simp only [Stage.owes, Option.some.injEq]
  · rw [hmap, Function.update_self]
    rfl

/-- A new connection, whose `connectEstablished` is in hand. -/
theorem Inv.add {n : String} {fd : Fd} (h : s.Inv hand) (hn : ∀ C ∈ s.conns, C.name_ ≠ n)
    (hfd : ∀ C ∈ s.conns, C.stage ≠ .destroyed → C.conn.channel_.fd_ ≠ fd)
    (hconns : s'.conns = s.conns ++ [⟨l, n, .new s.conns.length fd, []⟩]) (hloops : s'.loops = s.loops)
    (hmap : s'.connections_ = Function.update s.connections_ n (some s.conns.length)) :
    s'.Inv ((l, .connectEstablished s.conns.length) :: hand) := by
  have hnew : s'.conns[s.conns.length]? = some ⟨l, n, .new s.conns.length fd, []⟩ := by
    rw [hconns, List.getElem?_concat_length]
  have hlen : s'.conns.length = s.conns.length + 1 := by
    rw [hconns, List.length_append, List.length_singleton]
  have hlt : ∀ (c : Nat) (C : ServerConn), s.conns[c]? = some C → c < s.conns.length := fun c C hc =>
    (List.getElem?_eq_some_iff.mp hc).1
  have hkept : ∀ (c : Nat) (C : ServerConn), s.conns[c]? = some C → s'.conns[c]? = some C := by
    intro c C hc
    rw [hconns]
    exact getElem?_concat_of_some hc
  have hold : ∀ (c : Nat) (C : ServerConn), s'.conns[c]? = some C →
      s.conns[c]? = some C ∨ c = s.conns.length ∧ C = ⟨l, n, .new s.conns.length fd, []⟩ := by
    intro c C hc
    rw [hconns] at hc
    exact getElem?_concat_cases hc
  have hmem : ∀ (c : Nat) (C : ServerConn), s.conns[c]? = some C → C ∈ s.conns := fun c C hc => List.mem_of_getElem? hc
  have hreg : ∀ l' fd' e c, s'.Registered l' fd' e c ↔ s.Registered l' fd' e c := by
    intro l' fd' e c
    rw [Registered, hloops, Registered]
  refine ⟨?_, ?_, ?_, ?_, ?_, ?_, ?_, ?_, ?_⟩
  · intro c C hc
    rcases hold c C hc with hc | ⟨rfl, rfl⟩
    · refine (h.conn c C hc).frame (fun l' fd' e => hreg l' fd' e c) ?_ ?_
      · intro l' f' hf
        refine (owed_added hloops l' f').trans ?_
        rw [if_neg, Nat.add_zero]
        rw [Prod.mk.injEq]
        rintro ⟨-, rfl⟩
        exact absurd (hlt c C hc) (by rw [← hf]; exact Nat.lt_irrefl _)
      · rw [hmap, Function.update_of_ne (hn C (hmem c C hc))]
    · exact h.at_added hloops hmap
  · intro l' fd' e c hr
    have := h.registered l' fd' e c ((hreg l' fd' e c).mp hr)
    omega
  · intro l' f' hpos
    rw [owed_added hloops] at hpos
    split at hpos
    · rename_i heq
      rw [Prod.mk.injEq] at heq
      rw [← heq.2, hlen]
      exact Nat.lt_succ_self _
    · have := h.owed l' f' hpos
      omega
  · intro n' c hc
    rw [hmap] at hc
    by_cases hne : n' = n
    · rw [hne, Function.update_self, Option.some.injEq] at hc
      rw [← hc]
      exact ⟨_, hnew, hne.symm⟩
    · rw [Function.update_of_ne hne] at hc
      obtain ⟨C, hC, hCn⟩ := h.listed n' c hc
      exact ⟨C, hkept c C hC, hCn⟩
  · intro c₁ c₂ C₁ C₂ h₁ h₂ heq
    rcases hold c₁ C₁ h₁ with h₁ | ⟨rfl, rfl⟩ <;> rcases hold c₂ C₂ h₂ with h₂ | ⟨rfl, rfl⟩
    · exact h.names c₁ c₂ C₁ C₂ h₁ h₂ heq
    · exact absurd heq (hn C₁ (hmem c₁ C₁ h₁))
    · exact absurd heq.symm (hn C₂ (hmem c₂ C₂ h₂))
    · rfl
  · intro c₁ c₂ C₁ C₂ h₁ h₂ hd₁ hd₂ heq
    rcases hold c₁ C₁ h₁ with h₁ | ⟨rfl, rfl⟩ <;> rcases hold c₂ C₂ h₂ with h₂ | ⟨rfl, rfl⟩
    · exact h.fds c₁ c₂ C₁ C₂ h₁ h₂ hd₁ hd₂ heq
    · exact absurd heq (hfd C₁ (hmem c₁ C₁ h₁) hd₁)
    · exact absurd heq.symm (hfd C₂ (hmem c₂ C₂ h₂) hd₂)
    · rfl
  · rw [hloops]
    exact h.quiet
  · rw [hloops]
    exact h.nodup
  · intro l' c hc
    rw [hloops] at hc
    obtain ⟨C, hC, hl, hs⟩ := h.reading l' c hc
    exact ⟨C, hkept c C hC, hl, hs⟩

theorem Inv.newConnection {fd : Fd} (h : s.Inv []) (hn : ∀ C ∈ s.conns, C.name_ ≠ s.connName)
    (hfd : ∀ C ∈ s.conns, C.stage ≠ .destroyed → C.conn.channel_.fd_ ≠ fd) : (s.newConnection fd).Inv [] := by
  unfold TcpServer.newConnection
  dsimp only
  have h' : Inv { s with
      threadPool_ := s.threadPool_.getNextLoop.2
      nextConnId_ := s.nextConnId_ + 1
      conns := s.conns ++ [⟨s.threadPool_.getNextLoop.1, s.connName, .new s.conns.length fd, []⟩]
      connections_ := Function.update s.connections_ s.connName (some s.conns.length) }
      [(s.threadPool_.getNextLoop.1, .connectEstablished s.conns.length)] := h.add hn hfd rfl rfl rfl
  exact h'.runInLoop (h'.connectEstablished 0) 0

/-! ## The loops -/

/-- What the kernel and the program do. `epoll_wait` reports a descriptor once,
and `EPOLLIN` with `EPOLLHUP` on one that is subscribed to reading; names do not
come again; `accept` returns no descriptor that is still open; and `send` is not
called before the up callback, or in or after the down callback. -/
def Allowed (s : TcpServer) : Action → Prop
  | .epollWait l ready =>
    (ready.filterMap Ready.fd).Nodup ∧ ∀ x ∈ ready, ∀ fd ∈ x.fd, ∀ i ∈ (s.loops l).poller.interest fd,
      i.1.epollin = true → x.revents.epollhup = true → x.revents.epollin = true
  | .accept (some fd) =>
    (∀ C ∈ s.conns, C.name_ ≠ s.connName) ∧
      ∀ C ∈ s.conns, .connectDestroyed ∉ C.history → C.conn.channel_.fd_ ≠ fd
  | .send _ c .. => ∀ C ∈ s.conns[c]?,
    .act (.connectionCallback .kConnected) ∈ C.history ∧ .act (.connectionCallback .kDisconnected) ∉ C.history
  | _ => True

instance (s : TcpServer) : ∀ a : Action, Decidable (s.Allowed a)
  | .epollWait .. => inferInstanceAs (Decidable (_ ∧ _))
  | .accept (some _) => inferInstanceAs (Decidable (_ ∧ _))
  | .send .. => inferInstanceAs (Decidable (∀ _ ∈ _, _))
  | .accept none | .nextChannel _ | .callback .. | .doPendingFunctors _ | .functor _ | .shutdown .. =>
    inferInstanceAs (Decidable True)

theorem reading_handling_nil (active : List Active) :
    (Phase.handling [] active : Phase Functor).reading = active.filterMap Active.conn := by
  simp only [Phase.reading, List.filterMap_nil, List.nil_append]

/-- The channels that become active are those of the descriptors reported. -/
theorem reading_fillActiveChannels (e : EventLoop Functor) (ready : List Ready) :
    (e.fillActiveChannels ready).filterMap Active.conn =
      (ready.filterMap Ready.fd).filterMap fun fd => (e.poller.interest fd).map Prod.snd := by
  unfold EventLoop.fillActiveChannels
  rw [List.filterMap_filterMap, List.filterMap_filterMap]
  refine List.filterMap_congr ?_
  intro x _
  cases x with
  | wakeup => dsimp only [Ready.fd]; split <;> rfl
  | listen => dsimp only [Ready.fd]; split <;> rfl
  | socket fd revents =>
    dsimp only [Ready.fd, Option.bind_some]
    cases e.poller.interest fd <;> rfl

theorem setLoop_self (s : TcpServer) (l : Nat) : s.setLoop l (s.loops l) = s := by
  rw [setLoop, Function.update_eq_self]

theorem Inv.epollWait {ready : List Ready} (h : s.Inv hand) (ha : s.Allowed (.epollWait l ready)) :
    (s.setLoop l ((s.loops l).epollWait ready)).Inv hand := by
  obtain ⟨hd, hhup⟩ := ha
  unfold EventLoop.epollWait
  cases hp : (s.loops l).phase with
  | handling callbacks active => dsimp only; rw [setLoop_self]; exact h
  | calling functors => dsimp only; rw [setLoop_self]; exact h
  | waiting =>
    dsimp only
    split
    · rw [setLoop_self]; exact h
    · have hread := reading_fillActiveChannels (s.loops l) ready
      have hq : (Phase.handling [] ((s.loops l).fillActiveChannels ready) : Phase Functor).Quiet := by
        refine ⟨fun x hx => absurd hx List.not_mem_nil, ?_⟩
        intro c revents hm hhup'
        obtain ⟨x, hx, hxe⟩ := List.mem_filterMap.mp hm
        cases x with
        | wakeup => dsimp only at hxe; split at hxe <;> simp at hxe
        | listen => dsimp only at hxe; split at hxe <;> simp at hxe
        | socket fd r =>
          obtain ⟨i, hi, hie⟩ := Option.map_eq_some_iff.mp hxe
          obtain ⟨rfl, rfl⟩ := Active.connection.inj hie
          obtain ⟨C, hC, hup, -, -, he⟩ := h.of_registered hi
          have hin := (h.registered_up hC hup).reading
          rw [← he] at hin
          exact hhup _ hx fd rfl i hi hin hhup'
      refine h.setLoop rfl (owed_setLoop s hand ?_) hq ?_ ?_
      · simp only [EventLoop.queue, hp]
      · rw [reading_handling_nil, hread]
        refine hd.filterMap ?_
        -- a connection is registered with one descriptor only
        intro fd fd' c hc hc'
        obtain ⟨i, hi, rfl⟩ := Option.map_eq_some_iff.mp hc
        obtain ⟨i', hi', hii⟩ := Option.map_eq_some_iff.mp hc'
        obtain ⟨C, hC, -, -, hfd, -⟩ := h.of_registered hi
        obtain ⟨C', hC', -, -, hfd', -⟩ := h.of_registered hi'
        rw [hii, hC, Option.some.injEq] at hC'
        rw [hfd, hfd', hC']
      · intro c hc
        rw [reading_handling_nil, hread] at hc
        obtain ⟨fd, -, hfd⟩ := List.mem_filterMap.mp hc
        obtain ⟨i, hi, rfl⟩ := Option.map_eq_some_iff.mp hfd
        obtain ⟨C, hC, hup, hl, -, -⟩ := h.of_registered hi
        exact ⟨C, hC, hl.symm, hup⟩

/-- The callbacks for an event without a plain `EPOLLHUP`: none of them closes,
and at most one reads. -/
theorem handleEvent_quiet {revents : Events} (h : revents.epollhup = true → revents.epollin = true) :
    List.Sublist (Channel.handleEvent revents) [.errorCallback_, .readCallback_, .writeCallback_] := by
  unfold Channel.handleEvent
  obtain ⟨i, pri, o, err, hup, rd⟩ := revents
  revert h
  cases i <;> cases pri <;> cases o <;> cases err <;> cases hup <;> cases rd <;> decide

theorem Inv.nextChannel (h : s.Inv hand) (l : Nat) : (s.setLoop l (s.loops l).nextChannel).Inv hand := by
  unfold EventLoop.nextChannel
  split
  · rename_i active hp
    have hread := h.reading l
    have hnodup := h.nodup l
    have hq := h.quiet l
    rw [hp] at hread hnodup hq
    refine h.setLoop rfl (owed_setLoop s hand ?_) ?_ hnodup hread
    · simp only [EventLoop.queue, hp]
    · exact ⟨hq.1, fun c revents hm => hq.2 c revents (List.mem_cons_of_mem _ hm)⟩
  · rename_i c revents active hp
    have hq := h.quiet l
    rw [hp] at hq
    have hsub := handleEvent_quiet (hq.2 c revents List.mem_cons_self)
    refine h.phase _ ⟨?_, ?_⟩ ?_ (owed_setLoop s hand ?_)
    · intro x hx
      obtain ⟨cb, hcb, rfl⟩ := List.mem_map.mp hx
      have := hsub.subset hcb
      rintro rfl
      simp at this
    · exact fun c' revents' hm => hq.2 c' revents' (List.mem_cons_of_mem _ hm)
    · rw [hp, reading_handling_nil]
      show List.Sublist (_ ++ active.filterMap Active.conn) ([c] ++ active.filterMap Active.conn)
      refine List.Sublist.append_right ?_ _
      rw [List.filterMap_map]
      exact hsub.filterMap _
    · simp only [EventLoop.queue, hp]
  · rw [setLoop_self]; exact h

theorem Inv.doPendingFunctors (h : s.Inv hand) (l : Nat) : (s.setLoop l (s.loops l).doPendingFunctors).Inv hand := by
  unfold EventLoop.doPendingFunctors
  split
  · rename_i hp
    refine h.setLoop rfl (owed_setLoop s hand ?_) trivial List.nodup_nil fun c hc => absurd hc List.not_mem_nil
    simp only [EventLoop.queue, hp, List.append_nil, List.nil_append]
  · rw [setLoop_self]; exact h

/-! ## Runs -/

theorem Inv.accept {connfd : Option Fd} (h : s.Inv []) (ha : s.Allowed (.accept connfd)) :
    (s.step (.accept connfd)).Inv [] := by
  unfold step
  dsimp only
  split
  · rename_i active hp
    have hq := h.quiet 0
    rw [hp] at hq
    have h' : (s.setLoop 0 { s.loops 0 with phase := .handling [] active }).Inv [] := by
      refine h.phase _ ⟨hq.1, fun c revents hm => hq.2 c revents (List.mem_cons_of_mem _ hm)⟩ ?_ (owed_setLoop s [] ?_)
      · rw [hp]
        exact List.Sublist.refl _
      · simp only [EventLoop.queue, hp]
    cases connfd with
    | none => exact h'
    | some fd =>
      refine h'.newConnection ha.1 fun C hC hd => ha.2 C hC fun hm => hd ?_
      have hl : .connectDestroyed ∈ C.lifecycle := List.mem_filter.mpr ⟨hm, rfl⟩
      rw [ServerConn.stage, Stage.ofNotes, if_pos hl]
  · exact h

theorem Inv.callback (h : s.Inv hand) (l : Nat) (readv : ReadvResult) (write : WriteResult) :
    (s.step (.callback l readv write)).Inv hand := by
  unfold step
  dsimp only
  split
  · rename_i c cb callbacks active hp
    have hq := h.quiet l
    rw [hp] at hq
    have hq' : (Phase.handling callbacks active : Phase Functor).Quiet :=
      ⟨fun x hx => hq.1 x (List.mem_cons_of_mem _ hx), hq.2⟩
    have hqueue : EventLoop.queue { s.loops l with phase := .handling callbacks active } = (s.loops l).queue := by
      simp only [EventLoop.queue, hp]
    have hsub : List.Sublist (Phase.handling callbacks active : Phase Functor).reading (s.loops l).phase.reading := by
      rw [hp]
      exact List.Sublist.append_right ((List.sublist_cons_self ..).filterMap _) _
    have h' := h.phase _ hq' hsub (owed_setLoop s hand hqueue)
    cases cb with
    | closeCallback_ => exact absurd rfl (hq.1 (c, .closeCallback_) List.mem_cons_self)
    | errorCallback_ => exact h'.handleError l
    | writeCallback_ => exact h'.handleWrite write l
    | readCallback_ =>
      have hread := h.reading l
      have hnodup := h.nodup l
      rw [hp] at hread hnodup
      obtain ⟨C, hC, hl, hup⟩ := hread c List.mem_cons_self
      refine h'.handleRead hC hup ?_ readv l
      -- the callback that is now being called was the only one that reads
      intro l' hm
      rw [loops_setLoop] at hm
      split at hm
      · exact (List.nodup_cons.mp hnodup).1 hm
      · rename_i hne
        obtain ⟨C', hC', hl', -⟩ := h.reading l' c hm
        rw [hC, Option.some.injEq] at hC'
        exact hne (by rw [← hl, ← hl', hC'])
  · exact h

theorem Inv.functor (h : s.Inv []) (l : Nat) : (s.step (.functor l)).Inv [] := by
  unfold step
  dsimp only
  split
  · rename_i f functors hp
    exact (h.phase (.calling functors) trivial (List.nil_sublist _) (owed_taken hp)).exec
  · rename_i hp
    refine h.phase .waiting trivial (List.nil_sublist _) (owed_setLoop s [] ?_)
    simp only [EventLoop.queue, hp]
  · exact h

theorem Inv.send_allowed {data : List Byte} {len : Int32} {result : WriteResult} {caller : Nat} (h : s.Inv hand)
    (ha : s.Allowed (.send caller c data len result)) : (s.step (.send caller c data len result)).Inv hand := by
  refine h.send ?_ data len result caller
  intro C hC
  obtain ⟨h₁, h₂⟩ := ha C hC
  obtain ⟨k, hn⟩ := (h.conn c C hC).notes
  have hmem : ∀ x : Note, x.isLifecycle = true → (x ∈ C.history ↔ x ∈ C.stage.notes c k) := by
    intro x hx
    rw [← hn, ServerConn.lifecycle, List.mem_filter]
    exact ⟨fun hm => ⟨hm, hx⟩, And.left⟩
  rw [hmem _ rfl] at h₁ h₂
  cases hs : C.stage with
  | up => rfl
  | created => rw [hs] at h₁; exact absurd h₁ List.not_mem_nil
  | closed | removed | destroyed => rw [hs] at h₂; simp [Stage.notes, Stage.closing] at h₂

theorem step_inv {a : Action} (h : s.Inv []) (ha : s.Allowed a) : (s.step a).Inv [] := by
  cases a with
  | epollWait l ready => exact h.epollWait ha
  | nextChannel l => exact h.nextChannel l
  | accept connfd => exact h.accept ha
  | callback l readv write => exact h.callback l readv write
  | doPendingFunctors l => exact h.doPendingFunctors l
  | functor l => exact h.functor l
  | shutdown caller c => exact h.shutdown caller c
  | send caller c data len result => exact h.send_allowed ha

theorem start_inv (name hostport : String) (numThreads : Nat) (baseWakeup : Bool) :
    (start name hostport numThreads baseWakeup).Inv [] := by
  have hloop : ∀ l, ∃ b b', (start name hostport numThreads baseWakeup).loops l = .new b b' := by
    intro l
    dsimp only [start]
    split
    · exact ⟨_, _, rfl⟩
    · exact ⟨_, _, rfl⟩
  refine ⟨?_, ?_, ?_, ?_, ?_, ?_, ?_, ?_, ?_⟩
  · intro c C hc
    exact absurd hc (Option.some_ne_none _).symm
  · intro l fd e c hr
    obtain ⟨b, b', hl⟩ := hloop l
    rw [Registered, hl] at hr
    exact absurd hr (Option.some_ne_none _).symm
  · intro l f hf
    obtain ⟨b, b', hl⟩ := hloop l
    rw [owed, hl] at hf
    exact absurd hf (Nat.lt_irrefl 0)
  · intro n c hn
    exact absurd hn (Option.some_ne_none _).symm
  · intro c c' C C' hc
    exact absurd hc (Option.some_ne_none _).symm
  · intro c c' C C' hc
    exact absurd hc (Option.some_ne_none _).symm
  · intro l
    obtain ⟨b, b', hl⟩ := hloop l
    rw [hl]
    exact trivial
  · intro l
    obtain ⟨b, b', hl⟩ := hloop l
    rw [hl]
    exact List.nodup_nil
  · intro l c hc
    obtain ⟨b, b', hl⟩ := hloop l
    rw [hl] at hc
    exact absurd hc List.not_mem_nil

theorem run_inv {actions : List Action} (h : s.Inv []) (ha : machine.Along Allowed s actions) :
    (machine.final s actions).Inv [] :=
  machine.invariant (I := fun s => s.Inv []) (fun _ _ => step_inv) actions s h ha

/-- The entries of `connections_` are those of the connections not yet removed. -/
theorem Inv.entry_iff (h : s.Inv hand) (n : String) (c : Nat) :
    s.connections_ n = some c ↔
      ∃ C, s.conns[c]? = some C ∧ C.name_ = n ∧ ∀ entry, .removeConnectionInLoop entry ∉ C.history := by
  have hlisted : ∀ C, s.conns[c]? = some C →
      (C.stage.listed = true ↔ ∀ entry, .removeConnectionInLoop entry ∉ C.history) := by
    intro C hC
    obtain ⟨k, hn⟩ := (h.conn c C hC).notes
    have hmem : ∀ entry, .removeConnectionInLoop entry ∈ C.history ↔
        .removeConnectionInLoop entry ∈ C.stage.notes c k := by
      intro entry
      rw [← hn, ServerConn.lifecycle, List.mem_filter]
      exact ⟨fun hm => ⟨hm, rfl⟩, And.left⟩
    simp only [hmem]
    cases C.stage <;> simp [Stage.listed, Stage.notes, Stage.opening, Stage.closing]
  constructor
  · intro hn
    obtain ⟨C, hC, hCn⟩ := h.listed n c hn
    refine ⟨C, hC, hCn, (hlisted C hC).mp ?_⟩
    have hentry := (h.conn c C hC).entry
    rw [hCn, hn] at hentry
    by_contra hne
    rw [if_neg hne] at hentry
    exact absurd hentry (Option.some_ne_none _)
  · rintro ⟨C, hC, rfl, hr⟩
    rw [(h.conn c C hC).entry, if_pos ((hlisted C hC).mpr hr)]

/-- In every interleaving, what happens to a connection is in this order and
happens once: `connectEstablished` and the up callback, messages, `handleClose`
with the down callback and the close callback, `removeConnectionInLoop`, which
finds the connection's entry, and `connectDestroyed`. The entries of
`connections_` are at any time those of the connections not yet removed. -/
theorem lifecycle_ok (name hostport : String) (numThreads : Nat) (baseWakeup : Bool) (actions : List Action)
    (ha : machine.Along Allowed (start name hostport numThreads baseWakeup) actions) :
    let s := machine.final (start name hostport numThreads baseWakeup) actions
    (∀ c C, s.conns[c]? = some C →
      ∃ k, C.lifecycle <+:
        Stage.opening k ++ Stage.closing ++ [.removeConnectionInLoop (some c)] ++ [.connectDestroyed]) ∧
    ∀ n c, s.connections_ n = some c ↔
      ∃ C, s.conns[c]? = some C ∧ C.name_ = n ∧ ∀ entry, .removeConnectionInLoop entry ∉ C.history := by
  intro s
  have h : s.Inv [] := run_inv (start_inv name hostport numThreads baseWakeup) ha
  refine ⟨?_, h.entry_iff⟩
  intro c C hc
  obtain ⟨k, hn⟩ := (h.conn c C hc).notes
  refine ⟨k, ?_⟩
  rw [hn]
  exact Stage.notes_prefix c k C.stage

/-- Two connections on one IO loop: the first gets a message, is shut down by the
program and closed by its peer, and is destroyed while the second stays. -/
def farewell : List Action :=
  let readable : Events := ⟨true, false, false, false, false, false⟩
  let hangup : Events := ⟨true, false, false, false, true, false⟩
  [.epollWait 0 [.listen], .accept (some 5), .doPendingFunctors 0, .functor 0,
    .epollWait 1 [.wakeup], .nextChannel 1, .doPendingFunctors 1,
    .epollWait 0 [.listen], .accept (some 6), .functor 1, .functor 1, .doPendingFunctors 0, .functor 0,
    .send 1 0 [1, 2, 3] 3 (.accepted 1),
    .epollWait 1 [.socket 5 readable, .wakeup], .nextChannel 1, .callback 1 (.ok [7]) (.accepted 0),
    .shutdown 7 0, .nextChannel 1, .doPendingFunctors 1, .functor 1, .functor 1, .functor 1,
    .epollWait 1 [.socket 5 hangup], .nextChannel 1, .callback 1 (.ok []) (.accepted 0), .doPendingFunctors 1, .functor 1,
    .epollWait 0 [.wakeup], .nextChannel 0, .doPendingFunctors 0, .functor 0, .functor 0,
    .epollWait 1 [.wakeup], .nextChannel 1, .doPendingFunctors 1, .functor 1, .functor 1]

theorem lifecycle_ok_farewell :
    let s := machine.final (start "echo" "127.0.0.1:2007" 1 true) farewell
    s.conns.map ServerConn.lifecycle = [Stage.destroyed.notes 0 1, Stage.up.notes 1 0] ∧
      s.conns.map ServerConn.name_ = ["echo:127.0.0.1:2007#1", "echo:127.0.0.1:2007#2"] ∧
      ∀ n c, s.connections_ n = some c ↔
        ∃ C, s.conns[c]? = some C ∧ C.name_ = n ∧ ∀ entry, .removeConnectionInLoop entry ∉ C.history := by
  refine ⟨by decide +kernel, by decide +kernel, ?_⟩
  exact (lifecycle_ok "echo" "127.0.0.1:2007" 1 true farewell (by decide +kernel)).2

end TcpServer

end Ydx
