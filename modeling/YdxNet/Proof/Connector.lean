import YdxNet.Impl.Connector
import YdxNet.Proof.Poller

/-!
# The sockets of a connector

A socket that a connector has created is that of its channel while it is
connecting, or it has been closed once, or it has been handed over once
(`Owned`). With no channel in `channel_`, whatever `connect` does keeps this
(`connect_inv`); with one, `connect` loses its socket (`connect_leaks`). So a
run keeps it exactly when a connector that is connecting is not restarted, and
not started again unless the first `connect` fails for good (`owned_iff`).

An event of the channel is dispatched to the callbacks one after another, and
an error deletes the channel and starts a new attempt between them: if the
memory of the channel still says that the socket is writable, the second
callback takes the event for that of the new attempt (`dispatch_iff`).
-/

namespace Ydx.Connector

/-- The socket of the channel, while the connector is connecting. -/
def holds (c : Connector) (k : Fd) : Bool := c.state_ == .kConnecting && c.channel_.any fun ch => ch.fd_ == k

/-- A call of a connector, or an event of its channel. -/
inductive Call
  | start (errnos : List Nat)
  | stop
  | restart (errnos : List Nat)
  | handleWrite (err : Nat) (isSelfConnect : Bool) (errnos : List Nat)
  | handleError (errnos : List Nat)
  deriving DecidableEq, Repr

/-- What a call does. Events come from the current channel. -/
def call (c : Connector) : Call → Connector × List ConnectorAct
  | .start errnos => c.start errnos
  | .stop => c.stop
  | .restart errnos => c.restart errnos
  | .handleWrite err isSelfConnect errnos =>
    if c.channel_.isSome then c.handleWrite err isSelfConnect errnos else (c, [])
  | .handleError errnos => if c.channel_.isSome then c.handleError errnos else (c, [])

/-- A connector and all it has done, one call after another. -/
def machine : Machine (Connector × List ConnectorAct) Call Unit where
  step s op :=
    let r := s.1.call op
    ((r.1, s.2 ++ r.2), ())

/-- Every socket that was created is that of the channel, or closed once, or
handed over once, and `connecting` was not entered while there was a channel. -/
structure Owned (s : Connector × List ConnectorAct) : Prop where
  once : ∀ k < s.1.sockets, (s.1.holds k).toNat + s.2.count (.close k) + s.2.count (.newConnection k) = 1
  single : ∀ k, .connecting k true ∉ s.2

/-- A connector that is connecting is not restarted, and not started unless the
first `connect` fails for good. -/
def Patient (s : Connector × List ConnectorAct) : Call → Prop
  | .start (savedErrno :: _) => s.1.state_ = .kConnecting → ConnectCase.ofErrno savedErrno = .close
  | .restart _ => s.1.state_ ≠ .kConnecting
  | _ => True

/-! ## Without a channel -/

/-- What a run keeps. -/
structure Inv (c : Connector) (log : List ConnectorAct) : Prop where
  owned : Owned (c, log)
  channel : c.channel_.isSome = true ↔ c.state_ = .kConnecting
  below : ∀ ch ∈ c.channel_, ch.fd_ < c.sockets
  fresh : ∀ k, c.sockets ≤ k → log.count (.close k) = 0 ∧ log.count (.newConnection k) = 0

variable {c c' : Connector} {log : List ConnectorAct}

/-- Acts that close or hand over the socket `k`, and nothing else. -/
structure Releases (k : Fd) (acts : List ConnectorAct) : Prop where
  own : acts.count (.close k) + acts.count (.newConnection k) = 1
  other : ∀ k', k' ≠ k → acts.count (.close k') = 0 ∧ acts.count (.newConnection k') = 0
  single : ∀ k', .connecting k' true ∉ acts

/-- An act that neither gives a socket up nor enters `connecting` with a channel
there. -/
def idleAct : ConnectorAct → Bool
  | .connect _ _ | .query _ | .retry _ => true
  | _ => false

/-- A socket is given up by the last act. -/
theorem releases_last (k : Fd) (acts : List ConnectorAct) {last : ConnectorAct} (h : acts.all idleAct = true)
    (hl : last = .close k ∨ last = .newConnection k) : Releases k (acts ++ [last]) := by
  have hz : ∀ a : ConnectorAct, idleAct a = false → acts.count a = 0 := by
    intro a ha
    refine List.count_eq_zero.mpr fun hm => ?_
    exact absurd (ha.symm.trans (List.all_eq_true.mp h a hm)) Bool.false_ne_true
  have hnot : ∀ k' held, .connecting k' held ∉ acts := fun k' held => List.count_eq_zero.mp (hz _ rfl)
  refine ⟨?_, fun k' hk => ?_, fun k' => ?_⟩
  · rw [List.count_append, List.count_append, hz _ rfl, hz _ rfl]
    rcases hl with rfl | rfl <;> simp
  · rw [List.count_append, List.count_append, hz _ rfl, hz _ rfl]
    rcases hl with rfl | rfl <;> simp [Ne.symm hk]
  · rw [List.mem_append, not_or]
    refine ⟨hnot k' true, ?_⟩
    rcases hl with rfl | rfl <;> simp

theorem holds_of_none (h : c.channel_ = none) (k : Fd) : c.holds k = false := by
  rw [holds, h]
  exact Bool.and_false _

theorem holds_of_not (h : c.state_ ≠ .kConnecting) (k : Fd) : c.holds k = false := by
  rw [holds, beq_eq_false_iff_ne.mpr h, Bool.false_and]

/-- The socket of the channel is given up. -/
theorem Inv.release {ch : Channel} {acts : List ConnectorAct} (h : Inv c log) (hch : c.channel_ = some ch)
    (hs : c'.sockets = c.sockets) (hc : c'.channel_ = none) (hst : c'.state_ ≠ .kConnecting)
    (hr : Releases ch.fd_ acts) : Inv c' (log ++ acts) := by
  have hlt : ch.fd_ < c.sockets := h.below ch hch
  have hst₀ : c.state_ = .kConnecting := h.channel.mp (by rw [hch]; rfl)
  refine ⟨⟨?_, ?_⟩, ?_, ?_, ?_⟩
  · intro k hk
    rw [holds_of_none hc, List.count_append, List.count_append]
    have hone := h.owned.once k (hs ▸ hk)
    dsimp only at hone
    by_cases hkc : k = ch.fd_
    · subst hkc
      have hh : c.holds ch.fd_ = true := by simp [holds, hst₀, hch]
      have := hr.own
      rw [hh] at hone
      simp only [Bool.toNat_true, Bool.toNat_false] at *
      omega
    · have hh : c.holds k = false := by simp [holds, hch, Ne.symm hkc]
      have := hr.other k hkc
      rw [hh] at hone
      simp only [Bool.toNat_false] at *
      omega
  · intro k hm
    rcases List.mem_append.mp hm with hm | hm
    · exact h.owned.single k hm
    · exact hr.single k hm
  · rw [hc]
    exact iff_of_false (fun h => absurd h Bool.false_ne_true) hst
  · rw [hc]
    exact fun _ h => absurd h (by simp)
  · intro k hk
    rw [hs] at hk
    have hf := h.fresh k hk
    have := hr.other k (Nat.ne_of_gt (Nat.lt_of_lt_of_le hlt hk))
    rw [List.count_append, List.count_append]
    omega

/-- The new socket is given up at once. -/
theorem Inv.failed {acts : List ConnectorAct} (h : Inv c log) (hs : c'.sockets = c.sockets + 1)
    (hc : c'.channel_ = c.channel_)
    (hst : c'.state_ = c.state_ ∨ c.channel_ = none ∧ c'.state_ ≠ .kConnecting) (hr : Releases c.sockets acts) :
    Inv c' (log ++ acts) := by
  have hh : ∀ k, c'.holds k = c.holds k := by
    intro k
    rcases hst with he | ⟨hn, -⟩
    · rw [holds, holds, hc, he]
    · rw [holds_of_none hn, holds_of_none (hc.trans hn)]
  refine ⟨⟨?_, ?_⟩, ?_, ?_, ?_⟩
  · intro k hk
    rw [hh, List.count_append, List.count_append]
    rw [hs] at hk
    by_cases hkc : k = c.sockets
    · subst hkc
      have hf := h.fresh c.sockets (Nat.le_refl _)
      have := hr.own
      have hn : c.holds c.sockets = false := by
        cases hch : c.channel_ with
        | none => exact holds_of_none hch _
        | some ch => simp [holds, hch, Nat.ne_of_lt (h.below ch hch)]
      rw [hn]
      simp only [Bool.toNat_false]
      omega
    · have hone := h.owned.once k (Nat.lt_of_le_of_ne (Nat.le_of_lt_succ hk) hkc)
      have := hr.other k hkc
      dsimp only at hone
      omega
  · intro k hm
    rcases List.mem_append.mp hm with hm | hm
    · exact h.owned.single k hm
    · exact hr.single k hm
  · rw [hc]
    rcases hst with he | ⟨hn, hne⟩
    · rw [he]; exact h.channel
    · rw [hn]
      exact iff_of_false (fun h => absurd h Bool.false_ne_true) hne
  · rw [hc, hs]
    exact fun ch hch => Nat.lt_succ_of_lt (h.below ch hch)
  · intro k hk
    rw [hs] at hk
    have hf := h.fresh k (Nat.le_of_succ_le hk)
    have := hr.other k (Nat.ne_of_gt hk)
    rw [List.count_append, List.count_append]
    omega

/-- The new socket becomes that of the channel. -/
theorem Inv.connecting (h : Inv c log) (hc : c.channel_ = none) (savedErrno : Nat) :
    Inv (Connector.connecting { c with sockets := c.sockets + 1 } c.sockets).1
      (log ++ .connect c.sockets savedErrno ::
        (Connector.connecting { c with sockets := c.sockets + 1 } c.sockets).2) := by
  have hacts : (Connector.connecting { c with sockets := c.sockets + 1 } c.sockets).2 =
      [.connecting c.sockets false] := by
    rw [Connector.connecting, hc]
    rfl
  have hcount : ∀ (k : Fd) (log' : List ConnectorAct),
      log' = log ++ [ConnectorAct.connect c.sockets savedErrno, .connecting c.sockets false] →
      log'.count (.close k) = log.count (.close k) ∧ log'.count (.newConnection k) = log.count (.newConnection k) := by
    rintro k _ rfl
    simp
  have hh : ∀ k, (Connector.connecting { c with sockets := c.sockets + 1 } c.sockets).1.holds k = (c.sockets == k) := by
    intro k
    simp [holds, Connector.connecting, setState, Channel.enableWriting, Channel.new]
  rw [hacts]
  refine ⟨⟨?_, ?_⟩, ?_, ?_, ?_⟩
  · intro k hk
    rw [hh, (hcount k _ rfl).1, (hcount k _ rfl).2]
    by_cases hkc : k = c.sockets
    · subst hkc
      have hf := h.fresh c.sockets (Nat.le_refl _)
      simp only [BEq.rfl, Bool.toNat_true]
      omega
    · have hone := h.owned.once k (Nat.lt_of_le_of_ne (Nat.le_of_lt_succ hk) hkc)
      rw [beq_eq_false_iff_ne.mpr (Ne.symm hkc)]
      dsimp only at hone
      rw [holds_of_none hc] at hone
      exact hone
  · intro k hm
    rcases List.mem_append.mp hm with hm | hm
    · exact h.owned.single k hm
    · simp at hm
  · exact iff_of_true rfl rfl
  · rintro ch ⟨⟩
    rw [Channel.enableWriting, EPollPoller.fd_updateChannel]
    exact Nat.lt_succ_self _
  · intro k hk
    rw [(hcount k _ rfl).1, (hcount k _ rfl).2]
    exact h.fresh k (Nat.le_of_succ_le hk)

/-- Without a channel, whatever comes of `connect`, no socket is lost. -/
theorem connect_inv (errnos : List Nat) : ∀ {c : Connector} {log : List ConnectorAct}, Inv c log → c.channel_ = none →
    Inv (c.connect errnos).1 (log ++ (c.connect errnos).2) := by
  induction errnos with
  | nil =>
    intro c log h _
    rw [connect, List.append_nil]
    exact h
  | cons savedErrno errnos ih =>
    intro c log h hc
    rw [connect]
    dsimp only
    split
    · exact h.connecting hc savedErrno
    · have hl := releases_last c.sockets [.connect c.sockets savedErrno, .retry c.sockets] rfl (.inl rfl)
      unfold retryWith
      dsimp only
      split
      · have hf : Inv { (setState { c with sockets := c.sockets + 1 } .kDisconnected) with connect_ := true }
            (log ++ [.connect c.sockets savedErrno, .retry c.sockets, .close c.sockets]) :=
          h.failed rfl rfl (.inr ⟨hc, ConnectorState.noConfusion⟩) hl
        have hr := ih hf hc
        rw [List.append_assoc] at hr
        exact hr
      · exact h.failed rfl rfl (.inr ⟨hc, ConnectorState.noConfusion⟩) hl
    · exact h.failed rfl rfl (.inl rfl) (releases_last _ [.connect c.sockets savedErrno] rfl (.inl rfl))

/-! ## With a channel -/

/-- The channel of a connector, whose socket is neither closed nor handed over. -/
structure Loose (c : Connector) (log : List ConnectorAct) (ch : Channel) : Prop where
  channel : c.channel_ = some ch
  below : ch.fd_ < c.sockets
  close : log.count (.close ch.fd_) = 0
  newConnection : log.count (.newConnection ch.fd_) = 0

variable {ch : Channel}

/-- The socket of a channel while the connector is not connecting is nobody's. -/
theorem Loose.not_owned (h : Loose c log ch) (hst : c.state_ ≠ .kConnecting) : ¬ Owned (c, log) := by
  intro ho
  have hone := ho.once ch.fd_ h.below
  dsimp only at hone
  rw [holds_of_not hst, h.close, h.newConnection] at hone
  exact absurd hone (by decide)

/-- A new socket is given up, and that of the channel is not. -/
theorem Loose.failed {acts : List ConnectorAct} (h : Loose c log ch) (hs : c'.sockets = c.sockets + 1)
    (hc : c'.channel_ = c.channel_) (hr : Releases c.sockets acts) : Loose c' (log ++ acts) ch := by
  have ho := hr.other ch.fd_ (Nat.ne_of_lt h.below)
  refine ⟨hc.trans h.channel, by rw [hs]; exact Nat.lt_succ_of_lt h.below, ?_, ?_⟩
  · rw [List.count_append, h.close, ho.1]
  · rw [List.count_append, h.newConnection, ho.2]

/-- Whatever comes of `connect`, the socket of the channel that is there is lost. -/
def Leaks (ch : Channel) (errnos : List Nat) : Prop :=
  ∀ (c : Connector) (log : List ConnectorAct), Loose c log ch → c.state_ ≠ .kConnecting →
    ¬ Owned ((c.connect errnos).1, log ++ (c.connect errnos).2)

/-- The first `connect` is one to try again, or leads to `connecting`. -/
theorem Leaks.cons {errnos : List Nat} (ih : Leaks ch errnos) (h : Loose c log ch) {savedErrno : Nat}
    (hcase : ConnectCase.ofErrno savedErrno ≠ .close) :
    ¬ Owned ((c.connect (savedErrno :: errnos)).1, log ++ (c.connect (savedErrno :: errnos)).2) := by
  have hl := releases_last c.sockets [.connect c.sockets savedErrno, .retry c.sockets] rfl (.inl rfl)
  rw [connect]
  dsimp only
  split
  · intro ho
    refine ho.single c.sockets (List.mem_append_right _ (List.mem_cons_of_mem _ ?_))
    rw [Connector.connecting, h.channel]
    exact List.mem_singleton.mpr rfl
  · unfold retryWith
    dsimp only
    split
    · have hr := ih { (setState { c with sockets := c.sockets + 1 } .kDisconnected) with connect_ := true } _
        (h.failed rfl rfl hl) ConnectorState.noConfusion
      rw [List.append_assoc] at hr
      exact hr
    · have hf : Loose (setState { c with sockets := c.sockets + 1 } .kDisconnected) _ ch := h.failed rfl rfl hl
      exact hf.not_owned ConnectorState.noConfusion
  · rename_i hx
    exact absurd hx hcase

theorem connect_leaks (ch : Channel) (errnos : List Nat) : Leaks ch errnos := by
  induction errnos with
  | nil =>
    intro c log h hst
    rw [connect, List.append_nil]
    exact h.not_owned hst
  | cons savedErrno errnos ih =>
    intro c log h hst
    by_cases hcase : ConnectCase.ofErrno savedErrno = .close
    · have hf : Loose { c with sockets := c.sockets + 1 } (log ++ [.connect c.sockets savedErrno, .close c.sockets]) ch :=
        h.failed rfl rfl (releases_last _ [.connect c.sockets savedErrno] rfl (.inl rfl))
      rw [connect, hcase]
      exact hf.not_owned hst
    · exact ih.cons h hcase

/-! ## Calls -/

theorem Inv.flag (h : Inv c log) (b : Bool) : Inv { c with connect_ := b } log :=
  ⟨⟨h.owned.once, h.owned.single⟩, h.channel, h.below, h.fresh⟩

theorem Inv.loose (h : Inv c log) (hst : c.state_ = .kConnecting) : ∃ ch, Loose c log ch := by
  obtain ⟨ch, hch⟩ := Option.isSome_iff_exists.mp (h.channel.mpr hst)
  have hlt := h.below ch hch
  have hone := h.owned.once ch.fd_ hlt
  have hh : c.holds ch.fd_ = true := by simp [holds, hst, hch]
  dsimp only at hone
  rw [hh, Bool.toNat_true] at hone
  exact ⟨ch, hch, hlt, by omega, by omega⟩

theorem Inv.none (h : Inv c log) (hst : c.state_ ≠ .kConnecting) : c.channel_ = none :=
  Option.not_isSome_iff_eq_none.mp fun hs => hst (h.channel.mp hs)

theorem Inv.start (h : Inv c log) (errnos : List Nat)
    (hp : Patient (c, log) (.start errnos)) : Inv (c.start errnos).1 (log ++ (c.start errnos).2) := by
  by_cases hst : c.state_ = .kConnecting
  · cases errnos with
    | nil =>
      rw [Connector.start, connect, List.append_nil]
      exact h.flag true
    | cons savedErrno errnos =>
      have hcase : ConnectCase.ofErrno savedErrno = .close := hp hst
      rw [Connector.start, connect, hcase]
      exact h.failed rfl rfl (.inl rfl) (releases_last _ [.connect c.sockets savedErrno] rfl (.inl rfl))
  · exact connect_inv errnos (h.flag true) (h.none hst)

theorem Inv.not_start (h : Inv c log) (errnos : List Nat) (hp : ¬ Patient (c, log) (.start errnos)) :
    ¬ Owned ((c.start errnos).1, log ++ (c.start errnos).2) := by
  cases errnos with
  | nil => exact absurd trivial hp
  | cons savedErrno errnos =>
    obtain ⟨hst, hcase⟩ := Classical.not_imp.mp hp
    obtain ⟨ch, hl⟩ := h.loose hst
    exact (connect_leaks ch errnos).cons (c := { c with connect_ := true })
      ⟨hl.channel, hl.below, hl.close, hl.newConnection⟩ hcase

theorem removeAndResetChannel_eq (c : Connector) (ch : Channel) :
    (c.removeAndResetChannel ch).1 = ch.fd_ ∧ (c.removeAndResetChannel ch).2.channel_ = Option.none ∧
      (c.removeAndResetChannel ch).2.sockets = c.sockets ∧ (c.removeAndResetChannel ch).2.state_ = c.state_ ∧
      (c.removeAndResetChannel ch).2.connect_ = c.connect_ := by
  refine ⟨?_, rfl, rfl, rfl, rfl⟩
  simp [removeAndResetChannel, Channel.disableAll, Channel.remove, EPollPoller.removeChannel]

/-- `retry` of the channel's socket, after acts that did nothing about it. -/
theorem Inv.retry {ch : Channel} (acts : List ConnectorAct) (h : Inv c log) (hch : c.channel_ = some ch)
    (hs : c'.sockets = c.sockets) (hc : c'.channel_ = Option.none) (errnos : List Nat)
    (hr : Releases ch.fd_ (acts ++ [.retry ch.fd_, .close ch.fd_])) :
    Inv (c'.retry ch.fd_ errnos).1 (log ++ (acts ++ (c'.retry ch.fd_ errnos).2)) := by
  have hd : Inv (c'.setState .kDisconnected) (log ++ (acts ++ [.retry ch.fd_, .close ch.fd_])) :=
    h.release hch hs hc ConnectorState.noConfusion hr
  unfold Connector.retry retryWith
  dsimp only
  split
  · have hn := connect_inv errnos (hd.flag true) hc
    rw [List.append_assoc, List.append_assoc] at hn
    exact hn
  · exact hd

theorem Inv.stop (h : Inv c log) : Inv c.stop.1 (log ++ c.stop.2) := by
  unfold Connector.stop
  dsimp only
  split
  · rename_i ch hst hch
    obtain ⟨hfd, hn, hs, -, -⟩ :=
      removeAndResetChannel_eq (setState { c with connect_ := false } .kDisconnected) ch
    rw [hfd]
    exact h.retry [] hch hs hn [] (releases_last _ [.retry ch.fd_] rfl (.inl rfl))
  · rw [List.append_nil]
    exact h.flag false

theorem Inv.handleWrite (h : Inv c log) (err : Nat) (isSelfConnect : Bool) (errnos : List Nat) :
    Inv (c.handleWrite err isSelfConnect errnos).1 (log ++ (c.handleWrite err isSelfConnect errnos).2) := by
  unfold Connector.handleWrite
  split
  · rename_i ch hst hch
    obtain ⟨hfd, hn, hs, -, -⟩ := removeAndResetChannel_eq c ch
    dsimp only
    rw [hfd]
    split
    · exact h.retry [.query ch.fd_] hch hs hn errnos (releases_last _ [.query ch.fd_, .retry ch.fd_] rfl (.inl rfl))
    · split
      · exact h.retry [.query ch.fd_] hch hs hn errnos (releases_last _ [.query ch.fd_, .retry ch.fd_] rfl (.inl rfl))
      · refine h.release hch hs hn ConnectorState.noConfusion ?_
        dsimp only
        split
        · exact releases_last _ [.query ch.fd_] rfl (.inr rfl)
        · exact releases_last _ [.query ch.fd_] rfl (.inl rfl)
  · rw [List.append_nil]
    exact h

theorem Inv.handleError (h : Inv c log) (errnos : List Nat) :
    Inv (c.handleError errnos).1 (log ++ (c.handleError errnos).2) := by
  unfold Connector.handleError
  split
  · rename_i ch hst hch
    obtain ⟨hfd, hn, hs, -, -⟩ := removeAndResetChannel_eq c ch
    dsimp only
    rw [hfd]
    exact h.retry [.query ch.fd_] hch hs hn errnos (releases_last _ [.query ch.fd_, .retry ch.fd_] rfl (.inl rfl))
  · rw [List.append_nil]
    exact h

/-- Without a channel, only the number of sockets matters. -/
theorem Inv.idle (h : Inv c log) (hn : c.channel_ = Option.none) (hc : c'.channel_ = Option.none)
    (hs : c'.sockets = c.sockets) (hst : c'.state_ ≠ .kConnecting) : Inv c' log := by
  refine ⟨⟨fun k hk => ?_, h.owned.single⟩, ?_, ?_, ?_⟩
  · have hone := h.owned.once k (hs ▸ hk)
    dsimp only at hone ⊢
    rw [holds_of_none hn] at hone
    rw [holds_of_none hc]
    exact hone
  · rw [hc]
    exact iff_of_false (fun h => absurd h Bool.false_ne_true) hst
  · rw [hc]
    exact fun _ h => nomatch h
  · rw [hs]; exact h.fresh

theorem Inv.restart (h : Inv c log) (errnos : List Nat) (hst : c.state_ ≠ .kConnecting) :
    Inv (c.restart errnos).1 (log ++ (c.restart errnos).2) := by
  have hn := h.none hst
  exact connect_inv errnos (h.idle hn hn rfl ConnectorState.noConfusion) hn

theorem Inv.not_restart (h : Inv c log) (errnos : List Nat) (hst : c.state_ = .kConnecting) :
    ¬ Owned ((c.restart errnos).1, log ++ (c.restart errnos).2) := by
  obtain ⟨ch, hl⟩ := h.loose hst
  exact connect_leaks ch errnos { (c.setState .kDisconnected) with connect_ := true } log
    ⟨hl.channel, hl.below, hl.close, hl.newConnection⟩ ConnectorState.noConfusion

/-- A call that is patient keeps every socket, and no other does. -/
theorem Inv.step (h : Inv c log) (op : Call) :
    (Patient (c, log) op → Inv (c.call op).1 (log ++ (c.call op).2)) ∧
      (¬ Patient (c, log) op → ¬ Owned ((c.call op).1, log ++ (c.call op).2)) := by
  cases op with
  | start errnos => exact ⟨h.start errnos, h.not_start errnos⟩
  | stop => exact ⟨fun _ => h.stop, fun hp => absurd trivial hp⟩
  | restart errnos => exact ⟨h.restart errnos, fun hp => h.not_restart errnos (Classical.not_not.mp hp)⟩
  | handleWrite err isSelfConnect errnos =>
    refine ⟨fun _ => ?_, fun hp => absurd trivial hp⟩
    unfold call
    dsimp only
    split
    · exact h.handleWrite err isSelfConnect errnos
    · rw [List.append_nil]; exact h
  | handleError errnos =>
    refine ⟨fun _ => ?_, fun hp => absurd trivial hp⟩
    unfold call
    dsimp only
    split
    · exact h.handleError errnos
    · rw [List.append_nil]; exact h

/-- For every run of a connector: after every call, each socket created is that of
the channel of a connector that is connecting, or closed once, or handed over
once, and `connecting` was never entered with a channel there, if and only if the
connector is never restarted while it is connecting, and never started then
unless the first `connect` fails for good. -/
theorem owned_iff (p : EPollPoller) (ops : List Call) :
    machine.Along (fun s op => Owned (machine.step s op).1) (new p, []) ops ↔ machine.Along Patient (new p, []) ops := by
  have h₀ : Inv (new p) [] := by
    refine ⟨⟨fun k hk => absurd hk (Nat.not_lt_zero k), fun _ => List.not_mem_nil⟩, ?_, ?_, fun _ _ => ⟨rfl, rfl⟩⟩
    · exact iff_of_false Bool.false_ne_true ConnectorState.noConfusion
    · exact fun _ h => nomatch h
  refine Machine.along_iff_of_inv (I := fun s => Inv s.1 s.2) ?_ ?_ ops _ h₀
  · intro s op h
    exact ⟨fun ho => Classical.not_not.mp fun hp => (h.step op).2 hp ho, fun hp => ((h.step op).1 hp).owned⟩
  · intro s op h hp
    exact (h.step op).1 hp

/-- A client that is started again while its first attempt is in progress: the
socket of the first attempt is nobody's. -/
theorem owned_started_twice :
    ¬ machine.Along (fun s op => Owned (machine.step s op).1) (new .new, [])
      [.start [EINPROGRESS], .start [EINPROGRESS]] := by
  rintro ⟨-, h, -⟩
  exact h.single 1 (by decide)

/-! ## One event -/

/-- A callback of the connector's channel. Two of the four are not set. -/
def callback (c : Connector) (err : Nat) (isSelfConnect : Bool) (errnos errnos' : List Nat) :
    Callback → Connector × List ConnectorAct
  | .errorCallback_ => c.handleError errnos
  | .writeCallback_ => c.handleWrite err isSelfConnect errnos'
  | .closeCallback_ | .readCallback_ => (c, [])

/-- `handleError()` and `handleWrite()` reset the channel. -/
def resets (c : Connector) : Bool := c.state_ == .kConnecting && c.channel_.isSome

/-- One dispatch of `Channel::handleEvent`: `errnos` are the results of `connect` in
`handleError`, and `errnos'` those in `handleWrite`. `handleError` deletes the channel,
and `handleEvent` goes on to test the `revents_` that its memory then holds: `later`. A
new channel may lie there, or nothing. -/
def dispatch (c : Connector) (revents later : Events) (err : Nat) (isSelfConnect : Bool) (errnos errnos' : List Nat) :
    Connector × List ConnectorAct :=
  let last := if revents.epollerr && c.resets then later else revents
  let callbacks := (Channel.handleEvent revents).filter (fun cb => cb == .closeCallback_ || cb == .errorCallback_) ++
    (Channel.handleEvent last).filter (fun cb => cb == .readCallback_ || cb == .writeCallback_)
  callbacks.foldl (fun r cb =>
    let t := r.1.callback err isSelfConnect errnos errnos' cb
    (t.1, r.2 ++ t.2)) (c, [])

/-- The acts concern one attempt, that of socket `j`: it is retried or handed over
at most once, and a socket that begins to connect meanwhile is not asked for its
error, not closed and not handed over. -/
def OneAttempt (j : Fd) (acts : List ConnectorAct) : Prop :=
  acts.count (.retry j) + acts.count (.newConnection j) ≤ 1 ∧
  ∀ k held, .connecting k held ∈ acts → .query k ∉ acts ∧ .close k ∉ acts ∧ .newConnection k ∉ acts

/-- A call of `start` comes to `connecting`: every `connect` before is one to try
again. -/
def reaches : List Nat → Bool
  | [] => false
  | savedErrno :: errnos =>
    match ConnectCase.ofErrno savedErrno with
    | .connecting => true
    | .retry => reaches errnos
    | .close => false

/-- The acts of attempts that begin with socket `n`. -/
structure Later (n : Nat) (acts : List ConnectorAct) : Prop where
  connecting : ∀ k held, .connecting k held ∈ acts → n ≤ k ∧ .close k ∉ acts
  retry : ∀ k, .retry k ∈ acts → n ≤ k
  close : ∀ k, .close k ∈ acts → n ≤ k
  query : ∀ k, .query k ∉ acts
  newConnection : ∀ k, .newConnection k ∉ acts

theorem later_nil (n : Nat) : Later n [] := ⟨by simp, by simp, by simp, by simp, by simp⟩

/-- One attempt fails and is followed by others. -/
theorem Later.cons {n : Nat} {acts : List ConnectorAct} (h : Later (n + 1) acts) (savedErrno : Nat) :
    Later n (.connect n savedErrno :: .retry n :: .close n :: acts) := by
  refine ⟨?_, ?_, ?_, ?_, ?_⟩
  · intro k held hm
    simp only [List.mem_cons, reduceCtorEq, false_or] at hm
    obtain ⟨hle, hc⟩ := h.connecting k held hm
    refine ⟨Nat.le_of_succ_le hle, ?_⟩
    simp only [List.mem_cons, reduceCtorEq, false_or, ConnectorAct.close.injEq, not_or]
    exact ⟨Nat.ne_of_gt hle, hc⟩
  · intro k hm
    simp only [List.mem_cons, reduceCtorEq, false_or, ConnectorAct.retry.injEq] at hm
    rcases hm with rfl | hm
    · exact Nat.le_refl _
    · exact Nat.le_of_succ_le (h.retry k hm)
  · intro k hm
    simp only [List.mem_cons, reduceCtorEq, false_or, ConnectorAct.close.injEq] at hm
    rcases hm with rfl | hm
    · exact Nat.le_refl _
    · exact Nat.le_of_succ_le (h.close k hm)
  · intro k hm
    simp only [List.mem_cons, reduceCtorEq, false_or] at hm
    exact h.query k hm
  · intro k hm
    simp only [List.mem_cons, reduceCtorEq, false_or] at hm
    exact h.newConnection k hm

theorem later_connect (errnos : List Nat) : ∀ c : Connector, Later c.sockets (c.connect errnos).2 := by
  induction errnos with
  | nil => exact fun c => later_nil _
  | cons savedErrno errnos ih =>
    intro c
    rw [connect]
    dsimp only
    split
    · refine ⟨?_, by simp [Connector.connecting], by simp [Connector.connecting], by simp [Connector.connecting],
        by simp [Connector.connecting]⟩
      intro k held hm
      simp only [Connector.connecting, List.mem_cons, reduceCtorEq, false_or, ConnectorAct.connecting.injEq,
        List.not_mem_nil, or_false] at hm
      simp [Connector.connecting, hm.1]
    · unfold retryWith
      dsimp only
      split
      · have hr := ih { (setState { c with sockets := c.sockets + 1 } .kDisconnected) with connect_ := true }
        exact hr.cons savedErrno
      · exact (later_nil _).cons savedErrno
    · refine ⟨by simp, by simp, ?_, by simp, by simp⟩
      intro k hm
      simp only [List.mem_cons, reduceCtorEq, false_or, ConnectorAct.close.injEq, List.not_mem_nil, or_false] at hm
      exact Nat.le_of_eq hm.symm

/-- Where `start` ends. -/
theorem connect_ends (errnos : List Nat) : ∀ c : Connector, c.connect_ = true → c.state_ ≠ .kConnecting →
    (reaches errnos = true → (c.connect errnos).1.state_ = .kConnecting ∧
      ∃ ch held, (c.connect errnos).1.channel_ = some ch ∧ .connecting ch.fd_ held ∈ (c.connect errnos).2) ∧
    (reaches errnos = false → (c.connect errnos).1.state_ ≠ .kConnecting) := by
  induction errnos with
  | nil => exact fun c _ hst => ⟨fun h => absurd h Bool.false_ne_true, fun _ => hst⟩
  | cons savedErrno errnos ih =>
    intro c hc hst
    rw [connect, reaches]
    cases ConnectCase.ofErrno savedErrno with
    | connecting =>
      refine ⟨fun _ => ⟨rfl, ((Channel.new c.sockets c.sockets).enableWriting c.epoller_).2, c.channel_.isSome, rfl, ?_⟩,
        fun h => absurd h Bool.false_ne_true.symm⟩
      simp [Connector.connecting, Channel.enableWriting, Channel.new]
    | retry =>
      have hif : (setState { c with sockets := c.sockets + 1 } .kDisconnected).connect_ = true := hc
      simp only [retryWith, hif, if_true]
      obtain ⟨h₁, h₂⟩ := ih { (setState { c with sockets := c.sockets + 1 } .kDisconnected) with connect_ := true } rfl
        ConnectorState.noConfusion
      refine ⟨fun hr => ?_, h₂⟩
      obtain ⟨hs, ch, held, hch, hm⟩ := h₁ hr
      exact ⟨hs, ch, held, hch, List.mem_cons_of_mem _ (List.mem_cons_of_mem _ (List.mem_cons_of_mem _ hm))⟩
    | close => exact ⟨fun h => absurd h Bool.false_ne_true, fun _ => hst⟩

/-- What a handler does about the attempt's socket, and then about later ones. -/
theorem oneAttempt_of {j n : Nat} (first : List ConnectorAct) {rest : List ConnectorAct} (hj : j < n) (hl : Later n rest)
    (h₁ : first.count (.retry j) + first.count (.newConnection j) ≤ 1) (h₂ : ∀ k held, .connecting k held ∉ first)
    (h₃ : ∀ k, .query k ∈ first ∨ .close k ∈ first ∨ .newConnection k ∈ first → k = j) :
    OneAttempt j (first ++ rest) := by
  have hr : rest.count (.retry j) = 0 := List.count_eq_zero.mpr fun hm => Nat.not_le_of_lt hj (hl.retry j hm)
  have hn : rest.count (.newConnection j) = 0 := List.count_eq_zero.mpr (hl.newConnection j)
  refine ⟨by rw [List.count_append, List.count_append]; omega, fun k held hm => ?_⟩
  have hm' := (List.mem_append.mp hm).resolve_left (h₂ k held)
  obtain ⟨hle, hc⟩ := hl.connecting k held hm'
  have hne : k ≠ j := Nat.ne_of_gt (Nat.lt_of_lt_of_le hj hle)
  refine ⟨?_, ?_, ?_⟩ <;> intro hm <;> rcases List.mem_append.mp hm with hm | hm
  · exact hne (h₃ k (.inl hm))
  · exact hl.query k hm
  · exact hne (h₃ k (.inr (.inl hm)))
  · exact hc hm
  · exact hne (h₃ k (.inr (.inr hm)))
  · exact hl.newConnection k hm

/-- `retry` of a socket, and the attempts after it. -/
theorem retry_acts (c : Connector) (j : Fd) (errnos : List Nat) :
    ∃ rest, (c.retry j errnos).2 = .retry j :: .close j :: rest ∧ Later c.sockets rest := by
  unfold Connector.retry retryWith
  dsimp only
  split
  · exact ⟨_, rfl, later_connect errnos { (c.setState .kDisconnected) with connect_ := true }⟩
  · exact ⟨[], rfl, later_nil _⟩

theorem retry_ends (c : Connector) (j : Fd) (errnos : List Nat) :
    ((c.connect_ && reaches errnos) = true → (c.retry j errnos).1.state_ = .kConnecting ∧
      ∃ ch held, (c.retry j errnos).1.channel_ = some ch ∧ .connecting ch.fd_ held ∈ (c.retry j errnos).2) ∧
    ((c.connect_ && reaches errnos) = false → (c.retry j errnos).1.state_ ≠ .kConnecting) := by
  unfold Connector.retry retryWith
  dsimp only
  split
  · rename_i hc
    have hc' : c.connect_ = true := hc
    rw [hc', Bool.true_and]
    obtain ⟨h₁, h₂⟩ := connect_ends errnos { (c.setState .kDisconnected) with connect_ := true } rfl
      ConnectorState.noConfusion
    refine ⟨fun hr => ?_, h₂⟩
    obtain ⟨hs, ch, held, hch, hm⟩ := h₁ hr
    exact ⟨hs, ch, held, hch, List.mem_cons_of_mem _ (List.mem_cons_of_mem _ hm)⟩
  · rename_i hc
    have hc' : c.connect_ = false := Bool.not_eq_true _ ▸ hc
    rw [hc', Bool.false_and]
    exact ⟨fun h => absurd h Bool.false_ne_true, fun _ => ConnectorState.noConfusion⟩

theorem handleError_eq (hst : c.state_ = .kConnecting) (hch : c.channel_ = some ch) (errnos : List Nat) :
    c.handleError errnos = (((c.removeAndResetChannel ch).2.retry ch.fd_ errnos).1,
      .query ch.fd_ :: ((c.removeAndResetChannel ch).2.retry ch.fd_ errnos).2) := by
  simp only [Connector.handleError, hst, hch, (removeAndResetChannel_eq c ch).1]

theorem oneAttempt_retry (hlt : ch.fd_ < c.sockets) (errnos : List Nat) :
    OneAttempt ch.fd_ (.query ch.fd_ :: ((c.removeAndResetChannel ch).2.retry ch.fd_ errnos).2) := by
  obtain ⟨rest, hr, hl⟩ := retry_acts (c.removeAndResetChannel ch).2 ch.fd_ errnos
  rw [hr]
  exact oneAttempt_of [.query ch.fd_, .retry ch.fd_, .close ch.fd_] hlt hl (by simp) (by simp) (by simp)

theorem oneAttempt_handleWrite (hch : c.channel_ = some ch) (hlt : ch.fd_ < c.sockets) (err : Nat)
    (isSelfConnect : Bool) (errnos : List Nat) : OneAttempt ch.fd_ (c.handleWrite err isSelfConnect errnos).2 := by
  unfold Connector.handleWrite
  split
  · rename_i ch' hst hch'
    obtain rfl : ch = ch' := Option.some.inj (hch.symm.trans hch')
    have hfd := (removeAndResetChannel_eq c ch).1
    dsimp only
    rw [hfd]
    split
    · exact oneAttempt_retry hlt errnos
    · split
      · exact oneAttempt_retry hlt errnos
      · split
        · exact oneAttempt_of [.query ch.fd_, .newConnection ch.fd_] hlt (later_nil _) (by simp)
            (by simp) (by simp)
        · exact oneAttempt_of [.query ch.fd_, .close ch.fd_] hlt (later_nil _) (by simp) (by simp)
            (by simp)
  · exact ⟨by simp, by simp⟩

theorem dispatch_eq (c : Connector) (revents later : Events) (err : Nat) (isSelfConnect : Bool)
    (errnos errnos' : List Nat) :
    c.dispatch revents later err isSelfConnect errnos errnos' =
      let r := if revents.epollerr then c.handleError errnos else (c, [])
      let last := if revents.epollerr && c.resets then later else revents
      let t := if last.epollout then r.1.handleWrite err isSelfConnect errnos' else (r.1, [])
      (t.1, r.2 ++ t.2) := by
  unfold dispatch
  dsimp only
  generalize (if revents.epollerr && c.resets then later else revents) = last
  have hfirst : (Channel.handleEvent revents).filter (fun cb => cb == .closeCallback_ || cb == .errorCallback_) =
      (if revents.epollhup && !revents.epollin then [.closeCallback_] else []) ++
        if revents.epollerr then [.errorCallback_] else [] := by
    unfold Channel.handleEvent
    cases (revents.epollhup && !revents.epollin) <;> cases revents.epollerr <;>
      cases (revents.epollin || revents.epollpri || revents.epollrdhup) <;> cases revents.epollout <;> rfl
  have hlast : (Channel.handleEvent last).filter (fun cb => cb == .readCallback_ || cb == .writeCallback_) =
      (if last.epollin || last.epollpri || last.epollrdhup then [.readCallback_] else []) ++
        if last.epollout then [.writeCallback_] else [] := by
    unfold Channel.handleEvent
    cases (last.epollhup && !last.epollin) <;> cases last.epollerr <;>
      cases (last.epollin || last.epollpri || last.epollrdhup) <;> cases last.epollout <;> rfl
  rw [hfirst, hlast]
  cases (revents.epollhup && !revents.epollin) <;> cases revents.epollerr <;>
    cases (last.epollin || last.epollpri || last.epollrdhup) <;> cases last.epollout <;> simp [callback]

/-- A dispatch of any event on the channel of an attempt, whatever comes of the
`connect`s meanwhile, concerns that attempt alone, unless the event reports an error,
the error has led to a new attempt in progress, and the memory of the channel, which
`handleError` has deleted, then says that the socket is writable. -/
theorem dispatch_iff (hst : c.state_ = .kConnecting) (hch : c.channel_ = some ch) (hlt : ch.fd_ < c.sockets)
    (revents later : Events) (err : Nat) (isSelfConnect : Bool) (errnos errnos' : List Nat) :
    OneAttempt ch.fd_ (c.dispatch revents later err isSelfConnect errnos errnos').2 ↔
      ¬ (revents.epollerr = true ∧ later.epollout = true ∧ c.connect_ = true ∧ reaches errnos = true) := by
  have hresets : c.resets = true := by simp [resets, hst, hch]
  rw [dispatch_eq]
  dsimp only
  rw [hresets, Bool.and_true]
  cases revents.epollerr with
  | false =>
    refine iff_of_true ?_ fun h => absurd h.1 Bool.false_ne_true
    simp only [Bool.false_eq_true, if_false, List.nil_append]
    split
    · exact oneAttempt_handleWrite hch hlt err isSelfConnect errnos'
    · exact ⟨by simp, by simp⟩
  | true =>
    simp only [if_true, handleError_eq hst hch]
    have hone := oneAttempt_retry hlt errnos
    obtain ⟨h₁, h₂⟩ := retry_ends (c.removeAndResetChannel ch).2 ch.fd_ errnos
    rw [(removeAndResetChannel_eq c ch).2.2.2.2] at h₁ h₂
    cases later.epollout with
    | false =>
      refine iff_of_true ?_ fun h => absurd h.2.1 Bool.false_ne_true
      simp only [Bool.false_eq_true, if_false, List.append_nil]
      exact hone
    | true =>
      simp only [if_true]
      cases hr : c.connect_ && reaches errnos with
      | false =>
        refine iff_of_true ?_ fun h => ?_
        · have hw : (((c.removeAndResetChannel ch).2.retry ch.fd_ errnos).1.handleWrite err isSelfConnect
              errnos').2 = [] := by
            unfold Connector.handleWrite
            split
            · rename_i hs _
              exact absurd hs (h₂ hr)
            · rfl
          rw [hw, List.append_nil]
          exact hone
        · rw [h.2.2.1, h.2.2.2] at hr
          exact absurd hr (by decide)
      | true =>
        refine iff_of_false ?_ fun h => h ⟨trivial, trivial, Bool.and_eq_true_iff.mp hr⟩
        obtain ⟨hs, ch', held, hch', hm⟩ := h₁ hr
        intro ho
        refine (ho.2 ch'.fd_ held (List.mem_append_left _ (List.mem_cons_of_mem _ hm))).1 (List.mem_append_right _ ?_)
        simp only [Connector.handleWrite, hs, hch', (removeAndResetChannel_eq _ ch').1]
        exact List.mem_cons_self

/-- An attempt in progress. -/
def attempt : Connector := ((new .new).start [EINPROGRESS]).1

/-- An attempt is refused: the event says that there is an error, a hang-up, and that the
socket is writable. The new channel takes the memory of the old one, with a `revents_` of 0. -/
theorem dispatch_iff_refused :
    OneAttempt 0 (attempt.dispatch ⟨false, false, true, true, true, false⟩ .kNoneEvent ECONNREFUSED false
      [ECONNREFUSED, EINPROGRESS] []).2 :=
  (dispatch_iff (c := attempt) (by decide) (by decide : attempt.channel_ = some ⟨0, 0, .kWriteEvent, .kAdded⟩) (by decide)
    _ _ _ _ _ _).mpr (by decide)

/-- The memory of the old channel is left as it was: the second attempt is taken for
connected while it is in progress. -/
theorem dispatch_both :
    ¬ OneAttempt 0 (attempt.dispatch ⟨false, false, true, true, true, false⟩ ⟨false, false, true, true, true, false⟩ 0 false
      [EINPROGRESS] []).2 := by
  intro h
  exact (h.2 1 false (by decide)).1 (by decide)

end Ydx.Connector
