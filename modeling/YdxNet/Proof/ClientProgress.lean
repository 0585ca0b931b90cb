import YdxNet.Impl.ClientConnector
import YdxNet.Proof.Connector

/-!
# A client that retries

The end of every attempt and of every connection of such a client starts another attempt. What
`connect` gives for the last of its sockets says how that goes on (`Reached`): the socket's channel
is registered for the event that ends the attempt, or the connector sleeps before the next one, or
it has given up. So a client that was told to connect, and not to stop, idles only after an error
for which the connector gives up (`never_idle`).
-/

namespace Ydx

namespace Connector

variable {c : Connector}

/-- The results of the calls of `connect`. -/
def errnosOf (acts : List ConnectorAct) : List Nat :=
  acts.filterMap fun
    | .connect _ savedErrno => some savedErrno
    | _ => none

@[simp] theorem errnosOf_append (acts acts' : List ConnectorAct) :
    errnosOf (acts ++ acts') = errnosOf acts ++ errnosOf acts' :=
  List.filterMap_append

/-- The poller reports the end of the attempt to the channel, and the connector will see to it. -/
def Listens (c : Connector) : Prop :=
  c.state_ = .kConnecting ∧ c.connect_ = true ∧
    ∃ ch, c.channel_ = some ch ∧ c.epoller_.interest ch.fd_ = some (.kWriteEvent, ch.this)

/-- The kernel knows nothing of sockets that are not created yet. -/
structure Fresh (c : Connector) : Prop where
  interest : ∀ fd, c.sockets ≤ fd → c.epoller_.interest fd = none
  below : ∀ ch, c.channel_ = some ch → ch.fd_ < c.sockets

/-- Some `connect` was called, and where its result is that of an attempt, there is one. -/
def Reached (r : Connector × List ConnectorAct) : Prop :=
  ∃ savedErrno, (errnosOf r.2).getLast? = some savedErrno ∧
    (ConnectCase.ofErrno savedErrno = .connecting → r.1.Listens)

/-- What an operation of a connector comes to. -/
structure Outcome (c : Connector) (r : Connector × List ConnectorAct) : Prop where
  fresh : r.1.Fresh
  reached : Reached r ∨ errnosOf r.2 = []

/-- Acts that call no `connect` come before. -/
theorem Outcome.after {r : Connector × List ConnectorAct} (h : Outcome c r) {acts : List ConnectorAct}
    (ha : errnosOf acts = []) : Outcome c (r.1, acts ++ r.2) := by
  have he : errnosOf (acts ++ r.2) = errnosOf r.2 := by rw [errnosOf_append, ha, List.nil_append]
  refine ⟨h.fresh, h.reached.imp (fun hr => ?_) fun hn => he.trans hn⟩
  unfold Reached
  rw [he]
  exact hr

theorem enableWriting_new {p : EPollPoller} {fd : Fd} (h : p.interest fd = none) :
    ((Channel.new fd fd).enableWriting p).1.interest = Function.update p.interest fd (some (.kWriteEvent, fd)) ∧
      ((Channel.new fd fd).enableWriting p).2 = ⟨fd, fd, .kWriteEvent, .kAdded⟩ := by
  simp [Channel.enableWriting, Channel.new, EPollPoller.updateChannel, EPollPoller.update, h, Events.union,
    Events.kNoneEvent, Events.kWriteEvent]

theorem Fresh.connecting (h : Fresh c) (hc : c.connect_ = true) :
    let r := Connector.connecting { c with sockets := c.sockets + 1 } c.sockets
    Fresh r.1 ∧ r.1.Listens := by
  obtain ⟨hi, hch⟩ := enableWriting_new (h.interest c.sockets (Nat.le_refl _))
  refine ⟨⟨fun fd hfd => ?_, fun ch hsome => ?_⟩, rfl, hc, _, rfl, ?_⟩
  · show ((Channel.new c.sockets c.sockets).enableWriting c.epoller_).1.interest fd = none
    have hlt : c.sockets < fd := hfd
    rw [hi, Function.update_of_ne (Nat.ne_of_gt hlt)]
    exact h.interest fd (Nat.le_of_lt hlt)
  · obtain rfl : ((Channel.new c.sockets c.sockets).enableWriting c.epoller_).2 = ch := Option.some.inj hsome
    rw [hch]
    exact Nat.lt_succ_self _
  · show ((Channel.new c.sockets c.sockets).enableWriting c.epoller_).1.interest
      ((Channel.new c.sockets c.sockets).enableWriting c.epoller_).2.fd_ = _
    rw [hi, hch, Function.update_self]

/-- A socket more, and whatever the state. -/
theorem Fresh.created (h : Fresh c) (s : ConnectorState) (b : Bool) :
    Fresh { c with sockets := c.sockets + 1, state_ := s, connect_ := b } where
  interest fd hfd := h.interest fd (Nat.le_of_succ_le hfd)
  below ch hch := Nat.lt_succ_of_lt (h.below ch hch)

/-- A call that fails comes before. -/
theorem Outcome.again {r : Connector × List ConnectorAct} (h : Outcome c r) (sockfd : Fd) {savedErrno : Nat}
    (hne : ConnectCase.ofErrno savedErrno ≠ .connecting) :
    Reached (r.1, .connect sockfd savedErrno :: .retry sockfd :: .close sockfd :: r.2) := by
  have heq : errnosOf (.connect sockfd savedErrno :: .retry sockfd :: .close sockfd :: r.2) =
      savedErrno :: errnosOf r.2 := rfl
  unfold Reached
  simp only [heq, List.getLast?_cons]
  rcases h.reached with ⟨last, hlast, hl⟩ | hnone
  · exact ⟨last, by rw [hlast]; rfl, hl⟩
  · exact ⟨savedErrno, by rw [hnone]; rfl, fun he => absurd he hne⟩

/-- Whatever the calls give, the last of them says where the connector is. -/
theorem outcome_connect (errnos : List Nat) : ∀ {c : Connector}, Fresh c → c.connect_ = true →
    Outcome c (c.connect errnos) ∧ (errnos ≠ [] → Reached (c.connect errnos)) := by
  induction errnos with
  | nil => exact fun h _ => ⟨⟨h, .inr rfl⟩, fun hne => absurd rfl hne⟩
  | cons savedErrno errnos ih =>
    intro c h hc
    suffices hr : Fresh (c.connect (savedErrno :: errnos)).1 ∧ Reached (c.connect (savedErrno :: errnos)) from
      ⟨⟨hr.1, .inl hr.2⟩, fun _ => hr.2⟩
    rw [connect]
    cases hcase : ConnectCase.ofErrno savedErrno with
    | connecting =>
      obtain ⟨hfresh, hlistens⟩ := h.connecting hc
      exact ⟨hfresh, savedErrno, rfl, fun _ => hlistens⟩
    | close => exact ⟨h.created c.state_ c.connect_, savedErrno, rfl, fun he => by simp [hcase] at he⟩
    | retry =>
      have hif : (setState { c with sockets := c.sockets + 1 } .kDisconnected).connect_ = true := hc
      simp only [retryWith, hif, if_true]
      have ho := (ih (h.created .kDisconnected true) rfl).1
      exact ⟨ho.fresh, ho.again c.sockets (by simp [hcase])⟩

/-- `retry` of a socket starts anew if the connector is to connect. -/
theorem outcome_retry (h : Fresh c) (sockfd : Fd) {errnos : List Nat} (hne : errnos ≠ []) :
    Outcome c (c.retry sockfd errnos) ∧ (c.connect_ = true → Reached (c.retry sockfd errnos)) := by
  unfold Connector.retry retryWith
  dsimp only
  split
  · have hf : Fresh { (c.setState .kDisconnected) with connect_ := true } := ⟨h.interest, h.below⟩
    obtain ⟨ho, hr⟩ := outcome_connect errnos hf rfl
    have ha := ho.after (show errnosOf [.retry sockfd, .close sockfd] = [] from rfl)
    refine ⟨⟨ha.fresh, ha.reached⟩, fun _ => hr hne⟩
  · rename_i hc
    exact ⟨⟨⟨h.interest, h.below⟩, .inr rfl⟩, fun hc' => absurd hc' hc⟩

/-- The channel is gone, and its socket is not registered any more. -/
theorem Fresh.removeAndResetChannel (h : Fresh c) {ch : Channel} (hch : c.channel_ = some ch) :
    Fresh (c.removeAndResetChannel ch).2 := by
  have hlt := h.below ch hch
  refine ⟨fun fd hfd => ?_, fun _ hn => by simp [Connector.removeAndResetChannel] at hn⟩
  have hne : fd ≠ ch.fd_ := Nat.ne_of_gt (Nat.lt_of_lt_of_le hlt hfd)
  have hi := h.interest fd hfd
  simp only [Connector.removeAndResetChannel, Channel.remove, Channel.disableAll]
  rw [EPollPoller.interest_removeChannel_of_ne (by simpa using hne)]
  exact (EPollPoller.interest_updateChannel_of_ne (c := { ch with events_ := .kNoneEvent }) hne).trans hi

/-- Nothing is called for an event that does not concern an attempt. -/
theorem outcome_idle (h : Fresh c) : Outcome c (c, []) := ⟨h, .inr rfl⟩

theorem outcome_handleError (h : Fresh c) {errnos : List Nat} (hne : errnos ≠ []) :
    Outcome c (c.handleError errnos) ∧ (c.Listens → Reached (c.handleError errnos)) := by
  unfold Connector.handleError
  split
  · rename_i ch hst hch
    obtain ⟨ho, hr⟩ := outcome_retry (h.removeAndResetChannel hch) (c.removeAndResetChannel ch).1 hne
    exact ⟨⟨ho.fresh, ho.reached⟩, fun hl => hr hl.2.1⟩
  · rename_i hn
    exact ⟨outcome_idle h, fun ⟨hst, _, ch, hch, _⟩ => absurd hch (hn ch hst)⟩

/-- The attempt succeeds. -/
def hands (acts : List ConnectorAct) : Bool := acts.any fun a => a matches .newConnection _

theorem outcome_handleWrite (h : Fresh c) (err : Nat) (isSelfConnect : Bool) {errnos : List Nat} (hne : errnos ≠ []) :
    Outcome c (c.handleWrite err isSelfConnect errnos) ∧
      (c.Listens → Reached (c.handleWrite err isSelfConnect errnos) ∨
        hands (c.handleWrite err isSelfConnect errnos).2 = true) := by
  unfold Connector.handleWrite
  split
  · rename_i ch hst hch
    have hf := h.removeAndResetChannel hch
    obtain ⟨ho, hr⟩ := outcome_retry hf (c.removeAndResetChannel ch).1 hne
    dsimp only
    split
    · exact ⟨⟨ho.fresh, ho.reached⟩, fun hl => .inl (hr hl.2.1)⟩
    · split
      · exact ⟨⟨ho.fresh, ho.reached⟩, fun hl => .inl (hr hl.2.1)⟩
      · split
        · exact ⟨⟨⟨hf.interest, hf.below⟩, .inr rfl⟩, fun _ => .inr rfl⟩
        · rename_i hc
          exact ⟨⟨⟨hf.interest, hf.below⟩, .inr rfl⟩, fun hl => absurd hl.2.1 hc⟩
  · rename_i hn
    exact ⟨outcome_idle h, fun ⟨hst, _, ch, hch, _⟩ => absurd hch (hn ch hst)⟩

theorem outcome_stop (h : Fresh c) : Outcome c c.stop := by
  unfold Connector.stop
  dsimp only
  split
  · rename_i ch hst hch
    have hf : Fresh ((setState { c with connect_ := false } .kDisconnected).removeAndResetChannel ch).2 :=
      Fresh.removeAndResetChannel (c := setState { c with connect_ := false } .kDisconnected) ⟨h.interest, h.below⟩ hch
    exact ⟨⟨hf.interest, hf.below⟩, .inr rfl⟩
  · exact ⟨⟨h.interest, h.below⟩, .inr rfl⟩

end Connector

namespace ClientConnector

open Connector

variable {s : ClientConnector} {log : List ConnectorAct}

/-- There is a connection, or an attempt, or the last `connect` failed. -/
def Busy (s : ClientConnector) (log : List ConnectorAct) : Prop :=
  s.conns ≠ [] ∨ s.connector_.Listens ∨
    ∃ savedErrno, (errnosOf log).getLast? = some savedErrno ∧ ConnectCase.ofErrno savedErrno ≠ .connecting

/-- What a run keeps, of a client that retries and all that its connector did. -/
structure Tries (s : ClientConnector × List ConnectorAct) : Prop where
  retry : s.1.client.retry_ = true
  fresh : s.1.connector_.Fresh
  busy : errnosOf s.2 ≠ [] → s.1.final = false → Busy s.1 s.2

theorem busy_of_reached {acts : List ConnectorAct} (h : Reached (s.connector_, acts)) : Busy s (log ++ acts) := by
  obtain ⟨savedErrno, hlast, hl⟩ := h
  by_cases hcase : ConnectCase.ofErrno savedErrno = .connecting
  · exact .inr (.inl (hl hcase))
  · refine .inr (.inr ⟨savedErrno, ?_, hcase⟩)
    rw [errnosOf_append, List.getLast?_append, show (errnosOf acts).getLast? = some savedErrno from hlast]
    rfl

/-- An event of the connector's channel, by what the connector comes to. -/
theorem Tries.connected (h : Tries (s, log)) {r : Connector × List ConnectorAct} (ho : Outcome s.connector_ r)
    (hr : s.connector_.Listens → Reached r ∨ hands r.2 = true) :
    Tries ((s.connected r).1, log ++ (s.connected r).2) := by
  have hfresh := ho.fresh
  have hconns : (hands r.2 = true ∨ s.conns ≠ []) → (s.connected r).1.conns ≠ [] := by
    intro hor
    unfold ClientConnector.connected
    split
    · simp
    · rename_i hn
      exact hor.resolve_left hn
  have hsame : (s.connected r).1.connector_ = r.1 ∧ (s.connected r).2 = r.2 ∧ (s.connected r).1.final = s.final ∧
      (s.connected r).1.client.retry_ = s.client.retry_ := by
    unfold ClientConnector.connected
    split
    · exact ⟨rfl, rfl, rfl, rfl⟩
    · exact ⟨rfl, rfl, rfl, rfl⟩
  obtain ⟨hc, ha, hf, hretry⟩ := hsame
  refine ⟨hretry.trans h.retry, by rw [hc]; exact hfresh, fun hne hfinal => ?_⟩
  rw [ha] at hne ⊢
  rcases ho.reached with hreached | hnone
  · refine busy_of_reached ?_
    rw [hc]
    exact hreached
  · have hlog : errnosOf (log ++ r.2) = errnosOf log := by rw [errnosOf_append, hnone, List.append_nil]
    rw [hlog] at hne
    rcases h.busy hne (hf.symm.trans hfinal) with hconn | hlistens | hfailed
    · exact .inl (hconns (.inr hconn))
    · rcases hr hlistens with hreached | hhands
      · refine busy_of_reached ?_
        rw [hc]
        exact hreached
      · exact .inl (hconns (.inl hhands))
    · refine .inr (.inr ?_)
      rw [hlog]
      exact hfailed

theorem Tries.step (h : Tries (s, log)) (e : Event) : Tries ((s.step e).1, log ++ (s.step e).2) := by
  cases e with
  | connect errno errnos =>
    have hf : Fresh { s.connector_ with connect_ := true } := ⟨h.fresh.interest, h.fresh.below⟩
    obtain ⟨ho, hr⟩ := outcome_connect (errno :: errnos) hf rfl
    exact ⟨h.retry, ho.fresh, fun _ _ => busy_of_reached (hr (List.cons_ne_nil _ _))⟩
  | stop =>
    exact ⟨h.retry, (outcome_stop h.fresh).fresh, fun _ hfinal => absurd hfinal Bool.false_ne_true.symm⟩
  | disconnect => exact ⟨h.retry, h.fresh, fun _ hfinal => absurd hfinal Bool.false_ne_true.symm⟩
  | handleWrite err isSelfConnect errno errnos =>
    obtain ⟨ho, hr⟩ := outcome_handleWrite h.fresh err isSelfConnect (List.cons_ne_nil errno errnos)
    exact h.connected ho hr
  | handleError errno errnos =>
    obtain ⟨ho, hr⟩ := outcome_handleError h.fresh (List.cons_ne_nil errno errnos)
    exact h.connected ho fun hl => .inl (hr hl)
  | close conn errno errnos =>
    simp only [ClientConnector.step]
    split
    · have hretry : s.client.removeConnection.retry_ = true := h.retry
      have hf : Fresh { s.connector_.setState .kDisconnected with connect_ := true } := ⟨h.fresh.interest, h.fresh.below⟩
      obtain ⟨ho, hr⟩ := outcome_connect (errno :: errnos) hf rfl
      simp only [removeConnection, hretry, if_true]
      exact ⟨hretry, ho.fresh, fun _ _ => busy_of_reached (hr (List.cons_ne_nil _ _))⟩
    · rw [List.append_nil]
      exact h

/-- In every run of a client that retries, once it has tried to connect, and unless the user's last
word was `stop()` or `disconnect()`: it has a connection, or its attempt is registered for the
event that ends it, or the last `connect` failed. Then the connector has given up, or sleeps before
the next one. -/
theorem never_idle (events : List Event) :
    let s := machine.final (new .new true) events
    let acts := (machine.outputs (new .new true) events).flatten
    errnosOf acts ≠ [] → s.final = false → Busy s acts := by
  intro s acts
  have h₀ : Tries (new .new true, []) :=
    ⟨rfl, ⟨fun _ _ => rfl, fun _ hch => by simp [new, Connector.new] at hch⟩, fun hne => absurd rfl hne⟩
  have h := Machine.always (M := machine.logged) (I := Tries) (fun s e h => h.step e) events _ h₀
  rw [Machine.final_logged, List.nil_append] at h
  exact h.busy

/-- The connection is closed; the next attempt is refused, and the one after it is under way. -/
theorem never_idle_closed :
    let s := machine.final (new .new true)
      [.connect EINPROGRESS [], .handleWrite 0 false 0 [], .close 1 ECONNREFUSED [EINPROGRESS]]
    s.conns = [] ∧ s.connector_.Listens := by
  intro s
  have hconns : s.conns = [] := by decide +kernel
  rcases never_idle [.connect EINPROGRESS [], .handleWrite 0 false 0 [], .close 1 ECONNREFUSED [EINPROGRESS]]
    (by decide +kernel) (by decide +kernel) with hne | hlistens | ⟨savedErrno, hlast, hfailed⟩
  · exact absurd hconns hne
  · exact ⟨hconns, hlistens⟩
  · refine absurd ?_ hfailed
    obtain rfl : EINPROGRESS = savedErrno := Option.some.inj ((by decide +kernel : some EINPROGRESS = _).trans hlast)
    decide

end ClientConnector

end Ydx
