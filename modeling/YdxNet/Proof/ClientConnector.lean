import YdxNet.Impl.ClientConnector

/-!
# The user's last word

After `stop()` or `disconnect()` the client starts an attempt of its own in
two ways: a connection is closed, and `removeConnection` looks at `retry_`
alone; or an attempt fails that `disconnect()` has left running, and the
connector tries again. There is no other (`final_iff`).
-/

namespace Ydx

namespace Connector

variable {c : Connector}

/-- An attempt is started. -/
def starts (acts : List ConnectorAct) : Bool := acts.any fun a => a matches .connect ..

/-- The connector waits for the end of an attempt, after which it will try again. -/
def Pending (c : Connector) : Prop := c.state_ = .kConnecting ∧ c.channel_.isSome = true ∧ c.connect_ = true

instance (c : Connector) : Decidable c.Pending := inferInstanceAs (Decidable (_ ∧ _ ∧ _))

theorem starts_connect (c : Connector) (errno : Nat) (errnos : List Nat) :
    starts (c.connect (errno :: errnos)).2 = true := rfl

theorem starts_retry (c : Connector) (sockfd : Fd) (errno : Nat) (errnos : List Nat) :
    starts (c.retry sockfd (errno :: errnos)).2 = c.connect_ := by
  cases hc : c.connect_ with
  | true => simp [retry, retryWith, setState, hc, starts, start, connect]
  | false => simp [retry, retryWith, setState, hc, starts]

theorem starts_stop (c : Connector) : starts c.stop.2 = false := by
  simp only [stop]
  split
  · simp [retry, retryWith, setState, removeAndResetChannel, starts]
  · rfl

theorem handle_idle (h : ∀ ch, ¬ (c.state_ = .kConnecting ∧ c.channel_ = some ch)) : ¬ c.Pending := by
  rintro ⟨hst, hch, -⟩
  obtain ⟨ch, hch⟩ := Option.isSome_iff_exists.mp hch
  exact h ch ⟨hst, hch⟩

theorem pending_iff {ch : Channel} (hst : c.state_ = .kConnecting) (hch : c.channel_ = some ch) :
    c.Pending ↔ c.connect_ = true := by
  simp [Pending, hst, hch]

theorem starts_handleError (c : Connector) (errno : Nat) (errnos : List Nat) :
    starts (c.handleError (errno :: errnos)).2 = true ↔ c.Pending := by
  unfold handleError
  split
  · rename_i ch hst hch
    rw [pending_iff hst hch]
    show starts ((c.removeAndResetChannel ch).2.retry _ (errno :: errnos)).2 = true ↔ _
    rw [starts_retry]
    rfl
  · rename_i hn
    exact iff_of_false Bool.noConfusion (handle_idle fun ch h => hn ch h.1 h.2)

theorem starts_handleWrite (c : Connector) (err : Nat) (isSelfConnect : Bool) (errno : Nat) (errnos : List Nat) :
    starts (c.handleWrite err isSelfConnect (errno :: errnos)).2 = true ↔ c.Pending ∧ (err ≠ 0 ∨ isSelfConnect = true) := by
  unfold handleWrite
  split
  · rename_i ch hst hch
    have hretry : starts ((c.removeAndResetChannel ch).2.retry (c.removeAndResetChannel ch).1 (errno :: errnos)).2 = true ↔
        c.connect_ = true := by
      rw [starts_retry]
      rfl
    rw [pending_iff hst hch]
    by_cases herr : err ≠ 0
    · simp only [if_pos herr]
      exact hretry.trans (by simp [herr])
    · cases isSelfConnect with
      | true =>
        simp only [if_neg herr, if_true]
        exact hretry.trans (by simp)
      | false =>
        have hend : starts (.query (c.removeAndResetChannel ch).1 ::
            if (c.removeAndResetChannel ch).2.connect_ then [.newConnection (c.removeAndResetChannel ch).1]
            else [.close (c.removeAndResetChannel ch).1]) = false := by
          split
          · rfl
          · rfl
        simp only [if_neg herr, Bool.false_eq_true, if_false, hend]
        simp [not_not.mp herr]
  · rename_i hn
    exact iff_of_false Bool.noConfusion fun h => handle_idle (fun ch h => hn ch h.1 h.2) h.1

end Connector

namespace ClientConnector

open Connector

variable {s : ClientConnector}

/-- The client starts no attempt after the user's `stop()` or `disconnect()`;
an attempt of the user's own is another matter. -/
def Respected (s : ClientConnector) : Event → Prop
  | .connect .. => True
  | e => s.final = true → starts (s.step e).2 = false

/-- After `stop()` or `disconnect()`, no connection is closed while `retry_` is
set, and no attempt fails that the connector would repeat. -/
def Settled (s : ClientConnector) : Event → Prop
  | .connect .. | .stop | .disconnect => True
  | .handleWrite err isSelfConnect _ _ => s.final = true → s.connector_.Pending → err = 0 ∧ isSelfConnect = false
  | .handleError .. => s.final = true → ¬ s.connector_.Pending
  | .close conn _ _ => s.final = true → conn ∈ s.conns → s.client.retry_ = false

instance (s : ClientConnector) : ∀ e : Event, Decidable (s.Respected e)
  | .connect .. => inferInstanceAs (Decidable True)
  | .stop | .disconnect | .handleWrite .. | .handleError .. | .close .. => inferInstanceAs (Decidable (_ → _))

instance (s : ClientConnector) : ∀ e : Event, Decidable (s.Settled e)
  | .connect .. | .stop | .disconnect => inferInstanceAs (Decidable True)
  | .handleWrite .. => inferInstanceAs (Decidable (_ → _ → _))
  | .handleError .. => inferInstanceAs (Decidable (_ → ¬ _))
  | .close .. => inferInstanceAs (Decidable (_ → _ → _))

theorem acts_connected (s : ClientConnector) (r : Connector × List ConnectorAct) : (s.connected r).2 = r.2 := by
  unfold connected
  split
  · rfl
  · rfl

theorem respected_iff (s : ClientConnector) (e : Event) : s.Respected e ↔ s.Settled e := by
  cases e with
  | connect errno errnos => exact Iff.rfl
  | stop => exact iff_of_true (fun _ => s.connector_.starts_stop) trivial
  | disconnect => exact iff_of_true (fun _ => rfl) trivial
  | handleWrite err isSelfConnect errno errnos =>
    have h := s.connector_.starts_handleWrite err isSelfConnect errno errnos
    simp only [Respected, Settled, step, acts_connected]
    rw [← Bool.not_eq_true, h]
    refine forall_congr' fun _ => ?_
    rw [not_and, not_or, not_not, Bool.not_eq_true]
  | handleError errno errnos =>
    have h := s.connector_.starts_handleError errno errnos
    simp only [Respected, Settled, step, acts_connected]
    rw [← Bool.not_eq_true, h]
  | close conn errno errnos =>
    simp only [Respected, Settled, step, removeConnection]
    refine forall_congr' fun _ => ?_
    by_cases hc : conn ∈ s.conns
    · cases hr : s.client.retry_ with
      | true =>
        have hs := starts_connect { s.connector_.setState .kDisconnected with connect_ := true } errno errnos
        simp [hc, hr, TcpClient.removeConnection, restart, hs]
      | false => simp [hc, hr, TcpClient.removeConnection, starts]
    · simp [hc, starts]

/-- After the user's `stop()` or `disconnect()` a client starts no attempt until
`connect()`, exactly in the runs in which meanwhile no connection is closed
while `retry_` is set, and no attempt fails that the connector would repeat. -/
theorem final_iff (p : EPollPoller) (retry : Bool) (events : List Event) :
    machine.Along Respected (new p retry) events ↔ machine.Along Settled (new p retry) events :=
  Machine.along_iff_of_inv (I := fun _ => True) (fun s e _ => s.respected_iff e) (fun _ _ _ _ => trivial) events _ trivial

-- without `retry_`, the end of the connection changes nothing
example : machine.Along Settled (new .new false)
    [.connect EINPROGRESS [], .handleWrite 0 false 0 [], .stop, .close 1 EINPROGRESS []] := by
  decide +kernel

/-- The user stops a client that retries, and its connection is closed. -/
theorem final_reconnects :
    let events : List Event := [.connect EINPROGRESS [], .handleWrite 0 false 0 [], .stop]
    let s := machine.final (new .new true) events
    s.final = true ∧ (machine.step s (.close 1 EINPROGRESS [])).2 = [.connect 1 EINPROGRESS, .connecting 1 false] ∧
      ¬ machine.Along Respected (new .new true) (events ++ [.close 1 EINPROGRESS []]) := by
  decide +kernel

end ClientConnector

end Ydx
