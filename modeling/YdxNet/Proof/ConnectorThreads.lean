import YdxNet.Impl.ConnectorThreads

/-!
# A `stop` that is lost

Alone, the loop thread does in its steps what the operations of the connector
do at once (`connect_steps`). Between them, `stop` is obeyed exactly when it
finds the loop thread outside the connector, or in `retry` before the test of
`connect_` (`stop_obeyed_iff`): after the test, and after the `connect_ = true`
of `start`, nobody looks at `connect_` again before the next `connect`.
-/

namespace Ydx.ConnectorThreads

variable {s : ConnectorThreads}

/-! ## The steps and the operations -/

/-- The steps of `connect` with these results, if nothing comes between them. -/
def alone (errnos : List Nat) : List Action := errnos.flatMap fun e => [.connect e, .test, .wake, .again]

theorem alone_idle (c : Connector) (errnos : List Nat) :
    machine.final ⟨c, .idle⟩ (alone errnos) = ⟨c, .idle⟩ ∧ (machine.outputs ⟨c, .idle⟩ (alone errnos)).flatten = [] := by
  induction errnos with
  | nil => exact ⟨rfl, rfl⟩
  | cons e errnos ih => exact ih

/-- The loop thread's steps are the operation of the connector. -/
theorem connect_steps (errnos : List Nat) (c : Connector) :
    (machine.final ⟨c, .connect⟩ (alone errnos)).connector = (c.connect errnos).1 ∧
      (machine.outputs ⟨c, .connect⟩ (alone errnos)).flatten = (c.connect errnos).2 := by
  induction errnos generalizing c with
  | nil => exact ⟨rfl, rfl⟩
  | cons e errnos ih =>
    -- what is left after `connect`, its test, its sleep and its call of `start`
    let next := ((((connect c e).1.step .test).1.step .wake).1.step .again)
    have hfinal : machine.final ⟨c, .connect⟩ (alone (e :: errnos)) = machine.final next.1 (alone errnos) := rfl
    have houtputs : (machine.outputs ⟨c, .connect⟩ (alone (e :: errnos))).flatten =
        (connect c e).2 ++ (((connect c e).1.step .test).2 ++ ((((connect c e).1.step .test).1.step .wake).2 ++
          (next.2 ++ (machine.outputs next.1 (alone errnos)).flatten))) := rfl
    rw [hfinal, houtputs]
    cases hcase : ConnectCase.ofErrno e with
    | connecting =>
      obtain ⟨hf, ho⟩ := alone_idle ({ c with sockets := c.sockets + 1 }.connecting c.sockets).1 errnos
      simp [next, connect, Connector.connect, step, hcase, hf, ho]
    | close =>
      obtain ⟨hf, ho⟩ := alone_idle { c with sockets := c.sockets + 1 } errnos
      simp [next, connect, Connector.connect, step, hcase, hf, ho]
    | retry =>
      cases hc : c.connect_ with
      | true =>
        obtain ⟨hf, ho⟩ := ih { c with sockets := c.sockets + 1, state_ := .kDisconnected, connect_ := true }
        simp [next, connect, Connector.connect, Connector.retryWith, Connector.setState, retry, step, hcase, hc, hf, ho]
      | false =>
        obtain ⟨hf, ho⟩ := alone_idle { c with sockets := c.sockets + 1, state_ := .kDisconnected } errnos
        simp only [hc] at hf ho
        simp [next, connect, Connector.connect, Connector.retryWith, Connector.setState, retry, step, hcase, hc, hf, ho]

/-! ## `stop` -/

/-- The user starts an attempt. -/
def Action.byUser : Action → Bool
  | .start | .restart => true
  | _ => false

/-- An attempt, or its success. -/
def attempts : ConnectorAct → Bool
  | .connect .. | .newConnection _ => true
  | _ => false

/-- Whatever happens until the user starts the connector again, `connect_` stays
false, no `connect` is issued and the callback is not called. -/
def Obeyed (s : ConnectorThreads) : Prop :=
  ∀ after : List Action, (∀ a ∈ after, a.byUser = false) →
    (machine.final s after).connector.connect_ = false ∧ ∀ acts ∈ machine.outputs s after, ∀ act ∈ acts, attempts act = false

/-- The loop thread is not on its way to a `connect`. -/
def Resting (s : ConnectorThreads) : Prop := s.loop = .idle ∨ s.loop = .test

/-- What stays true after a `stop` that is obeyed. -/
structure Stopped (s : ConnectorThreads) : Prop where
  off : s.connector.connect_ = false
  resting : s.Resting

theorem stop_off (c : Connector) : c.stop.1.connect_ = false := by
  simp only [Connector.stop]
  split
  · rfl
  · rfl

theorem stop_acts (c : Connector) : ∀ act ∈ c.stop.2, attempts act = false := by
  simp only [Connector.stop]
  split
  · simp [Connector.retry, Connector.retryWith, Connector.removeAndResetChannel, Connector.setState, attempts]
  · simp

theorem stopped_retry {c : Connector} (hc : c.connect_ = false) (sockfd : Fd) :
    Stopped (retry c sockfd).1 ∧ ∀ act ∈ (retry c sockfd).2, attempts act = false := by
  refine ⟨⟨hc, .inr rfl⟩, ?_⟩
  simp [retry, attempts]

theorem stopped_handleWrite {c : Connector} (hc : c.connect_ = false) (err : Nat) (isSelfConnect : Bool) :
    Stopped (handleWrite c err isSelfConnect).1 ∧ ∀ act ∈ (handleWrite c err isSelfConnect).2, attempts act = false := by
  unfold handleWrite
  split
  · rename_i ch hst hch
    have hr : (c.removeAndResetChannel ch).2.connect_ = false := hc
    obtain ⟨hs, ha⟩ := stopped_retry hr (c.removeAndResetChannel ch).1
    simp only [List.forall_mem_cons]
    split
    · exact ⟨hs, rfl, ha⟩
    · split
      · exact ⟨hs, rfl, ha⟩
      · refine ⟨⟨hr, .inl rfl⟩, rfl, ?_⟩
        simp [hr, attempts]
  · exact ⟨⟨hc, .inl rfl⟩, by simp⟩

theorem stopped_handleError {c : Connector} (hc : c.connect_ = false) :
    Stopped (handleError c).1 ∧ ∀ act ∈ (handleError c).2, attempts act = false := by
  unfold handleError
  split
  · rename_i ch hst hch
    have hr : (c.removeAndResetChannel ch).2.connect_ = false := hc
    obtain ⟨hs, ha⟩ := stopped_retry hr (c.removeAndResetChannel ch).1
    exact ⟨hs, List.forall_mem_cons.mpr ⟨rfl, ha⟩⟩
  · exact ⟨⟨hc, .inl rfl⟩, by simp⟩

/-- No step but the user's `start` or `restart` ends the rest. -/
theorem Stopped.step (h : Stopped s) {a : Action} (ha : a.byUser = false) :
    Stopped (s.step a).1 ∧ ∀ act ∈ (s.step a).2, attempts act = false := by
  have hs : Stopped s ∧ ∀ act ∈ ([] : List ConnectorAct), attempts act = false := ⟨h, by simp⟩
  obtain ⟨c, loop⟩ := s
  have hc : c.connect_ = false := h.off
  have hr : loop = .idle ∨ loop = .test := h.resting
  cases a with
  | start | restart => exact absurd ha Bool.noConfusion
  | connect e | wake | again =>
    rcases hr with rfl | rfl
    · exact hs
    · exact hs
  | test =>
    rcases hr with rfl | rfl
    · exact hs
    · refine ⟨⟨hc, .inl ?_⟩, by simp [ConnectorThreads.step]⟩
      simp [ConnectorThreads.step, hc]
  | handleWrite err isSelfConnect =>
    rcases hr with rfl | rfl
    · exact stopped_handleWrite hc err isSelfConnect
    · exact hs
  | handleError =>
    rcases hr with rfl | rfl
    · exact stopped_handleError hc
    · exact hs
  | stop => exact ⟨⟨stop_off _, hr⟩, stop_acts _⟩

theorem Stopped.obeyed (h : Stopped s) : Obeyed s := by
  intro after
  induction after generalizing s with
  | nil => exact fun _ => ⟨h.off, by simp [Machine.outputs]⟩
  | cons a after ih =>
    intro hu
    obtain ⟨ha, hafter⟩ := List.forall_mem_cons.mp hu
    obtain ⟨hs, hacts⟩ := h.step ha
    obtain ⟨hoff, hrest⟩ := ih hs hafter
    exact ⟨hoff, List.forall_mem_cons.mpr ⟨hacts, hrest⟩⟩

/-- On its way to a `connect`, the loop thread issues it or sets `connect_`. -/
theorem not_obeyed (h : ¬ s.Resting) : ¬ Obeyed s := by
  obtain ⟨c, loop⟩ := s
  intro ho
  cases loop with
  | idle => exact h (.inl rfl)
  | test => exact h (.inr rfl)
  | connect =>
    obtain ⟨-, hacts⟩ := ho [.connect 0] (by simp [Action.byUser])
    have hmem : ConnectorAct.connect c.sockets 0 ∈ (connect c 0).2 := List.mem_cons_self
    exact absurd (hacts _ List.mem_cons_self _ hmem) Bool.noConfusion
  | sleep =>
    obtain ⟨hoff, -⟩ := ho [.wake, .again] (by simp [Action.byUser])
    exact absurd hoff Bool.noConfusion
  | again =>
    obtain ⟨hoff, -⟩ := ho [.again] (by simp [Action.byUser])
    exact absurd hoff Bool.noConfusion

/-- In every run, a `stop` is obeyed exactly when it finds the loop thread
outside the connector, or in `retry` before its test of `connect_`. -/
theorem stop_obeyed_iff (p : EPollPoller) (before : List Action) :
    let s := machine.final (new p) before
    Obeyed (machine.step s .stop).1 ↔ s.loop = .idle ∨ s.loop = .test := by
  intro s
  constructor
  · intro ho
    by_contra hr
    exact not_obeyed (s := (machine.step s .stop).1) hr ho
  · exact fun hr => Stopped.obeyed ⟨stop_off _, hr⟩

/-- A `stop` during the `sleep` of `retry`. -/
theorem stop_obeyed_lost :
    let s := machine.final (new .new) [.start, .connect ECONNREFUSED, .test, .stop]
    s.connector.connect_ = false ∧ s.loop = .sleep ∧
      (machine.final s [.wake, .again]).connector.connect_ = true ∧
      machine.outputs s [.wake, .again, .connect EINPROGRESS, .handleWrite 0 false] =
        [[], [], [.connect 1 EINPROGRESS, .connecting 1 false], [.query 1, .newConnection 1]] ∧ ¬ Obeyed s := by
  intro s
  have hloop : s.loop = .sleep := by decide +kernel
  have hrest : ¬ s.Resting := by
    rw [Resting, hloop]
    decide
  exact ⟨by decide +kernel, hloop, by decide +kernel, by decide +kernel, not_obeyed hrest⟩

end Ydx.ConnectorThreads
