import YdxNet.Impl.TcpClient
import YdxNet.Proof.Sender

/-!
# What `is_connected()` is worth

The constructor sets the flag of `is_connected()` before there is a
connection, and `connect()` leaves it alone; every other call sets the flag
and `connection_` together, or clears the flag (`step_trusted`). So the flag
can be trusted from the first such call on, and only from there
(`trusted_iff`). The drain loop of the sender uses a null pointer exactly when
it gets to its test with a message while the client is as it was constructed
(`drain_safe_iff`).
-/

namespace Ydx

namespace TcpClient

/-- When `is_connected()` is true, there is a connection. -/
def Trusted (c : TcpClient) : Prop := c.isConnected = true → c.connection_ ≠ none

instance (c : TcpClient) : Decidable c.Trusted := inferInstanceAs (Decidable (_ → _))

/-- A client as it is constructed, with `enableRetry()` or without. -/
def constructed (retry : Bool) : TcpClient := { new with retry_ := retry }

theorem step_trusted (c : TcpClient) (op : Op) (hop : op ≠ .connect) : (c.step op).Trusted := by
  cases op with
  | connect => exact absurd rfl hop
  | newConnection => exact fun _ => Option.some_ne_none _
  | disconnect | stop | removeConnection => exact fun h => absurd h Bool.noConfusion

theorem Trusted.step {c : TcpClient} (h : c.Trusted) (op : Op) : (c.step op).Trusted := by
  by_cases hop : op = .connect
  · subst hop
    exact h
  · exact c.step_trusted op hop

theorem Trusted.final {c : TcpClient} (h : c.Trusted) (ops : List Op) : (machine.final c ops).Trusted :=
  Machine.always (M := machine) (I := Trusted) (fun _ op h => h.step op) ops c h

/-- The flag can be trusted after exactly those calls among which is one that is
not `connect()`. -/
theorem trusted_final_iff {c : TcpClient} (hc : ¬ c.Trusted) (ops : List Op) :
    (machine.final c ops).Trusted ↔ ∃ op ∈ ops, op ≠ .connect := by
  induction ops with
  | nil => simp [Machine.final, hc]
  | cons op ops ih =>
    by_cases hop : op = .connect
    · subst hop
      show (machine.final c ops).Trusted ↔ _
      rw [ih]
      simp
    · have ht : (machine.final (c.step op) ops).Trusted := (c.step_trusted op hop).final ops
      exact iff_of_true ht ⟨op, List.mem_cons_self, hop⟩

end TcpClient

namespace Sender

open TcpClient

variable {s : Sender} {cap : Nat}

/-- The drain thread has used no null pointer, and where it is about to use the
connection there is one. -/
structure Safe (s : Sender) : Prop where
  alive : s.drain ≠ .crashed
  connected : ∀ m, s.drain = .sendLen m ∨ s.drain = .sendBuf m → s.client_.connection_ ≠ none

/-- The drain thread gets to its test with a message only once a connection was
made or lost. -/
def Met (s : Sender) : Action → Prop
  | .check => inHand s.drain ≠ [] → s.client_ ≠ constructed true
  | _ => True

instance (s : Sender) : ∀ a : Action, Decidable (s.Met a)
  | .check => inferInstanceAs (Decidable (_ → _))
  | .write .. | .count _ | .ret _ | .newConnection | .removeConnection | .polled | .test | .wakeup | .read | .sendLen
  | .sendBuf | .decrement => inferInstanceAs (Decidable True)

/-- The client is as it was constructed, or its flag can be trusted. -/
structure Guarded (s : Sender) : Prop where
  safe : Safe s
  client : s.client_ = constructed true ∨ s.client_.Trusted

theorem start_guarded : Guarded start where
  safe := ⟨DrainPc.noConfusion, by simp [start]⟩
  client := .inl rfl

/-- The drain thread does not use the connection next. -/
def harmless : DrainPc → Bool
  | .crashed | .sendLen _ | .sendBuf _ => false
  | _ => true

theorem safe_of_harmless (h : harmless s.drain = true) : Safe s := by
  refine ⟨fun hd => ?_, fun m hd => ?_⟩
  · rw [hd] at h
    exact absurd h Bool.noConfusion
  · rcases hd with hd | hd
    · rw [hd] at h
      exact absurd h Bool.noConfusion
    · rw [hd] at h
      exact absurd h Bool.noConfusion

/-- A step that leaves the client alone, and the drain thread where it is or
where it does not use the connection. -/
theorem Guarded.move {s' : Sender} (h : Guarded s) (hc : s'.client_ = s.client_)
    (hd : s'.drain = s.drain ∨ harmless s'.drain = true) : Guarded s' := by
  refine ⟨?_, by rw [hc]; exact h.client⟩
  rcases hd with hd | hd
  · exact ⟨by rw [hd]; exact h.safe.alive, by rw [hd, hc]; exact h.safe.connected⟩
  · exact safe_of_harmless hd

theorem notify_cases (pc : DrainPc) : notify pc = pc ∨ harmless (notify pc) = true := by
  cases pc with
  | wait b => exact .inr rfl
  | poll | test | read | check _ | sendLen _ | sendBuf _ | decrement | crashed => exact .inl rfl

theorem Guarded.callSend (h : Guarded s) {m : Numbered} {data : List Byte} {next : DrainPc}
    (hd : s.drain = .sendLen m ∨ s.drain = .sendBuf m) (hn : next ≠ .crashed) : Guarded (s.callSend m data next) := by
  have hcon := h.safe.connected m hd
  unfold Sender.callSend
  split
  · rename_i hnone
    exact absurd hnone hcon
  · exact ⟨⟨hn, fun _ _ => hcon⟩, h.client⟩

/-- The test of the drain loop. -/
theorem Guarded.check_iff (h : Guarded s) :
    (Safe (s.step cap .check) ↔ s.Met .check) ∧ (s.Met .check → Guarded (s.step cap .check)) := by
  cases hd : s.drain with
  | check m =>
    cases m with
    | none =>
      have hg : Guarded (s.step cap .check) := h.move (by simp [step, hd]) (.inr (by simp [step, hd, harmless]))
      exact ⟨iff_of_true hg.safe fun hne => absurd (by rw [hd]; rfl) hne, fun _ => hg⟩
    | some m =>
      cases hc : s.client_.isConnected with
      | false =>
        have hg : Guarded (s.step cap .check) :=
          h.move (by simp [step, hd]) (.inr (by simp [step, hd, hc, harmless]))
        refine ⟨iff_of_true hg.safe fun _ he => ?_, fun _ => hg⟩
        rw [he] at hc
        exact absurd hc Bool.noConfusion
      | true =>
        have hstep : s.step cap .check = { s with drain := .sendLen m } := by simp [step, hd, hc]
        have hmet : s.Met .check → s.client_.connection_ ≠ none := fun hm =>
          h.client.resolve_left (hm (by rw [hd]; exact List.cons_ne_nil _ _)) hc
        rw [hstep]
        refine ⟨⟨fun hs _ he => ?_, fun hm => ?_⟩, fun hm => ?_⟩
        · exact absurd (by rw [he]; rfl) (hs.connected m (.inl rfl))
        · exact ⟨DrainPc.noConfusion, fun _ _ => hmet hm⟩
        · exact ⟨⟨DrainPc.noConfusion, fun _ _ => hmet hm⟩, h.client⟩
  | sendLen m | sendBuf m =>
    have hg : Guarded (s.step cap .check) := h.move (by simp [step, hd]) (.inl (by simp [step, hd]))
    refine ⟨iff_of_true hg.safe fun _ he => ?_, fun _ => hg⟩
    exact absurd (by rw [he]; rfl) (h.safe.connected m (by simp [hd]))
  | poll | test | wait _ | read | decrement | crashed =>
    have hg : Guarded (s.step cap .check) := h.move (by simp [step, hd]) (.inl (by simp [step, hd]))
    exact ⟨iff_of_true hg.safe fun hne => absurd (by rw [hd]; rfl) hne, fun _ => hg⟩

theorem Guarded.step (h : Guarded s) {a : Action} (ha : a ≠ .check) : Guarded (s.step cap a) := by
  cases a with
  | check => exact absurd rfl ha
  | write i buf =>
    simp only [Sender.step]
    split
    · exact h.move rfl (.inl rfl)
    · exact h
  | count i =>
    simp only [Sender.step]
    split
    · refine h.move rfl ?_
      dsimp only
      split
      · exact notify_cases _
      · exact .inl rfl
    · exact h.move rfl (.inl rfl)
    · exact h
  | ret i =>
    simp only [Sender.step]
    split
    · exact h.move rfl (.inl rfl)
    · exact h
  | newConnection =>
    simp only [Sender.step]
    split
    · rename_i hd
      exact ⟨safe_of_harmless (by rw [hd]; rfl), .inr (s.client_.step_trusted .newConnection Op.noConfusion)⟩
    · exact h
  | removeConnection =>
    simp only [Sender.step]
    split
    · rename_i hd
      exact ⟨safe_of_harmless (by rw [hd]; rfl), .inr (s.client_.step_trusted .removeConnection Op.noConfusion)⟩
    · exact h
  | polled | wakeup | decrement =>
    simp only [Sender.step]
    split
    · exact h.move rfl (.inr rfl)
    · exact h
  | test =>
    simp only [Sender.step]
    split
    · refine h.move rfl (.inr ?_)
      dsimp only
      split
      · rfl
      · rfl
    · exact h
  | read =>
    simp only [Sender.step]
    split
    · split
      · exact h.move rfl (.inr rfl)
      · exact h.move rfl (.inr rfl)
    · exact h
  | sendLen =>
    simp only [Sender.step]
    split
    · rename_i m hd
      exact h.callSend (.inl hd) DrainPc.noConfusion
    · exact h
  | sendBuf =>
    simp only [Sender.step]
    split
    · rename_i m hd
      exact h.callSend (.inr hd) DrainPc.noConfusion
    · exact h

theorem Guarded.step_iff (h : Guarded s) (a : Action) :
    (Safe (s.step cap a) ↔ s.Met a) ∧ (s.Met a → Guarded (s.step cap a)) := by
  by_cases ha : a = .check
  · subst ha
    exact h.check_iff
  · have hg : Guarded (s.step cap a) := h.step ha
    have hm : s.Met a := by
      cases a with
      | check => exact absurd rfl ha
      | _ => trivial
    exact ⟨iff_of_true hg.safe hm, fun _ => hg⟩

theorem drain_safe_iff (cap : Nat) (actions : List Action) :
    (machine cap).Along (fun s a => Safe (s.step cap a)) start actions ↔ (machine cap).Along Met start actions :=
  Machine.along_iff_of_inv (I := Guarded) (fun _ a h => (h.step_iff a).1) (fun _ a h => (h.step_iff a).2) actions start
    start_guarded

/-- `is_connected()` can be trusted after exactly those calls among which is one
that is not `connect()`; and the drain loop of the sender uses no null pointer
in exactly those runs in which it gets to its test with a message only once a
connection was made or lost. -/
theorem isConnected_iff (retry : Bool) (ops : List Op) (cap : Nat) (actions : List Action) :
    ((TcpClient.machine.final (constructed retry) ops).Trusted ↔ ∃ op ∈ ops, op ≠ .connect) ∧
      ((machine cap).Along (fun s a => Safe (s.step cap a)) start actions ↔ (machine cap).Along Met start actions) :=
  ⟨trusted_final_iff (fun h => absurd rfl (h rfl)) ops, drain_safe_iff cap actions⟩

example : (machine 64).Along Met start
    [.newConnection, .polled, .write 0 [7], .count 0, .ret 0, .test, .read, .check, .sendLen, .sendBuf, .decrement] := by
  decide +kernel

/-- Before the first connection `is_connected()` is true, and the drain thread
uses a null pointer for the first message. -/
theorem isConnected_null :
    ¬ (TcpClient.machine.final (constructed true) [.connect]).Trusted ∧
      ((machine 64).final start [.write 0 [7], .count 0, .ret 0, .polled, .test, .read, .check, .sendLen]).drain =
        .crashed := by
  decide +kernel

end Sender

end Ydx
