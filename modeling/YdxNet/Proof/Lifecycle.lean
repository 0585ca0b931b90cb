import YdxNet.Proof.LoopConnections
import YdxNet.Proof.Registration

/-!
# The stages of a server's connections

A connection passes through five stages: created, up, closed, removed from
`connections_`, destroyed. Functors move it on, some of them on other loops. At
any time at most one of them is queued for a connection; which one it is, where
the connection is registered and whether it is listed all follow from its
stage (`At`). `Inv` says this of all connections, and that no two get in each
other's way.

A functor that a thread has in hand, taken out of a queue or not yet put into
one, counts as queued. Then every function of the server is a few moves that
keep `Inv`: moves of a loop (`Inv.setLoop`, `Inv.queueInLoop`), and moves of a
connection to a stage (`Inv.store`) or within one (`Inv.inert`).
-/

namespace Ydx

/-- Not a mere call on the socket. -/
def Note.isLifecycle : Note → Bool
  | .act (.write ..) | .act .shutdownWrite => false
  | _ => true

/-- `removeConnectionInLoop` ran. -/
def Note.isRemoval : Note → Bool
  | .removeConnectionInLoop _ => true
  | _ => false

/-- The connection a functor is about. -/
def Functor.conn : Functor → Nat
  | .connectEstablished c | .connectDestroyed c | .removeConnectionInLoop c | .shutdownInLoop c => c

/-- A functor that moves a connection on. -/
def Functor.isLifecycle : Functor → Bool
  | .shutdownInLoop _ => false
  | _ => true

/-- The stages of a connection. -/
inductive Stage
  | created
  | up
  | closed
  | removed
  | destroyed
  deriving DecidableEq, Repr

namespace Stage

/-- A connection comes up, and gets `k` messages. -/
def opening (k : Nat) : List Note :=
  [.connectEstablished, .act (.connectionCallback .kConnected)] ++ List.replicate k (.act .messageCallback)

/-- A connection is closed. -/
def closing : List Note := [.act .handleClose, .act (.connectionCallback .kDisconnected), .act .closeCallback]

/-- What has happened to connection `c` up to a stage, with `k` messages. -/
def notes (c k : Nat) : Stage → List Note
  | .created => []
  | .up => opening k
  | .closed => opening k ++ closing
  | .removed => opening k ++ closing ++ [.removeConnectionInLoop (some c)]
  | .destroyed => opening k ++ closing ++ [.removeConnectionInLoop (some c)] ++ [.connectDestroyed]

/-- The stage that a history shows. -/
def ofNotes (history : List Note) : Stage :=
  if .connectDestroyed ∈ history then .destroyed
  else if history.any Note.isRemoval then .removed
  else if .act .handleClose ∈ history then .closed
  else if .connectEstablished ∈ history then .up
  else .created

/-- The functor of connection `c` that is queued, and the loop it is queued in. -/
def owes (c ioLoop : Nat) : Stage → Option (Nat × Functor)
  | .created => some (ioLoop, .connectEstablished c)
  | .closed => some (0, .removeConnectionInLoop c)
  | .removed => some (ioLoop, .connectDestroyed c)
  | .up | .destroyed => none

/-- The connection has an entry in `connections_`. -/
def listed : Stage → Bool
  | .created | .up | .closed => true
  | .removed | .destroyed => false

/-- The states of a stage. -/
def Allows : Stage → StateE → Prop
  | .created, s => s = .kConnecting
  | .up, s => s = .kConnected ∨ s = .kDisconnecting
  | .closed, s | .removed, s | .destroyed, s => s = .kDisconnected

/-- The channel at a stage. -/
def Channeled : Stage → Channel → Prop
  | .created, ch => ch.index_ = .kNew ∧ ch.events_ = .kNoneEvent
  | .up, ch => ch.index_ = .kAdded ∧ ch.events_.epollin = true
  | .closed, ch | .removed, ch | .destroyed, ch => ch.index_ ≠ .kAdded ∧ ch.events_ = .kNoneEvent

theorem ofNotes_notes (c k : Nat) (st : Stage) : ofNotes (st.notes c k) = st := by
  cases st <;> simp [ofNotes, notes, opening, closing, Note.isRemoval]

theorem notes_prefix (c k : Nat) (st : Stage) : st.notes c k <+: destroyed.notes c k := by
  have h₁ : up.notes c k <+: closed.notes c k := List.prefix_append ..
  have h₂ : closed.notes c k <+: removed.notes c k := List.prefix_append ..
  have h₃ : removed.notes c k <+: destroyed.notes c k := List.prefix_append ..
  cases st with
  | created => exact List.nil_prefix
  | up => exact h₁.trans (h₂.trans h₃)
  | closed => exact h₂.trans h₃
  | removed => exact h₃
  | destroyed => exact List.prefix_refl _

/-- The functor that is queued tells the stage. -/
theorem eq_of_owes {st : Stage} {c ioLoop l : Nat} {f : Functor} (h : st.owes c ioLoop = some (l, f)) :
    st = match f with
      | .connectEstablished _ => .created
      | .removeConnectionInLoop _ => .closed
      | _ => .removed := by
  cases st with
  | created | closed | removed =>
    obtain ⟨-, rfl⟩ := Prod.mk.inj (Option.some.inj h)
    rfl
  | up | destroyed => exact absurd h (Option.some_ne_none _).symm

theorem events_of_not_up {st : Stage} {ch : Channel} (h : st.Channeled ch) (hs : st ≠ .up) :
    ch.events_ = .kNoneEvent := by
  cases st with
  | up => exact absurd rfl hs
  | created | closed | removed | destroyed => exact h.2

end Stage

namespace ServerConn

/-- What happened to a connection, without the mere calls on its socket. -/
def lifecycle (C : ServerConn) : List Note := C.history.filter Note.isLifecycle

/-- The stage of a connection. -/
def stage (C : ServerConn) : Stage := .ofNotes C.lifecycle

theorem stage_eq {C : ServerConn} {c k : Nat} {st : Stage} (h : C.lifecycle = st.notes c k) : C.stage = st := by
  rw [stage, h, Stage.ofNotes_notes]

end ServerConn

namespace EventLoop

/-- The functors of a loop that have not run, in their order. -/
def queue (e : EventLoop Functor) : List Functor :=
  (match e.phase with
    | .calling functors => functors
    | _ => []) ++ e.pendingFunctors_

end EventLoop

/-- The connection of an active channel. -/
def Active.conn : Active → Option Nat
  | .connection c _ => some c
  | _ => none

namespace Phase

/-- The connections whose `readCallback_` may still come in this round. -/
def reading {φ : Type} : Phase φ → List Nat
  | .handling callbacks active =>
    (callbacks.filterMap fun x => if x.2 = .readCallback_ then some x.1 else none) ++ active.filterMap Active.conn
  | _ => []

/-- No `closeCallback_` will be called in this round. -/
def Quiet {φ : Type} : Phase φ → Prop
  | .handling callbacks active =>
    (∀ x ∈ callbacks, x.2 ≠ .closeCallback_) ∧
      ∀ c revents, .connection c revents ∈ active → revents.epollhup = true → revents.epollin = true
  | _ => True

end Phase

namespace TcpServer

/-- The kernel has descriptor `fd` of the loop `l` registered with the events `e`
for connection `c`. -/
def Registered (s : TcpServer) (l : Nat) (fd : Fd) (e : Events) (c : Nat) : Prop :=
  (s.loops l).poller.interest fd = some (e, c)

/-- How often a functor is queued in a loop, or in hand for it. -/
def owed (s : TcpServer) (hand : List (Nat × Functor)) (l : Nat) (f : Functor) : Nat :=
  hand.count (l, f) + (s.loops l).queue.count f

/-- What holds of connection `c` at a stage. -/
structure At (s : TcpServer) (hand : List (Nat × Functor)) (c : Nat) (C : ServerConn) (st : Stage) : Prop where
  notes : ∃ k, C.lifecycle = st.notes c k
  state : st.Allows C.conn.state_
  this : C.conn.channel_.this = c
  channel : st.Channeled C.conn.channel_
  registered : ∀ l fd e, s.Registered l fd e c ↔
    st = .up ∧ l = C.epoller_ ∧ fd = C.conn.channel_.fd_ ∧ e = C.conn.channel_.events_
  owed : ∀ l f, f.conn = c → f.isLifecycle → s.owed hand l f = if st.owes c C.epoller_ = some (l, f) then 1 else 0
  entry : s.connections_ C.name_ = if st.listed then some c else none

/-- All connections are in order, and no two get in each other's way. -/
structure Inv (s : TcpServer) (hand : List (Nat × Functor)) : Prop where
  conn : ∀ c C, s.conns[c]? = some C → s.At hand c C C.stage
  registered : ∀ l fd e c, s.Registered l fd e c → c < s.conns.length
  owed : ∀ l f, 0 < s.owed hand l f → f.conn < s.conns.length
  listed : ∀ n c, s.connections_ n = some c → ∃ C, s.conns[c]? = some C ∧ C.name_ = n
  names : ∀ (c c' : Nat) (C C' : ServerConn), s.conns[c]? = some C → s.conns[c']? = some C' → C.name_ = C'.name_ → c = c'
  fds : ∀ (c c' : Nat) (C C' : ServerConn), s.conns[c]? = some C → s.conns[c']? = some C' →
    C.stage ≠ .destroyed → C'.stage ≠ .destroyed → C.conn.channel_.fd_ = C'.conn.channel_.fd_ → c = c'
  quiet : ∀ l, (s.loops l).phase.Quiet
  nodup : ∀ l, (s.loops l).phase.reading.Nodup
  reading : ∀ l, ∀ c ∈ (s.loops l).phase.reading, ∃ C, s.conns[c]? = some C ∧ C.epoller_ = l ∧ C.stage = .up

variable {s s' : TcpServer} {hand hand' : List (Nat × Functor)} {c : Nat} {C C' : ServerConn} {st : Stage}

/-- What a connection is concerned with is left alone. -/
theorem At.frame (h : s.At hand c C st) (hr : ∀ l fd e, s'.Registered l fd e c ↔ s.Registered l fd e c)
    (ho : ∀ l f, f.conn = c → s'.owed hand' l f = s.owed hand l f)
    (he : s'.connections_ C.name_ = s.connections_ C.name_) : s'.At hand' c C st where
  notes := h.notes
  state := h.state
  this := h.this
  channel := h.channel
  registered l fd e := (hr l fd e).trans (h.registered l fd e)
  owed l f hf hl := (ho l f hf).trans (h.owed l f hf hl)
  entry := he.trans h.entry

/-- One connection moves on, and the others are left alone. -/
theorem Inv.update (h : s.Inv hand) (hc : s.conns[c]? = some C) (hconns : s'.conns = s.conns.set c C')
    (hname : C'.name_ = C.name_) (hloop : C'.epoller_ = C.epoller_)
    (hfd : C'.conn.channel_.fd_ = C.conn.channel_.fd_) (hat : s'.At hand' c C' C'.stage)
    (hreg : ∀ l fd e c', c' ≠ c → (s'.Registered l fd e c' ↔ s.Registered l fd e c'))
    (howed : ∀ l f, f.conn ≠ c → s'.owed hand' l f = s.owed hand l f)
    (hmap : ∀ n, n ≠ C.name_ → s'.connections_ n = s.connections_ n)
    (hdest : C.stage = .destroyed → C'.stage = .destroyed)
    (hphase : ∀ l, (s'.loops l).phase = (s.loops l).phase)
    (hup : ∀ l, c ∈ (s.loops l).phase.reading → C'.stage = .up) : s'.Inv hand' := by
  have hlt : c < s.conns.length := (List.getElem?_eq_some_iff.mp hc).1
  have hself : s'.conns[c]? = some C' := by rw [hconns, List.getElem?_set_self hlt]
  have hother : ∀ c', c' ≠ c → s'.conns[c']? = s.conns[c']? := by
    intro c' hne
    rw [hconns, List.getElem?_set_ne hne.symm]
  have hlen : s'.conns.length = s.conns.length := by rw [hconns, List.length_set]
  -- each connection of `s'` was one of `s`, with the same name, loop and descriptor
  have hold : ∀ (c' : Nat) (D : ServerConn), s'.conns[c']? = some D → ∃ D₀, s.conns[c']? = some D₀ ∧ D.name_ = D₀.name_ ∧
      D.conn.channel_.fd_ = D₀.conn.channel_.fd_ ∧ (D₀.stage = .destroyed → D.stage = .destroyed) := by
    intro c' D hD
    by_cases hne : c' = c
    · subst hne
      rw [hself, Option.some.injEq] at hD
      subst hD
      exact ⟨C, hc, hname, hfd, hdest⟩
    · rw [hother c' hne] at hD
      exact ⟨D, hD, rfl, rfl, id⟩
  refine ⟨?_, ?_, ?_, ?_, ?_, ?_, ?_, ?_, ?_⟩
  · intro c' D hD
    by_cases hne : c' = c
    · subst hne
      rw [hself, Option.some.injEq] at hD
      subst hD
      exact hat
    · rw [hother c' hne] at hD
      have hn : D.name_ ≠ C.name_ := fun heq => hne (h.names c' c D C hD hc heq)
      exact (h.conn c' D hD).frame (fun l fd e => hreg l fd e c' hne)
        (fun l f hf => howed l f (by rw [hf]; exact hne)) (hmap _ hn)
  · intro l fd e c' hr
    rw [hlen]
    by_cases hne : c' = c
    · rw [hne]; exact hlt
    · exact h.registered l fd e c' ((hreg l fd e c' hne).mp hr)
  · intro l f hf
    rw [hlen]
    by_cases hne : f.conn = c
    · rw [hne]; exact hlt
    · exact h.owed l f (by rw [← howed l f hne]; exact hf)
  · intro n c' hn
    by_cases hne : n = C.name_
    · rw [hne, ← hname, hat.entry] at hn
      split at hn
      · rw [Option.some.injEq] at hn
        subst hn
        exact ⟨C', hself, hname.trans hne.symm⟩
      · exact absurd hn (Option.some_ne_none _).symm
    · rw [hmap n hne] at hn
      obtain ⟨D, hD, hDn⟩ := h.listed n c' hn
      have hcc : c' ≠ c := by
        intro heq
        subst heq
        rw [hc, Option.some.injEq] at hD
        subst hD
        exact hne hDn.symm
      exact ⟨D, by rw [hother c' hcc]; exact hD, hDn⟩
  · intro c₁ c₂ D₁ D₂ h₁ h₂ hn
    obtain ⟨E₁, hE₁, hn₁, -, -⟩ := hold c₁ D₁ h₁
    obtain ⟨E₂, hE₂, hn₂, -, -⟩ := hold c₂ D₂ h₂
    exact h.names c₁ c₂ E₁ E₂ hE₁ hE₂ (hn₁.symm.trans (hn.trans hn₂))
  · intro c₁ c₂ D₁ D₂ h₁ h₂ hd₁ hd₂ hf
    obtain ⟨E₁, hE₁, -, hf₁, hs₁⟩ := hold c₁ D₁ h₁
    obtain ⟨E₂, hE₂, -, hf₂, hs₂⟩ := hold c₂ D₂ h₂
    exact h.fds c₁ c₂ E₁ E₂ hE₁ hE₂ (mt hs₁ hd₁) (mt hs₂ hd₂) (hf₁.symm.trans (hf.trans hf₂))
  · intro l
    rw [hphase]
    exact h.quiet l
  · intro l
    rw [hphase]
    exact h.nodup l
  · intro l c' hm
    rw [hphase] at hm
    obtain ⟨D, hD, hl, hs⟩ := h.reading l c' hm
    by_cases hne : c' = c
    · subst hne
      rw [hc, Option.some.injEq] at hD
      subst hD
      exact ⟨C', hself, hloop.trans hl, hup l hm⟩
    · exact ⟨D, by rw [hother c' hne]; exact hD, hl, hs⟩

/-! ## Moves of the loops -/

variable {l caller : Nat} {e : EventLoop Functor} {f : Functor}

/-- A loop moves on, and no functor and no registration is touched. -/
theorem Inv.setLoop (h : s.Inv hand) (hp : e.poller = (s.loops l).poller)
    (howed : ∀ l' f, (s.setLoop l e).owed hand' l' f = s.owed hand l' f) (hq : e.phase.Quiet)
    (hn : e.phase.reading.Nodup)
    (hr : ∀ c ∈ e.phase.reading, ∃ C, s.conns[c]? = some C ∧ C.epoller_ = l ∧ C.stage = .up) :
    (s.setLoop l e).Inv hand' := by
  have hreg : ∀ l' fd ev c, (s.setLoop l e).Registered l' fd ev c ↔ s.Registered l' fd ev c := by
    intro l' fd ev c
    unfold Registered
    rw [loops_setLoop]
    split
    · rename_i heq
      rw [hp, heq]
    · exact Iff.rfl
  refine ⟨?_, ?_, ?_, h.listed, h.names, h.fds, ?_, ?_, ?_⟩
  · intro c C hc
    exact (h.conn c C hc).frame (fun l' fd ev => hreg l' fd ev c) (fun l' f _ => howed l' f) rfl
  · intro l' fd ev c hc
    exact h.registered l' fd ev c ((hreg l' fd ev c).mp hc)
  · intro l' f hf
    rw [howed] at hf
    exact h.owed l' f hf
  · intro l'
    rw [loops_setLoop]
    split
    · exact hq
    · exact h.quiet l'
  · intro l'
    rw [loops_setLoop]
    split
    · exact hn
    · exact h.nodup l'
  · intro l' c hc
    rw [loops_setLoop] at hc
    split at hc
    · rename_i heq
      subst heq
      exact hr c hc
    · exact h.reading l' c hc

theorem owed_setLoop (s : TcpServer) (hand : List (Nat × Functor)) (hq : e.queue = (s.loops l).queue) (l' : Nat)
    (f : Functor) : (s.setLoop l e).owed hand l' f = s.owed hand l' f := by
  unfold owed
  rw [loops_setLoop]
  split
  · rename_i heq
    rw [hq, heq]
  · rfl

theorem owed_cons (s : TcpServer) (hand : List (Nat × Functor)) (l l' : Nat) (f f' : Functor) :
    s.owed ((l, f) :: hand) l' f' = s.owed hand l' f' + if (l, f) = (l', f') then 1 else 0 := by
  simp only [owed, List.count_cons, beq_iff_eq]
  omega

/-- A functor that was in hand is queued. -/
theorem owed_queueInLoop (s : TcpServer) (hand : List (Nat × Functor)) (caller l l' : Nat) (f f' : Functor) :
    (s.queueInLoop caller l f).owed hand l' f' = s.owed ((l, f) :: hand) l' f' := by
  rw [owed_cons]
  unfold owed queueInLoop
  rw [loops_setLoop]
  by_cases hl : l' = l
  · subst hl
    simp only [if_true, EventLoop.queue, EventLoop.queueInLoop, List.count_append, List.count_singleton, beq_iff_eq,
      Prod.mk.injEq, true_and]
    omega
  · simp only [hl, if_false, Prod.mk.injEq, Ne.symm hl, false_and, Nat.add_zero]

/-- A functor that was taken out is in hand. -/
theorem owed_taken {functors : List Functor} (hp : (s.loops l).phase = .calling (f :: functors)) (l' : Nat)
    (f' : Functor) :
    (s.setLoop l { s.loops l with phase := .calling functors }).owed ((l, f) :: hand) l' f' = s.owed hand l' f' := by
  rw [owed_cons]
  unfold owed
  rw [loops_setLoop]
  by_cases hl : l' = l
  · subst hl
    simp only [if_true, EventLoop.queue, hp, List.cons_append, List.count_cons, beq_iff_eq, Prod.mk.injEq, true_and]
    omega
  · simp only [hl, if_false, Prod.mk.injEq, Ne.symm hl, false_and, Nat.add_zero]

/-- Queueing leaves the registrations and the phases alone. -/
theorem queueInLoop_frame (s : TcpServer) (caller l : Nat) (f : Functor) (l' : Nat) :
    ((s.queueInLoop caller l f).loops l').poller = (s.loops l').poller ∧
      ((s.queueInLoop caller l f).loops l').phase = (s.loops l').phase := by
  rw [TcpServer.queueInLoop, loops_setLoop]
  split
  · rename_i heq
    rw [heq]
    exact ⟨rfl, rfl⟩
  · exact ⟨rfl, rfl⟩

theorem Inv.queueInLoop (h : s.Inv ((l, f) :: hand)) (caller : Nat) : (s.queueInLoop caller l f).Inv hand :=
  h.setLoop rfl (owed_queueInLoop s hand caller l · f ·) (h.quiet l) (h.nodup l) (h.reading l)

theorem Inv.runInLoop {run : TcpServer → TcpServer} (h : s.Inv ((l, f) :: hand)) (hrun : (run s).Inv hand)
    (caller : Nat) : (s.runInLoop caller l f run).Inv hand := by
  unfold TcpServer.runInLoop
  split
  · exact hrun
  · exact h.queueInLoop caller

/-- What is left to be read gets less. -/
theorem Inv.phase (h : s.Inv hand) (ph : Phase Functor) (hq : ph.Quiet)
    (hs : List.Sublist ph.reading (s.loops l).phase.reading)
    (howed : ∀ l' f, (s.setLoop l { s.loops l with phase := ph }).owed hand' l' f = s.owed hand l' f) :
    (s.setLoop l { s.loops l with phase := ph }).Inv hand' :=
  h.setLoop rfl howed hq (hs.nodup (h.nodup l)) fun c hc => h.reading l c (hs.subset hc)

/-! ## Moves of a connection -/

variable {p : EPollPoller}

/-- What is registered belongs to a connection that is up. -/
theorem Inv.of_registered {fd : Fd} {e : Events} (h : s.Inv hand) (hr : s.Registered l fd e c) :
    ∃ C, s.conns[c]? = some C ∧ C.stage = .up ∧ l = C.epoller_ ∧ fd = C.conn.channel_.fd_ ∧
      e = C.conn.channel_.events_ := by
  obtain ⟨C, hC⟩ : ∃ C, s.conns[c]? = some C := ⟨_, List.getElem?_eq_getElem (h.registered _ _ _ _ hr)⟩
  exact ⟨C, hC, ((h.conn c C hC).registered _ _ _).mp hr⟩

/-- The kernel has the descriptor of a connection only for that connection. -/
theorem Inv.interest_own (h : s.Inv hand) (hc : s.conns[c]? = some C) (hd : C.stage ≠ .destroyed) :
    (s.loops C.epoller_).poller.interest C.conn.channel_.fd_ =
      if C.stage = .up then some (C.conn.channel_.events_, c) else none := by
  split
  · rename_i hup
    exact ((h.conn c C hc).registered _ _ _).mpr ⟨hup, rfl, rfl, rfl⟩
  · rename_i hup
    cases hi : (s.loops C.epoller_).poller.interest C.conn.channel_.fd_ with
    | none => rfl
    | some i =>
      obtain ⟨C₁, hC₁, hup₁, -, hfd₁, -⟩ := h.of_registered hi
      have hd₁ : C₁.stage ≠ .destroyed := by rw [hup₁]; exact Stage.noConfusion
      have heq := h.fds c i.2 C C₁ hc hC₁ hd hd₁ hfd₁
      rw [← heq, hc, Option.some.injEq] at hC₁
      rw [hC₁] at hup
      exact absurd hup₁ hup

/-- A connection that is up is registered for reading. -/
theorem Inv.registered_up (h : s.Inv hand) (hc : s.conns[c]? = some C) (hup : C.stage = .up) :
    C.conn.Registered (s.loops C.epoller_).poller := by
  have hch := (h.conn c C hc).channel
  rw [hup] at hch
  refine ⟨hch.1, hch.2, ?_⟩
  rw [h.interest_own hc (by rw [hup]; exact Stage.noConfusion), if_pos hup, (h.conn c C hc).this]

theorem loops_store (s : TcpServer) (c : Nat) (p : EPollPoller) (C : ServerConn) (l : Nat) :
    (s.store c p C).loops l = if l = C.epoller_ then { s.loops C.epoller_ with poller := p } else s.loops l :=
  loops_setLoop ..

theorem phase_store (s : TcpServer) (c : Nat) (p : EPollPoller) (C : ServerConn) (l : Nat) :
    ((s.store c p C).loops l).phase = (s.loops l).phase := by
  rw [loops_store]
  split
  · rename_i heq
    rw [heq]
  · rfl

theorem owed_store (s : TcpServer) (hand : List (Nat × Functor)) (c : Nat) (p : EPollPoller) (C : ServerConn) (l : Nat)
    (f : Functor) : (s.store c p C).owed hand l f = s.owed hand l f := by
  unfold TcpServer.owed
  rw [loops_store]
  split
  · rename_i heq
    rw [heq]
    rfl
  · rfl

/-- Away from the descriptor that was changed, nothing changes. -/
theorem registered_store {fd₀ : Fd} {i : Option (Events × Nat)}
    (hp : p.interest = Function.update (s.loops C.epoller_).poller.interest fd₀ i) (l : Nat) (fd : Fd) (e : Events)
    (c' : Nat) :
    (s.store c p C).Registered l fd e c' ↔
      if l = C.epoller_ ∧ fd = fd₀ then i = some (e, c') else s.Registered l fd e c' := by
  unfold Registered
  rw [loops_store]
  by_cases hl : l = C.epoller_
  · subst hl
    by_cases hf : fd = fd₀
    · subst hf
      simp only [if_true, and_self, hp, Function.update_self]
    · simp only [if_true, hf, and_false, if_false, hp, Function.update_of_ne hf]
  · simp only [hl, false_and, if_false]

/-- A connection moves to a stage, with its entry in the interest set. -/
theorem Inv.store (h : s.Inv hand) (st : Stage) (k : Nat) (hc : s.conns[c]? = some C) (hd : C.stage ≠ .destroyed)
    (hn : C'.lifecycle = st.notes c k) (hname : C'.name_ = C.name_) (hloop : C'.epoller_ = C.epoller_)
    (hfd : C'.conn.channel_.fd_ = C.conn.channel_.fd_) (hthis : C'.conn.channel_.this = c)
    (hstate : st.Allows C'.conn.state_) (hch : st.Channeled C'.conn.channel_)
    (hp : p.interest = Function.update (s.loops C.epoller_).poller.interest C.conn.channel_.fd_
      (if st = .up then some (C'.conn.channel_.events_, c) else none))
    (howed : ∀ l f, f.conn = c → f.isLifecycle →
      s.owed hand' l f = if st.owes c C.epoller_ = some (l, f) then 1 else 0)
    (hother : ∀ l f, f.conn ≠ c → s.owed hand' l f = s.owed hand l f) (hl : st.listed = C.stage.listed)
    (hup : ∀ l, c ∈ (s.loops l).phase.reading → st = .up) : (s.store c p C').Inv hand' := by
  have hst : C'.stage = st := ServerConn.stage_eq hn
  have hown := h.interest_own hc hd
  have hreg := registered_store (c := c) (C := C') (hloop ▸ hp)
  rw [hloop] at hreg
  refine h.update hc rfl hname hloop hfd ?_ ?_ ?_ (fun _ _ => rfl) (fun hs => absurd hs hd) (phase_store s c p C') ?_
  · rw [hst]
    refine ⟨⟨k, hn⟩, hstate, hthis, hch, ?_, ?_, ?_⟩
    · intro l fd e
      rw [hreg, hfd, hloop]
      split
      · rename_i hlf
        rw [hlf.1, hlf.2]
        split
        · rename_i hs
          simp only [hs, Option.some.injEq, Prod.mk.injEq, and_true, true_and, eq_comm]
        · rename_i hs
          simp only [hs, false_and, reduceCtorEq]
      · rename_i hlf
        have hold := (h.conn c C hc).registered l fd e
        constructor
        · intro hr
          obtain ⟨-, h₁, h₂, -⟩ := hold.mp hr
          exact absurd ⟨h₁, h₂⟩ hlf
        · rintro ⟨-, h₁, h₂, -⟩
          exact absurd ⟨h₁, h₂⟩ hlf
    · intro l f hf hfl
      rw [owed_store, hloop]
      exact howed l f hf hfl
    · rw [hname, hl]
      exact (h.conn c C hc).entry
  · intro l fd e c' hne
    rw [hreg]
    split
    · rename_i hlf
      obtain ⟨rfl, rfl⟩ := hlf
      -- neither before nor after is there an entry but its own
      have hno : ∀ (b : Prop) [Decidable b] (e' : Events), ¬ (if b then some (e', c) else none) = some (e, c') := by
        intro b _ e' hi
        split at hi
        · simp only [Option.some.injEq, Prod.mk.injEq] at hi
          exact hne hi.2.symm
        · exact absurd hi (Option.some_ne_none _).symm
      refine iff_of_false (hno _ _) ?_
      unfold Registered
      rw [hown]
      exact hno _ _
    · exact Iff.rfl
  · intro l f hf
    rw [owed_store]
    exact hother l f hf
  · intro l hm
    rw [hst]
    exact hup l hm

/-- A connection changes in nothing but its buffers, its history of calls on the
socket, and its state within its stage. -/
theorem Inv.inert (h : s.Inv hand) (hc : s.conns[c]? = some C) (hconns : s'.conns = s.conns.set c C')
    (hloops : s'.loops = s.loops) (hmap : s'.connections_ = s.connections_) (hname : C'.name_ = C.name_)
    (hloop : C'.epoller_ = C.epoller_) (hch : C'.conn.channel_ = C.conn.channel_)
    (hl : C'.lifecycle = C.lifecycle) (hs : C.stage.Allows C'.conn.state_) : s'.Inv hand := by
  have hst : C'.stage = C.stage := by rw [ServerConn.stage, hl, ServerConn.stage]
  have hreg : ∀ l fd e c', s'.Registered l fd e c' ↔ s.Registered l fd e c' := by
    intro l fd e c'
    rw [Registered, hloops, Registered]
  have howed : ∀ l f, s'.owed hand l f = s.owed hand l f := by
    intro l f
    rw [TcpServer.owed, hloops, TcpServer.owed]
  have hat := h.conn c C hc
  refine h.update hc hconns hname hloop (by rw [hch]) ?_ (fun l fd e c' _ => hreg l fd e c') (fun l f _ => howed l f)
    (fun n _ => by rw [hmap]) (fun hd => hst.trans hd) (fun l => by rw [hloops]) ?_
  · rw [hst]
    refine ⟨?_, hs, ?_, ?_, ?_, ?_, ?_⟩
    · rw [hl]; exact hat.notes
    · rw [hch]; exact hat.this
    · rw [hch]; exact hat.channel
    · intro l fd e
      rw [hreg, hloop, hch]
      exact hat.registered l fd e
    · intro l f hf hfl
      rw [howed, hloop]
      exact hat.owed l f hf hfl
    · rw [hmap, hname]
      exact hat.entry
  · intro l hm
    obtain ⟨D, hD, -, hup⟩ := h.reading l c hm
    rw [hc, Option.some.injEq] at hD
    rw [hst, hD]
    exact hup

/-- A functor in hand tells the stage of its connection, and no other functor of
that connection is queued. -/
theorem Inv.owing (h : s.Inv ((l, f) :: hand)) (hc : f.conn = c) (hf : f.isLifecycle) :
    ∃ C, s.conns[c]? = some C ∧ C.stage.owes c C.epoller_ = some (l, f) ∧
      ∀ l' f', f'.conn = c → f'.isLifecycle → s.owed hand l' f' = 0 := by
  subst hc
  have hpos : 0 < s.owed ((l, f) :: hand) l f := by
    rw [owed_cons, if_pos rfl]
    exact Nat.succ_pos _
  obtain ⟨C, hC⟩ : ∃ C, s.conns[f.conn]? = some C := ⟨_, List.getElem?_eq_getElem (h.owed l f hpos)⟩
  have howed := (h.conn f.conn C hC).owed
  have how : C.stage.owes f.conn C.epoller_ = some (l, f) := by
    by_contra hne
    rw [howed l f rfl hf, if_neg hne] at hpos
    exact absurd hpos (Nat.lt_irrefl 0)
  refine ⟨C, hC, how, ?_⟩
  intro l' f' hf' hl'
  have hval := howed l' f' hf' hl'
  rw [owed_cons, how] at hval
  simp only [Option.some.injEq] at hval
  omega

/-- The last functor in hand is done, and other connections are not concerned. -/
theorem owed_done (s : TcpServer) (hand : List (Nat × Functor)) (l : Nat) {f f' : Functor} (hne : f'.conn ≠ f.conn)
    (l' : Nat) : s.owed hand l' f' = s.owed ((l, f) :: hand) l' f' := by
  rw [owed_cons, if_neg, Nat.add_zero]
  rw [Prod.mk.injEq]
  rintro ⟨-, rfl⟩
  exact hne rfl

theorem lifecycle_append (C : ServerConn) (conn : TcpConnection) (notes : List Note) :
    ServerConn.lifecycle { C with conn := conn, history := C.history ++ notes } =
      C.lifecycle ++ notes.filter Note.isLifecycle := List.filter_append ..

/-- A connection of another stage than `up` is not read in this round. -/
theorem Inv.not_reading (h : s.Inv hand) (hc : s.conns[c]? = some C) (hup : C.stage ≠ .up) (l : Nat) :
    c ∉ (s.loops l).phase.reading := by
  intro hm
  obtain ⟨D, hD, -, hs⟩ := h.reading l c hm
  rw [hc, Option.some.injEq] at hD
  rw [hD] at hup
  exact hup hs

theorem call_eq (hc : s.conns[c]? = some C) (caller : Nat) (entry : List Note)
    (g : EPollPoller → TcpConnection → EPollPoller × TcpConnection × List Act) :
    s.call caller c entry g =
      (let r := g (s.loops C.epoller_).poller C.conn
       let t := s.store c r.1 { C with conn := r.2.1, history := C.history ++ (entry ++ r.2.2.map .act) }
       if .closeCallback ∈ r.2.2 then t.removeConnection caller c else t) := by
  simp only [call, hc, List.append_assoc]

end TcpServer

end Ydx
