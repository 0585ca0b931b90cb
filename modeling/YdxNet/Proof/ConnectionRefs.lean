import YdxNet.Impl.ConnectionRefs
import YdxNet.Proof.Stranded
import Mathlib.Algebra.Order.BigOperators.Group.Finset

/-!
# A connection and its own dispatch

A connection of a server outlives the `handleEvent` in which it is closed:
the removal that `handleClose` queues holds it until the base loop runs it, and
from then on the functor of `connectDestroyed`, which waits in the connection's
own loop until that has left `handleEvent` (`Waits`). A client destroys the
connection at once, so when `handleClose` returns, the copies of users are all
that is left (`outlives_iff`).
-/

namespace Ydx

namespace TcpServer

open TcpConnection

variable {s s' : TcpServer} {l c : Nat}

/-! ## Servers -/

/-- The loop `l` is in its active channels, `c` is a connection of it, and a
functor that holds `c` is yet to run: its removal on the base loop, or after
that `connectDestroyed` in a later round of `l`. -/
structure Held (s : TcpServer) (l c : Nat) : Prop where
  handling : ∃ callbacks active, (s.loops l).phase = .handling callbacks active
  on : s.On l c
  held : .removeConnectionInLoop c ∈ s.functors 0 ∨ .connectDestroyed c ∈ (s.loops l).pendingFunctors_

theorem mem_functors_of_pending {f : Functor} (h : f ∈ (s.loops l).pendingFunctors_) : f ∈ s.functors l := by
  unfold functors
  split
  · exact List.mem_append_right _ h
  · exact h

theorem Extends.functors (he : Extends s s') {f : Functor} (h : f ∈ s.functors l) : f ∈ s'.functors l := by
  unfold TcpServer.functors at h ⊢
  rw [he.phase]
  split at h
  · rcases List.mem_append.mp h with h | h
    · exact List.mem_append_left _ h
    · exact List.mem_append_right _ (he.pending l f h)
  · exact he.pending l f h

theorem Held.extends (h : Held s l c) (he : Extends s s') : Held s' l c where
  handling := by
    rw [he.phase]
    exact h.handling
  on := (he.on l c).mpr h.on
  held := by
    rcases h.held with hf | hf
    · exact .inl (he.functors hf)
    · exact .inr (he.pending l _ hf)

theorem functors_setLoop_of_ne {l' : Nat} (h : l' ≠ l) (e : EventLoop Functor) :
    (s.setLoop l e).functors l' = s.functors l' := by
  simp only [functors, loops_setLoop_ne s e h]

/-- A loop moves on within its active channels. -/
theorem Held.advance (h : Held s l c) {l' : Nat} {e : EventLoop Functor}
    (hh : ∃ callbacks active, e.phase = .handling callbacks active)
    (hnc : ∀ functors, (s.loops l').phase ≠ .calling functors)
    (hq : e.pendingFunctors_ = (s.loops l').pendingFunctors_) : Held (s.setLoop l' e) l c := by
  obtain ⟨callbacks, active, hph⟩ := hh
  refine ⟨?_, h.on, ?_⟩
  · by_cases hl : l = l'
    · rw [hl, loops_setLoop_self]
      exact ⟨_, _, hph⟩
    · rw [loops_setLoop_ne _ _ hl]
      exact h.handling
  · rcases h.held with hf | hf
    · left
      by_cases hl : 0 = l'
      · subst hl
        apply mem_functors_of_pending
        rw [loops_setLoop_self, hq]
        unfold functors at hf
        split at hf
        · rename_i functors hc
          exact absurd hc (hnc functors)
        · exact hf
      · rw [functors_setLoop_of_ne hl]
        exact hf
    · right
      by_cases hl : l = l'
      · subst hl
        rw [loops_setLoop_self, hq]
        exact hf
      · rw [loops_setLoop_ne _ _ hl]
        exact hf

/-- Another loop moves on, and keeps the removal if it has it. -/
theorem Held.other (h : Held s l c) {l' : Nat} {e : EventLoop Functor} (hl : l ≠ l')
    (hq : l' = 0 → .removeConnectionInLoop c ∈ s.functors 0 → .removeConnectionInLoop c ∈ (s.setLoop 0 e).functors 0) :
    Held (s.setLoop l' e) l c := by
  refine ⟨?_, h.on, ?_⟩
  · rw [loops_setLoop_ne _ _ hl]
    exact h.handling
  · rcases h.held with hf | hf
    · left
      by_cases hl' : l' = 0
      · subst hl'
        exact hq rfl hf
      · rw [functors_setLoop_of_ne (Ne.symm hl')]
        exact hf
    · right
      rw [loops_setLoop_ne _ _ hl]
      exact hf

theorem Held.unmoved (h : Held s l c) (l' : Nat) : Held (s.setLoop l' (s.loops l')) l c :=
  h.extends (extends_setLoop rfl (fun _ => id) fun _ _ _ => .inl)

theorem Held.epollWait (h : Held s l c) (l' : Nat) (ready : List Ready) :
    Held (s.setLoop l' ((s.loops l').epollWait ready)) l c := by
  unfold EventLoop.epollWait
  split
  · rename_i hph
    split
    · exact h.unmoved l'
    · exact h.advance ⟨_, _, rfl⟩ (by simp [hph]) rfl
  · exact h.unmoved l'

theorem Held.nextChannel (h : Held s l c) (l' : Nat) : Held (s.setLoop l' (s.loops l').nextChannel) l c := by
  unfold EventLoop.nextChannel
  split
  · rename_i hph
    exact h.advance ⟨_, _, rfl⟩ (by simp [hph]) rfl
  · rename_i hph
    exact h.advance ⟨_, _, rfl⟩ (by simp [hph]) rfl
  · exact h.unmoved l'

theorem Held.newConnection (h : Held s l c) (sockfd : Fd) : Held (s.newConnection sockfd) l c := by
  have hadd : Held (s.added sockfd) l c := ⟨h.handling, h.on.added sockfd, h.held⟩
  exact hadd.extends (extends_frame.newConnection s sockfd)

theorem Held.doPendingFunctors (h : Held s l c) {l' : Nat} (hl : l ≠ l') :
    Held (s.setLoop l' (s.loops l').doPendingFunctors) l c := by
  unfold EventLoop.doPendingFunctors
  split
  · rename_i hph
    refine h.other hl fun h0 hf => ?_
    subst h0
    simp only [functors, hph] at hf
    simp only [functors, loops_setLoop_self]
    exact List.mem_append_left _ hf
  · exact h.unmoved l'

/-- When the base loop removes `c`, it queues `connectDestroyed` in the loop of `c`. -/
theorem mem_removeConnectionInLoop (caller : Nat) (hon : s.On l c) :
    .connectDestroyed c ∈ ((s.removeConnectionInLoop caller c).loops l).pendingFunctors_ := by
  obtain ⟨C, hC, hl⟩ := hon
  subst hl
  simp only [removeConnectionInLoop, hC, queueInLoop, loops_setLoop_self]
  exact List.mem_append_right _ List.mem_cons_self

theorem Held.functor (h : Held s l c) (l' : Nat) : Held (s.step (.functor l')) l c := by
  have hne : ∀ functors, (s.loops l').phase = .calling functors → l ≠ l' := by
    intro functors hph hl
    obtain ⟨callbacks, active, hh⟩ := h.handling
    rw [hl, hph] at hh
    cases hh
  simp only [TcpServer.step]
  split
  · rename_i f functors hph
    have hl := hne _ hph
    by_cases hf : l' = 0 ∧ f = .removeConnectionInLoop c
    · obtain ⟨rfl, rfl⟩ := hf
      have he : Extends (s.setLoop 0 { s.loops 0 with phase := .calling functors })
          ((s.setLoop 0 { s.loops 0 with phase := .calling functors }).exec 0 (.removeConnectionInLoop c)) :=
        extends_frame.exec _ _ _
      refine ⟨?_, (he.on l c).mpr h.on, .inr (mem_removeConnectionInLoop 0 h.on)⟩
      rw [he.phase, loops_setLoop_ne _ _ hl]
      exact h.handling
    · have h₁ : Held (s.setLoop l' { s.loops l' with phase := .calling functors }) l c := by
        refine h.other hl fun h0 hm => ?_
        subst h0
        have hfne : Functor.removeConnectionInLoop c ≠ f := fun he => hf ⟨rfl, he.symm⟩
        simp only [TcpServer.functors, hph, List.cons_append, List.mem_cons, hfne, false_or] at hm
        simpa only [TcpServer.functors, loops_setLoop_self] using hm
      exact h₁.extends (extends_frame.exec _ l' f)
  · rename_i hph
    refine h.other (hne _ hph) fun h0 hm => ?_
    subst h0
    simp only [TcpServer.functors, hph, List.nil_append] at hm
    simpa only [TcpServer.functors, loops_setLoop_self] using hm
  · exact h

/-- As long as the loop `l` stays in its active channels, `c` is held. -/
theorem Held.step (h : Held s l c) {a : Action} (ha : a = .doPendingFunctors l → s.returned l = false) :
    Held (s.step a) l c := by
  cases a with
  | epollWait l' ready => exact h.epollWait l' ready
  | nextChannel l' => exact h.nextChannel l'
  | accept connfd =>
    simp only [TcpServer.step]
    split
    · rename_i active hph
      have h₁ : Held (s.setLoop 0 { s.loops 0 with phase := .handling [] active }) l c :=
        h.advance ⟨_, _, rfl⟩ (by simp [hph]) rfl
      split
      · exact h₁.newConnection _
      · exact h₁
    · exact h
  | callback l' readv write =>
    simp only [TcpServer.step]
    split
    · rename_i c' cb callbacks active hph
      have h₁ : Held (s.setLoop l' { s.loops l' with phase := .handling callbacks active }) l c :=
        h.advance ⟨_, _, rfl⟩ (by simp [hph]) rfl
      exact h₁.extends (extends_frame.call _ l' c' [] (owns_handler readv write cb))
    · exact h
  | doPendingFunctors l' =>
    by_cases hl : l = l'
    · subst hl
      have hr := ha rfl
      have hstay : (s.loops l).doPendingFunctors = s.loops l := by
        unfold EventLoop.doPendingFunctors
        split
        · rename_i hph
          simp [returned, hph] at hr
        · rfl
      simp only [TcpServer.step, hstay]
      exact h.unmoved l
    · exact h.doPendingFunctors hl
  | functor l' => exact h.functor l'
  | shutdown caller c' => exact h.extends (extends_frame.shutdown s caller c')
  | send caller c' data len result =>
    exact h.extends (extends_frame.call s caller c' [] fun p conn => owns_send p conn data len result)

/-- What a loop has before it when its next callback closes `c`. -/
theorem closing_cases {readv : ReadvResult} {write : WriteResult} (hc : s.closing l readv write = some c) :
    ∃ cb callbacks active C, (s.loops l).phase = .handling ((c, cb) :: callbacks) active ∧ s.conns[c]? = some C ∧
      .closeCallback ∈ (handler readv write cb (s.loops C.epoller_).poller C.conn).2.2 := by
  unfold closing at hc
  split at hc
  · rename_i c' cb callbacks active hph
    split at hc
    · rename_i C hC
      split at hc
      · rename_i hclose
        rw [Option.some.inj hc] at hC hph
        exact ⟨cb, callbacks, active, C, hph, hC, hclose⟩
      · cases hc
    · cases hc
  · cases hc

/-- After the close callback, the removal waits in the base loop, or has made
`connectDestroyed` wait in the loop of `c`. -/
theorem mem_removeConnection (hon : s.On l c) :
    .removeConnectionInLoop c ∈ (s.removeConnection l c).functors 0 ∨
      .connectDestroyed c ∈ ((s.removeConnection l c).loops l).pendingFunctors_ := by
  unfold removeConnection runInLoop
  split
  · exact .inr (mem_removeConnectionInLoop l hon)
  · left
    apply mem_functors_of_pending
    simp only [queueInLoop, loops_setLoop_self]
    exact List.mem_append_right _ List.mem_cons_self

/-- `handleClose` leaves `c` held. -/
theorem held_of_closing (h : Homed s) {readv : ReadvResult} {write : WriteResult}
    (hc : s.closing l readv write = some c) : Held (s.step (.callback l readv write)) l c := by
  obtain ⟨cb, callbacks, active, C, hph, hC, hclose⟩ := closing_cases hc
  have hon : s.On l c := h.mentioned l c (by rw [hph]; exact .inl ⟨cb, List.mem_cons_self⟩)
  have hl : C.epoller_ = l := by
    obtain ⟨D, hD, hl⟩ := hon
    rw [← Option.some.inj (hC.symm.trans hD)] at hl
    exact hl
  subst hl
  let s₁ := s.setLoop C.epoller_ { s.loops C.epoller_ with phase := .handling callbacks active }
  let r := handler readv write cb (s.loops C.epoller_).poller C.conn
  let s₂ := s₁.store c r.1 { C with conn := r.2.1, history := C.history ++ [] ++ r.2.2.map .act }
  have hloop : s₁.loops C.epoller_ = { s.loops C.epoller_ with phase := .handling callbacks active } :=
    loops_setLoop_self ..
  have hC₁ : s₁.conns[c]? = some C := hC
  have hstep : s.step (.callback C.epoller_ readv write) = s₂.removeConnection C.epoller_ c := by
    simp only [TcpServer.step, hph]
    show s₁.call C.epoller_ c [] (handler readv write cb) = _
    simp only [call, hC₁, hloop]
    exact if_pos hclose
  have ho := owns_handler readv write cb (s.loops C.epoller_).poller C.conn
  have h₁₂ : Extends s₁ s₂ := extends_store hC₁ rfl (by rw [hloop]; exact ho)
  have h₂ := extends_frame.removeConnection s₂ C.epoller_ c
  have hon₂ : s₂.On C.epoller_ c := (h₁₂.on _ c).mpr hon
  rw [hstep]
  refine ⟨⟨callbacks, active, ?_⟩, (h₂.on _ c).mpr hon₂, mem_removeConnection hon₂⟩
  rw [h₂.phase, h₁₂.phase, hloop]

/-- Every connection that was closed in a `handleEvent` not yet left is held. -/
structure Waits (s : Dispatching) : Prop where
  homed : Homed s.server
  held : ∀ l c, s.closed l = some c → Held s.server l c

theorem waits_start (name hostport : String) (numThreads : Nat) (baseWakeup : Bool) :
    Waits ⟨start name hostport numThreads baseWakeup, fun _ => none⟩ :=
  ⟨homed_start name hostport numThreads baseWakeup, fun _ _ h => absurd h (Option.some_ne_none _).symm⟩

theorem Waits.step {s : Dispatching} (h : Waits s) (a : Action) : Waits (dispatching.step s a).1 := by
  refine ⟨h.homed.step a, fun l c hc => ?_⟩
  show Held (s.server.step a) l c
  -- a loop that `handleEvent` has returned to is not looked at again
  have hreturned : ∀ l', (if s.server.returned l' then Function.update s.closed l' none else s.closed) l = some c →
      s.closed l = some c ∧ (l' = l → s.server.returned l = false) := by
    intro l' hc
    split at hc
    · by_cases hl : l = l'
      · rw [hl, Function.update_self] at hc
        cases hc
      · rw [Function.update_of_ne hl] at hc
        exact ⟨hc, fun he => absurd he.symm hl⟩
    · rename_i hr
      exact ⟨hc, fun he => by rw [← he]; exact Bool.eq_false_iff.mpr hr⟩
  cases a with
  | callback l' readv write =>
    cases hclose : s.server.closing l' readv write with
    | none =>
      simp only [dispatching, hclose] at hc
      exact (h.held l c hc).step Action.noConfusion
    | some c' =>
      simp only [dispatching, hclose] at hc
      by_cases hl : l = l'
      · subst hl
        rw [Function.update_self] at hc
        rw [Option.some.inj hc] at hclose
        exact held_of_closing h.homed hclose
      · rw [Function.update_of_ne hl] at hc
        exact (h.held l c hc).step Action.noConfusion
  | nextChannel l' => exact (h.held l c (hreturned l' hc).1).step Action.noConfusion
  | accept connfd => exact (h.held l c (hreturned 0 hc).1).step Action.noConfusion
  | doPendingFunctors l' =>
    obtain ⟨hc, hr⟩ := hreturned l' hc
    exact (h.held l c hc).step fun he => hr (Action.doPendingFunctors.inj he)
  | epollWait | functor | shutdown | send => exact (h.held l c hc).step Action.noConfusion

theorem references_pos {f : Functor} (hl : l ≤ s.threadPool_.numThreads_) (hf : f ∈ s.functors l) (hh : f.holds c = true) :
    0 < s.references c := by
  have hpos : 0 < (s.functors l).countP (Functor.holds c) := List.countP_pos_iff.mpr ⟨f, hf, hh⟩
  have hle := Finset.single_le_sum (f := fun l => (s.functors l).countP (Functor.holds c))
    (fun _ _ => Nat.zero_le _) (Finset.mem_range_succ_iff.mpr hl)
  exact Nat.lt_of_lt_of_le (Nat.lt_of_lt_of_le hpos hle) (Nat.le_add_left _ _)

/-- Once it is closed, a connection outlives the `handleEvent` that closed it. -/
def Dispatching.Outlives (s : Dispatching) : Prop := ∀ l c, s.closed l = some c → 0 < s.server.references c

theorem Waits.outlives {s : Dispatching} (h : Waits s) : s.Outlives := by
  intro l c hc
  have hheld := h.held l c hc
  rcases hheld.held with hf | hf
  · exact references_pos (Nat.zero_le _) hf (beq_self_eq_true c)
  · exact references_pos (h.homed.range l c hheld.on) (mem_functors_of_pending hf) (beq_self_eq_true c)

end TcpServer

namespace ClientRefs

variable {s : ClientRefs} {cbs : List Callback}

/-- The callbacks that close are those after which the connection's own functions
call `closeCallback_`. -/
theorem closes_iff (readv : ReadvResult) (write : WriteResult) (cb : Callback) (p : EPollPoller) {conn : TcpConnection}
    (h : conn.closable = true) : closes readv cb = true ↔ .closeCallback ∈ (TcpServer.handler readv write cb p conn).2.2 := by
  rw [TcpServer.mem_handler_iff]
  cases cb with
  | closeCallback_ | errorCallback_ | readCallback_ | writeCallback_ => simp [closes, h]

/-- Once it is closed, the connection outlives `handleEvent`. -/
def Outlives (s : ClientRefs) : Prop := s.pc ≠ .outside → s.closed = true → 0 < s.references

instance (s : ClientRefs) : Decidable s.Outlives := inferInstanceAs (Decidable (_ → _ → _))

/-- A user has a copy when `handleClose` returns, and the last one is not dropped
before `handleEvent` does. -/
def Kept (s : ClientRefs) : Action → Prop
  | .endClose =>
    match s.pc with
    | .removed _ => 0 < s.users
    | _ => True
  | .drop =>
    match s.pc with
    | .handling _ => s.closed = true → s.users ≠ 1
    | _ => True
  | _ => True

/-- `handleClose` is marked, and afterwards the client has let go. -/
structure Inv (s : ClientRefs) : Prop where
  marked : guardThis s.pc = 1 → s.closed = true
  gone : (∃ cbs, s.pc = .handling cbs ∧ s.closed = true ∨ s.pc = .removed cbs) → s.client.connection_ ≠ some s.conn
  outlives : s.Outlives

theorem start_inv (client : TcpClient) : Inv (start client) where
  marked h := absurd h (by simp [start, guardThis])
  gone := by simp [start]
  outlives h := absurd rfl h

/-- In `handleClose`, `guardThis` holds the connection. -/
theorem outlives_of_guard (h : guardThis s.pc = 1) : s.Outlives := by
  intro _ _
  rw [references, h]
  omega

/-- Between the callbacks after `handleClose`, only users hold it. -/
theorem outlives_iff_users (hg : s.client.connection_ ≠ some s.conn) (hpc : s.pc = .handling cbs) (hc : s.closed = true) :
    s.Outlives ↔ 0 < s.users := by
  have hr : s.references = s.users := by simp [references, hg, hpc, guardThis]
  rw [Outlives, hr]
  constructor
  · exact fun h => h (by rw [hpc]; exact DispatchPc.noConfusion) hc
  · exact fun h _ _ => h

theorem Inv.endClose_iff (h : Inv s) :
    ((s.step .endClose).Outlives ↔ s.Kept .endClose) ∧ (s.Kept .endClose → Inv (s.step .endClose)) := by
  cases hpc : s.pc with
  | removed cbs =>
    have hg := h.gone ⟨cbs, .inr hpc⟩
    have hc := h.marked (by rw [hpc]; rfl)
    have hstep : s.step .endClose = { s with pc := .handling cbs } := by simp [step, hpc]
    have hk : s.Kept .endClose ↔ 0 < s.users := by simp [Kept, hpc]
    rw [hstep, hk]
    have hiff := outlives_iff_users (s := { s with pc := .handling cbs }) hg rfl hc
    exact ⟨hiff, fun hu => ⟨fun hm => absurd hm (by simp [guardThis]), fun _ => hg, hiff.mpr hu⟩⟩
  | outside | handling cbs | closing cbs =>
    have hstep : s.step .endClose = s := by simp [step, hpc]
    have hk : s.Kept .endClose := by simp [Kept, hpc]
    rw [hstep]
    exact ⟨iff_of_true h.outlives hk, fun _ => h⟩

theorem Inv.drop_iff (h : Inv s) : ((s.step .drop).Outlives ↔ s.Kept .drop) ∧ (s.Kept .drop → Inv (s.step .drop)) := by
  have hkeep : (s.step .drop).Outlives → Inv (s.step .drop) := fun ho => ⟨h.marked, h.gone, ho⟩
  have hiff : (s.step .drop).Outlives ↔ s.Kept .drop := by
    cases hpc : s.pc with
    | outside => exact iff_of_true (fun hne => absurd hpc hne) (by simp [Kept, hpc])
    | closing cbs | removed cbs =>
      refine iff_of_true (outlives_of_guard ?_) (by simp [Kept, hpc])
      show guardThis s.pc = 1
      rw [hpc]
      rfl
    | handling cbs =>
      cases hc : s.closed with
      | false => exact iff_of_true (fun _ hc' => absurd (hc.symm.trans hc') Bool.noConfusion) (by simp [Kept, hpc, hc])
      | true =>
        have hg := h.gone ⟨cbs, .inl ⟨hpc, hc⟩⟩
        have hu := (outlives_iff_users hg hpc hc).mp h.outlives
        have hk : s.Kept .drop ↔ s.users ≠ 1 := by simp [Kept, hpc, hc]
        have hd := outlives_iff_users (s := s.step .drop) hg hpc hc
        rw [hd, hk]
        show 0 < s.users - 1 ↔ _
        omega
  exact ⟨hiff, fun hk => hkeep (hiff.mpr hk)⟩

/-- The other steps. -/
theorem Inv.step (h : Inv s) {a : Action} (he : a ≠ .endClose) (hd : a ≠ .drop) : Inv (s.step a) := by
  cases a with
  | endClose => exact absurd rfl he
  | drop => exact absurd rfl hd
  | handleEvent revents =>
    simp only [ClientRefs.step]
    split
    · split
      · exact ⟨fun hm => absurd hm (by simp [guardThis]), by simp, fun _ hc => absurd hc Bool.noConfusion⟩
      · exact h
    · exact h
  | callback readv =>
    simp only [ClientRefs.step]
    split
    · rename_i cb cbs hpc
      split
      · exact ⟨fun _ => rfl, by simp, outlives_of_guard rfl⟩
      · refine ⟨fun hm => absurd hm (by simp [guardThis]), fun hg => h.gone ?_, fun _ hc => ?_⟩
        · obtain ⟨_, ⟨-, hc⟩ | hr⟩ := hg
          · exact ⟨_, .inl ⟨hpc, hc⟩⟩
          · exact absurd hr DispatchPc.noConfusion
        · have hpos := h.outlives (by rw [hpc]; exact DispatchPc.noConfusion) hc
          simpa [references, hpc, guardThis] using hpos
    · exact h
  | closeCallback =>
    simp only [ClientRefs.step]
    split
    · rename_i cbs hpc
      refine ⟨fun _ => h.marked (by rw [hpc]; rfl), fun _ => ?_, outlives_of_guard rfl⟩
      exact (Option.some_ne_none _).symm
    · exact h
  | endEvent =>
    simp only [ClientRefs.step]
    split
    · exact ⟨fun hm => absurd hm (by simp [guardThis]), by simp, fun hne => absurd rfl hne⟩
    · exact h
  | newConnection =>
    simp only [ClientRefs.step]
    split
    · rename_i hpc
      exact ⟨fun hm => absurd hm (by simp [guardThis, hpc]), by simp [hpc], fun hne => absurd hpc hne⟩
    · exact h
  | copy =>
    simp only [ClientRefs.step]
    split
    · rename_i hpos
      refine ⟨h.marked, h.gone, fun _ _ => ?_⟩
      exact Nat.lt_of_lt_of_le hpos (Nat.le_succ _)
    · exact h

theorem Inv.step_iff (h : Inv s) (a : Action) :
    ((s.step a).Outlives ↔ s.Kept a) ∧ (s.Kept a → Inv (s.step a)) := by
  by_cases he : a = .endClose
  · subst he
    exact h.endClose_iff
  · by_cases hd : a = .drop
    · subst hd
      exact h.drop_iff
    · have hi : Inv (s.step a) := h.step he hd
      have hk : s.Kept a := by
        cases a with
        | endClose => exact absurd rfl he
        | drop => exact absurd rfl hd
        | _ => trivial
      exact ⟨iff_of_true hi.outlives hk, fun _ => hi⟩

/-- Between two steps, a client's connection outlives its dispatch exactly when
the users see to it. -/
theorem outlives_iff (client : TcpClient) (actions : List Action) :
    machine.Along (fun s a => (s.step a).Outlives) (start client) actions ↔ machine.Along Kept (start client) actions :=
  Machine.along_iff_of_inv (I := Inv) (fun _ a h => (h.step_iff a).1) (fun _ a h => (h.step_iff a).2) actions _
    (start_inv client)

-- a user who took a copy in time
example : machine.Along Kept (start .new)
    [.copy, .handleEvent ⟨true, false, false, false, false, false⟩, .callback (.ok []), .closeCallback, .endClose,
      .endEvent, .drop] :=
  ⟨trivial, trivial, trivial, trivial, Nat.one_pos, trivial, trivial, trivial⟩

end ClientRefs

/-- A connection of a server outlives the `handleEvent` that closes it in every
run, with no copies of users. For a connection of a client this holds exactly in
the runs in which users hold copies from the end of `handleClose` on. -/
theorem outlives_dispatch_iff (name hostport : String) (numThreads : Nat) (baseWakeup : Bool)
    (actions : List TcpServer.Action) (client : TcpClient) (clientActions : List ClientRefs.Action) :
    (TcpServer.dispatching.final ⟨.start name hostport numThreads baseWakeup, fun _ => none⟩ actions).Outlives ∧
    (ClientRefs.machine.Along (fun s a => (s.step a).Outlives) (.start client) clientActions ↔
      ClientRefs.machine.Along ClientRefs.Kept (.start client) clientActions) := by
  have h := Machine.always (M := TcpServer.dispatching) (I := TcpServer.Waits) (fun _ a h => h.step a) actions _
    (TcpServer.waits_start name hostport numThreads baseWakeup)
  exact ⟨h.outlives, ClientRefs.outlives_iff client clientActions⟩

/-- A server with one IO thread: a connection is accepted, its peer closes while
the socket is writable, and the base loop has removed it before the IO loop comes
to the write callback. Only `connectDestroyed` holds it. -/
theorem outlives_dispatch_server :
    let s := TcpServer.dispatching.final ⟨.start "s" "h" 1 true, fun _ => none⟩
      [.epollWait 0 [.listen], .accept (some 5), .epollWait 1 [.wakeup], .nextChannel 1, .doPendingFunctors 1, .functor 1,
        .functor 1, .epollWait 1 [.socket 5 ⟨true, false, true, false, false, false⟩], .nextChannel 1,
        .callback 1 (.ok []) (.accepted 0), .doPendingFunctors 0, .functor 0]
    s.closed 1 = some 0 ∧ (s.server.loops 1).phase = .handling [(0, .writeCallback_)] [] ∧ 0 < s.server.references 0 :=
  ⟨by decide +kernel, by decide +kernel, (outlives_dispatch_iff "s" "h" 1 true _ .new []).1 1 0 (by decide +kernel)⟩

/-- The peer of a client closes while the socket is writable, and no user has a
copy: when `handleClose` returns the connection is gone, and `handleEvent` goes
on to the write callback of its channel. -/
theorem outlives_dispatch_client :
    let s := ClientRefs.machine.final (.start .new)
      [.handleEvent ⟨true, false, true, false, false, false⟩, .callback (.ok []), .closeCallback, .endClose]
    s.closed = true ∧ s.pc = .handling [.writeCallback_] ∧ s.references = 0 ∧ ¬ s.Outlives := by
  decide

end Ydx
