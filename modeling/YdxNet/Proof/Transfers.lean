import YdxNet.Framework.Keyed
import YdxNet.Proof.SenderWire

/-!
# What the steps of the sender do to its queue and its connections

Each step is described once, by what it adds. The connections take messages out of the
queue and hand more bytes to the kernel, and new ones may join them (`extends_step`); what
a step takes out of the queue and what is left is what was there with what it puts in
(`queue_step`).
-/

namespace Ydx.SenderWire

open Spec

/-- The message that a step puts into the sender's queue. -/
def accepts (t : Sender) : Action → List Message
  | .thread (.write i buf) _ =>
    match t.threads i with
    | .idle => if t.Room capacity buf then [buf] else []
    | _ => []
  | _ => []

/-- The message that a step takes out of it. -/
def takes (t : Sender) : Action → List (Option Nat × Message)
  | .thread .read _ =>
    match t.drain, t.stream_buffer_ with
    | .read, m :: _ => [(t.client_.connection_, m.bytes)]
    | _, _ => []
  | _ => []

/-! ## What the connections do -/

/-- The connections write, and nothing else. -/
structure Writes (conns conns' : Nat → Option WireConn) : Prop where
  absent : ∀ c, conns c = none → conns' c = none
  present : ∀ c w, conns c = some w → ∃ w', conns' c = some w' ∧ w.wired <+: w'.wired ∧ w'.dequeued = w.dequeued

theorem Writes.refl (conns : Nat → Option WireConn) : Writes conns conns where
  absent _ h := h
  present _ w h := ⟨w, h, List.prefix_rfl, rfl⟩

theorem Writes.trans {conns conns' conns'' : Nat → Option WireConn} (h : Writes conns conns')
    (h' : Writes conns' conns'') : Writes conns conns'' where
  absent c hc := h'.absent c (h.absent c hc)
  present c w hw := by
    obtain ⟨w₁, hw₁, hp₁, hd₁⟩ := h.present c w hw
    obtain ⟨w₂, hw₂, hp₂, hd₂⟩ := h'.present c w₁ hw₁
    exact ⟨w₂, hw₂, hp₁.trans hp₂, hd₂.trans hd₁⟩

variable {s : SenderWire}

theorem writes_onConn (s : SenderWire) (c : Nat)
    (op : EPollPoller → TcpConnection → EPollPoller × TcpConnection × List Act) :
    Writes s.conns (s.onConn c op).conns := by
  unfold onConn
  split
  · exact .refl _
  · rename_i w hw
    refine ⟨fun d hd => ?_, fun d v hv => ?_⟩
    · have hne : d ≠ c := by
        rintro rfl
        exact absurd (hw.symm.trans hd) (Option.some_ne_none w)
      exact (Function.update_of_ne hne _ _).trans hd
    · by_cases hdc : d = c
      · subst hdc
        obtain rfl : w = v := Option.some.inj (hw.symm.trans hv)
        refine ⟨_, Function.update_self .., ?_, rfl⟩
        show w.wired <+: (w.acts ++ _).flatMap Act.wire
        rw [List.flatMap_append]
        exact List.prefix_append _ _
      · exact ⟨v, (Function.update_of_ne hdc _ _).trans hv, List.prefix_rfl, rfl⟩

theorem writes_proceed (s : SenderWire) (t : Sender) (c : Nat)
    (op : EPollPoller → TcpConnection → EPollPoller × TcpConnection × List Act) :
    Writes s.conns ({ s with sender := t }.onConn c op).conns :=
  writes_onConn { s with sender := t } c op

/-! ## What a step of the sender does -/

theorem sender_dequeue (s : SenderWire) (c : Nat) (m : Message) : (s.dequeue c m).sender = s.sender := by
  unfold dequeue
  split
  · rfl
  · rfl

/-- A step of a thread is one of the sender. The connection comes and goes in other steps. -/
theorem sender_thread (s : SenderWire) (a : Sender.Action) (result : WriteResult) :
    (a ≠ .newConnection ∧ a ≠ .removeConnection) ∧ (s.thread a result).sender = s.sender.step capacity a ∨
      (a = .newConnection ∨ a = .removeConnection) ∧ (s.thread a result).sender = s.sender := by
  cases a with
  | newConnection => exact .inr ⟨.inl rfl, rfl⟩
  | removeConnection => exact .inr ⟨.inr rfl, rfl⟩
  | read =>
    refine .inl ⟨⟨Sender.Action.noConfusion, Sender.Action.noConfusion⟩, ?_⟩
    simp only [thread]
    split
    · exact sender_dequeue ..
    · rfl
  | sendLen | sendBuf =>
    refine .inl ⟨⟨Sender.Action.noConfusion, Sender.Action.noConfusion⟩, ?_⟩
    simp only [thread]
    split
    · exact sender_onConn ..
    · rfl
  | _ => exact .inl ⟨⟨Sender.Action.noConfusion, Sender.Action.noConfusion⟩, rfl⟩

/-- The number of the next connection. -/
def nextId (s : SenderWire) : Nat := s.sender.client_.nextConnId_

theorem nextId_thread (s : SenderWire) (a : Sender.Action) (result : WriteResult) :
    nextId (s.thread a result) = nextId s := by
  rcases sender_thread s a result with ⟨⟨hn, hr⟩, hs⟩ | ⟨-, hs⟩
  · rw [nextId, hs, client_step hn hr, nextId]
  · rw [nextId, hs, nextId]

/-- The connections go on with `new` messages taken out of the queue, and may be joined by new
ones that have done nothing. -/
structure Extends (s s' : SenderWire) (new : List (Option Nat × Message)) : Prop where
  next : nextId s ≤ nextId s'
  old : ∀ c w, s.conns c = some w → ∃ w', s'.conns c = some w' ∧ w.wired <+: w'.wired ∧
    w'.dequeued = w.dequeued ++ withKey (some c) new
  new : ∀ c, s.conns c = none → withKey (some c) new = [] ∧
    ∀ w', s'.conns c = some w' → w'.wired = [] ∧ w'.dequeued = [] ∧ c < nextId s'

theorem Writes.extends {s s' : SenderWire} (h : Writes s.conns s'.conns) (hnext : nextId s ≤ nextId s')
    {new : List (Option Nat × Message)} (hn : ∀ c, withKey (some c) new = []) : Extends s s' new where
  next := hnext
  old c w hw := by
    obtain ⟨w', hw', hp, hd⟩ := h.present c w hw
    exact ⟨w', hw', hp, by rw [hd, hn, List.append_nil]⟩
  new c hc := ⟨hn c, fun w' hw' => absurd ((h.absent c hc).symm.trans hw') (Option.some_ne_none w').symm⟩

/-- The sender goes on, and its connections stay as they are. -/
theorem extends_proceed {t : Sender} (hnext : nextId s ≤ t.client_.nextConnId_)
    {new : List (Option Nat × Message)} (hn : ∀ c, withKey (some c) new = []) :
    Extends s { s with sender := t } new :=
  Writes.extends (show Writes s.conns ({ s with sender := t } : SenderWire).conns from .refl _) hnext hn

theorem extends_refl (s : SenderWire) : Extends s s [] :=
  Writes.extends (.refl _) (Nat.le_refl _) fun _ => rfl

/-- A message is taken out of the queue for the connection there is. -/
theorem extends_dequeue {t : Sender} {c : Nat} {w : WireConn} (hw : s.conns c = some w) (m : Message)
    (hnext : s.sender.client_.nextConnId_ ≤ t.client_.nextConnId_) :
    Extends s ({ s with sender := t }.dequeue c m) [(some c, m)] := by
  have he : { s with sender := t }.dequeue c m =
      { s with sender := t, conns := Function.update s.conns c (some { w with dequeued := w.dequeued ++ [m] }) } := by
    unfold dequeue
    rw [show ({ s with sender := t } : SenderWire).conns c = some w from hw]
  rw [he]
  refine ⟨hnext, fun d v hv => ?_, fun d hd => ?_⟩
  · by_cases hdc : d = c
    · subst hdc
      obtain rfl : w = v := Option.some.inj (hw.symm.trans hv)
      exact ⟨_, Function.update_self .., List.prefix_rfl, by simp [withKey]⟩
    · refine ⟨v, (Function.update_of_ne hdc _ _).trans hv, List.prefix_rfl, ?_⟩
      simp [withKey, Ne.symm hdc]
  · have hdc : d ≠ c := by
      rintro rfl
      exact absurd (hw.symm.trans hd) (Option.some_ne_none w)
    refine ⟨by simp [withKey, Ne.symm hdc], fun w' hw' => ?_⟩
    dsimp only at hw'
    rw [Function.update_of_ne hdc, hd] at hw'
    cases hw'

/-- The numbers of the connections have been given out. -/
def IdsGiven (s : SenderWire) : Prop := ∀ c w, s.conns c = some w → c < nextId s

theorem extends_thread (h : Inv s) (a : Sender.Action) (result : WriteResult) :
    Extends s (s.thread a result) (takes s.sender (.thread a result)) := by
  have hnext := nextId_thread s a result
  have hnil : Writes s.conns (s.thread a result).conns → Extends s (s.thread a result) [] :=
    fun h => h.extends (Nat.le_of_eq hnext.symm) fun _ => rfl
  cases a with
  | read =>
    have hcl : (s.sender.step capacity .read).client_ = s.sender.client_ :=
      client_step Sender.Action.noConfusion Sender.Action.noConfusion
    have hle : nextId s ≤ (s.sender.step capacity .read).client_.nextConnId_ := by
      rw [hcl]
      exact Nat.le_refl _
    simp only [thread, takes]
    split
    · rename_i m q c hd hq hc
      obtain ⟨-, w, hw, -⟩ := h.current c hc
      rw [hd, hq, hc]
      exact extends_dequeue hw m.bytes hle
    · rename_i hne
      split
      · rename_i m q hd hq
        refine extends_proceed hle fun c => ?_
        have hc : s.sender.client_.connection_ ≠ some c := fun hc => hne m q c hd hq hc
        simp [withKey, hc]
      · exact extends_proceed hle fun _ => rfl
  | sendLen | sendBuf =>
    refine hnil ?_
    simp only [thread]
    split
    · exact writes_proceed ..
    · exact .refl _
  | _ => exact hnil (.refl _)

theorem extends_newConnection (hn : IdsGiven s) (sockfd : Fd) : Extends s (s.newConnection sockfd) [] := by
  unfold newConnection
  split
  · rename_i hd
    have hfree : s.conns s.sender.client_.nextConnId_ = none := by
      refine Option.eq_none_iff_forall_ne_some.mpr fun w hw => ?_
      exact absurd (hn _ w hw) (Nat.lt_irrefl _)
    have hnext : (s.sender.step capacity .newConnection).client_.nextConnId_ = nextId s + 1 := by
      simp only [Sender.step, hd]
      rfl
    refine ⟨?_, fun c w hw => ?_, fun c hc => ⟨rfl, fun w' hw' => ?_⟩⟩
    · exact Nat.le_of_lt (Nat.lt_of_lt_of_eq (Nat.lt_succ_self _) hnext.symm)
    · have hne : c ≠ s.sender.client_.nextConnId_ := by
        rintro rfl
        exact absurd (hfree.symm.trans hw) (Option.some_ne_none w).symm
      exact ⟨w, (Function.update_of_ne hne _ _).trans hw, List.prefix_rfl, (List.append_nil _).symm⟩
    · dsimp only at hw'
      by_cases he : c = s.sender.client_.nextConnId_
      · subst he
        rw [Function.update_self] at hw'
        cases hw'
        exact ⟨rfl, rfl, Nat.lt_of_lt_of_eq (Nat.lt_succ_self _) hnext.symm⟩
      · rw [Function.update_of_ne he, hc] at hw'
        cases hw'
  · exact extends_refl s

theorem extends_callback (s : SenderWire) (c : Nat) (cb : Callback) (readv : ReadvResult) (write : WriteResult) :
    Extends s (s.callback c cb readv write) [] := by
  refine Writes.extends ?_ ?_ fun _ => rfl
  · unfold callback
    split
    · dsimp only
      split
      · exact (writes_onConn ..).trans (writes_proceed ..)
      · exact writes_onConn ..
    · exact .refl _
  · unfold callback
    split
    · rename_i hd _
      dsimp only
      split
      · rw [nextId, nextId, removeConnection, sender_onConn]
        show _ ≤ ((s.onConn c _).sender.step capacity .removeConnection).client_.nextConnId_
        rw [sender_onConn]
        simp only [Sender.step, hd]
        exact Nat.le_refl _
      · rw [nextId, nextId, sender_onConn]
    · exact Nat.le_refl _

theorem extends_step (h : Inv s) (hn : IdsGiven s) (a : Action) :
    Extends s (machine.step s a).1 (takes s.sender a) := by
  cases a with
  | thread a result => exact extends_thread h a result
  | newConnection sockfd => exact extends_newConnection hn sockfd
  | callback c cb readv write => exact extends_callback s c cb readv write
  | others epoller_ =>
    have h : Writes s.conns ({ s with epoller_ } : SenderWire).conns := .refl _
    exact h.extends (Nat.le_refl _) fun _ => rfl

theorem Extends.idsGiven {s' : SenderWire} {new : List (Option Nat × Message)} (h : Extends s s' new)
    (hn : IdsGiven s) : IdsGiven s' := by
  intro c w' hw'
  cases hc : s.conns c with
  | none => exact ((h.new c hc).2 w' hw').2.2
  | some w => exact Nat.lt_of_lt_of_le (hn c w hc) h.next

/-! ## What it does to the queue -/

/-- A step that neither writes to the queue nor reads from it. -/
theorem queue_step_other {t : Sender} {a : Sender.Action} (hw : ∀ i buf, a ≠ .write i buf) (hr : a ≠ .read) :
    (t.step capacity a).stream_buffer_ = t.stream_buffer_ := by
  cases a with
  | write i buf => exact absurd rfl (hw i buf)
  | read => exact absurd rfl hr
  | _ =>
    unfold Sender.step Sender.callSend
    grind

theorem queue_write (t : Sender) (i : Nat) (buf : Message) (result : WriteResult) :
    (t.step capacity (.write i buf)).stream_buffer_.map Numbered.bytes =
      t.stream_buffer_.map Numbered.bytes ++ accepts t (.thread (.write i buf) result) := by
  simp only [Sender.step, accepts]
  cases t.threads i with
  | idle =>
    by_cases hroom : t.Room capacity buf
    · simp [hroom]
    · simp [hroom]
  | _ => exact (List.append_nil _).symm

theorem queue_read (t : Sender) (result : WriteResult) :
    (takes t (.thread .read result)).map Prod.snd ++ (t.step capacity .read).stream_buffer_.map Numbered.bytes =
      t.stream_buffer_.map Numbered.bytes := by
  simp only [Sender.step, takes]
  cases hd : t.drain with
  | read =>
    cases hq : t.stream_buffer_ with
    | nil => simp
    | cons m q => simp
  | _ => rfl

/-- What a step takes out, and the queue behind it, is the queue before it with what the step
puts in. -/
theorem queue_step (s : SenderWire) (a : Action) :
    (takes s.sender a).map Prod.snd ++
        (machine.step s a).1.sender.stream_buffer_.map Numbered.bytes =
      s.sender.stream_buffer_.map Numbered.bytes ++ accepts s.sender a := by
  have hkeep : ∀ {t : Sender}, t.stream_buffer_ = s.sender.stream_buffer_ →
      [] ++ t.stream_buffer_.map Numbered.bytes = s.sender.stream_buffer_.map Numbered.bytes ++ [] := by
    intro t ht
    rw [ht, List.append_nil, List.nil_append]
  cases a with
  | thread a result =>
    show (takes s.sender (.thread a result)).map Prod.snd ++ (s.thread a result).sender.stream_buffer_.map _ = _
    rcases sender_thread s a result with ⟨-, hs⟩ | ⟨rfl | rfl, hs⟩
    · rw [hs]
      cases a with
      | write i buf => exact queue_write s.sender i buf result
      | read => exact (queue_read s.sender result).trans (List.append_nil _).symm
      | _ => exact hkeep (queue_step_other (fun _ _ => Sender.Action.noConfusion) Sender.Action.noConfusion)
    · rw [hs]
      exact hkeep rfl
    · rw [hs]
      exact hkeep rfl
  | newConnection sockfd =>
    refine hkeep (t := (s.newConnection sockfd).sender) ?_
    unfold newConnection
    split
    · exact queue_step_other (fun _ _ => Sender.Action.noConfusion) Sender.Action.noConfusion
    · rfl
  | callback c cb readv write =>
    refine hkeep (t := (s.callback c cb readv write).sender) ?_
    unfold callback
    split
    · dsimp only
      split
      · rw [removeConnection, sender_onConn, sender_onConn]
        exact queue_step_other (fun _ _ => Sender.Action.noConfusion) Sender.Action.noConfusion
      · rw [sender_onConn]
    · rfl
  | others epoller_ => exact hkeep rfl

/-- What it puts in fits the ring. -/
theorem short_accepts (t : Sender) (a : Action) : ∀ m ∈ accepts t a, m.length ≤ 2 ^ 31 - 5 := by
  intro m hm
  cases a with
  | thread a result =>
    cases a with
    | write i buf =>
      simp only [accepts] at hm
      split at hm
      · split at hm
        · rename_i hroom
          obtain rfl := List.mem_singleton.mp hm
          unfold Sender.Room capacity at hroom
          omega
        · cases hm
      · cases hm
    | _ => cases hm
  | _ => cases hm

end Ydx.SenderWire
