import YdxNet.Impl.Sender

/-!
# The sender loses no message

A message for which `send` returned true is in the queue, in the hands of the
drain thread, or has been given to a connection, its length and then its
bytes. This holds along every interleaving in which `write_buffer` always
finds room and the drain thread takes messages out only while there is a
connection (`Smooth`); `send` does not look at the result of `write_buffer`,
and the drain thread does not put back what it cannot send.
-/

namespace Ydx.Sender

open Spec

/-- The message that the drain thread has taken out and not yet given away. -/
def inHand : DrainPc → List Numbered
  | .check (some m) | .sendLen m | .sendBuf m => [m]
  | _ => []

/-- The calls of the connections' `send` for a message. -/
def callsFor (id : Nat) (calls : List SendCall) : List SendCall := calls.filter fun c => c.id = id

/-- The two calls that pass a message on. -/
def passing (c : Nat) (m : Numbered) : List SendCall :=
  [⟨c, m.id, int32Bytes (lenInt m.bytes.length)⟩, ⟨c, m.id, m.bytes⟩]

/-- A message has been passed on once, to one connection. -/
def Passed (s : Sender) (m : Numbered) : Prop := ∃ c, callsFor m.id s.sends = passing c m

/-- `send` has returned true for the message, or will. -/
def Knows (s : Sender) (m : Numbered) : Prop :=
  m ∈ s.returned ∨ ∃ i, s.threads i = .done m ∨ ∃ bRet, s.threads i = .wrote m bRet

/-- What has been done for the message in hand, on a given connection. -/
def Current (connection : Option Nat) (sends : List SendCall) : DrainPc → Prop
  | .check (some m) => callsFor m.id sends = []
  | .sendLen m => callsFor m.id sends = [] ∧ connection ≠ none
  | .sendBuf m => ∃ c, connection = some c ∧ callsFor m.id sends = (passing c m).take 1
  | _ => True

/-- No message is in two places, and none is lost. -/
structure Inv (s : Sender) : Prop where
  nodup : ((s.stream_buffer_ ++ inHand s.drain).map Numbered.id).Nodup
  numbered : ∀ m ∈ s.stream_buffer_ ++ inHand s.drain, m.id < s.nextId
  called : ∀ c ∈ s.sends, c.id < s.nextId
  known : ∀ m, s.Knows m → m ∈ s.stream_buffer_ ++ inHand s.drain ∨ s.Passed m
  unsent : ∀ m ∈ s.stream_buffer_, callsFor m.id s.sends = []
  current : Current s.client_.connection_ s.sends s.drain

/-- The steps that lose nothing: `write_buffer` finds room, and a message that
was taken out meets a connection. -/
def Smooth (cap : Nat) (s : Sender) : Action → Prop
  | .write i buf => s.threads i = .idle → s.Room cap buf
  | .check => inHand s.drain ≠ [] → s.client_.isConnected = true ∧ s.client_.connection_ ≠ none
  | _ => True

instance (cap : Nat) (s : Sender) : ∀ a : Action, Decidable (s.Smooth cap a)
  | .write .. => inferInstanceAs (Decidable (_ → _))
  | .check => inferInstanceAs (Decidable (_ → _))
  | .count _ | .ret _ | .newConnection | .removeConnection | .polled | .test | .wakeup | .read | .sendLen | .sendBuf
  | .decrement => inferInstanceAs (Decidable True)

variable {s s' : Sender} {cap : Nat} {m : Numbered} {i : Nat}

theorem start_inv : Inv start where
  nodup := List.nodup_nil
  numbered _ h := absurd h List.not_mem_nil
  called _ h := absurd h List.not_mem_nil
  known _ h := by
    rcases h with h | ⟨i, h | ⟨b, h⟩⟩
    · exact absurd h List.not_mem_nil
    · exact absurd h SendPc.noConfusion
    · exact absurd h SendPc.noConfusion
  unsent _ h := absurd h List.not_mem_nil
  current := trivial

/-- A step that moves no message. -/
theorem Inv.keep (h : Inv s) (hq : s'.stream_buffer_ = s.stream_buffer_) (hd : inHand s'.drain = inHand s.drain)
    (hs : s'.sends = s.sends) (hn : s'.nextId = s.nextId) (hk : ∀ m, s'.Knows m → s.Knows m)
    (hc : Current s'.client_.connection_ s'.sends s'.drain) : Inv s' := by
  refine ⟨?_, ?_, ?_, ?_, ?_, hc⟩
  · rw [hq, hd]; exact h.nodup
  · rw [hq, hd, hn]; exact h.numbered
  · rw [hs, hn]; exact h.called
  · intro m hm
    rw [hq, hd, Passed, hs]
    exact h.known m (hk m hm)
  · rw [hq, hs]; exact h.unsent

/-- What a thread knows after its program counter moves. -/
theorem knows_update {pc : SendPc} (hm : Knows { s with threads := Function.update s.threads i pc } m)
    (hpc : pc = .done m ∨ (∃ bRet, pc = .wrote m bRet) → s.Knows m) : s.Knows m := by
  rcases hm with hm | ⟨j, hm⟩
  · exact .inl hm
  · by_cases hj : j = i
    · subst hj
      rw [show ({ s with threads := Function.update s.threads j pc } : Sender).threads j = pc from
        Function.update_self ..] at hm
      exact hpc hm
    · rw [show ({ s with threads := Function.update s.threads i pc } : Sender).threads j = s.threads j from
        Function.update_of_ne hj ..] at hm
      exact .inr ⟨j, hm⟩

theorem inHand_notify (pc : DrainPc) : inHand (notify pc) = inHand pc := by
  cases pc <;> rfl

theorem current_notify {connection : Option Nat} {sends : List SendCall} {pc : DrainPc}
    (h : Current connection sends pc) : Current connection sends (notify pc) := by
  cases pc <;> exact h

/-! ## The steps of `send` -/

theorem Inv.write (h : Inv s) (buf : Message) (hs : s.Smooth cap (.write i buf)) : Inv (s.step cap (.write i buf)) := by
  unfold step
  dsimp only
  split
  · rename_i hi
    have hroom : decide (s.Room cap buf) = true := decide_eq_true (hs hi)
    simp only [hroom, if_true]
    have hperm : (s.stream_buffer_ ++ [(⟨s.nextId, buf⟩ : Numbered)] ++ inHand s.drain).Perm
        (⟨s.nextId, buf⟩ :: (s.stream_buffer_ ++ inHand s.drain)) := by
      rw [List.append_assoc]
      exact List.perm_middle
    refine ⟨?_, ?_, ?_, ?_, ?_, h.current⟩
    · refine (hperm.map Numbered.id).nodup_iff.mpr (List.nodup_cons.mpr ⟨fun hm => ?_, h.nodup⟩)
      obtain ⟨m, hm, hid⟩ := List.mem_map.mp hm
      have := h.numbered m hm
      rw [hid] at this
      exact absurd this (Nat.lt_irrefl _)
    · intro m hm
      rcases List.mem_cons.mp (hperm.mem_iff.mp hm) with rfl | hm
      · exact Nat.lt_succ_self _
      · exact Nat.lt_succ_of_lt (h.numbered m hm)
    · exact fun c hc => Nat.lt_succ_of_lt (h.called c hc)
    · intro m hm
      have hin : m = ⟨s.nextId, buf⟩ ∨ s.Knows m := by
        by_cases he : m = ⟨s.nextId, buf⟩
        · exact .inl he
        · refine .inr (knows_update hm fun hpc => ?_)
          rcases hpc with hpc | ⟨b, hpc⟩
          · exact absurd hpc SendPc.noConfusion
          · exact absurd (SendPc.wrote.inj hpc).1.symm he
      rcases hin with rfl | hm
      · exact .inl (hperm.mem_iff.mpr List.mem_cons_self)
      · exact (h.known m hm).imp_left fun hm => hperm.mem_iff.mpr (List.mem_cons_of_mem _ hm)
    · intro m hm
      rcases List.mem_append.mp hm with hm | hm
      · exact h.unsent m hm
      · rw [List.mem_singleton.mp hm]
        refine List.filter_eq_nil_iff.mpr fun c hc => ?_
        have := h.called c hc
        simp only [decide_eq_true_eq]
        omega
  · exact h

theorem Inv.count (h : Inv s) (i : Nat) : Inv (s.step cap (.count i)) := by
  unfold step
  dsimp only
  have hknows : ∀ {m m' : Numbered} {b : Bool}, s.threads i = .wrote m b →
      ((.done m : SendPc) = .done m' ∨ ∃ bRet, (.done m : SendPc) = .wrote m' bRet) → s.Knows m' := by
    rintro m m' b hi (hpc | ⟨b', hpc⟩)
    · obtain rfl := SendPc.done.inj hpc
      exact .inr ⟨i, .inr ⟨b, hi⟩⟩
    · exact absurd hpc SendPc.noConfusion
  split
  · rename_i m hi
    refine h.keep rfl ?_ rfl rfl (fun m' hm => knows_update hm (hknows hi)) ?_
    · dsimp only
      split
      · exact inHand_notify _
      · rfl
    · dsimp only
      split
      · exact current_notify h.current
      · exact h.current
  · rename_i m hi
    exact h.keep rfl rfl rfl rfl (fun m' hm => knows_update hm (hknows hi)) h.current
  · exact h

theorem Inv.ret (h : Inv s) (i : Nat) : Inv (s.step cap (.ret i)) := by
  unfold step
  dsimp only
  split
  · rename_i m hi
    refine h.keep rfl rfl rfl rfl (fun m' hm => ?_) h.current
    have hm' : m' ∈ s.returned ++ [m] ∨ ∃ j, Function.update s.threads i .idle j = .done m' ∨
      ∃ b, Function.update s.threads i .idle j = .wrote m' b := hm
    rcases hm' with hm' | hm'
    · rcases List.mem_append.mp hm' with hm' | hm'
      · exact .inl hm'
      · rw [List.mem_singleton.mp hm']
        exact .inr ⟨i, .inl hi⟩
    · refine knows_update (.inr hm') fun hpc => ?_
      rcases hpc with hpc | ⟨b, hpc⟩ <;> exact absurd hpc SendPc.noConfusion
  · exact h

/-! ## The steps of the drain thread -/

theorem callsFor_own {c : SendCall} {id : Nat} {sends : List SendCall} (h : c.id = id) :
    callsFor id (sends ++ [c]) = callsFor id sends ++ [c] := by
  rw [callsFor, List.filter_append, List.filter_singleton, decide_eq_true h]
  rfl

/-- The calls for other messages stay as they are. -/
theorem callsFor_other {c : SendCall} {id : Nat} {sends : List SendCall} (h : c.id ≠ id) :
    callsFor id (sends ++ [c]) = callsFor id sends := by
  rw [callsFor, List.filter_append, List.filter_singleton, decide_eq_false h]
  exact List.append_nil _

/-- The client changes only while no message is in hand. -/
theorem Inv.client (h : Inv s) (hd : s.drain = .poll) (client : TcpClient) : Inv { s with client_ := client } := by
  refine h.keep rfl rfl rfl rfl (fun _ hm => hm) ?_
  rw [show ({ s with client_ := client } : Sender).drain = .poll from hd]
  trivial

/-- The drain thread moves on, with the message in hand if there is one. -/
theorem Inv.move (h : Inv s) {pc : DrainPc} (hd : inHand pc = inHand s.drain)
    (hc : Current s.client_.connection_ s.sends pc) : Inv { s with drain := pc } :=
  h.keep rfl hd rfl rfl (fun _ hm => hm) hc

theorem Inv.read (h : Inv s) : Inv (s.step cap .read) := by
  unfold step
  dsimp only
  split
  · rename_i hd
    split
    · exact h.move (by rw [hd]; rfl) trivial
    · rename_i m q hq
      have hn : s.stream_buffer_ ++ inHand s.drain = m :: q := by rw [hq, hd]; exact List.append_nil _
      have hperm : (q ++ [m]).Perm (m :: q) := List.perm_append_comm
      refine ⟨?_, ?_, h.called, ?_, ?_, ?_⟩
      · exact (hperm.map Numbered.id).nodup_iff.mpr (hn ▸ h.nodup)
      · exact fun m' hm => h.numbered m' (hn ▸ hperm.mem_iff.mp hm)
      · intro m' hm
        refine (h.known m' hm).imp_left fun hm => ?_
        rw [hn] at hm
        exact hperm.mem_iff.mpr hm
      · exact fun m' hm => h.unsent m' (by rw [hq]; exact List.mem_cons_of_mem _ hm)
      · exact h.unsent m (by rw [hq]; exact List.mem_cons_self)
  · exact h

theorem Inv.check (h : Inv s) (hs : s.Smooth cap .check) : Inv (s.step cap .check) := by
  unfold step
  dsimp only
  split
  · rename_i m hd
    obtain ⟨hc, hn⟩ := hs (by rw [hd]; exact List.cons_ne_nil _ _)
    rw [if_pos hc]
    have hcur := h.current
    rw [hd] at hcur
    exact h.move (by rw [hd]; rfl) ⟨hcur, hn⟩
  · rename_i hd
    exact h.move (by rw [hd]; rfl) trivial
  · exact h

/-- The message in hand is none of those in the queue. -/
theorem Inv.ne_inHand (h : Inv s) (hd : inHand s.drain = [m]) : ∀ m' ∈ s.stream_buffer_, m.id ≠ m'.id := by
  intro m' hm hid
  have hnd := h.nodup
  rw [hd, List.map_append] at hnd
  refine (List.nodup_append'.mp hnd).2.2 (List.mem_map_of_mem hm) ?_
  rw [← hid]
  exact List.mem_singleton_self _

/-- A passed message is not in hand, since its calls are complete. -/
theorem Passed.append {c : SendCall} {m' : Numbered} (hp : s.Passed m') (hne : c.id ≠ m'.id) :
    ∃ c', callsFor m'.id (s.sends ++ [c]) = passing c' m' := by
  obtain ⟨c', hc'⟩ := hp
  exact ⟨c', (callsFor_other hne).trans hc'⟩

theorem Inv.sendLen (h : Inv s) : Inv (s.step cap .sendLen) := by
  unfold step
  dsimp only
  split
  · rename_i m hd
    have hcur := h.current
    rw [hd] at hcur
    obtain ⟨hnil, hconn⟩ := hcur
    obtain ⟨c, hc⟩ := Option.ne_none_iff_exists'.mp hconn
    have hh : inHand s.drain = [m] := by rw [hd]; rfl
    have hlt : m.id < s.nextId := h.numbered m (List.mem_append_right _ (by rw [hh]; exact List.mem_singleton_self _))
    rw [callSend, hc]
    dsimp only
    refine ⟨?_, ?_, ?_, ?_, ?_, ?_⟩
    · have := h.nodup
      rw [hh] at this
      exact this
    · have := h.numbered
      rw [hh] at this
      exact this
    · intro d hdm
      rcases List.mem_append.mp hdm with hdm | hdm
      · exact h.called d hdm
      · rw [List.mem_singleton.mp hdm]; exact hlt
    · intro m' hm
      rcases h.known m' hm with hm | hp
      · exact .inl (by rw [hh] at hm; exact hm)
      · refine .inr (hp.append fun hid => ?_)
        obtain ⟨c', hc'⟩ := hp
        rw [show m'.id = m.id from hid.symm, hnil] at hc'
        exact absurd hc' (List.cons_ne_nil _ _).symm
    · intro m' hm
      exact (callsFor_other (h.ne_inHand hh m' hm)).trans (h.unsent m' hm)
    · have hown : callsFor m.id (s.sends ++ [⟨c, m.id, int32Bytes (lenInt m.bytes.length)⟩]) =
          callsFor m.id s.sends ++ [⟨c, m.id, int32Bytes (lenInt m.bytes.length)⟩] := callsFor_own rfl
      exact ⟨c, hc, hown.trans (by rw [hnil]; rfl)⟩
  · exact h

theorem Inv.sendBuf (h : Inv s) : Inv (s.step cap .sendBuf) := by
  unfold step
  dsimp only
  split
  · rename_i m hd
    have hcur := h.current
    rw [hd] at hcur
    obtain ⟨c, hc, hone⟩ := hcur
    have hh : inHand s.drain = [m] := by rw [hd]; rfl
    have hlt : m.id < s.nextId := h.numbered m (List.mem_append_right _ (by rw [hh]; exact List.mem_singleton_self _))
    have hown : callsFor m.id (s.sends ++ [⟨c, m.id, m.bytes⟩]) = callsFor m.id s.sends ++ [⟨c, m.id, m.bytes⟩] :=
      callsFor_own rfl
    have hself : callsFor m.id (s.sends ++ [⟨c, m.id, m.bytes⟩]) = passing c m := hown.trans (by rw [hone]; rfl)
    rw [callSend, hc]
    dsimp only
    refine ⟨?_, ?_, ?_, ?_, ?_, trivial⟩
    · have := h.nodup
      rw [List.map_append] at this
      exact (List.append_nil s.stream_buffer_).symm ▸ (List.nodup_append'.mp this).1
    · exact fun m' hm => h.numbered m' (List.mem_append_left _ ((List.append_nil s.stream_buffer_) ▸ hm))
    · intro d hdm
      rcases List.mem_append.mp hdm with hdm | hdm
      · exact h.called d hdm
      · rw [List.mem_singleton.mp hdm]; exact hlt
    · intro m' hm
      rcases h.known m' hm with hm | hp
      · rcases List.mem_append.mp hm with hm | hm
        · exact .inl (List.mem_append_left _ hm)
        · rw [hh, List.mem_singleton] at hm
          exact .inr ⟨c, hm ▸ hself⟩
      · refine .inr (hp.append fun hid => ?_)
        obtain ⟨c', hc'⟩ := hp
        rw [show m'.id = m.id from hid.symm, hone] at hc'
        exact absurd (congrArg List.length hc') (by simp [passing])
    · intro m' hm
      exact (callsFor_other (h.ne_inHand hh m' hm)).trans (h.unsent m' hm)
  · exact h

theorem step_inv {a : Action} (h : Inv s) (hs : s.Smooth cap a) : Inv (s.step cap a) := by
  cases a with
  | write i buf => exact h.write buf hs
  | count i => exact h.count i
  | ret i => exact h.ret i
  | newConnection => unfold step; dsimp only; split; exacts [h.client ‹_› _, h]
  | removeConnection => unfold step; dsimp only; split; exacts [h.client ‹_› _, h]
  | polled =>
    unfold step
    dsimp only
    split
    · rename_i hd; exact h.move (by rw [hd]; rfl) trivial
    · exact h
  | test =>
    unfold step
    dsimp only
    split
    · rename_i hd
      split
      · exact h.move (by rw [hd]; rfl) trivial
      · exact h.move (by rw [hd]; rfl) trivial
    · exact h
  | wakeup =>
    unfold step
    dsimp only
    split
    · rename_i hd; exact h.move (by rw [hd]; rfl) trivial
    · exact h
  | read => exact h.read
  | check => exact h.check hs
  | sendLen => exact h.sendLen
  | sendBuf => exact h.sendBuf
  | decrement =>
    unfold step
    dsimp only
    split
    · rename_i hd; exact h.keep rfl (by rw [hd]; rfl) rfl rfl (fun _ hm => hm) trivial
    · exact h

/-! ## Runs -/

/-- A message is still queued, once, or has been passed on, once: its length
and then its bytes, to the `send` of one connection. -/
def Accounted (s : Sender) (m : Numbered) : Prop :=
  (s.stream_buffer_.count m = 1 ∧ callsFor m.id s.sends = []) ∨
  (m ∉ s.stream_buffer_ ∧ ∃ c, callsFor m.id s.sends =
    [⟨c, m.id, int32Bytes (lenInt m.bytes.length)⟩, ⟨c, m.id, m.bytes⟩])

/-- No accepted message is lost: at the end of every iteration of the drain
loop, after every interleaving whose steps are smooth, each message for which
`send` returned true is queued or has been passed on, and that once. -/
theorem accepted_accounted (cap : Nat) (actions : List Action) (hs : (machine cap).Along (Smooth cap) start actions)
    (hd : ((machine cap).final start actions).drain = .poll) :
    ∀ m ∈ ((machine cap).final start actions).returned, ((machine cap).final start actions).Accounted m := by
  have h : Inv ((machine cap).final start actions) :=
    Machine.invariant (I := Inv) (fun _ _ h ha => step_inv h ha) actions start start_inv hs
  intro m hm
  have hknown := h.known m (.inl hm)
  have hnd := h.nodup
  rw [hd, show inHand .poll = [] from rfl, List.append_nil] at hknown hnd
  by_cases hq : m ∈ ((machine cap).final start actions).stream_buffer_
  · exact .inl ⟨List.count_eq_one_of_mem (List.Nodup.of_map _ hnd) hq, h.unsent m hq⟩
  · exact .inr ⟨hq, hknown.resolve_left hq⟩

/-- Two threads send while the connection comes, goes and comes back. -/
def smoothRun : List Action :=
  [.newConnection, .write 0 [1, 2], .write 7 [3], .count 7, .ret 7, .polled, .test, .read, .check, .sendLen, .count 0,
    .sendBuf, .ret 0, .decrement, .removeConnection, .newConnection, .polled, .test, .read, .check, .sendLen, .sendBuf,
    .decrement, .write 0 [4], .count 0, .ret 0]

theorem accepted_accounted_smoothRun :
    (machine 64).Along (Smooth 64) start smoothRun ∧
    ((machine 64).final start smoothRun).returned = [⟨1, [3]⟩, ⟨0, [1, 2]⟩, ⟨2, [4]⟩] ∧
    ∀ m ∈ ((machine 64).final start smoothRun).returned, ((machine 64).final start smoothRun).Accounted m := by
  have hs : (machine 64).Along (Smooth 64) start smoothRun := by decide +kernel
  have hd : ((machine 64).final start smoothRun).drain = .poll := by decide +kernel
  exact ⟨hs, by decide +kernel, accepted_accounted 64 smoothRun hs hd⟩

/-- A message that is taken out while there is no connection. -/
def lostRun : List Action :=
  [.newConnection, .write 0 [1, 2], .count 0, .ret 0, .removeConnection, .polled, .test, .read, .check]

/-- A message for which there is no room. -/
def fullRun : List Action := [.write 0 [1, 2, 3, 4, 5], .count 0, .ret 0]

instance (s : Sender) (m : Numbered) : Decidable (s.Accounted m) :=
  decidable_of_iff ((s.stream_buffer_.count m = 1 ∧ callsFor m.id s.sends = []) ∨
    (m ∉ s.stream_buffer_ ∧ callsFor m.id s.sends = passing ((callsFor m.id s.sends).head?.elim 0 SendCall.conn) m)) <| by
    refine or_congr Iff.rfl (and_congr Iff.rfl ⟨fun h => ⟨_, h⟩, ?_⟩)
    rintro ⟨c, h⟩
    rw [h]
    rfl

/-- `send` returns true for both, and they are gone. -/
theorem accepted_lost :
    ((machine 64).final start lostRun).drain = .poll ∧ ((machine 64).final start lostRun).returned = [⟨0, [1, 2]⟩] ∧
    ¬ ((machine 64).final start lostRun).Accounted ⟨0, [1, 2]⟩ ∧
    ((machine 8).final start fullRun).drain = .poll ∧
    ((machine 8).final start fullRun).returned = [⟨0, [1, 2, 3, 4, 5]⟩] ∧
    ¬ ((machine 8).final start fullRun).Accounted ⟨0, [1, 2, 3, 4, 5]⟩ := by
  decide +kernel

end Ydx.Sender
