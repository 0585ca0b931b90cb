import Mathlib.Data.Int.CardIntervalMod
import YdxNet.Proof.ConnectionNames

/-!
# How connections are dealt to the loops

`getNextLoop` goes round the pool. Whatever happens between two accepts, connection `c`
is on the loop `loopOf k c` from the time it is made, so that at any time each of the `k`
loops of a pool has its share of the connections made, up to one (`loops_balanced`).
-/

namespace Ydx

namespace TcpServer

variable {s s' s₁ s₂ s₃ : TcpServer} {k : Nat}

/-- The pool stays, and the connections stay on their loops. -/
structure Placed (s s' : TcpServer) : Prop where
  pool : s'.threadPool_ = s.threadPool_
  loops : s'.conns.map ServerConn.epoller_ = s.conns.map ServerConn.epoller_

theorem placed_setLoop (s : TcpServer) (l : Nat) (e : EventLoop Functor) : Placed s (s.setLoop l e) := ⟨rfl, rfl⟩

theorem map_epoller_set {c : Nat} {C C' : ServerConn} (hc : s.conns[c]? = some C) (he : C'.epoller_ = C.epoller_) :
    (s.conns.set c C').map ServerConn.epoller_ = s.conns.map ServerConn.epoller_ := by
  obtain ⟨hlt, rfl⟩ := List.getElem?_eq_some_iff.mp hc
  rw [List.map_set, he, ← List.map_set, List.set_getElem_self]

theorem placed_frame : Frame Placed where
  refl _ := ⟨rfl, rfl⟩
  trans h₁ h₂ := ⟨h₂.pool.trans h₁.pool, h₂.loops.trans h₁.loops⟩
  queueInLoop s _ l _ := placed_setLoop s l _
  set _ hc he _ _ _ := ⟨rfl, map_epoller_set hc he⟩
  store hc he _ _ := ⟨rfl, map_epoller_set hc he⟩

/-- The loop of connection number `c`, with `k` loops in the pool. -/
def loopOf (k c : Nat) : Nat := if k = 0 then 0 else c % k + 1

/-- The connections are on their loops, and the next one goes to the next. -/
structure Dealt (k : Nat) (s : TcpServer) : Prop where
  pool : s.threadPool_.numThreads_ = k
  next : s.threadPool_.next_ = if k = 0 then 0 else s.conns.length % k
  loops : s.conns.map ServerConn.epoller_ = (List.range s.conns.length).map (loopOf k)

theorem start_dealt (name hostport : String) (k : Nat) (baseWakeup : Bool) : Dealt k (start name hostport k baseWakeup) where
  pool := rfl
  next := by
    show 0 = if k = 0 then 0 else 0 % k
    rw [Nat.zero_mod, ite_self]
  loops := rfl

theorem Dealt.placed (h : Dealt k s) (hp : Placed s s') : Dealt k s' := by
  have hlen : s'.conns.length = s.conns.length := by
    have := congrArg List.length hp.loops
    rwa [List.length_map, List.length_map] at this
  refine ⟨?_, ?_, ?_⟩
  · rw [hp.pool]
    exact h.pool
  · rw [hp.pool, hlen]
    exact h.next
  · rw [hp.loops, hlen]
    exact h.loops

/-- The turn of connection number `n`. -/
theorem Dealt.getNextLoop (h : Dealt k s) : s.threadPool_.getNextLoop.1 = loopOf k s.conns.length ∧
    s.threadPool_.getNextLoop.2 = ⟨k, if k = 0 then 0 else (s.conns.length + 1) % k⟩ := by
  have hpool : s.threadPool_ = ⟨k, if k = 0 then 0 else s.conns.length % k⟩ := by
    rw [← h.next, ← h.pool]
  rw [hpool, EPollerThreadPool.getNextLoop, loopOf]
  by_cases hk : k = 0
  · simp only [if_pos hk, and_self]
  · simp only [if_neg hk, true_and]
    have hlt := Nat.mod_lt s.conns.length (Nat.pos_of_ne_zero hk)
    have hnext : (s.conns.length + 1) % k = (s.conns.length % k + 1) % k := (Nat.mod_add_mod ..).symm
    split
    · rename_i hge
      rw [hnext, show s.conns.length % k + 1 = k by omega, Nat.mod_self]
    · rename_i hge
      rw [hnext, Nat.mod_eq_of_lt (a := s.conns.length % k + 1) (by omega)]

theorem Dealt.added (h : Dealt k s) (fd : Fd) : Dealt k (s.added fd) := by
  obtain ⟨hloop, hpool⟩ := h.getNextLoop
  have hlen : (s.added fd).conns.length = s.conns.length + 1 := by
    simp [TcpServer.added]
  refine ⟨?_, ?_, ?_⟩
  · show s.threadPool_.getNextLoop.2.numThreads_ = k
    rw [hpool]
  · show s.threadPool_.getNextLoop.2.next_ = _
    rw [hpool, hlen]
  · rw [hlen, List.range_succ, List.map_append, ← h.loops, List.map_singleton, ← hloop]
    simp [TcpServer.added]

theorem Dealt.step (h : Dealt k s) (a : Action) : Dealt k (s.step a) := by
  rcases placed_frame.step placed_setLoop s a with hp | ⟨fd, s₁, -, hp₁, -, hp₂⟩
  · exact h.placed hp
  · exact ((h.placed hp₁).added fd).placed hp₂

/-- How many of the first `n` connections are on loop `l + 1`. -/
theorem count_loopOf (hk : k ≠ 0) {l : Nat} (hl : l < k) (n : Nat) :
    ((List.range n).map (loopOf k)).count (l + 1) = n / k + if l < n % k then 1 else 0 := by
  have hcount : ((List.range n).map (loopOf k)).count (l + 1) = n.count (· ≡ l [MOD k]) := by
    rw [List.count, List.countP_map, Nat.count]
    refine List.countP_congr fun c _ => ?_
    simp [loopOf, hk, Nat.ModEq, Nat.mod_eq_of_lt hl]
  rw [hcount, Nat.count_modEq_card n (Nat.pos_of_ne_zero hk), Nat.mod_eq_of_lt hl]

/-- In every run: a connection is on the loop of its number, and of the `n` connections made each
loop of the pool has `n / k`, and the first `n % k` loops have one more. -/
theorem loops_balanced (name hostport : String) (k : Nat) (baseWakeup : Bool) (actions : List Action) :
    let s := machine.final (start name hostport k baseWakeup) actions
    (∀ (c : Nat) (C : ServerConn), s.conns[c]? = some C → C.epoller_ = loopOf k c) ∧
      ∀ l < k, (s.conns.map ServerConn.epoller_).count (l + 1) =
        s.conns.length / k + if l < s.conns.length % k then 1 else 0 := by
  intro s
  have h : Dealt k s := Machine.always (I := Dealt k) (fun _ a h => h.step a) actions _
    (start_dealt name hostport k baseWakeup)
  refine ⟨fun c C hc => ?_, fun l hl => ?_⟩
  · have hlt := (List.getElem?_eq_some_iff.mp hc).1
    have hget : (s.conns.map ServerConn.epoller_)[c]? = ((List.range s.conns.length).map (loopOf k))[c]? := by
      rw [h.loops]
    rw [List.getElem?_map, hc, List.getElem?_map, List.getElem?_range hlt] at hget
    exact Option.some.inj hget
  · rw [h.loops]
    exact count_loopOf (by omega) hl _

end TcpServer

end Ydx
