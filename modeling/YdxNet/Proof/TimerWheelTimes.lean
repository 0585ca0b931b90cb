import YdxNet.Proof.TimerWheel

/-!
# The timer wheel and the clock

The wheel counts pushes; a call of `addNode` makes one for each whole
millisecond since `time_`, and then moves `time_` to its own time, so that
what is left of the last millisecond counts for nothing (`lost`). Over a run
the pushes are what `time_` has moved, less what was lost (`elapsed`). That
`time_` moves at least as far as the pushes go makes a node never early
(`never_early`), and what was lost is by how much it can be late
(`never_late_iff`).
-/

namespace Ydx

theorem timeDifferenceMicro_cases (high low : Int) :
    low ≤ high ∧ timeDifferenceMicro high low = (high - low) / 1000 ∨
      high < low ∧ timeDifferenceMicro high low = -((low - high) / 1000) := by
  by_cases h : low ≤ high
  · exact .inl ⟨h, Int.tdiv_eq_ediv_of_nonneg (by omega)⟩
  · refine .inr ⟨by omega, ?_⟩
    have hneg : high - low = -(low - high) := by omega
    rw [timeDifferenceMicro, hneg, Int.neg_tdiv, Int.tdiv_eq_ediv_of_nonneg (by omega)]

namespace TimerWheel

variable {N node x p : Nat} {w : TimerWheel} {time t T : Int} {v v' : Option Nat}

/-- `time_` after a call of `addNode` with this time. -/
def timeAfter (time_ time : Int) : Int := if 1000 ≤ time - time_ then time else time_

/-- The microseconds that truncation has thrown away in calls with these times. -/
def lost (time_ : Int) : List Int → Int
  | [] => 0
  | time :: times => (if 1000 ≤ time - time_ then (time - time_) % 1000 else 0) + lost (timeAfter time_ time) times

/-- The times of the calls of `addNode`. -/
def times (ops : List Op) : List Int := ops.filterMap fun op =>
  match op with
  | .addNode time _ => some time
  | .refreshNode _ => none

/-! ## One call -/

@[simp] theorem pushes_pushBacks (d : Nat) (w : TimerWheel) : (pushBacks d w).pushes = w.pushes + d := by
  induction d generalizing w with
  | zero => rfl
  | succ d ih =>
    show (pushBacks d w.pushBack).pushes = _
    rw [ih]
    show w.pushes + 1 + d = _
    omega

@[simp] theorem time_pushBacks (d : Nat) (w : TimerWheel) : (pushBacks d w).time_ = w.time_ := by
  induction d generalizing w with
  | zero => rfl
  | succ d ih => exact ih _

@[simp] theorem touched_pushBacks (d : Nat) (w : TimerWheel) : (pushBacks d w).touched = w.touched := by
  induction d generalizing w with
  | zero => rfl
  | succ d ih => exact ih _

@[simp] theorem nodes_pushBacks (d : Nat) (w : TimerWheel) : (pushBacks d w).nodes = w.nodes := by
  induction d generalizing w with
  | zero => rfl
  | succ d ih => exact ih _

/-- What `addNode` does when the time is too far back. -/
theorem addNode_rejected (h : time ≤ w.time_ - 1000) :
    w.addNode time v = ({ w with nodes := w.nodes + 1, ran := w.ran ++ [⟨w.nodes, w.pushes⟩] }, false, v) := by
  have hd : timeDifferenceMicro time w.time_ < 0 := by
    rcases timeDifferenceMicro_cases time w.time_ with ⟨hle, hd⟩ | ⟨hlt, hd⟩
    · omega
    · omega
  simp only [addNode, if_pos hd]

/-- What it does otherwise: pushes, and the node is put into the back bucket. -/
theorem addNode_accepted (h : w.time_ - 1000 < time) :
    w.addNode time v = ((pushBacks (timeDifferenceMicro time w.time_).toNat
      { w with nodes := w.nodes + 1, time_ := timeAfter w.time_ time }).put w.nodes, true, some w.nodes) := by
  have hd : ¬ timeDifferenceMicro time w.time_ < 0 ∧
      (timeDifferenceMicro time w.time_ > 0 ↔ 1000 ≤ time - w.time_) := by
    rcases timeDifferenceMicro_cases time w.time_ with ⟨hle, hd⟩ | ⟨hlt, hd⟩
    · omega
    · omega
  simp only [addNode, if_neg hd.1, timeAfter, hd.2]

theorem addNode_accepts_iff : (w.addNode time v).2 = (true, some x) ↔ w.time_ - 1000 < time ∧ x = w.nodes := by
  by_cases h : w.time_ - 1000 < time
  · rw [addNode_accepted h]
    simp [h, eq_comm]
  · rw [addNode_rejected (by omega)]
    simp [h]

theorem time_addNode (w : TimerWheel) (time : Int) (v : Option Nat) :
    (w.addNode time v).1.time_ = timeAfter w.time_ time := by
  by_cases h : w.time_ - 1000 < time
  · rw [addNode_accepted h]
    exact time_pushBacks ..
  · rw [addNode_rejected (by omega), timeAfter, if_neg (by omega)]

/-- The pushes of a call, by what `time_` moves and what is lost. -/
theorem pushes_addNode (w : TimerWheel) (time : Int) (v : Option Nat) :
    1000 * ((w.addNode time v).1.pushes : Int) + lost w.time_ [time] =
      1000 * w.pushes + (timeAfter w.time_ time - w.time_) := by
  simp only [lost, timeAfter, Int.add_zero]
  by_cases h : w.time_ - 1000 < time
  · rw [addNode_accepted h]
    show 1000 * (((pushBacks _ _).pushes : Nat) : Int) + _ = _
    rw [pushes_pushBacks]
    rcases timeDifferenceMicro_cases time w.time_ with ⟨hle, hd⟩ | ⟨hlt, hd⟩
    · rw [hd]
      show 1000 * ((w.pushes + _ : Nat) : Int) + _ = _
      split
      · omega
      · omega
    · rw [hd]
      show 1000 * ((w.pushes + _ : Nat) : Int) + _ = _
      split
      · omega
      · omega
  · rw [addNode_rejected (by omega), if_neg (by omega), if_neg (by omega)]
    show 1000 * (w.pushes : Int) + 0 = 1000 * w.pushes + (w.time_ - w.time_)
    omega

/-! ## Runs -/

theorem time_refreshNode (w : TimerWheel) (x : Nat) :
    (w.refreshNode x).time_ = w.time_ ∧ (w.refreshNode x).pushes = w.pushes := by
  unfold refreshNode
  split
  · exact ⟨rfl, rfl⟩
  · exact ⟨rfl, rfl⟩

theorem time_final (ops : List Op) (w : TimerWheel) : (machine.final w ops).time_ = (times ops).foldl timeAfter w.time_ := by
  induction ops generalizing w with
  | nil => rfl
  | cons op ops ih =>
    cases op with
    | addNode time v =>
      show (machine.final (w.addNode time v).1 ops).time_ = _
      rw [ih, time_addNode]
      rfl
    | refreshNode x =>
      show (machine.final (w.refreshNode x) ops).time_ = _
      rw [ih, (time_refreshNode w x).1]
      rfl

theorem lost_cons (r time : Int) (ts : List Int) : lost r (time :: ts) = lost r [time] + lost (timeAfter r time) ts := by
  simp only [lost, Int.add_zero]

/-- Over a run, the pushes are what `time_` has moved, less what was lost. -/
theorem elapsed (ops : List Op) (w : TimerWheel) :
    1000 * ((machine.final w ops).pushes : Int) + lost w.time_ (times ops) =
      1000 * w.pushes + ((times ops).foldl timeAfter w.time_ - w.time_) := by
  induction ops generalizing w with
  | nil => simp [Machine.final, times, lost]
  | cons op ops ih =>
    cases op with
    | addNode time v =>
      have h₁ := pushes_addNode w time v
      have h₂ := ih (w.addNode time v).1
      rw [time_addNode] at h₂
      show 1000 * ((machine.final (w.addNode time v).1 ops).pushes : Int) + lost w.time_ (time :: times ops) =
        1000 * w.pushes + ((times ops).foldl timeAfter (timeAfter w.time_ time) - w.time_)
      rw [lost_cons]
      omega
    | refreshNode x =>
      have h := ih (w.refreshNode x)
      rw [(time_refreshNode w x).1, (time_refreshNode w x).2] at h
      exact h

theorem lost_nonneg (r : Int) (ts : List Int) : 0 ≤ lost r ts := by
  induction ts generalizing r with
  | nil => exact Int.le_refl 0
  | cons time ts ih =>
    have := ih (timeAfter r time)
    simp only [lost]
    split
    · omega
    · omega

/-! ## A node -/

/-- The node has been accepted, and was last put into a bucket after push `p`. -/
structure PutAfter (x p : Nat) (w : TimerWheel) : Prop where
  made : x < w.nodes
  touched : w.touched x = some p
  past : p ≤ w.pushes

theorem putAfter_addNode (h : (w.addNode time v).2 = (true, some x)) :
    PutAfter x (w.addNode time v).1.pushes (w.addNode time v).1 := by
  obtain ⟨ha, rfl⟩ := addNode_accepts_iff.mp h
  rw [addNode_accepted ha]
  refine ⟨?_, ?_, Nat.le_refl _⟩
  · show w.nodes < (pushBacks _ _).nodes
    rw [nodes_pushBacks]
    exact Nat.lt_succ_self _
  · exact Function.update_self ..

theorem pushes_le_addNode (w : TimerWheel) (time : Int) (v : Option Nat) : w.pushes ≤ (w.addNode time v).1.pushes := by
  by_cases h : w.time_ - 1000 < time
  · rw [addNode_accepted h]
    show w.pushes ≤ (pushBacks _ _).pushes
    rw [pushes_pushBacks]
    exact Nat.le_add_right ..
  · have hr : time ≤ w.time_ - 1000 := by omega
    simp only [addNode_rejected hr, Nat.le_refl]

/-- Other nodes come and go. -/
theorem PutAfter.addNode (h : PutAfter x p w) (time : Int) (v : Option Nat) : PutAfter x p (w.addNode time v).1 := by
  have hle := pushes_le_addNode w time v
  have hne : x ≠ w.nodes := Nat.ne_of_lt h.made
  by_cases ha : w.time_ - 1000 < time
  · rw [addNode_accepted ha] at hle ⊢
    refine ⟨?_, ?_, Nat.le_trans h.past hle⟩
    · show x < (pushBacks _ _).nodes
      rw [nodes_pushBacks]
      exact Nat.lt_succ_of_lt h.made
    · show Function.update (pushBacks _ _).touched w.nodes _ x = some p
      rw [Function.update_of_ne hne, touched_pushBacks]
      exact h.touched
  · rw [addNode_rejected (by omega)]
    exact ⟨Nat.lt_succ_of_lt h.made, h.touched, h.past⟩

theorem PutAfter.refreshNode (h : PutAfter x p w) (y : Nat) :
    ∃ p', PutAfter x p' (w.refreshNode y) ∧ p ≤ p' ∧ (y ≠ x → p' = p) := by
  unfold TimerWheel.refreshNode
  split
  · by_cases hy : x = y
    · subst hy
      exact ⟨w.pushes, ⟨h.made, Function.update_self .., Nat.le_refl _⟩, h.past, fun hne => absurd rfl hne⟩
    · exact ⟨p, ⟨h.made, (Function.update_of_ne hy ..).trans h.touched, h.past⟩, Nat.le_refl _, fun _ => rfl⟩
  · exact ⟨p, h, Nat.le_refl _, fun _ => rfl⟩

/-- Over a run it is put into later buckets, if it is refreshed at all. -/
theorem PutAfter.final (h : PutAfter x p w) (ops : List Op) :
    ∃ p', PutAfter x p' (machine.final w ops) ∧ p ≤ p' ∧ (.refreshNode x ∉ ops → p' = p) := by
  induction ops generalizing w p with
  | nil => exact ⟨p, h, Nat.le_refl _, fun _ => rfl⟩
  | cons op ops ih =>
    cases op with
    | addNode time v =>
      obtain ⟨p', hp', hle, hsame⟩ := ih (h.addNode time v)
      exact ⟨p', hp', hle, fun hn => hsame fun hm => hn (List.mem_cons_of_mem _ hm)⟩
    | refreshNode y =>
      obtain ⟨p₁, h₁, hle₁, hsame₁⟩ := h.refreshNode y
      obtain ⟨p', hp', hle, hsame⟩ := ih h₁
      refine ⟨p', hp', Nat.le_trans hle₁ hle, fun hn => ?_⟩
      rw [hsame fun hm => hn (List.mem_cons_of_mem _ hm)]
      exact hsame₁ fun he => hn (by rw [he]; exact List.mem_cons_self)

/-- Its callback has run when the wheel has been pushed around once since. -/
theorem Inv.callbacks_iff (h : Inv N w) (hp : PutAfter x p w) : w.callbacks x ≠ [] ↔ p + N ≤ w.pushes := by
  rw [h.calls hp.touched]
  by_cases hle : p + N ≤ w.pushes
  · rw [if_pos hle]
    exact iff_of_true (List.cons_ne_nil _ _) hle
  · rw [if_neg hle]
    exact iff_of_false (fun hn => hn rfl) hle

/-- In a wheel with `N` buckets, if the callback of a node that was accepted with
time `t` runs in a call of `addNode` with time `T`, then `T` is more than
`N - 1` milliseconds after `t`, whatever calls came before and in between, and
whatever the pointers that the callers give held before. -/
theorem never_early (N : Nat) (hN : 0 < N) (now : Int) (before after : List Op) (t T : Int) (v v' : Option Nat)
    (x : Nat) :
    let w := machine.final (new N now) before
    let w' := machine.final (w.addNode t v).1 after
    (w.addNode t v).2 = (true, some x) → (w'.addNode T v').1.callbacks x ≠ w'.callbacks x →
      ((N : Int) - 1) * 1000 < T - t := by
  intro w w' hx hran
  have hw : Inv N (w.addNode t v).1 := ((new_inv N now).final hN before).addNode hN t v
  have hw' : Inv N w' := hw.final hN after
  have hput := putAfter_addNode hx
  obtain ⟨p', hp', hle, -⟩ := hput.final after
  have hcalls := hw'.calls hp'.touched
  have hcalls' := (hw'.addNode hN T v').calls (hp'.addNode T v').touched
  -- the last call pushes, so it moves `time_` to its own time
  have hlast : w'.pushes < p' + N ∧ p' + N ≤ (w'.addNode T v').1.pushes := by
    by_cases h₁ : p' + N ≤ w'.pushes
    · rw [if_pos (Nat.le_trans h₁ (pushes_le_addNode w' T v'))] at hcalls'
      rw [if_pos h₁] at hcalls
      exact absurd (hcalls'.trans hcalls.symm) hran
    · by_cases h₂ : p' + N ≤ (w'.addNode T v').1.pushes
      · exact ⟨Nat.lt_of_not_le h₁, h₂⟩
      · rw [if_neg h₂] at hcalls'
        rw [if_neg h₁] at hcalls
        exact absurd (hcalls'.trans hcalls.symm) hran
  have hrun := elapsed after (w.addNode t v).1
  rw [← time_final after (w.addNode t v).1] at hrun
  have hcall := pushes_addNode w' T v'
  have hl₁ := lost_nonneg (w.addNode t v).1.time_ (times after)
  have hl₂ := lost_nonneg w'.time_ [T]
  have htime : t - 1000 < (w.addNode t v).1.time_ ∧ timeAfter w'.time_ T = T := by
    constructor
    · have := (addNode_accepts_iff.mp hx).1
      rw [time_addNode, timeAfter]
      split
      · omega
      · omega
    · simp only [timeAfter] at hcall ⊢
      split
      · rfl
      · rename_i hlt
        rw [if_neg hlt] at hcall
        omega
  have hpushes : (p' + N : Int) ≤ ((w'.addNode T v').1.pushes : Int) := by exact_mod_cast hlast.2
  have hle' : ((w.addNode t v).1.pushes : Int) ≤ p' := by exact_mod_cast hle
  change 1000 * (w'.pushes : Int) + _ = _ + (w'.time_ - _) at hrun
  rw [htime.2] at hcall
  omega

theorem never_early_refreshed :
    let w := machine.final (new 2 0) []
    let w' := machine.final (w.addNode 0 none).1 [.addNode 1000 none, .refreshNode 0]
    ((w'.addNode 3500 none).1.callbacks 0 = [⟨0, 3⟩] ∧ w'.callbacks 0 = []) ∧ ((2 : Int) - 1) * 1000 < 3500 - 0 :=
  ⟨by decide +kernel, never_early 2 (by decide) 0 [] [.addNode 1000 none, .refreshNode 0] 0 3500 none none 0
    (by decide +kernel) (by decide +kernel)⟩

/-- In a wheel with `N` buckets, the callback of a node that was accepted with time
`t` and is not refreshed has run by the end of a call of `addNode` with time `T`
exactly when in between `time_` has moved `N` milliseconds and what was lost. If
nothing was lost, that is so when `T` is `N + 1` milliseconds after `t`. -/
theorem never_late_iff (N : Nat) (hN : 0 < N) (now : Int) (before after : List Op) (t T : Int) (v v' : Option Nat)
    (x : Nat) (hx : ((machine.final (new N now) before).addNode t v).2 = (true, some x))
    (hr : .refreshNode x ∉ after) :
    let w := ((machine.final (new N now) before).addNode t v).1
    let w' := machine.final w (after ++ [.addNode T v'])
    let ts := times after ++ [T]
    (w'.callbacks x ≠ [] ↔ 1000 * N + lost w.time_ ts ≤ ts.foldl timeAfter w.time_ - w.time_) ∧
      (((N : Int) + 1) * 1000 ≤ T - t → lost w.time_ ts = 0 → w'.callbacks x ≠ []) := by
  intro w w' ts
  have hw : Inv N w := ((new_inv N now).final hN before).addNode hN t v
  have hw' : Inv N w' := hw.final hN _
  obtain ⟨p', hp', -, hsame⟩ := (putAfter_addNode hx).final (after ++ [.addNode T v'])
  have hp : p' = w.pushes := hsame fun hm => by
    rcases List.mem_append.mp hm with hm | hm
    · exact hr hm
    · cases List.mem_singleton.mp hm
  have hts : times (after ++ [.addNode T v']) = ts := by
    rw [times, List.filterMap_append]
    rfl
  have hrun := elapsed (after ++ [.addNode T v']) w
  rw [hts] at hrun
  have hiff : w'.callbacks x ≠ [] ↔ 1000 * N + lost w.time_ ts ≤ ts.foldl timeAfter w.time_ - w.time_ := by
    rw [hw'.callbacks_iff hp', hp]
    change 1000 * (w'.pushes : Int) + _ = _ at hrun
    omega
  refine ⟨hiff, fun hdue hlost => hiff.mpr ?_⟩
  -- the two reference times are less than a millisecond off `t` and `T`
  have hfirst : w.time_ < t + 1000 := by
    have := (addNode_accepts_iff.mp hx).1
    show ((machine.final (new N now) before).addNode t v).1.time_ < _
    rw [time_addNode, timeAfter]
    split
    · omega
    · omega
  have hlast : T - 1000 < ts.foldl timeAfter w.time_ := by
    rw [List.foldl_append]
    simp only [List.foldl_cons, List.foldl_nil, timeAfter]
    split
    · omega
    · omega
  rw [hlost] at hrun ⊢
  omega

theorem never_late_iff_even :
    let w := ((machine.final (new 3 0) []).addNode 0 none).1
    let w' := machine.final w ([.addNode 1000 none, .addNode 3000 none] ++ [.addNode 4000 none])
    w'.callbacks 0 ≠ [] :=
  (never_late_iff 3 (by decide) 0 [] [.addNode 1000 none, .addNode 3000 none] 0 4000 none none 0 (by decide +kernel)
    (by decide)).2 (by decide) (by decide +kernel)

/-- Two calls that each come a microsecond before the next millisecond: at four
milliseconds the wheel with three buckets has been pushed twice. -/
theorem never_late_lost :
    let w := ((machine.final (new 3 0) []).addNode 0 none).1
    let w' := machine.final w ([.addNode 1999 none, .addNode 3998 none] ++ [.addNode 4000 none])
    ((machine.final (new 3 0) []).addNode 0 none).2 = (true, some 0) ∧ (3 + 1) * 1000 ≤ 4000 - (0 : Int) ∧
      lost w.time_ [1999, 3998, 4000] = 1998 ∧ w'.callbacks 0 = [] := by
  decide +kernel

end TimerWheel

end Ydx
