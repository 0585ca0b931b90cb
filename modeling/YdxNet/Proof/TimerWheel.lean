import YdxNet.Impl.TimerWheel

/-!
# The timer wheel counts exactly

A bucket moves one place to the front with every push (`at_pushBack`), and a
node is only ever put into the back bucket (`at_backPushBack`). `Inv` follows
the newest bucket that holds a node by the push after which the node was last
put there: it is dropped `bucket_num` pushes later, no other bucket holds the
node any longer, and its callback runs (`wheel_ok`).
-/

namespace Ydx

namespace CircleBuff

variable {b : CircleBuff} {j node x : Nat}

/-- The bucket in place `j` has a pointer to the node. -/
def At (b : CircleBuff) (j node : Nat) : Prop := ∃ l, b.buckets[j]? = some l ∧ node ∈ l

theorem At.lt (h : b.At j node) : j < b.capacity := by
  obtain ⟨l, hl, -⟩ := h
  rw [← b.full]
  exact (List.getElem?_eq_some_iff.mp hl).1

theorem not_at_new (bucketNum : Nat) : ¬ (new bucketNum).At j node := by
  rintro ⟨l, hl, hn⟩
  have := List.eq_of_mem_replicate (List.mem_of_getElem? hl)
  rw [this] at hn
  exact absurd hn List.not_mem_nil

theorem holds_iff : b.holds node = true ↔ ∃ j, b.At j node := by
  rw [holds, List.any_eq_true]
  constructor
  · rintro ⟨l, hl, hn⟩
    obtain ⟨j, hj⟩ := List.mem_iff_getElem?.mp hl
    exact ⟨j, l, hj, List.contains_iff_mem.mp hn⟩
  · rintro ⟨j, l, hj, hn⟩
    exact ⟨l, List.mem_of_getElem? hj, List.contains_iff_mem.mpr hn⟩

theorem mem_front_iff : node ∈ b.front ↔ b.At 0 node := by
  unfold front At
  cases b.buckets with
  | nil => simp
  | cons l ls => simp

theorem at_pushBack : b.pushBack.At j node ↔ b.At (j + 1) node := by
  have he : b.pushBack.buckets[j]? = (b.buckets ++ [[]])[j + 1]? := List.getElem?_tail
  unfold At
  rw [he]
  by_cases hj : j + 1 < b.buckets.length
  · rw [List.getElem?_append_left hj]
  · rw [List.getElem?_append_right (Nat.le_of_not_lt hj), List.getElem?_eq_none (Nat.le_of_not_lt hj)]
    refine iff_of_false ?_ ?_
    · rintro ⟨l, hl, hn⟩
      rw [List.mem_singleton.mp (List.mem_of_getElem? hl)] at hn
      exact absurd hn List.not_mem_nil
    · rintro ⟨l, hl, -⟩
      cases hl

theorem at_backPushBack : (b.backPushBack x).At j node ↔ b.At j node ∨ node = x ∧ j + 1 = b.capacity := by
  have he : (b.backPushBack x).buckets[j]? = b.buckets[j]?.map fun l => if b.capacity - 1 = j then l ++ [x] else l := by
    rw [backPushBack, List.getElem?_modify]
    rfl
  have hfull := b.full
  unfold At
  rw [he]
  by_cases hj : j < b.buckets.length
  · rw [List.getElem?_eq_getElem hj]
    by_cases hb : b.capacity - 1 = j
    · have : j + 1 = b.capacity := by omega
      simp [hb, this, or_comm]
    · have : j + 1 ≠ b.capacity := by omega
      simp [hb, this]
  · have : j + 1 ≠ b.capacity := by omega
    simp [List.getElem?_eq_none (Nat.le_of_not_lt hj), this]

/-- A node's callback runs once with a bucket that has the last pointers to it. -/
theorem filter_destroy (b : CircleBuff) (l : Bucket) (node push : Nat) :
    ((b.destroy l).map (⟨·, push⟩)).filter (fun r : Ran => r.node = node) =
      if node ∈ l ∧ b.holds node = false then [⟨node, push⟩] else [] := by
  induction l with
  | nil => simp [destroy]
  | cons x more ih =>
    unfold destroy
    by_cases hx : x = node
    · subst hx
      by_cases hm : x ∈ more
      · simp [hm, ih]
      · cases hb : b.holds x with
        | true => simp [hb, ih, hm]
        | false => simp [hb, ih, hm]
    · have hx' : node ≠ x := fun h => hx h.symm
      split
      · simp [ih, hx']
      · simp [ih, hx, hx']

end CircleBuff

namespace TimerWheel

open CircleBuff

variable {N node x p : Nat} {w : TimerWheel}

/-- The calls of a node's callback. -/
def callbacks (w : TimerWheel) (node : Nat) : List Ran := w.ran.filter fun r => r.node = node

/-- The invariant of a wheel with `N` buckets. -/
structure Inv (N : Nat) (w : TimerWheel) : Prop where
  capacity : w.node_circle_buf_.capacity = N
  past {node p : Nat} : w.touched node = some p → p ≤ w.pushes
  /-- The bucket that was the last when a node was last put into one. -/
  newest {node p j : Nat} : w.touched node = some p → w.pushes + j + 1 = p + N → w.node_circle_buf_.At j node
  /-- No newer bucket has a pointer to it. -/
  placed {node j : Nat} : w.node_circle_buf_.At j node → ∃ p, w.touched node = some p ∧ w.pushes + j < p + N
  calls {node p : Nat} : w.touched node = some p →
    w.callbacks node = if p + N ≤ w.pushes then [⟨node, p + N⟩] else []
  unmade {node : Nat} : w.nodes ≤ node → w.touched node = none ∧ w.callbacks node = []

theorem new_inv (N : Nat) (now : Int) : Inv N (new N now) where
  capacity := rfl
  past h := by cases h
  newest h := by cases h
  placed h := absurd h (not_at_new N)
  calls h := by cases h
  unmade _ := ⟨rfl, rfl⟩

/-- The wheel has a pointer to a node for `N` pushes. -/
theorem Inv.lock_iff (h : Inv N w) (hp : w.touched node = some p) : w.lock node = true ↔ w.pushes < p + N := by
  rw [lock, holds_iff]
  constructor
  · rintro ⟨j, hj⟩
    obtain ⟨p', hp', hlt⟩ := h.placed hj
    rw [hp, Option.some.injEq] at hp'
    omega
  · intro hlt
    exact ⟨p + N - w.pushes - 1, h.newest hp (by omega)⟩

/-! ## A push -/

theorem callbacks_pushBack (w : TimerWheel) (node : Nat) :
    w.pushBack.callbacks node = w.callbacks node ++
      if node ∈ w.node_circle_buf_.front ∧ w.node_circle_buf_.pushBack.holds node = false
      then [⟨node, w.pushes + 1⟩] else [] := by
  rw [callbacks, pushBack, List.filter_append, filter_destroy]
  rfl

/-- The callback of a node that only the front bucket holds. -/
theorem callbacks_last (h₀ : w.node_circle_buf_.At 0 node) (hn : ∀ j, ¬ w.node_circle_buf_.At (j + 1) node) :
    w.pushBack.callbacks node = w.callbacks node ++ [⟨node, w.pushes + 1⟩] := by
  have hholds : w.node_circle_buf_.pushBack.holds node = false := by
    refine Bool.eq_false_iff.mpr fun hh => ?_
    obtain ⟨j, hj⟩ := holds_iff.mp hh
    exact hn j (at_pushBack.mp hj)
  rw [callbacks_pushBack, if_pos ⟨mem_front_iff.mpr h₀, hholds⟩]

/-- The other callbacks do not run. -/
theorem callbacks_same (h : w.node_circle_buf_.At 0 node → ∃ j, w.node_circle_buf_.At (j + 1) node) :
    w.pushBack.callbacks node = w.callbacks node := by
  rw [callbacks_pushBack, if_neg ?_, List.append_nil]
  rintro ⟨h₀, hh⟩
  obtain ⟨j, hj⟩ := h (mem_front_iff.mp h₀)
  rw [holds_iff.mpr ⟨j, at_pushBack.mpr hj⟩] at hh
  exact absurd hh Bool.noConfusion

theorem Inv.callbacks_none (h : Inv N w) (hn : w.touched node = none) : w.pushBack.callbacks node = w.callbacks node := by
  refine callbacks_same fun h₀ => ?_
  obtain ⟨p, hp, -⟩ := h.placed h₀
  rw [hn] at hp
  cases hp

theorem Inv.callbacks_some (h : Inv N w) (hp : w.touched node = some p) :
    w.pushBack.callbacks node = if p + N ≤ w.pushes + 1 then [⟨node, p + N⟩] else [] := by
  have hplaced : ∀ j, w.node_circle_buf_.At j node → w.pushes + j < p + N := fun j hj => by
    obtain ⟨p', hp', hlt⟩ := h.placed hj
    rw [hp, Option.some.injEq] at hp'
    omega
  have hcalls := h.calls hp
  rcases Nat.lt_trichotomy (p + N) (w.pushes + 1) with hlt | heq | hgt
  · -- it has run before
    rw [callbacks_same fun h₀ => absurd (hplaced 0 h₀) (by omega), hcalls, if_pos (by omega), if_pos (by omega)]
  · -- the front bucket is the newest that holds it
    have h₀ : w.node_circle_buf_.At 0 node := h.newest hp heq.symm
    rw [callbacks_last h₀ fun j hj => absurd (hplaced _ hj) (by omega), hcalls, if_neg (by omega), if_pos (by omega),
      heq, List.nil_append]
  · -- a newer bucket holds it
    have hnew : w.node_circle_buf_.At (p + N - w.pushes - 2 + 1) node := h.newest hp (by omega)
    rw [callbacks_same fun _ => ⟨_, hnew⟩, hcalls, if_neg (by omega), if_neg (by omega)]

theorem Inv.pushBack (h : Inv N w) : Inv N w.pushBack where
  capacity := h.capacity
  past hp := Nat.le_succ_of_le (h.past hp)
  newest {node p j} hp hj := by
    change w.pushes + 1 + j + 1 = p + N at hj
    exact at_pushBack.mpr (h.newest hp (by omega))
  placed hj := by
    obtain ⟨p, hp, hlt⟩ := h.placed (at_pushBack.mp hj)
    refine ⟨p, hp, ?_⟩
    show w.pushes + 1 + _ < _
    omega
  calls hp := h.callbacks_some hp
  unmade hn := by
    obtain ⟨ht, hc⟩ := h.unmade hn
    exact ⟨ht, (h.callbacks_none ht).trans hc⟩

/-! ## A node is put into the back bucket -/

theorem touched_put (hp : (w.put x).touched node = some p) :
    node = x ∧ w.pushes = p ∨ node ≠ x ∧ w.touched node = some p := by
  have he : (w.put x).touched node = if node = x then some w.pushes else w.touched node := Function.update_apply ..
  rw [he] at hp
  split at hp
  · rename_i hn
    exact .inl ⟨hn, Option.some.inj hp⟩
  · rename_i hn
    exact .inr ⟨hn, hp⟩

theorem Inv.put (h : Inv N w) (hN : 0 < N) (hx : x < w.nodes) (hc : w.callbacks x = []) : Inv N (w.put x) where
  capacity := h.capacity
  past hp := by
    rcases touched_put hp with ⟨-, rfl⟩ | ⟨-, hp⟩
    · exact Nat.le_refl _
    · exact h.past hp
  newest {node p j} hp hj := by
    refine at_backPushBack.mpr ?_
    change w.pushes + j + 1 = p + N at hj
    rcases touched_put hp with ⟨hn, rfl⟩ | ⟨-, hp⟩
    · refine .inr ⟨hn, ?_⟩
      rw [h.capacity]
      omega
    · exact .inl (h.newest hp hj)
  placed {node j} hj := by
    have hlt := hj.lt
    rw [show (w.put x).node_circle_buf_.capacity = N from h.capacity] at hlt
    by_cases hn : node = x
    · subst hn
      exact ⟨w.pushes, Function.update_self .., Nat.add_lt_add_left hlt _⟩
    · rcases at_backPushBack.mp hj with hj | ⟨he, -⟩
      · obtain ⟨p, hp, hlt⟩ := h.placed hj
        exact ⟨p, (Function.update_of_ne hn ..).trans hp, hlt⟩
      · exact absurd he hn
  calls {node p} hp := by
    show w.callbacks node = if p + N ≤ w.pushes then _ else _
    rcases touched_put hp with ⟨rfl, rfl⟩ | ⟨-, hp⟩
    · rw [hc, if_neg (by omega)]
    · exact h.calls hp
  unmade {node} hn := by
    have hne : node ≠ x := fun he => absurd hx (Nat.not_lt_of_le (he ▸ hn))
    obtain ⟨ht, hc⟩ := h.unmade hn
    exact ⟨(Function.update_of_ne hne ..).trans ht, hc⟩

/-! ## The calls -/

/-- A node that has been made and not yet put into a bucket. -/
structure Held (N x : Nat) (w : TimerWheel) : Prop where
  inv : Inv N w
  made : x < w.nodes
  out : w.touched x = none
  silent : w.callbacks x = []

theorem Held.pushBacks (d : Nat) (h : Held N x w) : Held N x (pushBacks d w) := by
  induction d generalizing w with
  | zero => exact h
  | succ d ih => exact ih ⟨h.inv.pushBack, h.made, h.out, (h.inv.callbacks_none h.out).trans h.silent⟩

theorem Inv.addNode (h : Inv N w) (hN : 0 < N) (time : Int) (weakPtr : Option Nat) :
    Inv N (w.addNode time weakPtr).1 := by
  obtain ⟨ht, hc⟩ := h.unmade (Nat.le_refl w.nodes)
  unfold TimerWheel.addNode
  dsimp only
  split
  · refine ⟨h.capacity, h.past, h.newest, h.placed, fun {node p} hp => ?_, fun {node} hn => ?_⟩
    · have hne : w.nodes ≠ node := fun he => by
        rw [← he] at hp
        cases ht.symm.trans hp
      have := h.calls hp
      simp only [callbacks, List.filter_append] at this ⊢
      rw [this, List.filter_cons_of_neg (by simpa using hne), List.filter_nil, List.append_nil]
    · obtain ⟨ht, hc⟩ := h.unmade (Nat.le_of_succ_le hn)
      refine ⟨ht, ?_⟩
      have hne : w.nodes ≠ node := Nat.ne_of_lt hn
      simp only [callbacks, List.filter_append] at hc ⊢
      rw [hc, List.filter_cons_of_neg (by simpa using hne), List.filter_nil, List.append_nil]
  · have hheld : Held N w.nodes
        { w with
          nodes := w.nodes + 1
          time_ := if timeDifferenceMicro time w.time_ > 0 then time else w.time_ } :=
      ⟨⟨h.capacity, h.past, h.newest, h.placed, h.calls, fun hn => h.unmade (Nat.le_of_succ_le hn)⟩,
        Nat.lt_succ_self _, ht, hc⟩
    have := hheld.pushBacks (timeDifferenceMicro time w.time_).toNat
    exact this.inv.put hN this.made this.silent

theorem Inv.refreshNode (h : Inv N w) (hN : 0 < N) (x : Nat) : Inv N (w.refreshNode x) := by
  unfold TimerWheel.refreshNode
  split
  · rename_i hl
    obtain ⟨j, hj⟩ := holds_iff.mp hl
    obtain ⟨p, hp, hlt⟩ := h.placed hj
    refine h.put hN (Nat.lt_of_not_le fun hn => ?_) ?_
    · cases hp.symm.trans (h.unmade hn).1
    · rw [h.calls hp, if_neg (by omega)]
  · exact h

theorem Inv.final (h : Inv N w) (hN : 0 < N) (ops : List Op) : Inv N (machine.final w ops) := by
  refine Machine.always (M := machine) (I := Inv N) (fun w op h => ?_) ops w h
  cases op with
  | addNode time weakPtr => exact h.addNode hN time weakPtr
  | refreshNode x => exact h.refreshNode hN x

/-- In a wheel with `N` buckets, a node that was last put into a bucket after
push `p` can be locked and its callback has not run until push `p + N`; there
it runs, once, and from then on `refreshNode` changes nothing. -/
theorem wheel_ok (N : Nat) (hN : 0 < N) (now : Int) (ops : List Op) (node p : Nat) :
    let w := machine.final (new N now) ops
    w.touched node = some p →
      (w.pushes < p + N → w.lock node = true ∧ w.callbacks node = []) ∧
        (p + N ≤ w.pushes →
          w.lock node = false ∧ w.callbacks node = [⟨node, p + N⟩] ∧ w.refreshNode node = w) := by
  intro w hp
  have h : Inv N w := (new_inv N now).final hN ops
  have hlock := h.lock_iff hp
  have hcalls := h.calls hp
  refine ⟨fun hlt => ⟨hlock.mpr hlt, ?_⟩, fun hle => ?_⟩
  · rw [hcalls, if_neg (by omega)]
  · have hl : w.lock node = false := Bool.eq_false_iff.mpr fun hl => absurd (hlock.mp hl) (by omega)
    refine ⟨hl, ?_, ?_⟩
    · rw [hcalls, if_pos hle]
    · rw [TimerWheel.refreshNode, hl, if_neg Bool.false_ne_true]

/-- A node is refreshed after one push, and two more follow. -/
def refreshed : List Op := [.addNode 0 none, .addNode 1000 none, .refreshNode 0, .addNode 3500 none]

theorem wheel_ok_refreshed :
    let w := machine.final (new 2 0) refreshed
    (w.touched 0 = some 1 ∧ w.pushes = 3) ∧ w.lock 0 = false ∧ w.callbacks 0 = [⟨0, 3⟩] ∧ w.refreshNode 0 = w :=
  ⟨by decide +kernel, (wheel_ok 2 (by decide) 0 refreshed 0 1 (by decide +kernel)).2 (by decide +kernel)⟩

end TimerWheel

end Ydx
