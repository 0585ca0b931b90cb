import YdxNet.Proof.TimerWheelTimes

/-!
# Timers that are turned down

`addNode` makes the node before it looks at the time, and the destructor of a
node calls its callback. So a timer that is turned down fires at once
(`unfired_iff`), and the callbacks of a run are those of accepted nodes that
the wheel has dropped exactly when no call was turned down (`rejected_iff`).
-/

namespace Ydx

namespace CircleBuff

variable {b : CircleBuff} {node x : Nat} {l : Bucket}

theorem holds_pushBack (h : b.pushBack.holds node = true) : b.holds node = true := by
  obtain ⟨j, hj⟩ := holds_iff.mp h
  exact holds_iff.mpr ⟨j + 1, at_pushBack.mp hj⟩

theorem holds_backPushBack (h : (b.backPushBack x).holds node = true) : b.holds node = true ∨ node = x := by
  obtain ⟨j, hj⟩ := holds_iff.mp h
  rcases at_backPushBack.mp hj with hj | ⟨hx, -⟩
  · exact .inl (holds_iff.mpr ⟨j, hj⟩)
  · exact .inr hx

theorem mem_destroy (h : node ∈ b.destroy l) : node ∈ l ∧ b.holds node = false := by
  induction l with
  | nil => exact absurd h List.not_mem_nil
  | cons y more ih =>
    unfold destroy at h
    split at h
    · obtain ⟨hm, hb⟩ := ih h
      exact ⟨List.mem_cons_of_mem _ hm, hb⟩
    · rename_i hn
      rcases List.mem_cons.mp h with rfl | h
      · rw [Bool.or_eq_true, not_or, Bool.not_eq_true, Bool.not_eq_true] at hn
        exact ⟨List.mem_cons_self, hn.2⟩
      · obtain ⟨hm, hb⟩ := ih h
        exact ⟨List.mem_cons_of_mem _ hm, hb⟩

end CircleBuff

namespace TimerWheel

open CircleBuff

variable {w : TimerWheel} {time : Int} {op : Op} {r : Ran}

/-- The call is not too far back. -/
def InTime (w : TimerWheel) : Op → Prop
  | .addNode time _ => w.time_ - 1000 < time
  | .refreshNode _ => True

instance (w : TimerWheel) : ∀ op, Decidable (w.InTime op)
  | .addNode .. => inferInstanceAs (Decidable (_ < _))
  | .refreshNode _ => inferInstanceAs (Decidable True)

/-- If the call turns a timer down, it has run no callback, and the time, the
buckets and the caller's pointer are what they were. -/
def Unfired (w : TimerWheel) (op : Op) : Prop :=
  ∀ time v, op = .addNode time v → (w.addNode time v).2.1 = false →
    (w.addNode time v).1.ran = w.ran ∧ (w.addNode time v).1.time_ = w.time_ ∧
      (w.addNode time v).1.node_circle_buf_ = w.node_circle_buf_ ∧ (w.addNode time v).2.2 = v

/-- The callbacks were those of nodes that had been put into a bucket and to which
the wheel has no pointer any more. -/
def Expired (w : TimerWheel) : Prop := ∀ r ∈ w.ran, w.touched r.node ≠ none ∧ w.lock r.node = false

/-- A timer that is turned down fires. The time and the buckets stay. -/
theorem unfired_iff (w : TimerWheel) (op : Op) : w.Unfired op ↔ w.InTime op := by
  cases op with
  | refreshNode x => exact iff_of_true (fun _ _ h => by cases h) trivial
  | addNode time v =>
    by_cases h : w.time_ - 1000 < time
    · refine iff_of_true (fun _ _ he hn => ?_) h
      cases he
      rw [addNode_accepted h] at hn
      cases hn
    · refine iff_of_false (fun hu => ?_) h
      have he : w.addNode time v = _ := addNode_rejected (by omega)
      obtain ⟨hran, -⟩ := hu time v rfl (by rw [he])
      rw [he] at hran
      exact absurd (List.append_right_eq_self.mp hran) (List.cons_ne_nil _ _)

/-- The nodes in buckets, and those whose callbacks have run, are among the first
`n`, and those in buckets have been put there. -/
structure Stocked (n : Nat) (w : TimerWheel) : Prop where
  made : ∀ r ∈ w.ran, r.node < n
  held : ∀ x, w.lock x = true → x < n ∧ w.touched x ≠ none
  unmade : ∀ x, n ≤ x → w.touched x = none

theorem mem_ran_pushBack (h : r ∈ w.pushBack.ran) :
    r ∈ w.ran ∨ w.lock r.node = true ∧ w.pushBack.lock r.node = false := by
  rcases List.mem_append.mp h with h | h
  · exact .inl h
  · obtain ⟨node, hn, rfl⟩ := List.mem_map.mp h
    obtain ⟨hf, hb⟩ := mem_destroy hn
    exact .inr ⟨holds_iff.mpr ⟨0, mem_front_iff.mp hf⟩, hb⟩

theorem lock_pushBack_of_false {x : Nat} (h : w.lock x = false) : w.pushBack.lock x = false := by
  refine Bool.eq_false_iff.mpr fun hl => ?_
  rw [lock, holds_pushBack hl] at h
  exact absurd h Bool.noConfusion

theorem Stocked.pushBack {n : Nat} (h : Stocked n w) : Stocked n w.pushBack where
  made r hr := by
    rcases mem_ran_pushBack hr with hr | ⟨hl, -⟩
    · exact h.made r hr
    · exact (h.held _ hl).1
  held x hl := h.held x (holds_pushBack hl)
  unmade := h.unmade

theorem Expired.pushBack {n : Nat} (he : w.Expired) (h : Stocked n w) : w.pushBack.Expired := by
  intro r hr
  rcases mem_ran_pushBack hr with hr | ⟨hl, hb⟩
  · exact ⟨(he r hr).1, lock_pushBack_of_false (he r hr).2⟩
  · exact ⟨(h.held _ hl).2, hb⟩

theorem Expired.pushBacks {n : Nat} (d : Nat) (he : w.Expired) (h : Stocked n w) :
    (pushBacks d w).Expired ∧ Stocked n (pushBacks d w) := by
  induction d generalizing w with
  | zero => exact ⟨he, h⟩
  | succ d ih => exact ih (he.pushBack h) h.pushBack

theorem touched_put_self (w : TimerWheel) (x : Nat) : (w.put x).touched x = some w.pushes := Function.update_self ..

theorem touched_put_of_ne {x y : Nat} (h : y ≠ x) (w : TimerWheel) : (w.put x).touched y = w.touched y :=
  Function.update_of_ne h ..

theorem Stocked.put {n m x : Nat} (h : Stocked n w) (hle : n ≤ m) (hx : x < m) : Stocked m (w.put x) where
  made r hr := Nat.lt_of_lt_of_le (h.made r hr) hle
  held y hl := by
    by_cases hy : y = x
    · subst hy
      rw [touched_put_self]
      exact ⟨hx, Option.some_ne_none _⟩
    · obtain ⟨hn, ht⟩ := h.held y ((holds_backPushBack hl).resolve_right hy)
      rw [touched_put_of_ne hy]
      exact ⟨Nat.lt_of_lt_of_le hn hle, ht⟩
  unmade y hy := by
    rw [touched_put_of_ne (Nat.ne_of_gt (Nat.lt_of_lt_of_le hx hy))]
    exact h.unmade y (Nat.le_trans hle hy)

theorem Expired.put {x : Nat} (he : w.Expired) (hx : ∀ r ∈ w.ran, r.node ≠ x) : (w.put x).Expired := by
  intro r hr
  obtain ⟨ht, hl⟩ := he r hr
  rw [touched_put_of_ne (hx r hr)]
  refine ⟨ht, Bool.eq_false_iff.mpr fun hb => ?_⟩
  rw [lock, (holds_backPushBack hb).resolve_right (hx r hr)] at hl
  exact absurd hl Bool.noConfusion

theorem Stocked.addNode_iff (h : Stocked w.nodes w) (he : w.Expired) (time : Int) (v : Option Nat) :
    ((w.addNode time v).1.Expired ↔ w.InTime (.addNode time v)) ∧
      (w.InTime (.addNode time v) → Stocked (w.addNode time v).1.nodes (w.addNode time v).1) := by
  by_cases ha : w.time_ - 1000 < time
  · have hmade : Stocked w.nodes { w with nodes := w.nodes + 1, time_ := timeAfter w.time_ time } :=
      ⟨h.made, h.held, h.unmade⟩
    obtain ⟨he', h'⟩ := Expired.pushBacks (timeDifferenceMicro time w.time_).toNat
      (w := { w with nodes := w.nodes + 1, time_ := timeAfter w.time_ time }) he hmade
    rw [addNode_accepted ha]
    refine ⟨iff_of_true (he'.put fun r hr => Nat.ne_of_lt (h'.made r hr)) ha, fun _ => ?_⟩
    refine h'.put ?_ ?_
    · show w.nodes ≤ (TimerWheel.pushBacks _ _).nodes
      rw [nodes_pushBacks]
      exact Nat.le_succ _
    · show w.nodes < (TimerWheel.pushBacks _ _).nodes
      rw [nodes_pushBacks]
      exact Nat.lt_succ_self _
  · refine ⟨iff_of_false (fun hx => ?_) ha, fun hi => absurd hi ha⟩
    rw [addNode_rejected (by omega)] at hx
    -- the node was never put into a bucket
    obtain ⟨ht, -⟩ := hx ⟨w.nodes, w.pushes⟩ (List.mem_append_right _ List.mem_cons_self)
    exact ht (h.unmade w.nodes (Nat.le_refl _))

theorem Stocked.refreshNode (h : Stocked w.nodes w) (he : w.Expired) (x : Nat) :
    (w.refreshNode x).Expired ∧ Stocked (w.refreshNode x).nodes (w.refreshNode x) := by
  unfold TimerWheel.refreshNode
  split
  · rename_i hl
    refine ⟨he.put fun r hr hx => ?_, h.put (Nat.le_refl _) (h.held x hl).1⟩
    rw [← hx, (he r hr).2] at hl
    exact absurd hl Bool.noConfusion
  · exact ⟨he, h⟩

theorem new_stocked (bucketNum : Nat) (now : Int) : Stocked 0 (new bucketNum now) where
  made r hr := absurd hr List.not_mem_nil
  held x hl := by
    obtain ⟨j, hj⟩ := holds_iff.mp hl
    exact absurd hj (not_at_new bucketNum)
  unmade _ _ := rfl

/-- In every run, every call that turns a timer down has run no callback, and the
callbacks were those of accepted nodes that the wheel has dropped, exactly when
every call of `addNode` is less than a millisecond behind `time_`. -/
theorem rejected_iff (bucketNum : Nat) (now : Int) (ops : List Op) :
    machine.Along (fun w op => w.Unfired op ∧ (machine.step w op).1.Expired) (new bucketNum now) ops ↔
      machine.Along InTime (new bucketNum now) ops := by
  refine Machine.along_iff_of_inv (I := fun w => Stocked w.nodes w ∧ w.Expired) ?_ ?_ ops _
    ⟨new_stocked bucketNum now, fun r hr => absurd hr List.not_mem_nil⟩
  · intro w op h
    rw [unfired_iff]
    cases op with
    | addNode time v =>
      refine ⟨And.left, fun hi => ⟨hi, ?_⟩⟩
      exact (h.1.addNode_iff h.2 time v).1.mpr hi
    | refreshNode x => exact iff_of_true ⟨trivial, (h.1.refreshNode h.2 x).1⟩ trivial
  · intro w op h hi
    cases op with
    | addNode time v => exact ⟨(h.1.addNode_iff h.2 time v).2 hi, (h.1.addNode_iff h.2 time v).1.mpr hi⟩
    | refreshNode x => exact (h.1.refreshNode h.2 x).symm

/-- A timer a millisecond in the past is turned down, and its callback runs. -/
theorem rejected_fires :
    let r := (new 4 5000).addNode 4000 none
    r.2 = (false, none) ∧ r.1.ran = [⟨0, 0⟩] ∧ r.1.touched 0 = none ∧ ¬ (new 4 5000).Unfired (.addNode 4000 none) := by
  refine ⟨by decide +kernel, by decide +kernel, by decide +kernel, fun hu => ?_⟩
  have hran := (hu 4000 none rfl (by decide +kernel)).1
  exact absurd hran (by decide +kernel)

end TimerWheel

end Ydx
