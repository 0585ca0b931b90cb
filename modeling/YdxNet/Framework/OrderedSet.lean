import Mathlib.Data.List.Sort

/-!
# Ordered sets as ascending lists

A `std::set` is the list of its elements in ascending order: `begin()` is the
head, `insert` refuses what is already there, and `lower_bound` splits the
list before the first element that is not below the bound. On an ascending
list the two parts are the elements below the bound and the others
(`before_eq_filter`, `notBefore_eq_filter`).
-/

namespace Ydx.OrderedSet

variable {α : Type*} [LinearOrder α] {l : List α} {x y : α}

/-- The elements stand in ascending order, each once. -/
def Ascending (l : List α) : Prop := l.Pairwise (· < ·)

/-- `insert(x)`: the set, and whether `x` is new. -/
def insert (x : α) (l : List α) : List α × Bool :=
  if x ∈ l then (l, false) else (l.orderedInsert (· ≤ ·) x, true)

/-- `erase(x)`. -/
def erase (x : α) (l : List α) : List α := l.erase x

/-- The elements from `begin()` up to `lower_bound(x)`. -/
def before (x : α) (l : List α) : List α := l.takeWhile fun y => y < x

/-- The elements from `lower_bound(x)` on. -/
def notBefore (x : α) (l : List α) : List α := l.dropWhile fun y => y < x

theorem Ascending.nodup (h : Ascending l) : l.Nodup := h.imp fun hlt => ne_of_lt hlt

theorem perm_insert (hx : x ∉ l) : (insert x l).1.Perm (x :: l) := by
  rw [insert, if_neg hx]
  exact List.perm_orderedInsert ..

theorem insert_new (hx : x ∉ l) : (insert x l).2 = true := by
  rw [insert, if_neg hx]

theorem mem_insert : y ∈ (insert x l).1 ↔ y = x ∨ y ∈ l := by
  unfold insert
  split
  · rename_i hx
    exact ⟨Or.inr, fun h => h.elim (fun he => he ▸ hx) id⟩
  · exact List.mem_orderedInsert _

theorem Ascending.insert (h : Ascending l) (x : α) : Ascending (insert x l).1 := by
  unfold OrderedSet.insert
  split
  · exact h
  · rename_i hx
    have hle : (l.orderedInsert (· ≤ ·) x).Pairwise (· ≤ ·) := List.Pairwise.orderedInsert x l (h.imp le_of_lt)
    have hnd : (l.orderedInsert (· ≤ ·) x).Nodup :=
      (List.perm_orderedInsert ..).nodup_iff.mpr (List.nodup_cons.mpr ⟨hx, h.nodup⟩)
    exact (hle.and hnd).imp fun h => lt_of_le_of_ne h.1 h.2

theorem Ascending.erase (h : Ascending l) (x : α) : Ascending (erase x l) := h.sublist List.erase_sublist

theorem mem_erase (h : Ascending l) : y ∈ erase x l ↔ y ≠ x ∧ y ∈ l := h.nodup.mem_erase_iff

theorem erase_eq_filter (h : Ascending l) : erase x l = l.filter fun y => y ≠ x := by
  rw [erase, h.nodup.erase_eq_filter]
  exact List.filter_congr fun y _ => by rw [bne, beq_eq_decide, decide_not]

theorem perm_erase (hx : x ∈ l) : l.Perm (x :: erase x l) := List.perm_cons_erase hx

/-- Everything in an ascending list is at or above its head. -/
theorem Ascending.head_le (h : Ascending l) {m : α} (hm : l.head? = some m) (hy : y ∈ l) : m ≤ y := by
  cases l with
  | nil => exact absurd hy List.not_mem_nil
  | cons a l =>
    obtain rfl : a = m := Option.some.inj hm
    rcases List.mem_cons.mp hy with rfl | hy
    · exact le_refl _
    · exact le_of_lt (List.rel_of_pairwise_cons h hy)

theorem before_eq_filter (h : Ascending l) : before x l = l.filter fun y => y < x := by
  induction l with
  | nil => rfl
  | cons a l ih =>
    rw [before, List.takeWhile_cons, List.filter_cons]
    split
    · exact congrArg (a :: ·) (ih h.of_cons)
    · rename_i ha
      refine (List.filter_eq_nil_iff.mpr fun b hb hlt => ha ?_).symm
      exact decide_eq_true (lt_trans (List.rel_of_pairwise_cons h hb) (of_decide_eq_true hlt))

theorem notBefore_eq_filter (h : Ascending l) : notBefore x l = l.filter fun y => ¬ y < x := by
  induction l with
  | nil => rfl
  | cons a l ih =>
    rw [notBefore, List.dropWhile_cons, List.filter_cons]
    by_cases ha : a < x
    · rw [if_pos (decide_eq_true ha), if_neg (by simp [ha])]
      exact ih h.of_cons
    · rw [if_neg (by simp [ha]), if_pos (by simp [ha])]
      refine congrArg (a :: ·) (List.filter_eq_self.mpr fun b hb => ?_).symm
      exact decide_eq_true fun hlt => ha (lt_trans (List.rel_of_pairwise_cons h hb) hlt)

end Ydx.OrderedSet
