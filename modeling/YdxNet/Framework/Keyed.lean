import Mathlib.Data.List.Basic

/-!
# Lists of pairs

What is paired with a key, in the order of the list: `withKey`. A list whose pairs come
from several sources is described source by source, and counted so (`count_withKey`).
-/

namespace Ydx

variable {κ α : Type*} [DecidableEq κ]

/-- What is paired with a key. -/
def withKey (k : κ) (l : List (κ × α)) : List α := l.filterMap fun x => if x.1 = k then some x.2 else none

theorem withKey_append (k : κ) (l l' : List (κ × α)) : withKey k (l ++ l') = withKey k l ++ withKey k l' :=
  List.filterMap_append

theorem withKey_cons (k : κ) (x : κ × α) (l : List (κ × α)) :
    withKey k (x :: l) = if x.1 = k then x.2 :: withKey k l else withKey k l := by
  unfold withKey
  rw [List.filterMap_cons]
  split
  · rename_i h
    split at h
    · cases h
    · rw [if_neg (by assumption)]
  · rename_i a h
    split at h
    · cases h
      rw [if_pos (by assumption)]
    · cases h

theorem withKey_map_self (k : κ) (l : List α) : withKey k (l.map (Prod.mk k)) = l := by
  induction l with
  | nil => rfl
  | cons a l ih => rw [List.map_cons, withKey_cons, if_pos rfl, ih]

theorem withKey_map_of_ne {k k' : κ} (h : k ≠ k') (l : List α) : withKey k' (l.map (Prod.mk k)) = [] := by
  induction l with
  | nil => rfl
  | cons a l ih => rw [List.map_cons, withKey_cons, if_neg h, ih]

/-- The keys and the values may be translated. -/
theorem withKey_map_key {κ' β : Type*} [DecidableEq κ'] {f : κ → κ'} (hf : Function.Injective f) (g : α → β) (k : κ)
    (l : List (κ × α)) : withKey (f k) (l.map fun x => (f x.1, g x.2)) = (withKey k l).map g := by
  induction l with
  | nil => rfl
  | cons x l ih =>
    rw [List.map_cons, withKey_cons, withKey_cons, ih]
    by_cases h : x.1 = k
    · rw [if_pos (congrArg f h), if_pos h, List.map_cons]
    · rw [if_neg (mt (@hf x.1 k) h), if_neg h]

theorem count_withKey [BEq α] [LawfulBEq α] [BEq (κ × α)] [LawfulBEq (κ × α)] (k : κ) (a : α) (l : List (κ × α)) :
    (withKey k l).count a = l.count (k, a) := by
  induction l with
  | nil => rfl
  | cons x l ih =>
    obtain ⟨k', a'⟩ := x
    rw [withKey_cons, List.count_cons]
    by_cases hk : k' = k
    · subst hk
      by_cases ha : a' = a
      · simp [ih, ha]
      · simp [ih, ha]
    · simp [ih, hk]

theorem withKey_sublist (k : κ) (l : List (κ × α)) : (withKey k l).Sublist (l.map Prod.snd) := by
  induction l with
  | nil => exact .slnil
  | cons x l ih =>
    rw [withKey_cons, List.map_cons]
    split
    · exact ih.cons_cons _
    · exact ih.cons _

/-- Where there is one key only. -/
theorem withKey_of_forall {k : κ} {l : List (κ × α)} (h : ∀ x ∈ l, x.1 = k) : withKey k l = l.map Prod.snd := by
  induction l with
  | nil => rfl
  | cons x l ih =>
    rw [withKey_cons, if_pos (h x List.mem_cons_self), ih fun y hy => h y (List.mem_cons_of_mem _ hy), List.map_cons]

end Ydx
