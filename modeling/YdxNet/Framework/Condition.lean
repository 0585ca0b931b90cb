import Mathlib.Algebra.BigOperators.Fin
import Mathlib.Data.List.Rotate

/-!
# Condition variables

`n` threads, each at a place of its own, some of them in the `wait()` of a
condition variable: blocked, or signalled and not yet resumed. `notify` moves
one blocked thread to signalled, `notifyAll` all of them; a thread that
resumes, whether it was signalled or not, is moved on by its own step.

`Served items` says that while a thread is blocked there is a signalled one
for each of the `items` that threads wait for. It is kept by a notification
for each new item (`Served.notify`), and by a thread that moves on and takes
an item with it or finds none (`Served.move`).
-/

namespace Ydx

/-- The places in a condition variable's `wait()`, among the places of a
thread. -/
structure Condition (α : Type*) where
  /-- In `wait()`, not signalled. -/
  blocked : α → Bool
  /-- In `wait()`, signalled. -/
  signalled : α → Bool
  /-- The thread is signalled. -/
  signal : α → α
  signalled_of_blocked {a : α} : blocked a = true → signalled a = false
  blocked_signal {a : α} : blocked a = true → blocked (signal a) = false
  signalled_signal {a : α} : blocked a = true → signalled (signal a) = true

namespace Condition

variable {α : Type*} {n : Nat} {p : α → Bool} {f : Fin n → α}

/-- How many threads are at a place that satisfies `p`. -/
def count (p : α → Bool) (f : Fin n → α) : Nat := ∑ i, (p (f i)).toNat

theorem count_eq_zero : count p f = 0 ↔ ∀ i, p (f i) = false := by
  simp only [count, Finset.sum_eq_zero_iff, Finset.mem_univ, forall_true_left, Bool.toNat_eq_zero]

theorem count_pos (i : Fin n) (h : p (f i) = true) : 0 < count p f := by
  refine Nat.pos_of_ne_zero fun h₀ => ?_
  rw [count_eq_zero.mp h₀ i] at h
  exact absurd h Bool.noConfusion

/-- The weights of all threads' places. -/
def total (w : α → Nat) (f : Fin n → α) : Nat := ∑ i, w (f i)

/-- One thread moves. -/
theorem total_update (w : α → Nat) (f : Fin n → α) (i : Fin n) (a : α) :
    total w (Function.update f i a) + w (f i) = total w f + w a := by
  have hu : ∑ j, Function.update (w ∘ f) i (w a) j = w a + ∑ j ∈ Finset.univ \ {i}, (w ∘ f) j :=
    Finset.sum_update_of_mem (Finset.mem_univ i) _ _
  have hf : ∑ j, (w ∘ f) j = (w ∘ f) i + ∑ j ∈ Finset.univ \ {i}, (w ∘ f) j :=
    Finset.sum_eq_add_sum_sdiff_singleton_of_mem (Finset.mem_univ i) _
  rw [← Function.comp_update] at hu
  change ∑ j, (w ∘ Function.update f i a) j + (w ∘ f) i = ∑ j, (w ∘ f) j + w a
  omega

/-- One thread moves. -/
theorem count_update (p : α → Bool) (f : Fin n → α) (i : Fin n) (a : α) :
    count p (Function.update f i a) + (p (f i)).toNat = count p f + (p a).toNat :=
  total_update (fun a => (p a).toNat) f i a

variable (c : Condition α)

/-- The thread that a notification reaches: the first blocked one, counted from
the thread `pick` on, so that it can be any of them. -/
def target (pick : Nat) (f : Fin n → α) : Option (Fin n) :=
  ((List.finRange n).rotate pick).find? fun i => c.blocked (f i)

/-- `notify()`. -/
def notify (pick : Nat) (f : Fin n → α) : Fin n → α :=
  match c.target pick f with
  | some i => Function.update f i (c.signal (f i))
  | none => f

/-- `notifyAll()`. -/
def notifyAll (f : Fin n → α) : Fin n → α := fun i => if c.blocked (f i) then c.signal (f i) else f i

/-- A notification reaches nobody, since nobody is blocked, or one blocked thread. -/
theorem notify_cases (pick : Nat) (f : Fin n → α) :
    ((∀ i, c.blocked (f i) = false) ∧ c.notify pick f = f) ∨
      ∃ i, c.blocked (f i) = true ∧ c.notify pick f = Function.update f i (c.signal (f i)) := by
  unfold notify
  cases ht : c.target pick f with
  | none =>
    refine .inl ⟨fun i => ?_, rfl⟩
    have := List.find?_eq_none.mp ht i (List.mem_rotate.mpr (List.mem_finRange i))
    exact Bool.eq_false_iff.mpr this
  | some i => exact .inr ⟨i, by simpa using List.find?_some ht, rfl⟩

theorem notify_of_not_blocked (h : ∀ i, c.blocked (f i) = false) (pick : Nat) : c.notify pick f = f := by
  rcases c.notify_cases pick f with ⟨-, he⟩ | ⟨i, hi, -⟩
  · exact he
  · rw [h i] at hi
    exact absurd hi Bool.noConfusion

/-- While a thread is blocked, there is a signalled one for each of the items. -/
def Served (items : Nat) (f : Fin n → α) : Prop := 0 < count c.blocked f → items ≤ count c.signalled f

instance (items : Nat) (f : Fin n → α) : Decidable (c.Served items f) := inferInstanceAs (Decidable (_ → _))

/-- What a signal keeps, a notification keeps. -/
theorem forall_notify {P : α → Prop} (hP : ∀ a, c.blocked a = true → P a → P (c.signal a)) (pick : Nat)
    (h : ∀ i, P (f i)) : ∀ i, P (c.notify pick f i) := by
  rcases c.notify_cases pick f with ⟨-, he⟩ | ⟨i, hi, he⟩
  · rw [he]
    exact h
  · rw [he]
    exact (Function.forall_update_iff f fun _ a => P a).mpr ⟨hP _ hi (h i), fun j _ => h j⟩

/-- A notification adds at most what a signal adds. -/
theorem total_notify_le {w : α → Nat} {d : Nat} (hw : ∀ a, c.blocked a = true → w (c.signal a) ≤ w a + d) (pick : Nat)
    (f : Fin n → α) : total w (c.notify pick f) ≤ total w f + d := by
  rcases c.notify_cases pick f with ⟨-, he⟩ | ⟨i, hi, he⟩
  · rw [he]
    exact Nat.le_add_right _ _
  · rw [he]
    have hu := total_update w f i (c.signal (f i))
    have := hw (f i) hi
    omega

variable {c} {items items' : Nat}

theorem Served.of_not_blocked (h : ∀ i, c.blocked (f i) = false) : c.Served items f := by
  intro hpos
  rw [count_eq_zero.mpr h] at hpos
  exact absurd hpos (Nat.lt_irrefl _)

theorem Served.mono (h : c.Served items f) (hle : items' ≤ items) : c.Served items' f :=
  fun hpos => Nat.le_trans hle (h hpos)

/-- There is one more item, and a notification. -/
theorem Served.notify (h : c.Served items f) (pick : Nat) : c.Served (items + 1) (c.notify pick f) := by
  rcases c.notify_cases pick f with ⟨hn, he⟩ | ⟨i, hi, he⟩
  · rw [he]
    exact .of_not_blocked hn
  · rw [he]
    intro _
    have hle := h (count_pos i hi)
    have hs := count_update c.signalled f i (c.signal (f i))
    rw [c.signalled_of_blocked hi, c.signalled_signal hi, Bool.toNat_false, Bool.toNat_true] at hs
    omega

/-- A thread moves. It is not blocked afterwards, and the items become fewer if
it was signalled; or there are none. -/
theorem Served.move (h : c.Served items f) (i : Fin n) {a : α}
    (hi : items' = 0 ∨ c.blocked a = false ∧ items' + (c.signalled (f i)).toNat ≤ items) :
    c.Served items' (Function.update f i a) := by
  rcases hi with rfl | ⟨hb, hle⟩
  · exact fun _ => Nat.zero_le _
  · intro hpos
    have hu := count_update c.blocked f i a
    have hs := count_update c.signalled f i a
    rw [hb, Bool.toNat_false] at hu
    have := h (by omega)
    omega

end Condition

end Ydx
