import Mathlib.Logic.Relation

/-!
# Machines, their runs, and refinement

A machine takes one input at a time, moves to a next state and gives an
output. `outputs` and `final` are what a whole run gives and where it ends,
and `Along P` says that `P` holds of the state and the input before every
step of a run. A few rules carry what one step does over to whole runs:
`Machine.always` and `Machine.invariant` for a property of the states,
`Machine.along_iff` and `Machine.along_iff_of_inv` for a condition on the
steps, and `Machine.outputs_eq_iff` for a second machine that takes the same
inputs and is met by exactly those steps that satisfy a condition.
-/

namespace Ydx

/-- A machine with inputs `ι` and outputs `ο`. -/
structure Machine (σ ι ο : Type*) where
  step : σ → ι → σ × ο

namespace Machine

variable {σ τ ι ο ο' : Type*}

/-- The outputs of a run from `s`. -/
def outputs (M : Machine σ ι ο) : σ → List ι → List ο
  | _, [] => []
  | s, i :: is => (M.step s i).2 :: outputs M (M.step s i).1 is

/-- The state a run from `s` ends in. -/
def final (M : Machine σ ι ο) : σ → List ι → σ
  | s, [] => s
  | s, i :: is => final M (M.step s i).1 is

/-- `P` holds before every step of a run from `s`. -/
def Along (M : Machine σ ι ο) (P : σ → ι → Prop) : σ → List ι → Prop
  | _, [] => True
  | s, i :: is => P s i ∧ Along M P (M.step s i).1 is

/-- Two machines side by side, on the same inputs. -/
def prod (M : Machine σ ι ο) (N : Machine τ ι ο') : Machine (σ × τ) ι (ο × ο') where
  step s i := (((M.step s.1 i).1, (N.step s.2 i).1), ((M.step s.1 i).2, (N.step s.2 i).2))

/-- A machine with what it has put out beside its state. -/
def logged (M : Machine σ ι (List ο)) : Machine (σ × List ο) ι Unit where
  step s i := (((M.step s.1 i).1, s.2 ++ (M.step s.1 i).2), ())

instance (M : Machine σ ι ο) (P : σ → ι → Prop) [∀ s i, Decidable (P s i)] :
    ∀ s is, Decidable (M.Along P s is)
  | _, [] => inferInstanceAs (Decidable True)
  | s, i :: is =>
    have := instDecidableAlong M P (M.step s i).1 is
    inferInstanceAs (Decidable (P s i ∧ M.Along P (M.step s i).1 is))

theorem final_append (M : Machine σ ι ο) (is js : List ι) (s : σ) :
    M.final s (is ++ js) = M.final (M.final s is) js := by
  induction is generalizing s with
  | nil => rfl
  | cons i is ih => exact ih _

theorem outputs_append (M : Machine σ ι ο) (is js : List ι) (s : σ) :
    M.outputs s (is ++ js) = M.outputs s is ++ M.outputs (M.final s is) js := by
  induction is generalizing s with
  | nil => rfl
  | cons i is ih => simp only [List.cons_append, outputs, ih, final]

theorem final_logged (M : Machine σ ι (List ο)) (is : List ι) (s : σ) (log : List ο) :
    M.logged.final (s, log) is = (M.final s is, log ++ (M.outputs s is).flatten) := by
  induction is generalizing s log with
  | nil => exact Prod.ext rfl (List.append_nil _).symm
  | cons i is ih =>
    refine (ih _ _).trans ?_
    rw [outputs, List.flatten_cons, final, List.append_assoc]

theorem Along.append {M : Machine σ ι ο} {P : σ → ι → Prop} {is js : List ι} {s : σ} :
    M.Along P s (is ++ js) ↔ M.Along P s is ∧ M.Along P (M.final s is) js := by
  induction is generalizing s with
  | nil => simp [Along, final]
  | cons i is ih => simp only [List.cons_append, Along, ih, final, and_assoc]

/-- What holds of every input holds along a run. -/
theorem Along.of_forall {M : Machine σ ι ο} {V : ι → Prop} :
    ∀ {is : List ι}, (∀ i ∈ is, V i) → ∀ s, M.Along (fun _ i => V i) s is
  | [], _, _ => trivial
  | i :: _, h, _ => ⟨h i List.mem_cons_self, Along.of_forall (fun j hj => h j (List.mem_cons_of_mem _ hj)) _⟩

theorem Along.and {M : Machine σ ι ο} {P Q : σ → ι → Prop} :
    ∀ {is : List ι} {s : σ}, M.Along P s is → M.Along Q s is → M.Along (fun s i => P s i ∧ Q s i) s is
  | [], _, _, _ => trivial
  | _ :: _, _, hP, hQ => ⟨⟨hP.1, hQ.1⟩, Along.and hP.2 hQ.2⟩

theorem Along.mono {M : Machine σ ι ο} {P Q : σ → ι → Prop} (h : ∀ s i, P s i → Q s i) :
    ∀ {is : List ι} {s : σ}, M.Along P s is → M.Along Q s is
  | [], _, _ => trivial
  | _ :: _, _, hP => ⟨h _ _ hP.1, Along.mono h hP.2⟩

/-- What every step keeps, a run keeps. -/
theorem always {M : Machine σ ι ο} {I : σ → Prop} (h : ∀ s i, I s → I (M.step s i).1) :
    ∀ (is : List ι) (s : σ), I s → I (M.final s is)
  | [], _, hI => hI
  | i :: is, s, hI => always h is _ (h s i hI)

/-- What every step that satisfies `P` keeps, a run of such steps keeps. -/
theorem invariant {M : Machine σ ι ο} {P : σ → ι → Prop} {I : σ → Prop}
    (h : ∀ s i, I s → P s i → I (M.step s i).1) :
    ∀ (is : List ι) (s : σ), I s → M.Along P s is → I (M.final s is)
  | [], _, hI, _ => hI
  | i :: is, s, hI, hP => invariant h is _ (h s i hI hP.1) hP.2

/-- What only grows is at no step more than it is in the end. -/
theorem Along.of_final_le {M : Machine σ ι ο} {f : σ → Nat} (mono : ∀ s i, f s ≤ f (M.step s i).1) {N : Nat} :
    ∀ (is : List ι) (s : σ), f (M.final s is) ≤ N → M.Along (fun s i => f (M.step s i).1 ≤ N) s is
  | [], _, _ => trivial
  | i :: is, s, h => ⟨Nat.le_trans (always (I := fun t => f (M.step s i).1 ≤ f t)
      (fun t j ht => Nat.le_trans ht (mono t j)) is _ (Nat.le_refl _)) h, of_final_le mono is _ h⟩

/-- If under an invariant every step that satisfies `P` makes `f` smaller, then a run of such steps is no longer
than what `f` has lost. -/
theorem Along.length_le {M : Machine σ ι ο} {P : σ → ι → Prop} {I : σ → Prop} {f : σ → Nat}
    (keep : ∀ s i, I s → P s i → I (M.step s i).1) (less : ∀ s i, I s → P s i → f (M.step s i).1 < f s) :
    ∀ (is : List ι) (s : σ), I s → M.Along P s is → is.length + f (M.final s is) ≤ f s
  | [], s, _, _ => Nat.le_of_eq (Nat.zero_add (f s))
  | i :: is, s, hI, hP => by
    have hlt := less s i hI hP.1
    have hle := Along.length_le keep less is _ (keep s i hI hP.1) hP.2
    simp only [List.length_cons, final]
    omega

/-- What an invariant gives of each step, it gives along a run. -/
theorem Along.imp {M : Machine σ ι ο} {P Q : σ → ι → Prop} {I : σ → Prop}
    (h : ∀ s i, I s → P s i → Q s i ∧ I (M.step s i).1) :
    ∀ (is : List ι) (s : σ), I s → M.Along P s is → M.Along Q s is
  | [], _, _, _ => trivial
  | i :: is, s, hI, hP => ⟨(h s i hI hP.1).1, Along.imp h is _ (h s i hI hP.1).2 hP.2⟩

/-- If under an invariant `Q` holds of a step exactly when `P` does, and `P`
keeps the invariant, then `Q` holds along a run exactly when `P` does. -/
theorem along_iff {M : Machine σ ι ο} {V P Q : σ → ι → Prop} {I : σ → Prop}
    (iff : ∀ s i, I s → V s i → (Q s i ↔ P s i)) (keep : ∀ s i, I s → V s i → P s i → I (M.step s i).1) :
    ∀ (is : List ι) (s : σ), I s → M.Along V s is → (M.Along Q s is ↔ M.Along P s is)
  | [], _, _, _ => Iff.rfl
  | i :: is, s, hI, hV => by
    have h₁ := iff s i hI hV.1
    by_cases hP : P s i
    · have h₂ := along_iff iff keep is _ (keep s i hI hV.1 hP) hV.2
      exact ⟨fun h => ⟨hP, h₂.mp h.2⟩, fun h => ⟨h₁.mpr hP, h₂.mpr h.2⟩⟩
    · exact ⟨fun h => absurd (h₁.mp h.1) hP, fun h => absurd h.1 hP⟩

/-- The same where every input is valid. -/
theorem along_iff_of_inv {M : Machine σ ι ο} {P Q : σ → ι → Prop} {I : σ → Prop}
    (iff : ∀ s i, I s → (Q s i ↔ P s i)) (keep : ∀ s i, I s → P s i → I (M.step s i).1) (is : List ι) (s : σ) (hI : I s) :
    M.Along Q s is ↔ M.Along P s is :=
  along_iff (V := fun _ _ => True) (fun s i h _ => iff s i h) (fun s i h _ => keep s i h) is s hI
    (Along.of_forall (fun _ _ => trivial) s)

/-- If from related states a step is defined and gives the second machine's
output, and related states again, exactly when `P` holds of it, then so does a
run. -/
theorem outputs_eq_iff {M : Machine σ ι ο} {N : Machine τ ι ο} {V : ι → Prop} {D : σ → ι → Prop}
    {P : σ × τ → ι → Prop} {R : σ → τ → Prop}
    (good : ∀ s a i, R s a → V i → P (s, a) i →
      D s i ∧ (M.step s i).2 = (N.step a i).2 ∧ R (M.step s i).1 (N.step a i).1)
    (bad : ∀ s a i, R s a → V i → ¬ P (s, a) i → ¬ (D s i ∧ (M.step s i).2 = (N.step a i).2)) :
    ∀ (is : List ι) (s : σ) (a : τ), R s a → (∀ i ∈ is, V i) →
      (M.Along D s is ∧ M.outputs s is = N.outputs a is ↔ (M.prod N).Along P (s, a) is)
  | [], _, _, _, _ => by simp [outputs, Along]
  | i :: is, s, a, hR, hV => by
    have hVi := hV i List.mem_cons_self
    simp only [outputs, Along, List.cons.injEq]
    by_cases hP : P (s, a) i
    · obtain ⟨hd, ho, hR'⟩ := good s a i hR hVi hP
      have ih := outputs_eq_iff good bad is _ _ hR' fun j hj => hV j (List.mem_cons_of_mem _ hj)
      exact ⟨fun h => ⟨hP, ih.mp ⟨h.1.2, h.2.2⟩⟩, fun h => ⟨⟨hd, (ih.mpr h.2).1⟩, ho, (ih.mpr h.2).2⟩⟩
    · exact ⟨fun h => absurd ⟨h.1.1, h.2.1⟩ (bad s a i hR hVi hP), fun h => absurd h.1 hP⟩

end Machine

end Ydx
