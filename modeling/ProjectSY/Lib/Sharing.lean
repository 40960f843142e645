import ProjectSY.Lib.Runs

/-!
# Processes around one shared store

Every process has a state of its own, with a copy of the store in it.  A process
takes a step on its own state; then the others' copies are brought up to date.

    store w        the copy in the state `w`
    put t w        the state `w` with the copy `t`
    step s (i, e)  process `i` takes the event `e`

Rule: what the steps of a process keep and a change of the store from outside does
not break holds of every process along every run (`run_guaranteed`).
-/

namespace Sharing

variable {ι σ ε τ : Type*} [DecidableEq ι]
variable (stepOne : σ → ε → Option σ) (store : σ → τ) (put : τ → σ → σ)

def step (s : ι → σ) (a : ι × ε) : Option (ι → σ) :=
  (stepOne (s a.1) a.2).map fun w j => if j = a.1 then w else put (store w) (s j)

theorem step_eq_some (s s' : ι → σ) (i : ι) (e : ε) :
    step stepOne store put s (i, e) = some s' ↔
      ∃ w, stepOne (s i) e = some w ∧
        s' = fun j => if j = i then w else put (store w) (s j) := by
  unfold step
  rw [Option.map_eq_some_iff]
  constructor
  · rintro ⟨w, hw, hs⟩
    exact ⟨w, hw, hs.symm⟩
  · rintro ⟨w, hw, hs⟩
    exact ⟨w, hw, hs.symm⟩

/-- The process that takes the step. -/
theorem step_self (s s' : ι → σ) (i : ι) (e : ε)
    (hs : step stepOne store put s (i, e) = some s') : stepOne (s i) e = some (s' i) := by
  obtain ⟨w, hw, rfl⟩ := (step_eq_some stepOne store put s s' i e).1 hs
  have hi : (fun j => if j = i then w else put (store w) (s j)) i = w := if_pos rfl
  rw [hi]
  exact hw

/-- The other processes see the store the step leaves. -/
theorem step_other (s s' : ι → σ) (i j : ι) (e : ε) (hij : j ≠ i)
    (hs : step stepOne store put s (i, e) = some s') : s' j = put (store (s' i)) (s j) := by
  obtain ⟨w, -, rfl⟩ := (step_eq_some stepOne store put s s' i e).1 hs
  have hi : (fun j => if j = i then w else put (store w) (s j)) i = w := if_pos rfl
  rw [hi]
  exact if_neg hij

/-! ## What the processes guarantee each other -/

variable (hget : ∀ t w, store (put t w) = t)
include hget

/-- Every process has its invariant, and the store has the shared one. -/
def Guaranteed (I : ι → σ → Prop) (J : τ → Prop) (s : ι → σ) : Prop :=
  ∀ i, I i (s i) ∧ J (store (s i))

/-- A step that keeps the invariant of its process and the shared one keeps them all,
as long as no invariant is broken by a store with the shared one. -/
theorem guaranteed_step (I : ι → σ → Prop) (J : τ → Prop) (s : ι → σ) (i : ι) (e : ε)
    (s' : ι → σ)
    (hstep : ∀ w', I i (s i) → J (store (s i)) → stepOne (s i) e = some w' →
      I i w' ∧ J (store w'))
    (hput : ∀ i w t, I i w → J t → I i (put t w))
    (h : Guaranteed store I J s) (hs : step stepOne store put s (i, e) = some s') :
    Guaranteed store I J s' := by
  have hi := hstep (s' i) (h i).1 (h i).2 (step_self stepOne store put s s' i e hs)
  intro j
  by_cases hj : j = i
  · rw [hj]
    exact hi
  · rw [step_other stepOne store put s s' i j e hj hs, hget]
    exact ⟨hput j (s j) _ (h j).1 hi.2, hi.2⟩

/-- If every step that meets `C` keeps the invariant of its process and the shared
one, a run of such steps keeps them all. -/
theorem run_guaranteed (I : ι → σ → Prop) (J : τ → Prop) (C : ι → σ → ε → Prop)
    (hstep : ∀ i w e w', I i w → J (store w) → C i w e → stepOne w e = some w' →
      I i w' ∧ J (store w'))
    (hput : ∀ i w t, I i w → J t → I i (put t w)) (s s' : ι → σ) (es : List (ι × ε))
    (h : Guaranteed store I J s)
    (hm : Runs.Meets (step stepOne store put) (fun s a => C a.1 (s a.1) a.2) s es)
    (hr : Runs.run (step stepOne store put) s es = some s') : Guaranteed store I J s' := by
  refine Runs.run_of_meets _ (Guaranteed store I J) (fun s a => C a.1 (s a.1) a.2) ?_
    s s' es h hm hr
  rintro s ⟨i, e⟩ s' h hc hs
  exact guaranteed_step stepOne store put hget I J s i e s'
    (fun w' hI hJ hw => hstep i (s i) e w' hI hJ hc hw) hput h hs

end Sharing
