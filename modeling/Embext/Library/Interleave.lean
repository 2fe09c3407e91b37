import Mathlib.Logic.Function.Basic

set_option autoImplicit false

/-! # Independent components

A family of components, each with a state of its own, and calls that each go to one of them. In an
interleaving of such calls every component sees its own calls in order and nothing else: what it
returns and where it ends is what its own calls alone give. The same holds of preconditions, so the
calls of each component need to be checked on that component only. -/

namespace Interleave

variable {ι α ρ σ : Type}

/-! ## One component -/

/-- Calls on one component, in order. -/
def runOne (step : α → σ → ρ × σ) : List α → σ → List ρ × σ
  | [], x => ([], x)
  | a :: rest, x =>
    ((step a x).1 :: (runOne step rest (step a x).2).1, (runOne step rest (step a x).2).2)

/-- Every call meets its precondition where it is made. -/
def FitsOne (step : α → σ → ρ × σ) (fits : α → σ → Prop) : List α → σ → Prop
  | [], _ => True
  | a :: rest, x => fits a x ∧ FitsOne step fits rest (step a x).2

/-! ## The family -/

variable [DecidableEq ι]

/-- Calls on the family, each at its own component. -/
def run (step : α → σ → ρ × σ) : List (ι × α) → (ι → σ) → List ρ × (ι → σ)
  | [], s => ([], s)
  | (i, a) :: rest, s =>
    ((step a (s i)).1 :: (run step rest (Function.update s i (step a (s i)).2)).1,
      (run step rest (Function.update s i (step a (s i)).2)).2)

/-- The calls that go to a component. -/
def project (i : ι) : List (ι × α) → List α
  | [] => []
  | (j, a) :: rest => if j = i then a :: project i rest else project i rest

/-- The replies to the calls that go to a component. -/
def repliesTo (i : ι) : List (ι × α) → List ρ → List ρ
  | (j, _) :: rest, r :: rs => if j = i then r :: repliesTo i rest rs else repliesTo i rest rs
  | _, _ => []

variable (step : α → σ → ρ × σ) (fits : α → σ → Prop)

/-- **No interference**: an interleaving gives each component what its own calls alone give it. -/
theorem run_project (calls : List (ι × α)) (i : ι) : ∀ s : ι → σ,
    (repliesTo i calls (run step calls s).1, (run step calls s).2 i) =
      runOne step (project i calls) (s i) := by
  induction calls with
  | nil => exact fun s => rfl
  | cons call rest ih =>
    obtain ⟨j, a⟩ := call
    intro s
    have hrest := ih (Function.update s j (step a (s j)).2)
    rw [Prod.ext_iff] at hrest ⊢
    by_cases hj : j = i
    · subst hj
      simp only [Function.update_self] at hrest
      simp only [run, repliesTo, project, if_true, runOne]
      exact ⟨congrArg _ hrest.1, hrest.2⟩
    · rw [Function.update_of_ne (Ne.symm hj)] at hrest
      simp only [run, repliesTo, project, if_neg hj]
      exact hrest

/-- The calls of every component meet their preconditions on that component alone. -/
def Fits (calls : List (ι × α)) (s : ι → σ) : Prop :=
  ∀ i, FitsOne step fits (project i calls) (s i)

/-- The first call meets its precondition, and the others do after it. -/
theorem Fits.cons {i : ι} {a : α} {rest : List (ι × α)} {s : ι → σ}
    (h : Fits step fits ((i, a) :: rest) s) :
    fits a (s i) ∧ Fits step fits rest (Function.update s i (step a (s i)).2) := by
  have hi := h i
  rw [project, if_pos rfl] at hi
  refine ⟨hi.1, fun j => ?_⟩
  by_cases hj : i = j
  · subst hj
    rw [Function.update_self]
    exact hi.2
  · have hrest := h j
    rw [project, if_neg hj] at hrest
    rwa [Function.update_of_ne (Ne.symm hj)]

end Interleave
