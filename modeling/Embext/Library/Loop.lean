import Embext.Library.Program

set_option autoImplicit false

/-! # Loops

A loop is a program for one turn, which goes on from new local variables or leaves with a result.
`Turns` are the states its turns come through, `loop` runs it up to a number of turns. A measure that
drops with every turn bounds how many there are, and a run with more than that ends by itself. -/

namespace Prog

/-- What one turn of a loop does: it goes on, or it leaves the loop. -/
inductive Turn (τ β : Type) where
  | next (x : τ)
  | leave (b : β)

variable {ρ ε σ τ β : Type}

/-- Up to `fuel` turns; the fault `stuck` when none of them has left the loop. -/
def loop (stuck : ε) (turn : τ → Prog ρ ε σ (Turn τ β)) : Nat → τ → Prog ρ ε σ β
  | 0, _ => fault stuck
  | fuel + 1, x => do
    let t ← turn x
    match t with
    | .next y => loop stuck turn fuel y
    | .leave b => pure b

/-- `n` turns lead from the variables `x` in state `s` to `y` in state `t`. -/
inductive Turns (turn : τ → Prog ρ ε σ (Turn τ β)) (r : ρ) : τ → σ → Nat → τ → σ → Prop where
  | start (x : τ) (s : σ) : Turns turn r x s 0 x s
  | step {x y z : τ} {s t u : σ} {n : Nat} (before : Turns turn r x s n y t)
      (next : turn y r t = .ok (.next z, u)) : Turns turn r x s (n + 1) z u

variable {stuck : ε} {turn : τ → Prog ρ ε σ (Turn τ β)} {r : ρ} {x y z : τ} {s t u : σ} {n : Nat}
  {b : β}

/-- A turn put in front. -/
theorem Turns.cons (first : turn x r s = .ok (.next y, t)) (rest : Turns turn r y t n z u) :
    Turns turn r x s (n + 1) z u := by
  induction rest with
  | start => exact .step (.start _ _) first
  | step _ next ih => exact .step (ih first) next

/-! ## One turn of a run -/

theorem loop_next (fuel : Nat) (hturn : turn x r s = .ok (.next y, t)) :
    loop stuck turn (fuel + 1) x r s = loop stuck turn fuel y r t := bind_ok hturn

theorem loop_leave (fuel : Nat) (hturn : turn x r s = .ok (.leave b, t)) :
    loop stuck turn (fuel + 1) x r s = .ok (b, t) := bind_ok hturn

theorem loop_error {e : ε} (fuel : Nat) (hturn : turn x r s = .error e) :
    loop stuck turn (fuel + 1) x r s = .error e := bind_error hturn

/-! ## Invariants and measures -/

section

variable {I : τ → σ → Prop} (hI : ∀ y t z u, I y t → turn y r t = .ok (.next z, u) → I z u)
include hI

/-- What every turn keeps holds wherever the turns lead. -/
theorem Turns.invariant (hturns : Turns turn r x s n y t) (hx : I x s) : I y t := by
  induction hturns with
  | start => exact hx
  | step _ next ih => exact hI _ _ _ _ (ih hx) next

variable {μ : τ → Nat}
  (hμ : ∀ y t z u, I y t → turn y r t = .ok (.next z, u) → μ z < μ y)
include hμ

/-- There are no more turns than the measure has room for. -/
theorem Turns.add_measure_le (hturns : Turns turn r x s n y t) (hx : I x s) : n + μ y ≤ μ x := by
  induction hturns with
  | start => omega
  | step before next ih =>
    have hdrop := hμ _ _ _ _ (before.invariant hI hx) next
    have hle := ih hx
    omega

/-- **Ending.** With more turns than the measure a loop is left by a turn, or a turn of it faults. -/
theorem loop_ends (fuel : Nat) : ∀ {x : τ} {s : σ}, I x s → μ x < fuel →
    (∃ n y t b u, Turns turn r x s n y t ∧ turn y r t = .ok (.leave b, u) ∧
      loop stuck turn fuel x r s = .ok (b, u)) ∨
    ∃ n y t e, Turns turn r x s n y t ∧ turn y r t = .error e ∧
      loop stuck turn fuel x r s = .error e := by
  induction fuel with
  | zero => exact fun _ hfuel => absurd hfuel (Nat.not_lt_zero _)
  | succ fuel ih =>
    intro x s hx hfuel
    rcases hturn : turn x r s with e | ⟨y | b, t⟩
    · exact .inr ⟨0, x, s, e, .start x s, hturn, loop_error fuel hturn⟩
    · have hdrop := hμ _ _ _ _ hx hturn
      rw [loop_next fuel hturn]
      rcases ih (hI _ _ _ _ hx hturn) (by omega) with
        ⟨n, z, u, b, v, hturns, hlast, hrun⟩ | ⟨n, z, u, e, hturns, hlast, hrun⟩
      · exact .inl ⟨n + 1, z, u, b, v, .cons hturn hturns, hlast, hrun⟩
      · exact .inr ⟨n + 1, z, u, e, .cons hturn hturns, hlast, hrun⟩
    · exact .inl ⟨0, x, s, b, t, .start x s, hturn, loop_leave fuel hturn⟩

end

end Prog
