import Embext.Library.Program

set_option autoImplicit false

/-! # Programs generated by primitive steps

`Prog.Gen B α m` says that `m` is put together from the primitive steps in `B` by returning,
faulting and sequencing. What holds of the primitives and composes holds of every such program:

* `Gen.maintains`: an invariant of every primitive is an invariant of the program;
* `Gen.transfer`: a run in which nothing goes wrong is the same run in another environment, if that
  is so for every primitive;
* `Gen.history`: a run is a history of events, if that is so for every primitive. -/

namespace Prog

variable {ρ ε σ : Type}

/-- Programs built from the primitives `B`. -/
inductive Gen (B : (α : Type) → Prog ρ ε σ α → Prop) : (α : Type) → Prog ρ ε σ α → Prop where
  | prim {α : Type} {m : Prog ρ ε σ α} : B α m → Gen B α m
  | pure {α : Type} (a : α) : Gen B α (pure a)
  | fault {α : Type} (e : ε) : Gen B α (Prog.fault e)
  | bind {α β : Type} {m : Prog ρ ε σ α} {f : α → Prog ρ ε σ β} :
      Gen B α m → (∀ a, Gen B β (f a)) → Gen B β (m >>= f)

namespace Gen

variable {B B' : (α : Type) → Prog ρ ε σ α → Prop} {α β : Type} {m : Prog ρ ε σ α}

theorem mono (hB : ∀ α m, B α m → B' α m) (hm : Gen B α m) : Gen B' α m := by
  induction hm with
  | prim h => exact prim (hB _ _ h)
  | pure a => exact pure a
  | fault e => exact fault e
  | bind _ _ ihm ihf => exact bind ihm ihf

theorem ite {c : Prop} [Decidable c] {m₁ m₂ : Prog ρ ε σ α} (h₁ : c → Gen B α m₁)
    (h₂ : ¬ c → Gen B α m₂) : Gen B α (if c then m₁ else m₂) := by
  split
  · next h => exact h₁ h
  · next h => exact h₂ h

/-- An invariant of the primitives is an invariant of the program. -/
theorem maintains {r : ρ} {I : σ → Prop}
    (hB : ∀ α m, B α m → m.Maintains r I fun _ => True) (hm : Gen B α m) :
    m.Maintains r I fun _ => True := by
  induction hm with
  | prim h => exact hB _ _ h
  | pure a => exact maintains_pure True.intro
  | fault e => exact maintains_fault e
  | bind _ _ ihm ihf => exact ihm.bind fun a _ => ihf a

/-- **Transfer to another environment.** `Smooth s s'` says that nothing went wrong between two
    states. When states only advance along `le`, a smooth run is smooth in each of its parts, and
    every smooth step of a primitive is the same step in the environment `r'`, a smooth run is the
    same run there. -/
theorem transfer {r r' : ρ} (le Smooth : σ → σ → Prop) (hrefl : ∀ s, le s s)
    (htrans : ∀ s₁ s₂ s₃, le s₁ s₂ → le s₂ s₃ → le s₁ s₃)
    (hsplit : ∀ s₁ s₂ s₃, le s₁ s₂ → le s₂ s₃ → Smooth s₁ s₃ → Smooth s₁ s₂ ∧ Smooth s₂ s₃)
    (hB : ∀ α m, B α m → ∀ s a s', m r s = .ok (a, s') →
      le s s' ∧ (Smooth s s' → m r' s = .ok (a, s')))
    (hm : Gen B α m) : ∀ s a s', m r s = .ok (a, s') →
      le s s' ∧ (Smooth s s' → m r' s = .ok (a, s')) := by
  induction hm with
  | prim h => exact hB _ _ h
  | pure b =>
    intro s a s' h
    simp only [pure_apply, Except.ok.injEq, Prod.mk.injEq] at h
    obtain ⟨rfl, rfl⟩ := h
    exact ⟨hrefl s, fun _ => rfl⟩
  | fault e =>
    intro s a s' h
    exact absurd h (by simp)
  | bind _ _ ihm ihf =>
    intro s b s' h
    obtain ⟨a, s₁, h₁, h₂⟩ := of_bind_ok h
    obtain ⟨hle₁, hr₁⟩ := ihm s a s₁ h₁
    obtain ⟨hle₂, hr₂⟩ := ihf a s₁ b s' h₂
    refine ⟨htrans _ _ _ hle₁ hle₂, fun hsm => ?_⟩
    obtain ⟨hsm₁, hsm₂⟩ := hsplit _ _ _ hle₁ hle₂ hsm
    rw [bind_ok (hr₁ hsm₁)]
    exact hr₂ hsm₂

/-- **Histories.** `R s l s'` says that the events `l` lead from one state to the other. When every
    primitive goes along some events, so does the program. -/
theorem history {τ : Type} {r : ρ} {R : σ → List τ → σ → Prop} (hnil : ∀ s, R s [] s)
    (happend : ∀ {s l s₁ l' s₂}, R s l s₁ → R s₁ l' s₂ → R s (l ++ l') s₂)
    (hB : ∀ α m, B α m → ∀ s a s', m r s = .ok (a, s') → ∃ l, R s l s') (hm : Gen B α m) :
    ∀ s a s', m r s = .ok (a, s') → ∃ l, R s l s' := by
  induction hm with
  | prim h => exact hB _ _ h
  | pure b =>
    intro s a s' h
    cases h
    exact ⟨[], hnil s⟩
  | fault e =>
    intro s a s' h
    cases h
  | bind _ _ ihm ihf =>
    intro s b s' h
    obtain ⟨a, s₁, h₁, h₂⟩ := of_bind_ok h
    obtain ⟨l, hl⟩ := ihm s a s₁ h₁
    obtain ⟨l', hl'⟩ := ihf a s₁ b s' h₂
    exact ⟨l ++ l', happend hl hl'⟩

end Gen

end Prog
