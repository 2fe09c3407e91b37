import Mathlib.Logic.Relation

set_option autoImplicit false

/-! # Fallible stateful programs

A `Prog ρ ε σ α` reads a fixed environment `ρ`, transforms a state `σ` and either stops with a
fault `ε` or returns an `α`. Programs are plain functions, so they run; on top of them sit six
ways of reasoning.

* **Running forward.** `Prog.bind_ok` executes a program one step at a time when each step is
  known to return.
* **Invariants.** `Prog.Maintains r I m P` says that whenever `m` starts in a state with `I` and
  returns, `I` holds again and the value has `P`. It composes along the structure of the program.
* **Pre- and postconditions.** `Prog.Ensures r I m S` relates the value to the final state, for
  invariants of a record that is passed from step to step.
* **Absence of faults.** `Prog.Avoids r I m B` says that no run of `m` from a state with `I` ends in
  a fault of the kind `B`.
* **Exact runs through a view.** `Prog.Yields r v m w a w'` says that `m` returns `a` and takes every
  state seen as `w` to one seen as `w'`, where `v` forgets what the caller does not follow.
* **The same run elsewhere.** `Prog.Tracks φ ψ m m'` says that `m'` does on the states `φ s` what `m`
  does on `s`, faults included. -/

/-- A deterministic program over environment `ρ`, fault `ε` and state `σ`. -/
def Prog (ρ ε σ α : Type) : Type := ρ → σ → Except ε (α × σ)

namespace Prog

variable {ρ ε σ α β : Type}

instance : Monad (Prog ρ ε σ) where
  pure a := fun _ s => .ok (a, s)
  bind m f := fun r s =>
    match m r s with
    | .error e => .error e
    | .ok (a, s') => f a r s'

/-- Stop with a fault. -/
def fault (e : ε) : Prog ρ ε σ α := fun _ _ => .error e

/-- The current state. -/
def get : Prog ρ ε σ σ := fun _ s => .ok (s, s)

/-- Transform the state. -/
def modify (f : σ → σ) : Prog ρ ε σ Unit := fun _ s => .ok ((), f s)

/-! ## Running forward -/

variable {r : ρ} {s s' : σ} {a : α} {b : β} {m : Prog ρ ε σ α} {f : α → Prog ρ ε σ β}

@[simp] theorem pure_apply (a : α) (r : ρ) (s : σ) :
    (pure a : Prog ρ ε σ α) r s = .ok (a, s) := rfl

@[simp] theorem fault_apply (e : ε) (r : ρ) (s : σ) :
    (fault e : Prog ρ ε σ α) r s = .error e := rfl

@[simp] theorem get_apply (r : ρ) (s : σ) : (get : Prog ρ ε σ σ) r s = .ok (s, s) := rfl

@[simp] theorem modify_apply (g : σ → σ) (r : ρ) (s : σ) :
    (modify g : Prog ρ ε σ Unit) r s = .ok ((), g s) := rfl

theorem bind_apply (m : Prog ρ ε σ α) (f : α → Prog ρ ε σ β) (r : ρ) (s : σ) :
    (m >>= f) r s = match m r s with
      | .error e => .error e
      | .ok (a, s') => f a r s' := rfl

/-- A step that returns hands its value and state to the rest. -/
theorem bind_ok (h : m r s = .ok (a, s')) : (m >>= f) r s = f a r s' := by
  rw [bind_apply, h]

/-- A step that faults ends the run. -/
theorem bind_error {e : ε} (h : m r s = .error e) : (m >>= f) r s = .error e := by
  rw [bind_apply, h]

/-- A run of a sequence that returns splits into the runs of its two parts. -/
theorem of_bind_ok (h : (m >>= f) r s = .ok (b, s')) :
    ∃ a s₁, m r s = .ok (a, s₁) ∧ f a r s₁ = .ok (b, s') := by
  rw [bind_apply] at h
  rcases hm : m r s with e | ⟨a, s₁⟩
  · rw [hm] at h; exact absurd h (by simp)
  · rw [hm] at h; exact ⟨a, s₁, rfl, h⟩

instance : LawfulMonad (Prog ρ ε σ) := LawfulMonad.mk' _
  (by
    intro α m
    funext r s
    change (m >>= fun a => pure (id a)) r s = m r s
    rw [bind_apply]
    rcases m r s with e | ⟨a, s₁⟩ <;> rfl)
  (fun _ _ => rfl)
  (by
    intro α β γ m f g
    funext r s
    simp only [bind_apply]
    rcases m r s with e | ⟨a, s₁⟩ <;> rfl)

theorem ite_apply (c : Prop) [Decidable c] (m₁ m₂ : Prog ρ ε σ α) (r : ρ) (s : σ) :
    (if c then m₁ else m₂) r s = if c then m₁ r s else m₂ r s := by
  split <;> rfl

/-! ## Invariants -/

/-- Started in a state with `I`, whenever `m` returns, `I` still holds and the value has `P`. The
    initial state may occur in `I` as a parameter, which makes this a two-state specification. -/
def Maintains (r : ρ) (I : σ → Prop) (m : Prog ρ ε σ α) (P : α → Prop) : Prop :=
  ∀ s a s', I s → m r s = .ok (a, s') → I s' ∧ P a

variable {I : σ → Prop} {P P' : α → Prop} {Q : β → Prop}

theorem Maintains.mono (h : m.Maintains r I P) (hP : ∀ a, P a → P' a) : m.Maintains r I P' :=
  fun s a s' hs hm => ⟨(h s a s' hs hm).1, hP a (h s a s' hs hm).2⟩

theorem Maintains.trivial (h : m.Maintains r I P) : m.Maintains r I fun _ => True :=
  h.mono fun _ _ => True.intro

/-- A fact about the value alone joins an invariant. -/
theorem Maintains.and (h : m.Maintains r I P) (h' : m.Maintains r (fun _ => True) P') :
    m.Maintains r I fun a => P a ∧ P' a := fun s a s' hs hm =>
  ⟨(h s a s' hs hm).1, (h s a s' hs hm).2, (h' s a s' True.intro hm).2⟩

theorem maintains_pure (hP : P a) : (pure a : Prog ρ ε σ α).Maintains r I P := by
  intro s b s' hs h
  simp only [pure_apply, Except.ok.injEq, Prod.mk.injEq] at h
  obtain ⟨rfl, rfl⟩ := h
  exact ⟨hs, hP⟩

theorem maintains_fault (e : ε) : (fault e : Prog ρ ε σ α).Maintains r I P := by
  intro s b s' _ h
  exact absurd h (by simp)

/-- Reading something off the environment. -/
theorem maintains_ask {g : ρ → α} (hP : P (g r)) :
    Maintains r I (fun r s => .ok (g r, s) : Prog ρ ε σ α) P := by
  intro s b s' hs h
  simp only [Except.ok.injEq, Prod.mk.injEq] at h
  obtain ⟨rfl, rfl⟩ := h
  exact ⟨hs, hP⟩

theorem maintains_get : (get : Prog ρ ε σ σ).Maintains r I I := by
  intro s b s' hs h
  simp only [get_apply, Except.ok.injEq, Prod.mk.injEq] at h
  obtain ⟨rfl, rfl⟩ := h
  exact ⟨hs, hs⟩

theorem maintains_modify {g : σ → σ} (hI : ∀ s, I s → I (g s)) :
    (modify g : Prog ρ ε σ Unit).Maintains r I fun _ => True := by
  intro s b s' hs h
  simp only [modify_apply, Except.ok.injEq, Prod.mk.injEq] at h
  rw [← h.2]
  exact ⟨hI s hs, True.intro⟩

/-- Sequencing. -/
theorem Maintains.bind (hm : m.Maintains r I P) (hf : ∀ a, P a → (f a).Maintains r I Q) :
    (m >>= f).Maintains r I Q := by
  intro s b s' hs h
  obtain ⟨a, s₁, h₁, h₂⟩ := of_bind_ok h
  obtain ⟨hs₁, ha⟩ := hm s a s₁ hs h₁
  exact hf a ha s₁ b s' hs₁ h₂

/-- A fact about the value that holds whatever the first part does. -/
theorem maintains_skip (hf : ∀ a, (f a).Maintains r (fun _ => True) Q) :
    (m >>= f).Maintains r (fun _ => True) Q :=
  Maintains.bind (P := fun _ => True) (fun _ _ _ _ _ => ⟨trivial, trivial⟩) fun a _ => hf a

theorem maintains_ite {c : Prop} [Decidable c] {m₁ m₂ : Prog ρ ε σ α}
    (h₁ : c → m₁.Maintains r I P) (h₂ : ¬ c → m₂.Maintains r I P) :
    (if c then m₁ else m₂).Maintains r I P := by
  split
  · next h => exact h₁ h
  · next h => exact h₂ h

/-! ## Pre- and postconditions -/

/-- Started in a state with `I`, whenever `m` returns, its value and final state have `S`. -/
def Ensures (r : ρ) (I : σ → Prop) (m : Prog ρ ε σ α) (S : α → σ → Prop) : Prop :=
  ∀ s a s', I s → m r s = .ok (a, s') → S a s'

variable {S S' : α → σ → Prop} {T : β → σ → Prop}

theorem ensures_pure (hS : ∀ s, I s → S a s) : (pure a : Prog ρ ε σ α).Ensures r I S := by
  intro s b s' hs h
  simp only [pure_apply, Except.ok.injEq, Prod.mk.injEq] at h
  obtain ⟨rfl, rfl⟩ := h
  exact hS s hs

theorem ensures_fault (e : ε) : (fault e : Prog ρ ε σ α).Ensures r I S := by
  intro s b s' _ h
  exact absurd h (by simp)

theorem Ensures.mono (h : m.Ensures r I S) (hS : ∀ a s, S a s → S' a s) : m.Ensures r I S' :=
  fun s a s' hs hm => hS a s' (h s a s' hs hm)

/-- Sequencing: what the first part ensures is what the rest starts from. -/
theorem Ensures.bind (hm : m.Ensures r I S) (hf : ∀ a, (f a).Ensures r (S a) T) :
    (m >>= f).Ensures r I T := by
  intro s b s' hs h
  obtain ⟨a, s₁, h₁, h₂⟩ := of_bind_ok h
  exact hf a s₁ b s' (hm s a s₁ hs h₁) h₂

/-- Sequencing, with a fact about the value that holds whatever the first part does. -/
theorem Ensures.bind_value (hm : m.Ensures r I S) (hP : m.Maintains r (fun _ => True) P)
    (hf : ∀ a, P a → (f a).Ensures r (S a) T) : (m >>= f).Ensures r I T := by
  intro s b s' hs h
  obtain ⟨a, s₁, h₁, h₂⟩ := of_bind_ok h
  exact hf a (hP s a s₁ True.intro h₁).2 s₁ b s' (hm s a s₁ hs h₁) h₂

/-- After a part that keeps the precondition. -/
theorem Maintains.bind_ensures (hm : m.Maintains r I P) (hf : ∀ a, P a → (f a).Ensures r I T) :
    (m >>= f).Ensures r I T := by
  intro s b s' hs h
  obtain ⟨a, s₁, h₁, h₂⟩ := of_bind_ok h
  obtain ⟨hs₁, ha⟩ := hm s a s₁ hs h₁
  exact hf a ha s₁ b s' hs₁ h₂

theorem ensures_ite {c : Prop} [Decidable c] {m₁ m₂ : Prog ρ ε σ α}
    (h₁ : c → m₁.Ensures r I S) (h₂ : ¬ c → m₂.Ensures r I S) :
    (if c then m₁ else m₂).Ensures r I S := by
  split
  · next h => exact h₁ h
  · next h => exact h₂ h

/-! ## Absence of faults -/

/-- Started in a state with `I`, `m` does not end in a fault of the kind `B`. -/
def Avoids (r : ρ) (I : σ → Prop) (m : Prog ρ ε σ α) (B : ε → Prop) : Prop :=
  ∀ s e, I s → m r s = .error e → ¬ B e

variable {B : ε → Prop}

theorem avoids_pure (a : α) : (pure a : Prog ρ ε σ α).Avoids r I B := by
  intro s e _ h
  exact absurd h (by simp)

theorem avoids_fault {e : ε} (he : ¬ B e) : (fault e : Prog ρ ε σ α).Avoids r I B := by
  intro s e' _ h
  simp only [fault_apply, Except.error.injEq] at h
  exact h ▸ he

/-- A program that always returns. -/
theorem avoids_total (h : ∀ s, I s → ∃ a s', m r s = .ok (a, s')) : m.Avoids r I B := by
  intro s e hs herr
  obtain ⟨a, s', hrun⟩ := h s hs
  rw [hrun] at herr
  cases herr

/-- Sequencing: the first part keeps the invariant for the rest. -/
theorem Avoids.bind (hm : m.Avoids r I B) (hI : m.Maintains r I P)
    (hf : ∀ a, P a → (f a).Avoids r I B) : (m >>= f).Avoids r I B := by
  intro s e hs h
  rcases hrun : m r s with e' | ⟨a, s₁⟩
  · rw [bind_error hrun, Except.error.injEq] at h
    exact h ▸ hm s e' hs hrun
  · rw [bind_ok hrun] at h
    obtain ⟨hs₁, ha⟩ := hI s a s₁ hs hrun
    exact hf a ha s₁ e hs₁ h

theorem avoids_ite {c : Prop} [Decidable c] {m₁ m₂ : Prog ρ ε σ α}
    (h₁ : c → m₁.Avoids r I B) (h₂ : ¬ c → m₂.Avoids r I B) :
    (if c then m₁ else m₂).Avoids r I B := by
  split
  · next h => exact h₁ h
  · next h => exact h₂ h

/-! ## Exact runs through a view -/

section View

variable {ω : Type} {v : σ → ω} {w w₁ w' : ω} {e : ε}

/-- From every state seen as `w` the program returns `a`, in a state seen as `w'`. -/
def Yields (r : ρ) (v : σ → ω) (m : Prog ρ ε σ α) (w : ω) (a : α) (w' : ω) : Prop :=
  ∀ s, v s = w → ∃ s', m r s = .ok (a, s') ∧ v s' = w'

/-- From every state seen as `w` the program stops with the fault `e`. -/
def Stops (r : ρ) (v : σ → ω) (m : Prog ρ ε σ α) (w : ω) (e : ε) : Prop :=
  ∀ s, v s = w → m r s = .error e

theorem yields_pure : (pure a : Prog ρ ε σ α).Yields r v w a w :=
  fun s hs => ⟨s, rfl, hs⟩

theorem stops_fault : (fault e : Prog ρ ε σ α).Stops r v w e :=
  fun _ _ => rfl

/-- Reading something off the environment. -/
theorem yields_ask (g : ρ → α) : Yields r v (fun r s => .ok (g r, s) : Prog ρ ε σ α) w (g r) w :=
  fun s hs => ⟨s, rfl, hs⟩

/-- Sequencing. -/
theorem Yields.bind (hm : m.Yields r v w a w₁) (hf : (f a).Yields r v w₁ b w') :
    (m >>= f).Yields r v w b w' := by
  intro s hs
  obtain ⟨s₁, hrun, hs₁⟩ := hm s hs
  obtain ⟨s', hrun', hs'⟩ := hf s₁ hs₁
  exact ⟨s', (bind_ok hrun).trans hrun', hs'⟩

/-- Sequencing, when the rest stops. -/
theorem Yields.bind_stops (hm : m.Yields r v w a w₁) (hf : (f a).Stops r v w₁ e) :
    (m >>= f).Stops r v w e := by
  intro s hs
  obtain ⟨s₁, hrun, hs₁⟩ := hm s hs
  exact (bind_ok hrun).trans (hf s₁ hs₁)

/-- Sequencing, when the first part stops. -/
theorem Stops.bind (hm : m.Stops r v w e) : (m >>= f).Stops r v w e :=
  fun s hs => bind_error (hm s hs)

end View

/-! ## The same run elsewhere -/

section Track

variable {σ' α' β' : Type} {φ : σ → σ'} {ψ : α → α'} {χ : β → β'}

/-- `m'` does on `φ s` what `m` does on `s`, and returns what `ψ` makes of the value. -/
def Tracks (φ : σ → σ') (ψ : α → α') (m : Prog ρ ε σ α) (m' : Prog ρ ε σ' α') : Prop :=
  ∀ r s, m' r (φ s) = (m r s).map fun x => (ψ x.1, φ x.2)

theorem tracks_pure (a : α) : (pure a : Prog ρ ε σ α).Tracks φ ψ (pure (ψ a)) := fun _ _ => rfl

theorem tracks_fault (e : ε) : (fault e : Prog ρ ε σ α).Tracks φ ψ (fault e) := fun _ _ => rfl

/-- Sequencing. -/
theorem Tracks.bind {m' : Prog ρ ε σ' α'} {f' : α' → Prog ρ ε σ' β'} (hm : m.Tracks φ ψ m')
    (hf : ∀ a, (f a).Tracks φ χ (f' (ψ a))) : (m >>= f).Tracks φ χ (m' >>= f') := by
  intro r s
  rw [bind_apply, bind_apply, hm r s]
  rcases m r s with e | ⟨a, s₁⟩
  · rfl
  · exact hf a r s₁

theorem tracks_ite {c : Prop} [Decidable c] {m₁ m₂ : Prog ρ ε σ α} {m₁' m₂' : Prog ρ ε σ' α'}
    (h₁ : m₁.Tracks φ ψ m₁') (h₂ : m₂.Tracks φ ψ m₂') :
    (if c then m₁ else m₂).Tracks φ ψ (if c then m₁' else m₂') := by
  split
  · exact h₁
  · exact h₂

end Track

end Prog
