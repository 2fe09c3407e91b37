import Mathlib.Data.Set.Finite.Basic

set_option autoImplicit false

/-! # Walks of a partial function

`walk next a n` follows a partial function for `n` steps. Over finitely many states a walk ends
exactly when it never comes back to a state it has been in. -/

namespace Walk

variable {α : Type} (next : α → Option α)

/-- The state after `n` steps; `none` when the walk has ended. -/
def walk (a : α) : Nat → Option α
  | 0 => some a
  | n + 1 => (walk a n).bind next

/-- The walk comes back to a state. -/
def Revisits (a : α) : Prop :=
  ∃ i j, i < j ∧ walk next a j ≠ none ∧ walk next a i = walk next a j

variable {next} {a b : α} {i j n : Nat}

/-- The first step taken off. -/
theorem walk_succ (hstep : next a = some b) : walk next a (n + 1) = walk next b n := by
  induction n with
  | zero => exact hstep
  | succ n ih => exact congrArg (Option.bind · next) ih

/-- An ended walk stays ended. -/
theorem walk_none_add (hnone : walk next a n = none) (k : Nat) : walk next a (n + k) = none := by
  induction k with
  | zero => exact hnone
  | succ k ih => exact congrArg (Option.bind · next) ih

/-- From equal states the walk goes on alike. -/
theorem walk_add (heq : walk next a i = walk next a j) (k : Nat) :
    walk next a (i + k) = walk next a (j + k) := by
  induction k with
  | zero => exact heq
  | succ k ih => exact congrArg (Option.bind · next) ih

/-- A walk that comes back does so again and again. -/
theorem walk_period (hij : i < j) (heq : walk next a i = walk next a j) (k : Nat) :
    walk next a (i + k * (j - i)) = walk next a i := by
  induction k with
  | zero => rw [Nat.zero_mul, Nat.add_zero]
  | succ k ih =>
    have hshift := walk_add heq (k * (j - i))
    rw [ih] at hshift
    rw [hshift]
    congr 1
    rw [Nat.add_mul, Nat.one_mul]
    omega

/-- A state that leads to itself. -/
theorem Revisits.of_fixed (hstep : next a = some a) : Revisits next a :=
  ⟨0, 1, Nat.zero_lt_one, fun hnone => Option.some_ne_none a (hstep.symm.trans hnone), hstep.symm⟩

theorem Revisits.never_ends (hrev : Revisits next a) (n : Nat) : walk next a n ≠ none := by
  obtain ⟨i, j, hij, hne, heq⟩ := hrev
  intro hnone
  have hfar := walk_period hij heq n
  have hge : n ≤ i + n * (j - i) := by
    have hmul : n * 1 ≤ n * (j - i) := Nat.mul_le_mul_left n (by omega)
    omega
  obtain ⟨k, hk⟩ := Nat.exists_eq_add_of_le hge
  rw [hk, walk_none_add hnone k, heq] at hfar
  exact hne hfar.symm

/-- **Ending.** A walk through finitely many states ends if and only if it never comes back. -/
theorem ends_iff {s : Set α} (hs : s.Finite) (hdom : ∀ x y, next x = some y → x ∈ s) :
    (∃ n, walk next a n = none) ↔ ¬ Revisits next a := by
  constructor
  · rintro ⟨n, hn⟩ hrev
    exact hrev.never_ends n hn
  · intro hrev
    by_contra hall
    have hgoes : ∀ n, walk next a n ≠ none := fun n hn => hall ⟨n, hn⟩
    -- every state on the way has a successor, and no two of them are the same
    have hmem : ∀ n, ∃ x ∈ s, walk next a n = some x := by
      intro n
      obtain ⟨x, hx⟩ := Option.ne_none_iff_exists'.1 (hgoes n)
      obtain ⟨y, hy⟩ := Option.ne_none_iff_exists'.1 (hgoes (n + 1))
      have hstep : (walk next a n).bind next = some y := hy
      rw [hx] at hstep
      exact ⟨x, hdom x y hstep, hx⟩
    choose f hf hwalk using hmem
    have hinj : Function.Injective f := by
      intro i j hij
      by_contra hne
      rcases Nat.lt_or_gt_of_ne hne with hlt | hlt
      · exact hrev ⟨i, j, hlt, hgoes j, by rw [hwalk i, hwalk j, hij]⟩
      · exact hrev ⟨j, i, hlt, hgoes i, by rw [hwalk i, hwalk j, hij]⟩
    exact Set.infinite_of_injective_forall_mem hinj hf hs

end Walk
