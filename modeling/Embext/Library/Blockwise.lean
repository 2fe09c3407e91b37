import Mathlib.Data.List.Basic

set_option autoImplicit false

/-! # Lists cut into blocks

A list is its full blocks of `n` items and the rest behind them. What is appended completes the rest
first, so a fold over the full blocks can be resumed from a state and a rest. -/

namespace Blockwise

variable {α σ : Type} {n : Nat}

/-- The full blocks of a list. -/
def blocks (n : Nat) (l : List α) : List (List α) :=
  (List.range (l.length / n)).map fun i => (l.drop (i * n)).take n

/-- What is left behind them. -/
def rest (n : Nat) (l : List α) : List α := l.drop (l.length / n * n)

@[simp] theorem length_rest (n : Nat) (l : List α) : (rest n l).length = l.length % n := by
  have hdiv := Nat.div_add_mod' l.length n
  rw [rest, List.length_drop]
  omega

theorem blocks_short {l : List α} (hlt : l.length < n) : blocks n l = [] := by
  rw [blocks, Nat.div_eq_of_lt hlt]
  rfl

theorem rest_short {l : List α} (hlt : l.length < n) : rest n l = l := by
  rw [rest, Nat.div_eq_of_lt hlt, Nat.zero_mul, List.drop_zero]

section

variable (hn : 0 < n)
include hn

theorem length_div_cons {b : List α} (hb : b.length = n) (l : List α) :
    (b ++ l).length / n = l.length / n + 1 := by
  rw [List.length_append, hb, Nat.add_comm, Nat.add_div_right _ hn]

/-- A full block in front. -/
theorem blocks_cons {b : List α} (hb : b.length = n) (l : List α) :
    blocks n (b ++ l) = b :: blocks n l := by
  rw [blocks, length_div_cons hn hb, List.range_succ_eq_map, List.map_cons, List.map_map]
  have hfirst : ((b ++ l).drop (0 * n)).take n = b := by
    rw [Nat.zero_mul, List.drop_zero, List.take_left' hb]
  rw [hfirst]
  refine congrArg (b :: ·) (List.map_congr_left fun i _ => ?_)
  have hnext : (i + 1) * n = b.length + i * n := by rw [hb, Nat.add_mul, Nat.one_mul, Nat.add_comm]
  rw [Function.comp_apply, hnext, List.drop_length_add_append]

theorem rest_cons {b : List α} (hb : b.length = n) (l : List α) : rest n (b ++ l) = rest n l := by
  have hnext : (l.length / n + 1) * n = b.length + l.length / n * n := by
    rw [hb, Nat.add_mul, Nat.one_mul, Nat.add_comm]
  rw [rest, length_div_cons hn hb, hnext, List.drop_length_add_append]
  rfl

/-- One full block. -/
theorem blocks_one {b : List α} (hb : b.length = n) : blocks n b = [b] := by
  have hcons := blocks_cons hn hb []
  rwa [List.append_nil, blocks_short (l := []) hn] at hcons

/-- **Resuming.** What is appended goes on from the rest. -/
theorem blocks_append (l l' : List α) :
    blocks n (l ++ l') = blocks n l ++ blocks n (rest n l ++ l') ∧
      rest n (l ++ l') = rest n (rest n l ++ l') := by
  induction hlen : l.length using Nat.strongRecOn generalizing l with
  | ind len ih =>
    by_cases hlt : l.length < n
    · rw [blocks_short hlt, rest_short hlt]
      exact ⟨rfl, rfl⟩
    · -- a block is split off in front
      obtain ⟨b, t, rfl, hb⟩ : ∃ b t, l = b ++ t ∧ b.length = n :=
        ⟨l.take n, l.drop n, (List.take_append_drop n l).symm, List.length_take_of_le (by omega)⟩
      have hshort : t.length < len := by
        rw [← hlen, List.length_append]
        omega
      obtain ⟨hblocks, hrest⟩ := ih t.length hshort t rfl
      rw [List.append_assoc, blocks_cons hn hb, blocks_cons hn hb, rest_cons hn hb, rest_cons hn hb,
        hblocks]
      exact ⟨rfl, hrest⟩

/-- What is appended leaves the rest short of a block. -/
theorem append_short {l l' : List α} (hlt : (rest n l ++ l').length < n) :
    blocks n (l ++ l') = blocks n l ∧ rest n (l ++ l') = rest n l ++ l' := by
  obtain ⟨hblocks, hrest⟩ := blocks_append hn l l'
  rw [hblocks, hrest, blocks_short hlt, rest_short hlt, List.append_nil]
  exact ⟨rfl, rfl⟩

/-- What is appended completes a block. -/
theorem append_full {l front : List α} (hfull : (rest n l ++ front).length = n) (back : List α) :
    blocks n (l ++ (front ++ back)) = blocks n l ++ (rest n l ++ front) :: blocks n back ∧
      rest n (l ++ (front ++ back)) = rest n back := by
  obtain ⟨hblocks, hrest⟩ := blocks_append hn l (front ++ back)
  rw [hblocks, hrest, ← List.append_assoc, blocks_cons hn hfull, rest_cons hn hfull]
  exact ⟨rfl, rfl⟩

end

end Blockwise
