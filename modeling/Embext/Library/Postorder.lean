import Mathlib.Data.List.Perm.Basic
import Mathlib.Data.List.TakeWhile

set_option autoImplicit false

/-! # Trees in postorder

A node has a list of entries, some of which are in use. `full` lists the tree below a node to a given
depth, children first. `cut` does the same but takes the first unused entry of a node for the last;
`lost` is what it leaves out. -/

namespace Postorder

variable {α : Type} (entries : α → List α) (used : α → Bool)

def full : Nat → α → List α
  | 0, a => [a]
  | n + 1, a => ((entries a).filter used).flatMap (full n) ++ [a]

def cut : Nat → α → List α
  | 0, a => [a]
  | n + 1, a => ((entries a).takeWhile used).flatMap (cut n) ++ [a]

/-- The entries in use behind one that is not. -/
def behind (a : α) : List α := ((entries a).dropWhile used).filter used

def lost : Nat → α → List α
  | 0, _ => []
  | n + 1, a => ((entries a).takeWhile used).flatMap (lost n) ++
      (behind entries used a).flatMap (full entries used n)

theorem filter_eq_takeWhile_append (l : List α) :
    l.filter used = l.takeWhile used ++ (l.dropWhile used).filter used := by
  conv_lhs => rw [← List.takeWhile_append_dropWhile (p := used) (l := l), List.filter_append]
  congr 1
  rw [List.filter_eq_self]
  exact fun a ha => List.mem_takeWhile_imp ha

/-- A listing by parts, part by part. -/
theorem flatMap_append_perm {β : Type} (f g : α → List β) (l : List α) :
    (l.flatMap fun a => f a ++ g a).Perm (l.flatMap f ++ l.flatMap g) := by
  induction l with
  | nil => rfl
  | cons a l ih =>
    simp only [List.flatMap_cons, List.append_assoc]
    refine List.Perm.append_left _ ?_
    refine (List.Perm.append_left _ ih).trans ?_
    rw [← List.append_assoc, ← List.append_assoc]
    exact List.Perm.append_right _ List.perm_append_comm

/-- What is listed and what is left out make up the tree. -/
theorem full_perm (n : Nat) : ∀ a : α,
    (full entries used n a).Perm (cut entries used n a ++ lost entries used n a) := by
  induction n with
  | zero => exact fun a => .refl _
  | succ n ih =>
    intro a
    have hfull : (((entries a).takeWhile used).flatMap (full entries used n)).Perm
        (((entries a).takeWhile used).flatMap (cut entries used n) ++
          ((entries a).takeWhile used).flatMap (lost entries used n)) :=
      (List.Perm.flatMap_left _ fun b _ => ih b).trans (flatMap_append_perm _ _ _)
    simp only [full, cut, lost]
    rw [filter_eq_takeWhile_append, List.flatMap_append, List.append_assoc, List.append_assoc]
    refine (List.Perm.append_right _ hfull).trans ?_
    rw [List.append_assoc]
    refine List.Perm.append_left _ ?_
    rw [← List.append_assoc, ← List.append_assoc]
    exact List.perm_append_comm.trans (.of_eq (List.append_assoc _ _ _).symm)

end Postorder
