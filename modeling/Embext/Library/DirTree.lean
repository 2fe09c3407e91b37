import Mathlib.Data.List.Nodup
import Mathlib.Data.Set.Basic
import Mathlib.Logic.Function.Basic

set_option autoImplicit false

/-! # Trees of directories

Some nodes are directories, each with a list of named entries, and a path leads through one entry for
each of its names. Entering a new name into a directory gives the tree exactly the path to it, as long
as it leads to no directory. -/

/-- The nodes that are directories, and the entries of each. -/
structure DirTree (ν α : Type) where
  dirs : Set ν
  entries : ν → List (α × ν)

namespace DirTree

variable {ν α : Type} {t : DirTree ν α} {d n x y z : ν} {a b : α} {path init rest : List α}

/-- From node `x` the names lead to node `z`. -/
inductive Leads (t : DirTree ν α) : ν → List α → ν → Prop where
  | here (x : ν) : Leads t x [] x
  | entry {x y z : ν} {a : α} {path : List α} (dir : x ∈ t.dirs) (mem : (a, y) ∈ t.entries x)
      (rest : Leads t y path z) : Leads t x (a :: path) z

@[simp] theorem leads_nil : t.Leads x [] z ↔ x = z := by
  constructor
  · rintro ⟨⟩
    rfl
  · rintro rfl
    exact .here x

@[simp] theorem leads_cons : t.Leads x (a :: path) z ↔
    x ∈ t.dirs ∧ ∃ y, (a, y) ∈ t.entries x ∧ t.Leads y path z := by
  constructor
  · rintro (_ | ⟨dir, mem, rest⟩)
    exact ⟨dir, _, mem, rest⟩
  · rintro ⟨dir, y, mem, rest⟩
    exact .entry dir mem rest

theorem leads_append : t.Leads x (init ++ rest) z ↔ ∃ y, t.Leads x init y ∧ t.Leads y rest z := by
  induction init generalizing x with
  | nil => simp
  | cons a init ih =>
    simp only [List.cons_append, leads_cons, ih]
    grind

/-- Every directory has one entry of a name. -/
def Distinct (t : DirTree ν α) : Prop := ∀ x ∈ t.dirs, ((t.entries x).map Prod.fst).Nodup

theorem Distinct.leads_unique (ht : t.Distinct) (hy : t.Leads x path y) : t.Leads x path z → y = z := by
  induction hy with
  | here x => exact leads_nil.1
  | @entry x y₁ y a path dir mem _ ih =>
    intro hz
    obtain ⟨-, y₂, mem', rest⟩ := leads_cons.1 hz
    obtain ⟨-, rfl⟩ := Prod.mk.inj (List.inj_on_of_nodup_map (ht x dir) mem mem' rfl)
    exact ih rest

/-- From node `x` the names lead to a directory that has no entry of the next name. -/
def Misses (t : DirTree ν α) (x : ν) (path : List α) : Prop :=
  ∃ init a rest y, path = init ++ a :: rest ∧ t.Leads x init y ∧ y ∈ t.dirs ∧ ∀ z, (a, z) ∉ t.entries y

/-- Such names lead nowhere. -/
theorem Misses.not_leads (h : t.Misses x path) (ht : t.Distinct) : ¬ t.Leads x path z := by
  obtain ⟨init, a, rest, y, rfl, hy, -, hmiss⟩ := h
  intro hz
  obtain ⟨y', hy', hrest⟩ := leads_append.1 hz
  obtain rfl := ht.leads_unique hy hy'
  obtain ⟨-, n, hmem, -⟩ := leads_cons.1 hrest
  exact hmiss n hmem

/-! ## Entering a name -/

section

variable [DecidableEq ν]

/-- The tree with one more entry in directory `d`, behind the others. -/
def insert (t : DirTree ν α) (d : ν) (a : α) (n : ν) : DirTree ν α where
  dirs := t.dirs
  entries := Function.update t.entries d (t.entries d ++ [(a, n)])

@[simp] theorem dirs_insert : (t.insert d a n).dirs = t.dirs := rfl

theorem mem_entries_insert : (b, y) ∈ (t.insert d a n).entries x ↔
    (b, y) ∈ t.entries x ∨ x = d ∧ b = a ∧ y = n := by
  unfold insert
  by_cases hx : x = d
  · subst hx
    simp
  · simp [hx]

theorem Leads.insert (h : t.Leads x path z) : (t.insert d a n).Leads x path z := by
  induction h with
  | here x => exact .here x
  | entry dir mem _ ih => exact .entry dir (mem_entries_insert.2 (.inl mem)) ih

/-- **One more path**: the new entry is the end of a path, and every other path is as it was. -/
theorem leads_insert (hd : d ∈ t.dirs) (hn : n ∉ t.dirs) : (t.insert d a n).Leads x path z ↔
    t.Leads x path z ∨ ∃ init, path = init ++ [a] ∧ t.Leads x init d ∧ z = n := by
  constructor
  · intro h
    induction h with
    | here x => exact .inl (.here x)
    | @entry x y z b path dir mem rest ih =>
      rcases mem_entries_insert.1 mem with hold | ⟨rfl, rfl, rfl⟩
      · rcases ih with ih | ⟨init, rfl, ih, rfl⟩
        · exact .inl (.entry dir hold ih)
        · exact .inr ⟨b :: init, rfl, .entry dir hold ih, rfl⟩
      · -- nothing lies behind the new entry
        cases rest with
        | here => exact .inr ⟨[], rfl, .here _, rfl⟩
        | entry dir' => exact absurd dir' hn
  · rintro (h | ⟨init, rfl, h, rfl⟩)
    · exact h.insert
    · exact leads_append.2 ⟨d, h.insert, .entry hd (mem_entries_insert.2 (.inr ⟨rfl, rfl, rfl⟩)) (.here _)⟩

theorem Distinct.insert (ht : t.Distinct) (ha : ∀ y, (a, y) ∉ t.entries d) :
    (t.insert d a n).Distinct := by
  intro x hx
  by_cases hxd : x = d
  · subst hxd
    have hold := ht x hx
    have hnew : ∀ b ∈ (t.entries x).map Prod.fst, b ≠ a := by
      rintro b hb rfl
      obtain ⟨⟨b, y⟩, hmem, rfl⟩ := List.mem_map.1 hb
      exact ha y hmem
    simp only [DirTree.insert, Function.update_self, List.map_append, List.nodup_append]
    exact ⟨hold, by simp, by simpa using hnew⟩
  · simpa only [DirTree.insert, Function.update_of_ne hxd] using ht x hx

end

end DirTree
