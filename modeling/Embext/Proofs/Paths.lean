import Embext.Implementation.Path
import Mathlib.Data.List.Basic
import Mathlib.Data.List.TakeWhile

set_option autoImplicit false

/-! # Paths

The two ways the driver takes a path apart. `ext2_lookup_path` runs `strtok` over the first 1023
bytes and keeps 100 tokens; the create branch of `ext2_open` cuts the whole string at its last
`'/'`. The tokens of a concatenation are those of its parts, which reduces the comparison of the two
to lengths. -/

namespace Embext

/-! ## Tokens -/

/-- A separator ends the token being read. -/
theorem strtokAux_append (b : List UInt8) : ∀ (a cur : List UInt8),
    strtokAux cur (a ++ slash :: b) = strtokAux cur a ++ strtok b := by
  intro a
  induction a with
  | nil =>
    intro cur
    by_cases hcur : cur = []
    · simp [strtokAux, strtok, hcur]
    · simp [strtokAux, strtok, hcur]
  | cons c rest ih =>
    intro cur
    by_cases hc : c = slash
    · by_cases hcur : cur = []
      · simp only [List.cons_append, strtokAux, if_pos hc, if_pos hcur, ih]
      · simp only [List.cons_append, strtokAux, if_pos hc, if_neg hcur, ih]
    · simp only [List.cons_append, strtokAux, if_neg hc, ih]

/-- The tokens of two strings joined by a separator. -/
theorem strtok_append (a b : List UInt8) : strtok (a ++ slash :: b) = strtok a ++ strtok b :=
  strtokAux_append b a []

/-- Without a separator the rest of the string completes the token being read. -/
theorem strtokAux_leaf : ∀ (l cur : List UInt8), slash ∉ l → cur ++ l ≠ [] →
    strtokAux cur l = [cur.reverse ++ l] := by
  intro l
  induction l with
  | nil =>
    intro cur _ hne
    have hcur : cur ≠ [] := by simpa using hne
    simp [strtokAux, hcur]
  | cons c rest ih =>
    intro cur hl hne
    rw [List.mem_cons, not_or] at hl
    rw [strtokAux, if_neg (Ne.symm hl.1), ih (c :: cur) hl.2 (by simp), List.reverse_cons,
      List.append_assoc, List.singleton_append]

/-- A nonempty string without a separator is one token. -/
theorem strtok_leaf {l : List UInt8} (hl : slash ∉ l) (hne : l ≠ []) : strtok l = [l] :=
  strtokAux_leaf l [] hl hne

/-- Tokens are not empty. -/
theorem ne_nil_of_mem_strtokAux : ∀ (l cur : List UInt8), ∀ t ∈ strtokAux cur l, t ≠ [] := by
  intro l
  induction l with
  | nil =>
    intro cur t ht
    by_cases hcur : cur = []
    · simp [strtokAux, hcur] at ht
    · simp only [strtokAux, if_neg hcur, List.mem_singleton] at ht
      rw [ht]
      simpa using hcur
  | cons c rest ih =>
    intro cur t ht
    rw [strtokAux] at ht
    by_cases hc : c = slash
    · rw [if_pos hc] at ht
      by_cases hcur : cur = []
      · rw [if_pos hcur] at ht
        exact ih [] t ht
      · rw [if_neg hcur, List.mem_cons] at ht
        rcases ht with rfl | ht
        · simpa using hcur
        · exact ih [] t ht
    · rw [if_neg hc] at ht
      exact ih (c :: cur) t ht

theorem ne_nil_of_mem_pathElements {path t : List UInt8} (ht : t ∈ pathElements path) : t ≠ [] :=
  ne_nil_of_mem_strtokAux _ _ t (List.mem_of_mem_take ht)

/-! ## The last separator -/

variable {path parent leaf : List UInt8}

/-- The search finds the split at the last separator. -/
theorem splitLastSlash_append (parent : List UInt8) (hleaf : slash ∉ leaf) :
    splitLastSlash (parent ++ slash :: leaf) = some (parent, leaf) := by
  have hrev : (parent ++ slash :: leaf).reverse = leaf.reverse ++ slash :: parent.reverse := by
    simp
  have htake : ((parent ++ slash :: leaf).reverse.takeWhile (· ≠ slash)).reverse = leaf := by
    rw [hrev, List.takeWhile_append_of_pos fun c hc => ?_]
    · simp
    · have hne : c ≠ slash := fun h => hleaf (by rwa [h, List.mem_reverse] at hc)
      simpa using hne
  unfold splitLastSlash
  simp only [htake, List.length_append, List.length_cons]
  rw [if_pos (by omega), List.take_append_of_le_length (by omega), List.take_of_length_le (by omega)]

/-- Every string with a separator splits at the last one. -/
theorem exists_split : ∀ path : List UInt8, slash ∈ path →
    ∃ parent leaf, path = parent ++ slash :: leaf ∧ slash ∉ leaf := by
  intro path
  induction path with
  | nil => simp
  | cons c rest ih =>
    intro hmem
    by_cases hrest : slash ∈ rest
    · obtain ⟨parent, leaf, rfl, hleaf⟩ := ih hrest
      exact ⟨c :: parent, leaf, rfl, hleaf⟩
    · have hc : slash = c := by simpa [hrest] using hmem
      exact ⟨[], rest, by simp [hc], hrest⟩

/-- Without a separator there is nothing to create the file in. -/
theorem splitLastSlash_none (hpath : slash ∉ path) : splitLastSlash path = none := by
  have htake : (path.reverse.takeWhile (· ≠ slash)) = path.reverse := by
    rw [List.takeWhile_eq_self_iff]
    intro c hc
    have hne : c ≠ slash := fun h => hpath (by rwa [h, List.mem_reverse] at hc)
    simpa using hne
  unfold splitLastSlash
  simp only [htake, List.reverse_reverse]
  rw [if_neg (by omega)]

theorem of_splitLastSlash (hsplit : splitLastSlash path = some (parent, leaf)) :
    path = parent ++ slash :: leaf ∧ slash ∉ leaf := by
  by_cases hpath : slash ∈ path
  · obtain ⟨parent', leaf', rfl, hleaf⟩ := exists_split path hpath
    rw [splitLastSlash_append parent' hleaf] at hsplit
    cases hsplit
    exact ⟨rfl, hleaf⟩
  · rw [splitLastSlash_none hpath] at hsplit
    cases hsplit

/-! ## Create and lookup -/

/-- The parent path and the leaf name of the create branch stand for the components
    `ext2_lookup_path` walks: all but the last, and the last. -/
def SplitsAlike (path : List UInt8) : Prop :=
  ∃ parent leaf, splitLastSlash path = some (parent, leaf) ∧
    pathElements parent = (pathElements path).dropLast ∧ (pathElements path).getLast? = some leaf

/-- The path has a separator and does not end in one, and no limit cuts it. -/
structure Untruncated (path : List UInt8) : Prop where
  separator : slash ∈ path
  ending : path.getLast? ≠ some slash
  bytes : path.length < maxPathLen
  levels : (strtok path).length ≤ maxPathLevels

/-- The components seen as the parent's and one more. -/
theorem pathElements_eq_append (hdrop : pathElements parent = (pathElements path).dropLast)
    (hlast : (pathElements path).getLast? = some leaf) :
    pathElements path = pathElements parent ++ [leaf] := by
  rw [hdrop, List.dropLast_append_getLast? leaf hlast]

/-- Below both limits every token is a component. -/
theorem pathElements_of_short (hbytes : path.length < maxPathLen)
    (hlevels : (strtok path).length ≤ maxPathLevels) : pathElements path = strtok path := by
  have hlen : path.length ≤ maxPathLen - 1 := by omega
  unfold pathElements
  rw [List.take_of_length_le hlen, List.take_of_length_le hlevels]

/-- The last component survives the two limits only if neither of them cuts the path. -/
theorem short_of_pathElements (hleaf : slash ∉ leaf)
    (heq : pathElements (parent ++ slash :: leaf) = pathElements parent ++ [leaf]) :
    (parent ++ slash :: leaf).length < maxPathLen ∧
      (strtok (parent ++ slash :: leaf)).length ≤ maxPathLevels := by
  unfold pathElements at heq
  by_cases hlong : maxPathLen - 1 ≤ parent.length
  · -- the cut takes the whole leaf away
    rw [List.take_append_of_le_length hlong] at heq
    have hlen := congrArg List.length heq
    simp at hlen
  have hparent : parent.length ≤ maxPathLen - 1 := by omega
  obtain ⟨k, hk⟩ : ∃ k, maxPathLen - 1 - parent.length = k + 1 :=
    ⟨maxPathLen - 1 - parent.length - 1, by omega⟩
  rw [List.take_append, List.take_of_length_le hparent, hk, List.take_succ_cons, strtok_append] at heq
  have hfew : (strtok parent).length < maxPathLevels := by
    by_contra hmany
    rw [List.take_append_of_le_length (Nat.not_lt.1 hmany)] at heq
    have hlen := congrArg List.length heq
    simp at hlen
  rw [List.take_append, List.take_of_length_le hfew.le, List.append_cancel_left_eq] at heq
  -- what the cut leaves of the leaf is the leaf
  have hcut : leaf.take k = leaf := by
    by_cases hnil : leaf.take k = []
    · simp [hnil, strtok, strtokAux] at heq
    · rw [strtok_leaf (fun h => hleaf (List.mem_of_mem_take h)) hnil] at heq
      have hmem : leaf ∈ List.take (maxPathLevels - (strtok parent).length) [leaf.take k] := by
        rw [heq]
        exact List.mem_singleton_self leaf
      exact (List.mem_singleton.1 (List.mem_of_mem_take hmem)).symm
  have hlen : leaf.length ≤ k := by
    rw [← hcut]
    exact List.length_take_le k leaf
  have hne : leaf ≠ [] := by
    intro hnil
    simp [hnil, strtok, strtokAux] at heq
  constructor
  · simp only [List.length_append, List.length_cons]
    omega
  · rw [strtok_append, strtok_leaf hleaf hne]
    simp only [List.length_append, List.length_singleton]
    omega

namespace SmallVolume

end SmallVolume

end Embext
