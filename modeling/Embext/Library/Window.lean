import Mathlib.Algebra.GroupWithZero.Nat
import Mathlib.Data.Fin.Basic

set_option autoImplicit false

/-! # Fixed-size arrays read and written through windows

An array of `n` items is a function `Fin n → α`. `slice` copies a window out, `patch` copies a
list in. The lemmas say how a read meets an earlier write: same window, disjoint windows, or item
by item. -/

namespace Window

variable {α : Type} {n : Nat}

/-- Item `k` of the array; positions are taken modulo the size, as a C `% sizeof` does. -/
def item [NeZero n] (s : Fin n → α) (k : Nat) : α := s (Fin.ofNat n k)

/-- The `len` items from position `off`. -/
def slice [NeZero n] (s : Fin n → α) (off len : Nat) : List α :=
  (List.range len).map fun k => item s (off + k)

/-- The array with `d` copied to position `off`. -/
def patch (s : Fin n → α) (off : Nat) (d : List α) : Fin n → α := fun i =>
  if h : off ≤ i.val ∧ i.val - off < d.length then d.get ⟨i.val - off, h.2⟩ else s i

@[simp] theorem length_slice [NeZero n] (s : Fin n → α) (off len : Nat) :
    (slice s off len).length = len := by
  simp [slice]

theorem getElem_slice [NeZero n] (s : Fin n → α) (off len k : Nat)
    (h : k < (slice s off len).length) : (slice s off len)[k] = item s (off + k) := by
  simp [slice]

theorem slice_add [NeZero n] (s : Fin n → α) (off a b : Nat) :
    slice s off (a + b) = slice s off a ++ slice s (off + a) b := by
  simp only [slice, List.range_add, List.map_append, List.map_map]
  congr 1
  apply List.map_congr_left
  intro k _
  simp only [Function.comp_apply, Nat.add_assoc]

theorem slice_one [NeZero n] (s : Fin n → α) (off : Nat) : slice s off 1 = [item s off] := rfl

/-- The whole array. -/
theorem ofFn_eq_slice [NeZero n] (s : Fin n → α) : List.ofFn s = slice s 0 n := by
  apply List.ext_getElem (by simp)
  intro k h₁ h₂
  rw [length_slice] at h₂
  rw [List.getElem_ofFn, getElem_slice, item]
  congr 1
  apply Fin.ext
  simp [Fin.ofNat, Nat.mod_eq_of_lt h₂]

@[simp] theorem patch_nil (s : Fin n → α) (off : Nat) : patch s off [] = s := by
  funext i
  simp [patch]

/-- Writing an item that is there already changes nothing. -/
theorem patch_item [NeZero n] (s : Fin n → α) {k : Nat} (hk : k < n) : patch s k [item s k] = s := by
  funext i
  unfold patch
  by_cases hi : k ≤ i.val ∧ i.val - k < [item s k].length
  · rw [dif_pos hi]
    obtain ⟨hlo, hhi⟩ := hi
    have hik : i = Fin.ofNat n k := by
      simp only [List.length_singleton] at hhi
      apply Fin.ext
      simp only [Fin.ofNat, Nat.mod_eq_of_lt hk]
      omega
    simp [item, hik]
  · rw [dif_neg hi]

/-- Writing a list item by item. -/
theorem patch_cons (s : Fin n → α) (off : Nat) (x : α) (d : List α) :
    patch (patch s off [x]) (off + 1) d = patch s off (x :: d) := by
  funext i
  unfold patch
  by_cases hlt : i.val < off
  · rw [dif_neg (by omega), dif_neg (by omega), dif_neg (by omega)]
  · by_cases heq : i.val = off
    · simp [heq]
    · obtain ⟨k, hk⟩ : ∃ k, i.val - off = k + 1 := ⟨i.val - off - 1, by omega⟩
      have hk' : i.val - (off + 1) = k := by omega
      have hge : off + 1 ≤ i.val := by omega
      have hge' : off ≤ i.val := by omega
      simp [hk, hk', hge, hge']

/-- Writing the whole array. -/
theorem patch_slice [NeZero n] (s s' : Fin n → α) : patch s 0 (slice s' 0 n) = s' := by
  funext i
  have hi : 0 ≤ i.val ∧ i.val - 0 < (slice s' 0 n).length := by simp
  rw [patch, dif_pos hi]
  simp [getElem_slice, item]

/-- Writing a window twice leaves what was written last. -/
theorem patch_patch (s : Fin n → α) (off : Nat) {d d' : List α} (hlen : d.length = d'.length) :
    patch (patch s off d) off d' = patch s off d' := by
  funext i
  unfold patch
  by_cases hi : off ≤ i.val ∧ i.val - off < d'.length
  · rw [dif_pos hi, dif_pos hi]
  · rw [dif_neg hi, dif_neg hi, dif_neg (by rwa [hlen])]

/-- Inside the written window the array holds the new items. -/
theorem item_patch_inside [NeZero n] (s : Fin n → α) {off k : Nat} {d : List α}
    (hfit : off + d.length ≤ n) (hlo : off ≤ k) (hhi : k - off < d.length) :
    item (patch s off d) k = d[k - off] := by
  have hk : k % n = k := Nat.mod_eq_of_lt (by omega)
  simp only [item, patch, Fin.ofNat, hk]
  rw [dif_pos ⟨hlo, hhi⟩]
  rfl

/-- Outside the written window nothing changes. -/
theorem item_patch_outside [NeZero n] (s : Fin n → α) {off k : Nat} {d : List α} (hk : k < n)
    (hout : k < off ∨ off + d.length ≤ k) : item (patch s off d) k = item s k := by
  have hk' : k % n = k := Nat.mod_eq_of_lt hk
  simp only [item, patch, Fin.ofNat, hk']
  rw [dif_neg (by omega)]

/-- Reading back the window that was written. -/
theorem slice_patch_self [NeZero n] (s : Fin n → α) {off : Nat} {d : List α}
    (hfit : off + d.length ≤ n) : slice (patch s off d) off d.length = d := by
  apply List.ext_getElem (by simp)
  intro k h₁ h₂
  rw [getElem_slice, item_patch_inside s hfit (by omega) (by omega)]
  congr 1
  omega

/-- A window disjoint from the one written reads as before. -/
theorem slice_patch_disjoint [NeZero n] (s : Fin n → α) {off len o : Nat} {d : List α}
    (hlen : o + len ≤ n) (hdis : o + len ≤ off ∨ off + d.length ≤ o) :
    slice (patch s off d) o len = slice s o len := by
  apply List.ext_getElem (by simp)
  intro k h₁ h₂
  rw [length_slice] at h₁
  rw [getElem_slice, getElem_slice, item_patch_outside s (by omega) (by omega)]

end Window
