import Mathlib.Tactic.IntervalCases
import Mathlib.Logic.Equiv.Defs

set_option autoImplicit false

/-! # Packed little-endian records

A `Packed α` is the memory layout of a C type declared `__packed__` on a little-endian machine:
how many bytes it takes, how a value is read from them and which bytes a value is written as. The
two laws travel with the layout, so a record assembled from integers, arrays and pairs needs no
round-trip proof of its own. -/

/-- A layout of `α` in `size` bytes. Bytes are given by position, counted from the record's start. -/
structure Packed (α : Type) where
  size : Nat
  get : (Nat → UInt8) → α
  put : α → Nat → UInt8
  get_of_put : ∀ (f : Nat → UInt8) (a : α), (∀ k < size, f k = put a k) → get f = a
  put_get : ∀ (f : Nat → UInt8) (k : Nat), k < size → put (get f) k = f k

namespace Packed

variable {α β : Type}

/-- The value as a list of bytes, the form `memcpy` moves. -/
def bytes (c : Packed α) (a : α) : List UInt8 := (List.range c.size).map (c.put a)

@[simp] theorem length_bytes (c : Packed α) (a : α) : (c.bytes a).length = c.size := by
  simp [bytes]

theorem getElem_bytes (c : Packed α) (a : α) (k : Nat) (h : k < (c.bytes a).length) :
    (c.bytes a)[k] = c.put a k := by
  simp [bytes]

/-- Only the record's own bytes matter. -/
theorem get_congr (c : Packed α) {f g : Nat → UInt8} (h : ∀ k < c.size, f k = g k) :
    c.get f = c.get g :=
  c.get_of_put f (c.get g) fun k hk => (h k hk).trans (c.put_get g k hk).symm

/-- A value read from a list of bytes; positions past the end read as zero. -/
def ofList (c : Packed α) (l : List UInt8) : α := c.get fun k => l.getD k 0

theorem ofList_bytes (c : Packed α) (a : α) : c.ofList (c.bytes a) = a := by
  apply c.get_of_put
  intro k hk
  rw [List.getD_eq_getElem?_getD, List.getElem?_eq_getElem (by simpa using hk), Option.getD_some,
    getElem_bytes]

/-! ## Integers -/

/-- One byte. -/
def u8 : Packed UInt8 where
  size := 1
  get f := f 0
  put a _ := a
  get_of_put f a h := h 0 (by omega)
  put_get f k hk := by
    obtain rfl : k = 0 := by omega
    rfl

/-- A 16-bit integer, low byte first. -/
def u16 : Packed UInt16 where
  size := 2
  get f := UInt16.ofNat ((f 0).toNat + 256 * (f 1).toNat)
  put a k := UInt8.ofNat (a.toNat / 256 ^ k)
  get_of_put f a h := by
    have h0 := h 0 (by omega)
    have h1 := h 1 (by omega)
    have ha := a.toNat_lt
    apply UInt16.toNat_inj.1
    rw [h0, h1]
    simp only [UInt16.toNat_ofNat', UInt8.toNat_ofNat']
    omega
  put_get f k hk := by
    have h0 := (f 0).toNat_lt
    have h1 := (f 1).toNat_lt
    apply UInt8.toNat_inj.1
    simp only [UInt16.toNat_ofNat', UInt8.toNat_ofNat']
    interval_cases k <;> omega

/-- A 32-bit integer, low byte first. -/
def u32 : Packed UInt32 where
  size := 4
  get f := UInt32.ofNat
    ((f 0).toNat + 256 * (f 1).toNat + 65536 * (f 2).toNat + 16777216 * (f 3).toNat)
  put a k := UInt8.ofNat (a.toNat / 256 ^ k)
  get_of_put f a h := by
    have h0 := h 0 (by omega)
    have h1 := h 1 (by omega)
    have h2 := h 2 (by omega)
    have h3 := h 3 (by omega)
    have ha := a.toNat_lt
    apply UInt32.toNat_inj.1
    rw [h0, h1, h2, h3]
    simp only [UInt32.toNat_ofNat', UInt8.toNat_ofNat']
    omega
  put_get f k hk := by
    have h0 := (f 0).toNat_lt
    have h1 := (f 1).toNat_lt
    have h2 := (f 2).toNat_lt
    have h3 := (f 3).toNat_lt
    apply UInt8.toNat_inj.1
    simp only [UInt32.toNat_ofNat', UInt8.toNat_ofNat']
    interval_cases k <;> omega

/-- A 64-bit integer, low byte first. -/
def u64 : Packed UInt64 where
  size := 8
  get f := UInt64.ofNat
    ((u32.get f).toNat + 4294967296 * (u32.get fun k => f (4 + k)).toNat)
  put a k := UInt8.ofNat (a.toNat / 256 ^ k)
  get_of_put f a h := by
    have ha := a.toNat_lt
    have hlow : u32.get f = UInt32.ofNat a.toNat := by
      refine u32.get_of_put _ _ fun k hk => ?_
      have hk : k < 4 := hk
      rw [h k (by omega)]
      apply UInt8.toNat_inj.1
      show _ = (UInt8.ofNat ((UInt32.ofNat a.toNat).toNat / 256 ^ k)).toNat
      simp only [UInt32.toNat_ofNat', UInt8.toNat_ofNat']
      interval_cases k <;> omega
    have hhigh : (u32.get fun k => f (4 + k)) = UInt32.ofNat (a.toNat / 4294967296) := by
      refine u32.get_of_put _ _ fun k hk => ?_
      have hk : k < 4 := hk
      rw [h (4 + k) (by omega)]
      apply UInt8.toNat_inj.1
      show _ = (UInt8.ofNat ((UInt32.ofNat (a.toNat / 4294967296)).toNat / 256 ^ k)).toNat
      simp only [UInt32.toNat_ofNat', UInt8.toNat_ofNat']
      interval_cases k <;> omega
    apply UInt64.toNat_inj.1
    rw [hlow, hhigh]
    simp only [UInt64.toNat_ofNat', UInt32.toNat_ofNat']
    omega
  put_get f k hk := by
    have hlow := (u32.get f).toNat_lt
    have hhigh := (u32.get fun k => f (4 + k)).toNat_lt
    have hsum : (UInt64.ofNat ((u32.get f).toNat
        + 4294967296 * (u32.get fun k => f (4 + k)).toNat)).toNat
          = (u32.get f).toNat + 4294967296 * (u32.get fun k => f (4 + k)).toNat :=
      UInt64.toNat_ofNat_of_lt' (by show _ < 2 ^ 64; omega)
    rw [hsum]
    by_cases hk4 : k < 4
    · refine Eq.trans ?_ (u32.put_get f k hk4)
      apply UInt8.toNat_inj.1
      show _ = (UInt8.ofNat ((u32.get f).toNat / 256 ^ k)).toNat
      simp only [UInt8.toNat_ofNat']
      interval_cases k <;> omega
    · obtain ⟨i, rfl⟩ : ∃ i, k = 4 + i := ⟨k - 4, by omega⟩
      have hi : i < 4 := by omega
      refine Eq.trans ?_ (u32.put_get (fun k => f (4 + k)) i hi)
      apply UInt8.toNat_inj.1
      show _ = (UInt8.ofNat ((u32.get fun k => f (4 + k)).toNat / 256 ^ i)).toNat
      simp only [UInt8.toNat_ofNat']
      interval_cases i <;> omega

/-! ## Products and arrays -/

/-- Two fields, one after the other. -/
def pair (c : Packed α) (d : Packed β) : Packed (α × β) where
  size := c.size + d.size
  get f := (c.get f, d.get fun k => f (c.size + k))
  put a k := if k < c.size then c.put a.1 k else d.put a.2 (k - c.size)
  get_of_put f a h := by
    refine Prod.ext (c.get_of_put _ _ fun k hk => ?_) (d.get_of_put _ _ fun k hk => ?_)
    · rw [h k (by omega), if_pos hk]
    · rw [h _ (by omega), if_neg (by omega), Nat.add_sub_cancel_left]
  put_get f k hk := by
    by_cases h : k < c.size
    · simp only [if_pos h]
      exact c.put_get f k h
    · simp only [if_neg h]
      rw [d.put_get _ _ (by omega)]
      congr 1
      omega

/-- The bytes behind the first field are those of the second. -/
theorem pair_put_right (c : Packed α) (d : Packed β) (a : α × β) (k : Nat) :
    (c.pair d).put a (c.size + k) = d.put a.2 k := by
  change (if c.size + k < c.size then c.put a.1 (c.size + k) else d.put a.2 (c.size + k - c.size))
    = d.put a.2 k
  rw [if_neg (by omega), Nat.add_sub_cancel_left]

/-- An array of `n` items. -/
def array (c : Packed α) (n : Nat) : Packed (Fin n → α) where
  size := n * c.size
  get f := fun i => c.get fun k => f (i.val * c.size + k)
  put a k := if h : k / c.size < n then c.put (a ⟨k / c.size, h⟩) (k % c.size) else 0
  get_of_put f a h := by
    funext i
    refine c.get_of_put _ _ fun k hk => ?_
    have hi : (i.val * c.size + k) / c.size = i.val := by
      rw [Nat.mul_comm, Nat.mul_add_div (by omega), Nat.div_eq_of_lt hk, Nat.add_zero]
    have hm : (i.val * c.size + k) % c.size = k := by
      rw [Nat.mul_comm, Nat.mul_add_mod, Nat.mod_eq_of_lt hk]
    have hlt : i.val * c.size + k < n * c.size := by
      calc i.val * c.size + k < i.val * c.size + c.size := by omega
        _ = (i.val + 1) * c.size := by rw [Nat.add_mul, Nat.one_mul]
        _ ≤ n * c.size := Nat.mul_le_mul_right _ i.isLt
    rw [h _ hlt, dif_pos (by rw [hi]; exact i.isLt), hm]
    congr 2
    exact Fin.ext hi
  put_get f k hk := by
    have hpos : 0 < c.size := Nat.pos_of_ne_zero fun h0 => by rw [h0, Nat.mul_zero] at hk; omega
    have hdiv : k / c.size < n := Nat.div_lt_of_lt_mul (by rwa [Nat.mul_comm])
    rw [dif_pos hdiv, c.put_get _ _ (Nat.mod_lt _ hpos)]
    congr 1
    exact Nat.div_add_mod' k c.size

/-- The layout of a type in bijection with a laid-out one: a C struct and the tuple of its fields. -/
def record (c : Packed α) (e : α ≃ β) : Packed β where
  size := c.size
  get f := e (c.get f)
  put b k := c.put (e.symm b) k
  get_of_put f b h := by
    rw [c.get_of_put f (e.symm b) h, e.apply_symm_apply]
  put_get f k hk := by
    rw [e.symm_apply_apply, c.put_get f k hk]

end Packed
