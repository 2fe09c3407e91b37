import Embext.Implementation.BlockSd
import Embext.Library.Window

set_option autoImplicit false

/-! # The capacity of an SD card

What the 16 bytes of the CSD register say, as a 128-bit number whose fields stand at fixed bits, and
what `sd_card_reset` makes of them. The version 2 register is decoded with the four low bits of its
highest size byte only. -/

namespace Embext.BlockSd

/-! ## The register -/

/-- The CSD register, first byte delivered first. -/
abbrev Csd := Fin 16 → UInt8

instance csd_neZero : NeZero 16 := ⟨by decide⟩

/-- Byte `k` of the register. -/
def Csd.byte (csd : Csd) (k : Nat) : Nat := (Window.item csd k).toNat

/-- The number the first bytes make, the first one being the highest. -/
def Csd.upTo (csd : Csd) : Nat → Nat
  | 0 => 0
  | n + 1 => 256 * csd.upTo n + csd.byte n

/-- Bits `hi` down to `lo` of the register. -/
def Csd.bits (csd : Csd) (hi lo : Nat) : Nat := csd.upTo 16 / 2 ^ lo % 2 ^ (hi + 1 - lo)

/-- `CSD_STRUCTURE`: 0 for version 1, 1 for version 2. -/
def Csd.csdStructure (csd : Csd) : Nat := csd.bits 127 126

/-- `READ_BL_LEN`. -/
def Csd.readBlLen (csd : Csd) : Nat := csd.bits 83 80

/-- `C_SIZE` of version 1. -/
def Csd.cSizeSc (csd : Csd) : Nat := csd.bits 73 62

/-- `C_SIZE_MULT` of version 1. -/
def Csd.cSizeMult (csd : Csd) : Nat := csd.bits 49 47

/-- `C_SIZE` of version 2. -/
def Csd.cSizeHc (csd : Csd) : Nat := csd.bits 69 48

/-- The capacity of a version 1 card in blocks of 512 bytes. -/
def Csd.blocksSc (csd : Csd) : Nat :=
  (csd.cSizeSc + 1) * 2 ^ (csd.cSizeMult + 2) * 2 ^ (csd.readBlLen - 9)

/-- The capacity of a version 2 card in blocks of 512 bytes. -/
def Csd.blocksHc (csd : Csd) : Nat := (csd.cSizeHc + 1) * 1024

/-- The card is as the register describes it. -/
structure Csd.Describes (csd : Csd) (card : SDCard) : Prop where
  sizeHc : csd.csdStructure = 1 → csd.blocksHc < 2 ^ 32 → card.size.toNat = csd.blocksHc
  sizeSc : csd.csdStructure = 0 → 9 ≤ csd.readBlLen → csd.readBlLen ≤ 11 →
    card.size.toNat = csd.blocksSc
  readOnly : card.readOnly ≠ 0 ↔ csd.bits 13 13 = 1 ∨ csd.bits 12 12 = 1

variable {csd : Csd} {bus : Bus} {m m' : State} {card : SDCard}

/-! ## Fields and bytes -/

theorem Csd.byte_lt (csd : Csd) (k : Nat) : csd.byte k < 256 := (Window.item csd k).toNat_lt

/-- Dropping the last bytes. -/
theorem Csd.upTo_div (csd : Csd) (n k : Nat) : csd.upTo (n + k) / 256 ^ k = csd.upTo n := by
  induction k with
  | zero => simp
  | succ k ih =>
    have hb := csd.byte_lt (n + k)
    have hlast : csd.upTo (n + k + 1) / 256 = csd.upTo (n + k) := by
      rw [Csd.upTo]
      omega
    rw [← Nat.add_assoc, Nat.pow_succ', ← Nat.div_div_eq_div_mul, hlast, ih]

/-- A field that ends in byte `n`. -/
theorem Csd.bits_eq (csd : Csd) (hi lo : Nat) {n : Nat} (hn : n < 16) :
    csd.bits (8 * (15 - n) + hi) (8 * (15 - n) + lo) =
      csd.upTo (n + 1) / 2 ^ lo % 2 ^ (hi + 1 - lo) := by
  have hsplit : 2 ^ (8 * (15 - n) + lo) = 256 ^ (15 - n) * 2 ^ lo := by
    rw [Nat.pow_add, Nat.pow_mul]
  have hlen : n + 1 + (15 - n) = 16 := by omega
  have hdiv : csd.upTo 16 / 256 ^ (15 - n) = csd.upTo (n + 1) := by
    have h := csd.upTo_div (n + 1) (15 - n)
    rwa [hlen] at h
  have hwidth : 8 * (15 - n) + hi + 1 - (8 * (15 - n) + lo) = hi + 1 - lo := by omega
  rw [Csd.bits, hsplit, ← Nat.div_div_eq_div_mul, hdiv, hwidth]

theorem Csd.csdStructure_eq (csd : Csd) : csd.csdStructure = csd.byte 0 / 64 := by
  have h0 := csd.byte_lt 0
  have h := csd.bits_eq 7 6 (n := 0) (by decide)
  simp only [Csd.upTo] at h
  exact h.trans (by omega)

theorem Csd.readBlLen_eq (csd : Csd) : csd.readBlLen = csd.byte 5 % 16 := by
  have h5 := csd.byte_lt 5
  have h := csd.bits_eq 3 0 (n := 5) (by decide)
  rw [Csd.upTo] at h
  exact h.trans (by omega)

theorem Csd.cSizeSc_eq (csd : Csd) :
    csd.cSizeSc = csd.byte 6 % 4 * 1024 + csd.byte 7 * 4 + csd.byte 8 / 64 := by
  have h6 := csd.byte_lt 6
  have h7 := csd.byte_lt 7
  have h8 := csd.byte_lt 8
  have h := csd.bits_eq 17 6 (n := 8) (by decide)
  rw [Csd.upTo, Csd.upTo, Csd.upTo] at h
  exact h.trans (by omega)

theorem Csd.cSizeMult_eq (csd : Csd) :
    csd.cSizeMult = csd.byte 9 % 4 * 2 + csd.byte 10 / 128 := by
  have h9 := csd.byte_lt 9
  have h10 := csd.byte_lt 10
  have h := csd.bits_eq 9 7 (n := 10) (by decide)
  rw [Csd.upTo, Csd.upTo] at h
  exact h.trans (by omega)

theorem Csd.cSizeHc_eq (csd : Csd) :
    csd.cSizeHc = csd.byte 7 % 64 * 65536 + csd.byte 8 * 256 + csd.byte 9 := by
  have h7 := csd.byte_lt 7
  have h8 := csd.byte_lt 8
  have h9 := csd.byte_lt 9
  have h := csd.bits_eq 21 0 (n := 9) (by decide)
  rw [Csd.upTo, Csd.upTo, Csd.upTo] at h
  exact h.trans (by omega)

/-- The two write protect bits. -/
theorem Csd.protected_iff (csd : Csd) :
    (csd.bits 13 13 = 1 ∨ csd.bits 12 12 = 1) ↔ csd.byte 14 / 16 % 4 ≠ 0 := by
  have h5 := csd.bits_eq 5 5 (n := 14) (by decide)
  have h4 := csd.bits_eq 4 4 (n := 14) (by decide)
  rw [Csd.upTo] at h5 h4
  change csd.bits 13 13 = _ at h5
  change csd.bits 12 12 = _ at h4
  rw [h5, h4]
  omega

/-! ## Reading the register -/

/-- From here on the card answers with the register. -/
def Delivers (bus : Bus) (csd : Csd) (sent : List UInt8) : Prop :=
  ∀ k < 16, bus.answer (List.replicate (k + 1) 0xFF ++ sent) = Window.item csd k

/-- The state after `k` transfers of the register. -/
def State.after (m : State) (k : Nat) (card : SDCard) : State :=
  ⟨List.replicate k 0xFF ++ m.sent, card⟩

@[simp] theorem setCard_apply (f : SDCard → SDCard) (bus : Bus) (k : Nat) :
    setCard f bus (m.after k card) = .ok ((), m.after k (f card)) := rfl

theorem spiXfer_after (h : Delivers bus csd m.sent) {k : Nat} (hk : k < 16) :
    spiXfer 0xFF bus (m.after k card) =
      .ok ((Window.item csd k).toUInt16, m.after (k + 1) card) := by
  rw [← h k hk]
  rfl

theorem skip_after (bus : Bus) (n : Nat) : ∀ k,
    skip n bus (m.after k card) = .ok ((), m.after (k + n) card) := by
  induction n with
  | zero => exact fun _ => rfl
  | succ n ih =>
    intro k
    rw [← Nat.add_assoc, Nat.add_right_comm]
    exact ih (k + 1)

/-! ## The decoded card -/

/-- The size computed from a version 2 register. -/
def Csd.sizeHc (csd : Csd) : UInt32 :=
  (((Window.item csd 7).toUInt16 &&& 0xF).toUInt32 <<< 16 +
    (Window.item csd 8).toUInt16.toUInt32 <<< 8 + (Window.item csd 9).toUInt16.toUInt32 + 1) <<< 10

/-- The `C_SIZE + 1` computed from a version 1 register. -/
def Csd.countSc (csd : Csd) : UInt32 :=
  ((Window.item csd 6).toUInt16 &&& 0x03).toUInt32 <<< 10 +
    (Window.item csd 7).toUInt16.toUInt32 <<< 2 +
    (((Window.item csd 8).toUInt16 &&& 0xC0) >>> 6).toUInt32 + 1

/-- The factor computed from `C_SIZE_MULT`. -/
def Csd.factorSc (csd : Csd) : UInt16 :=
  (1 : UInt16) <<< ((((Window.item csd 9).toUInt16 <<< 1 + (Window.item csd 10).toUInt16 >>> 7) &&& 0x7) + 2)

/-- The size computed from a version 1 register. -/
def Csd.sizeSc (csd : Csd) : UInt32 :=
  (csd.countSc * csd.factorSc.toUInt32) <<< (((Window.item csd 5).toUInt16 &&& 0xF) - 9).toUInt32

/-- The card with the write protect flags taken over. -/
def Csd.protect (csd : Csd) (card : SDCard) : SDCard :=
  if (Window.item csd 14).toUInt16 &&& 0x30 ≠ 0 then { card with readOnly := 1 } else card

theorem readProtection_after (h : Delivers bus csd m.sent) :
    readProtection bus (m.after 14 card) = .ok ((), m.after 16 (csd.protect card)) := by
  rw [readProtection, Prog.bind_ok (spiXfer_after h (by decide)), Csd.protect]
  by_cases hbits : (Window.item csd 14).toUInt16 &&& 0x30 ≠ 0
  · rw [if_pos hbits, if_pos hbits, Prog.bind_ok (setCard_apply _ _ _)]
    exact skip_after bus 1 15
  · rw [if_neg hbits, if_neg hbits]
    exact skip_after bus 1 15

theorem readCsdHc_after (h : Delivers bus csd m.sent) :
    readCsdHc bus (m.after 1 card) = .ok ((), m.after 16
      (csd.protect { card with cardType := sdCardHc, size := csd.sizeHc })) := by
  rw [readCsdHc, Prog.bind_ok (setCard_apply _ _ _), Prog.bind_ok (skip_after bus 6 1),
    Prog.bind_ok (spiXfer_after h (by decide)), Prog.bind_ok (setCard_apply _ _ _),
    Prog.bind_ok (spiXfer_after h (by decide)), Prog.bind_ok (setCard_apply _ _ _),
    Prog.bind_ok (spiXfer_after h (by decide)), Prog.bind_ok (setCard_apply _ _ _),
    Prog.bind_ok (setCard_apply _ _ _), Prog.bind_ok (setCard_apply _ _ _),
    Prog.bind_ok (skip_after bus 4 _)]
  exact readProtection_after h

/-- A version 1 register, up to the shift by its block length. -/
theorem readCsdSc_shift (h : Delivers bus csd m.sent) :
    readCsdSc bus (m.after 1 card) =
      (if (Window.item csd 5).toUInt16 &&& 0xF < 9 then
          Prog.fault .badShift >>= fun _ : Unit => skip 3 >>= fun _ => readProtection
        else (setCard fun card => { card with
            size := card.size <<< (((Window.item csd 5).toUInt16 &&& 0xF) - 9).toUInt32 }) >>=
          fun _ => skip 3 >>= fun _ => readProtection) bus (m.after 11
        { card with cardType := sdCardSc, size := csd.countSc * csd.factorSc.toUInt32 }) := by
  rw [readCsdSc, Prog.bind_ok (setCard_apply _ _ _), Prog.bind_ok (skip_after bus 4 1),
    Prog.bind_ok (spiXfer_after h (by decide)),
    Prog.bind_ok (spiXfer_after h (by decide)), Prog.bind_ok (setCard_apply _ _ _),
    Prog.bind_ok (spiXfer_after h (by decide)), Prog.bind_ok (setCard_apply _ _ _),
    Prog.bind_ok (spiXfer_after h (by decide)), Prog.bind_ok (setCard_apply _ _ _),
    Prog.bind_ok (spiXfer_after h (by decide)), Prog.bind_ok (spiXfer_after h (by decide)),
    Prog.bind_ok (setCard_apply _ _ _), Prog.bind_ok (setCard_apply _ _ _)]
  rfl

theorem readCsdSc_after (h : Delivers bus csd m.sent)
    (hlen : ¬ (Window.item csd 5).toUInt16 &&& 0xF < 9) :
    readCsdSc bus (m.after 1 card) = .ok ((), m.after 16
      (csd.protect { card with cardType := sdCardSc, size := csd.sizeSc })) := by
  rw [readCsdSc_shift h, if_neg hlen, Prog.bind_ok (setCard_apply _ _ _),
    Prog.bind_ok (skip_after bus 3 _)]
  exact readProtection_after h

/-- Below 9 the shift is by a negative number. -/
theorem readCsdSc_fault (h : Delivers bus csd m.sent)
    (hlen : (Window.item csd 5).toUInt16 &&& 0xF < 9) :
    readCsdSc bus (m.after 1 card) = .error .badShift := by
  rw [readCsdSc_shift h, if_pos hlen]
  rfl

/-! ## The sizes -/

theorem toNat_and_three (x : UInt16) : (x &&& 0x03).toNat = x.toNat % 4 := by
  rw [UInt16.toNat_and]
  exact Nat.and_two_pow_sub_one_eq_mod x.toNat 2

theorem toNat_and_seven (x : UInt16) : (x &&& 0x7).toNat = x.toNat % 8 := by
  rw [UInt16.toNat_and]
  exact Nat.and_two_pow_sub_one_eq_mod x.toNat 3

theorem toNat_and_fifteen (x : UInt16) : (x &&& 0xF).toNat = x.toNat % 16 := by
  rw [UInt16.toNat_and]
  exact Nat.and_two_pow_sub_one_eq_mod x.toNat 4

/-- The two highest bits of a byte. -/
theorem toNat_highest (b : UInt8) : ((b.toUInt16 &&& 0xC0) >>> 6).toNat = b.toNat / 64 := by
  obtain ⟨b⟩ := b
  revert b
  decide

/-- Bits 4 and 5 of a byte. -/
theorem and_protect_ne (b : UInt8) : b.toUInt16 &&& 0x30 ≠ 0 ↔ b.toNat / 16 % 4 ≠ 0 := by
  obtain ⟨b⟩ := b
  revert b
  decide

/-- Bit 6 of a byte. -/
theorem and_structure_ne (b : UInt8) : b.toUInt16 &&& 0x40 ≠ 0 ↔ b.toNat / 64 % 2 = 1 := by
  obtain ⟨b⟩ := b
  revert b
  decide

/-- Only the four low bits of the highest size byte count. -/
theorem Csd.toNat_sizeHc (csd : Csd) : csd.sizeHc.toNat =
    (csd.byte 7 % 16 * 65536 + csd.byte 8 * 256 + csd.byte 9 + 1) * 1024 := by
  have h7 := csd.byte_lt 7
  have h8 := csd.byte_lt 8
  have h9 := csd.byte_lt 9
  unfold Csd.byte at *
  unfold Csd.sizeHc
  simp only [UInt32.toNat_shiftLeft, UInt32.toNat_add, UInt16.toNat_toUInt32, UInt8.toNat_toUInt16,
    toNat_and_fifteen, Nat.shiftLeft_eq, UInt32.reduceToNat, Nat.reduceMod, Nat.reducePow]
  omega

theorem Csd.toNat_countSc (csd : Csd) : csd.countSc.toNat = csd.cSizeSc + 1 := by
  have h6 := csd.byte_lt 6
  have h7 := csd.byte_lt 7
  have h8 := csd.byte_lt 8
  rw [Csd.cSizeSc_eq]
  unfold Csd.byte at *
  unfold Csd.countSc
  simp only [UInt32.toNat_shiftLeft, UInt32.toNat_add, UInt16.toNat_toUInt32, UInt8.toNat_toUInt16,
    toNat_and_three, toNat_highest, Nat.shiftLeft_eq, UInt32.reduceToNat, Nat.reduceMod, Nat.reducePow]
  omega

theorem Csd.toNat_factorSc (csd : Csd) : csd.factorSc.toNat = 2 ^ (csd.cSizeMult + 2) := by
  have h9 := csd.byte_lt 9
  have h10 := csd.byte_lt 10
  rw [Csd.cSizeMult_eq]
  unfold Csd.byte at *
  unfold Csd.factorSc
  have hexp : ((((Window.item csd 9).toUInt16 <<< 1 +
      (Window.item csd 10).toUInt16 >>> 7) &&& 0x7) + 2 : UInt16).toNat =
      (Window.item csd 9).toNat % 4 * 2 + (Window.item csd 10).toNat / 128 + 2 := by
    simp only [UInt16.toNat_add, toNat_and_seven, UInt16.toNat_shiftLeft, UInt16.toNat_shiftRight,
      UInt8.toNat_toUInt16, Nat.shiftLeft_eq, Nat.shiftRight_eq_div_pow, UInt16.reduceToNat,
      Nat.reduceMod, Nat.reducePow]
    omega
  have hlt : (Window.item csd 9).toNat % 4 * 2 + (Window.item csd 10).toNat / 128 + 2 < 16 := by
    omega
  have hone : (1 : UInt16).toNat = 1 := rfl
  rw [UInt16.toNat_shiftLeft, hexp, Nat.mod_eq_of_lt hlt, Nat.shiftLeft_eq, hone, Nat.one_mul]
  exact Nat.mod_eq_of_lt (Nat.pow_lt_pow_right (by decide) hlt)

/-- The test of the block length. -/
theorem Csd.lt_nine_iff (csd : Csd) :
    (Window.item csd 5).toUInt16 &&& 0xF < 9 ↔ csd.readBlLen < 9 := by
  have h9 : (9 : UInt16).toNat = 9 := rfl
  rw [UInt16.lt_iff_toNat_lt, toNat_and_fifteen, UInt8.toNat_toUInt16, Csd.readBlLen_eq, h9]
  rfl

theorem Csd.toNat_sizeSc (csd : Csd) (hlo : 9 ≤ csd.readBlLen) (hhi : csd.readBlLen ≤ 11) :
    csd.sizeSc.toNat = csd.blocksSc := by
  have hcount : csd.cSizeSc < 2 ^ 12 := Nat.mod_lt _ (by decide)
  have hmult : csd.cSizeMult < 8 := Nat.mod_lt _ (by decide)
  have hshift : (((Window.item csd 5).toUInt16 &&& 0xF) - 9).toUInt32.toNat = csd.readBlLen - 9 := by
    have h9 : (9 : UInt16).toNat = 9 := rfl
    rw [Csd.readBlLen_eq, Csd.byte] at *
    rw [UInt16.toNat_toUInt32, UInt16.toNat_sub, toNat_and_fifteen, UInt8.toNat_toUInt16, h9]
    omega
  have hfactor : 2 ^ (csd.cSizeMult + 2) ≤ 2 ^ 9 := Nat.pow_le_pow_right (by decide) (by omega)
  have hlen : 2 ^ (csd.readBlLen - 9) ≤ 2 ^ 2 := Nat.pow_le_pow_right (by decide) (by omega)
  have hprod : (csd.cSizeSc + 1) * 2 ^ (csd.cSizeMult + 2) ≤ 2 ^ 12 * 2 ^ 9 :=
    Nat.mul_le_mul hcount hfactor
  have htotal : csd.blocksSc ≤ 2 ^ 12 * 2 ^ 9 * 2 ^ 2 := Nat.mul_le_mul hprod hlen
  have hmod : (csd.cSizeSc + 1) * 2 ^ (csd.cSizeMult + 2) % 2 ^ 32 =
      (csd.cSizeSc + 1) * 2 ^ (csd.cSizeMult + 2) := Nat.mod_eq_of_lt (by omega)
  rw [Csd.sizeSc, UInt32.toNat_shiftLeft, hshift, UInt32.toNat_mul, Csd.toNat_countSc,
    UInt16.toNat_toUInt32, Csd.toNat_factorSc, hmod,
    Nat.mod_eq_of_lt (by omega : csd.readBlLen - 9 < 32), Nat.shiftLeft_eq]
  exact Nat.mod_eq_of_lt (show csd.blocksSc < 2 ^ 32 by omega)

/-- A version 2 size is right unless `C_SIZE` has more than 20 bits. -/
theorem Csd.sizeHc_eq_iff (csd : Csd) (hfit : csd.blocksHc < 2 ^ 32) :
    csd.sizeHc.toNat = csd.blocksHc ↔ csd.cSizeHc < 2 ^ 20 := by
  have h7 := csd.byte_lt 7
  have h8 := csd.byte_lt 8
  have h9 := csd.byte_lt 9
  rw [Csd.toNat_sizeHc]
  rw [Csd.blocksHc, Csd.cSizeHc_eq] at *
  omega

/-! ## The whole register -/

@[simp] theorem Csd.protect_size (csd : Csd) (card : SDCard) :
    (csd.protect card).size = card.size := by
  unfold Csd.protect
  split <;> rfl

theorem Csd.protect_readOnly (csd : Csd) (hcard : card.readOnly = 0) :
    (csd.protect card).readOnly ≠ 0 ↔ csd.bits 13 13 = 1 ∨ csd.bits 12 12 = 1 := by
  rw [Csd.protected_iff, Csd.byte, ← and_protect_ne, Csd.protect]
  split
  · next h => exact iff_of_true (show (1 : UInt8) ≠ 0 by decide) h
  · next h => exact iff_of_false (fun h' => h' hcard) h

/-- The bit that tells the two layouts apart. -/
theorem Csd.bits_layout (csd : Csd) : csd.bits 126 126 = csd.byte 0 / 64 % 2 := by
  have h := csd.bits_eq 6 6 (n := 0) (by decide)
  rw [Csd.upTo] at h
  exact h.trans (by simp [Csd.upTo])

theorem readCsd_ok (h : Delivers bus csd m.sent) : readCsd bus (m.after 0 card) =
    ((if csd.bits 126 126 = 1 then readCsdHc else readCsdSc) >>= fun _ => pure 0) bus
      (m.after 1 card) := by
  have hbit := and_structure_ne (Window.item csd 0)
  rw [readCsd, Prog.bind_ok (spiXfer_after h (by decide)), Csd.bits_layout, Csd.byte]
  by_cases hstruct : (Window.item csd 0).toNat / 64 % 2 = 1
  · rw [if_pos (hbit.2 hstruct), if_pos hstruct]
  · rw [if_neg (fun hne => hstruct (hbit.1 hne)), if_neg hstruct]

theorem readCsd_hc (h : Delivers bus csd m.sent) (hbit : csd.bits 126 126 = 1) :
    readCsd bus m = .ok (0, m.after 16
      (csd.protect { m.card with cardType := sdCardHc, size := csd.sizeHc })) := by
  have hread : readCsd bus m = _ := readCsd_ok h
  rw [if_pos hbit, Prog.bind_ok (readCsdHc_after h)] at hread
  exact hread

theorem readCsd_sc (h : Delivers bus csd m.sent) (hbit : csd.bits 126 126 ≠ 1)
    (hlen : 9 ≤ csd.readBlLen) :
    readCsd bus m = .ok (0, m.after 16
      (csd.protect { m.card with cardType := sdCardSc, size := csd.sizeSc })) := by
  have hread : readCsd bus m = _ := readCsd_ok h
  rw [if_neg hbit, Prog.bind_ok (readCsdSc_after h fun hlt => by
    have := csd.lt_nine_iff.1 hlt
    omega)] at hread
  exact hread

theorem readCsd_fault (h : Delivers bus csd m.sent) (hbit : csd.bits 126 126 ≠ 1)
    (hlen : csd.readBlLen < 9) : readCsd bus m = .error .badShift := by
  have hread : readCsd bus m = _ := readCsd_ok h
  rwa [if_neg hbit, Prog.bind_error (readCsdSc_fault h (csd.lt_nine_iff.2 hlen))] at hread

/-- A version 2 register is described unless `C_SIZE` has more than 20 bits. -/
theorem Csd.describes_hc (csd : Csd) (hcard : card.readOnly = 0) (hbit : csd.bits 126 126 = 1) :
    csd.Describes (csd.protect { card with cardType := sdCardHc, size := csd.sizeHc }) ↔
      (csd.csdStructure = 1 → csd.cSizeHc < 2 ^ 20 ∨ 2 ^ 32 ≤ csd.blocksHc) := by
  have hstruct := csd.csdStructure_eq
  have hlayout := csd.bits_layout
  constructor
  · intro hdesc hversion
    by_cases hfit : csd.blocksHc < 2 ^ 32
    · have hsize := hdesc.sizeHc hversion hfit
      rw [Csd.protect_size] at hsize
      exact .inl ((csd.sizeHc_eq_iff hfit).1 hsize)
    · exact .inr (by omega)
  · intro hsize
    refine ⟨fun hversion hfit => ?_, fun hversion => by omega, csd.protect_readOnly hcard⟩
    rw [Csd.protect_size]
    exact (csd.sizeHc_eq_iff hfit).2 ((hsize hversion).resolve_right (by omega))

theorem Csd.describes_sc (csd : Csd) (hcard : card.readOnly = 0) (hbit : csd.bits 126 126 ≠ 1) :
    csd.Describes (csd.protect { card with cardType := sdCardSc, size := csd.sizeSc }) := by
  have hstruct := csd.csdStructure_eq
  have hlayout := csd.bits_layout
  refine ⟨fun hversion => by omega, fun _ hlo hhi => ?_, csd.protect_readOnly hcard⟩
  rw [Csd.protect_size]
  exact csd.toNat_sizeSc hlo hhi

/-- The CSD part of the reset returns, with a card as the register describes it. -/
def DecodesCsd (bus : Bus) (csd : Csd) (m : State) : Prop :=
  ∃ m', readCsd bus m = .ok (0, m') ∧ csd.Describes m'.card

/-- **The capacity of a card is decoded right** exactly when a version 2 register has a `C_SIZE` of
at most 20 bits (or one whose capacity is no 32-bit number), and a register read as version 1 does
not shift by a negative number. -/
theorem decodesCsd_iff (h : Delivers bus csd m.sent) (hcard : m.card.readOnly = 0) :
    DecodesCsd bus csd m ↔
      (csd.csdStructure = 1 → csd.cSizeHc < 2 ^ 20 ∨ 2 ^ 32 ≤ csd.blocksHc) ∧
        (csd.bits 126 126 = 0 → 9 ≤ csd.readBlLen) := by
  have hstruct := csd.csdStructure_eq
  have hlayout := csd.bits_layout
  unfold DecodesCsd
  by_cases hbit : csd.bits 126 126 = 1
  · simp only [readCsd_hc h hbit, Except.ok.injEq, Prod.mk.injEq, true_and, exists_eq_left']
    rw [State.after, csd.describes_hc hcard hbit]
    exact (and_iff_left fun h0 => by omega).symm
  · have hversion : csd.csdStructure ≠ 1 := by omega
    by_cases hlen : csd.readBlLen < 9
    · simp only [readCsd_fault h hbit hlen, reduceCtorEq, false_and, exists_false, false_iff]
      exact fun hcond => absurd (hcond.2 (by omega)) (by omega)
    · exact iff_of_true ⟨_, readCsd_sc h hbit (by omega), csd.describes_sc hcard hbit⟩
        ⟨fun h1 => absurd h1 hversion, fun _ => by omega⟩

/-- A version 2 register with a given `C_SIZE`, and nothing else set. -/
def hcCsd (high mid low : UInt8) : Csd := fun k =>
  if k = 0 then 0x40 else if k = 7 then high else if k = 8 then mid else if k = 9 then low else 0

/-- A card that answers with the register once `sent` bytes have been exchanged. -/
def registerBus (csd : Csd) : Bus := ⟨fun sent => Window.item csd (sent.length - 1), 0⟩

theorem delivers_registerBus (csd : Csd) : Delivers (registerBus csd) csd [] := by
  intro k hk
  simp [registerBus]

/-- The state before the register, with nothing known of the card. -/
def noCard : State := ⟨[], ⟨0, 0, 0, 0⟩⟩

/-- A card of 512 GiB and 512 KiB passes for one of 512 KiB. -/
theorem decodesCsd_fails : Delivers (registerBus (hcCsd 0x10 0 0)) (hcCsd 0x10 0 0) noCard.sent ∧
    ¬ DecodesCsd (registerBus (hcCsd 0x10 0 0)) (hcCsd 0x10 0 0) noCard := by
  refine ⟨delivers_registerBus _, ?_⟩
  rintro ⟨m', hrun, hdesc⟩
  have hsize : (readCsd (registerBus (hcCsd 0x10 0 0)) noCard).toOption.map
      (fun x => x.2.card.size.toNat) = some 1024 := by decide
  have hspec := hdesc.sizeHc (by decide) (by decide)
  have hblocks : (hcCsd 0x10 0 0).blocksHc = 1073742848 := by decide
  rw [hrun] at hsize
  simp [Except.toOption, hspec, hblocks] at hsize

/-- A card of 8 GiB. -/
theorem decodesCsd_hcCsd : DecodesCsd (registerBus (hcCsd 0 0x3F 0xFF)) (hcCsd 0 0x3F 0xFF) noCard :=
  (decodesCsd_iff (delivers_registerBus _) rfl).2
    ⟨fun _ => .inl (by decide), fun h => absurd h (by decide)⟩

/-! ## The whole reset -/

variable {r : UInt8} {α : Type}

/-- The read-only flag is not touched before the register is read. -/
theorem spiXfer_readOnly (b : UInt8) :
    (spiXfer b).Maintains bus (fun m => m.card.readOnly = r) fun _ => True := by
  intro m c m' hm h
  simp only [spiXfer, Except.ok.injEq, Prod.mk.injEq] at h
  rw [← h.2]
  exact ⟨hm, trivial⟩

theorem skip_readOnly (n : Nat) :
    (skip n).Maintains bus (fun m => m.card.readOnly = r) fun _ => True := by
  induction n with
  | zero => exact Prog.maintains_pure trivial
  | succ n ih => exact (spiXfer_readOnly _).bind fun _ _ => ih

theorem awaitAnswer_readOnly (fuel : Nat) :
    (awaitAnswer fuel).Maintains bus (fun m => m.card.readOnly = r) fun _ => True := by
  induction fuel with
  | zero => exact Prog.maintains_fault _
  | succ fuel ih =>
    exact (spiXfer_readOnly _).bind fun c _ =>
      Prog.maintains_ite (fun _ => ih) fun _ => Prog.maintains_pure trivial

theorem sendFrame_readOnly (code : UInt8) (data : UInt32) (chksm : UInt8) :
    (sendFrame code data chksm).Maintains bus (fun m => m.card.readOnly = r) fun _ => True :=
  (spiXfer_readOnly _).bind fun _ _ => (spiXfer_readOnly _).bind fun _ _ =>
    (spiXfer_readOnly _).bind fun _ _ => (spiXfer_readOnly _).bind fun _ _ =>
    (spiXfer_readOnly _).bind fun _ _ => (spiXfer_readOnly _).bind fun _ _ =>
    Prog.maintains_pure trivial

theorem retry_readOnly (n : Nat) (c : UInt16) :
    (retry n c).Maintains bus (fun m => m.card.readOnly = r) fun _ => True := by
  induction n generalizing c with
  | zero => exact Prog.maintains_pure trivial
  | succ n ih =>
    exact (spiXfer_readOnly _).bind fun c _ =>
      Prog.maintains_ite (fun _ => Prog.maintains_pure trivial) fun _ => ih c

theorem sdCommand_readOnly (code : UInt8) (data : UInt32) (chksm : UInt8) :
    (sdCommand code data chksm).Maintains bus (fun m => m.card.readOnly = r) fun _ => True := by
  have htail : Prog.Maintains bus (fun m : State => m.card.readOnly = r)
      (do
        let _ ← spiXfer 0xFF
        sendFrame code data chksm
        if code = cmd12 then
          let _ ← spiXfer 0xFF
        retry sdRetries 0) fun _ => True :=
    (spiXfer_readOnly _).bind fun _ _ => (sendFrame_readOnly _ _ _).bind fun _ _ =>
      Prog.maintains_ite
        (fun _ => (spiXfer_readOnly _).bind fun _ _ => retry_readOnly _ _)
        fun _ => retry_readOnly _ _
  unfold sdCommand
  exact Prog.maintains_ite
    (fun _ => (spiXfer_readOnly _).bind fun _ _ => (sendFrame_readOnly _ _ _).bind fun _ _ =>
      (Prog.maintains_ask (P := fun _ => True) (g := Bus.patience) trivial).bind fun bound _ =>
        (awaitAnswer_readOnly bound).bind fun _ _ => htail)
    fun _ => htail

theorem awaitReady_readOnly (fuel : Nat) :
    (awaitReady fuel).Maintains bus (fun m => m.card.readOnly = r) fun _ => True := by
  induction fuel with
  | zero => exact Prog.maintains_fault _
  | succ fuel ih =>
    exact (sdCommand_readOnly _ _ _).bind fun c _ =>
      Prog.maintains_ite (fun _ => ih) fun _ => Prog.maintains_pure trivial

theorem checkVoltage_readOnly (expected : List UInt16) :
    (checkVoltage expected).Maintains bus (fun m => m.card.readOnly = r) fun _ => True := by
  induction expected with
  | nil => exact Prog.maintains_pure trivial
  | cons _ _ ih =>
    exact (spiXfer_readOnly _).bind fun c _ =>
      Prog.maintains_ite (fun _ => Prog.maintains_pure trivial) fun _ => ih

theorem setCard_readOnly {f : SDCard → SDCard} (hf : ∀ card, (f card).readOnly = card.readOnly) :
    (setCard f).Maintains bus (fun m => m.card.readOnly = r) fun _ => True :=
  Prog.maintains_modify fun _ hm => (hf _).trans hm

/-- A result of 0 comes from reading the register, with the read-only flag still at `r`. -/
def FromCsd (bus : Bus) (r : UInt8) (a : Int) (m' : State) : Prop :=
  a = 0 → ∃ m, m.card.readOnly = r ∧ readCsd bus m = .ok (0, m')

theorem failed_fromCsd {I : State → Prop} :
    Prog.Ensures bus I (pure (-1) : Sd Int) (FromCsd bus r) :=
  Prog.ensures_pure fun _ _ h => absurd h (by decide)

theorem setError_fromCsd {f : SDCard → SDCard} (hf : ∀ card, (f card).readOnly = card.readOnly) :
    Prog.Ensures bus (fun m => m.card.readOnly = r) (setCard f >>= fun _ => pure (-1))
      (FromCsd bus r) :=
  (setCard_readOnly hf).bind_ensures fun _ _ => failed_fromCsd

theorem resetReady_fromCsd :
    Prog.Ensures bus (fun m => m.card.readOnly = r) resetReady (FromCsd bus r) :=
  (Prog.maintains_ask (P := fun _ => True) (g := Bus.patience) trivial).bind_ensures fun bound _ =>
    (awaitReady_readOnly bound).bind_ensures fun _ _ =>
      (sdCommand_readOnly _ _ _).bind_ensures fun _ _ =>
        Prog.ensures_ite (fun _ => setError_fromCsd (by intro _; rfl)) fun _ =>
          (awaitAnswer_readOnly bound).bind_ensures fun _ _ =>
            fun m _ _ hm h ha => ⟨m, hm, ha ▸ h⟩

theorem sdCardReset_fromCsd :
    Prog.Ensures bus (fun m => m.card.readOnly = r) sdCardReset (FromCsd bus r) := by
  have hready : ∀ t : UInt16, Prog.Ensures bus (fun m => m.card.readOnly = r)
      (setCard (fun card => { card with cardType := t }) >>= fun _ => resetReady)
      (FromCsd bus r) := fun t =>
    (setCard_readOnly (by intro _; rfl)).bind_ensures fun _ _ => resetReady_fromCsd
  unfold sdCardReset
  refine (skip_readOnly 20).bind_ensures fun _ _ => ?_
  refine (sdCommand_readOnly _ _ _).bind_ensures fun _ _ => ?_
  refine Prog.ensures_ite (fun _ => setError_fromCsd (by intro _; rfl)) fun _ => ?_
  refine (sdCommand_readOnly _ _ _).bind_ensures fun _ _ => ?_
  refine Prog.ensures_ite (fun _ => hready _) fun _ => ?_
  refine Prog.ensures_ite (fun _ => ?_) fun _ => setError_fromCsd (by intro _; rfl)
  refine (checkVoltage_readOnly _).bind_ensures fun _ _ => ?_
  exact Prog.ensures_ite (fun _ => hready _) fun _ => setError_fromCsd (by intro _; rfl)

/-- The register made of the card's last 16 answers. -/
def Bus.lastCsd (bus : Bus) (sent : List UInt8) : Csd := fun k =>
  bus.answer (sent.drop (15 - k.val))

theorem lastCsd_after (bus : Bus) (m : State) (card : SDCard) :
    bus.lastCsd (m.after 16 card).sent =
      fun k => bus.answer (List.replicate (k.val + 1) 0xFF ++ m.sent) := by
  funext k
  have hk : 16 - (15 - k.val) = k.val + 1 := by omega
  change bus.answer (List.drop (15 - k.val) (List.replicate 16 0xFF ++ m.sent)) = _
  rw [List.drop_append_of_le_length (by rw [List.length_replicate]; omega), List.drop_replicate, hk]

/-- Sixteen answers deliver a register. -/
theorem delivers_lastCsd (bus : Bus) (m : State) (card : SDCard) :
    Delivers bus (bus.lastCsd (m.after 16 card).sent) m.sent := by
  intro k hk
  simp only [lastCsd_after, Window.item, Fin.ofNat, Nat.mod_eq_of_lt hk]

/-- A reset that returns 0 leaves the card the last 16 answers describe, unless they make one of the
    registers decoded wrong. -/
theorem sdCardReset_describes (hcard : m.card.readOnly = 0)
    (hrun : sdCardReset bus m = .ok (0, m'))
    (hsize : (bus.lastCsd m'.sent).csdStructure = 1 →
      (bus.lastCsd m'.sent).cSizeHc < 2 ^ 20 ∨ 2 ^ 32 ≤ (bus.lastCsd m'.sent).blocksHc) :
    (bus.lastCsd m'.sent).Describes m'.card := by
  obtain ⟨m₁, hcard₁, hread⟩ := sdCardReset_fromCsd m 0 m' hcard hrun rfl
  have hdelivers := delivers_lastCsd bus m₁ m₁.card
  generalize hcsd : bus.lastCsd (m₁.after 16 m₁.card).sent = csd at hdelivers
  have hlast : ∀ card, bus.lastCsd (m₁.after 16 card).sent = csd := fun card => by
    rw [← hcsd, lastCsd_after, lastCsd_after]
  by_cases hbit : csd.bits 126 126 = 1
  · rw [readCsd_hc hdelivers hbit] at hread
    cases hread
    rw [hlast] at hsize ⊢
    exact (csd.describes_hc hcard₁ hbit).2 hsize
  · by_cases hlen : csd.readBlLen < 9
    · rw [readCsd_fault hdelivers hbit hlen] at hread
      cases hread
    · rw [readCsd_sc hdelivers hbit (by omega)] at hread
      cases hread
      rw [hlast]
      exact csd.describes_sc hcard₁ hbit

end Embext.BlockSd
