import Embext.Proofs.Inode

set_option autoImplicit false

/-! # Bitmaps and the search for something free

The bits of a bitmap block, the scan that finds its first clear bit, and the choice of the group
whose descriptor records the most free items. -/

namespace Embext

/-! ## Bits of a byte -/

variable {b : UInt8} {i j : Nat}

theorem firstClearBit_lt (hj : firstClearBit b = some j) : j < 8 :=
  List.mem_range.1 (List.mem_of_find?_eq_some hj)

theorem firstClearBit_clear (hj : firstClearBit b = some j) : b.toNat.testBit j = false := by
  simpa using List.find?_some hj

/-- The bits below the first clear one are set. -/
theorem firstClearBit_below (hj : firstClearBit b = some j) (hi : i < j) :
    b.toNat.testBit i = true := by
  have hlt := firstClearBit_lt hj
  unfold firstClearBit at hj
  rw [List.find?_range_eq_some] at hj
  simpa using hj.2.2 i hi

theorem firstClearBit_none (hnone : firstClearBit b = none) (hi : i < 8) :
    b.toNat.testBit i = true := by
  have := List.find?_eq_none.1 hnone i (List.mem_range.2 hi)
  simpa using this

theorem testBit_setBit (b : UInt8) (hj : j < 8) :
    (setBit b j).toNat.testBit i = (b.toNat.testBit i || decide (i = j)) := by
  have hlt : b.toNat ||| 2 ^ j < 2 ^ 8 :=
    Nat.or_lt_two_pow b.toNat_lt (Nat.pow_lt_pow_right (by decide) hj)
  unfold setBit
  rw [UInt8.toNat_ofNat', Nat.mod_eq_of_lt hlt, Nat.testBit_or, Nat.testBit_two_pow]
  simp [eq_comm]

theorem or_sub_two_pow : ∀ n < 256, ∀ j < 8, n.testBit j = false → (n ||| 2 ^ j) - 2 ^ j = n := by
  decide +kernel

theorem sub_two_pow_testBit : ∀ n < 256, ∀ j < 8, n.testBit j = true →
    ∀ i < 8, (n - 2 ^ j).testBit i = (n.testBit i && !decide (i = j)) := by
  decide +kernel

theorem testBit_clearBit (b : UInt8) (hi : i < 8) (hj : j < 8) :
    (clearBit b j).toNat.testBit i = (b.toNat.testBit i && !decide (i = j)) := by
  have hb := b.toNat_lt
  unfold clearBit
  by_cases hset : b.toNat.testBit j = true
  · rw [if_pos hset, UInt8.toNat_ofNat', Nat.mod_eq_of_lt (lt_of_le_of_lt (Nat.sub_le _ _) hb)]
    exact sub_two_pow_testBit _ hb j hj hset i hi
  · rw [if_neg hset]
    by_cases hij : i = j
    · subst hij
      simp [hset]
    · simp [hij]

/-- Clearing the bit a byte has gained. -/
theorem clearBit_setBit (hj : j < 8) (hclear : b.toNat.testBit j = false) :
    clearBit (setBit b j) j = b := by
  have hset : (setBit b j).toNat.testBit j = true := by simp [testBit_setBit b hj]
  have hlt : b.toNat ||| 2 ^ j < 2 ^ 8 :=
    Nat.or_lt_two_pow b.toNat_lt (Nat.pow_lt_pow_right (by decide) hj)
  unfold clearBit
  rw [if_pos hset]
  apply UInt8.toNat_inj.1
  unfold setBit
  rw [UInt8.toNat_ofNat', UInt8.toNat_ofNat', Nat.mod_eq_of_lt hlt,
    or_sub_two_pow _ b.toNat_lt j hj hclear, Nat.mod_eq_of_lt b.toNat_lt]

/-! ## Bits of the device -/

/-- Where a bit is: sector, byte of the sector, bit of the byte. -/
structure BitPlace where
  sector : UInt32
  byte : Nat
  bit : Nat
  deriving DecidableEq

namespace BitPlace

/-- The bit at `p`. -/
def get (p : BitPlace) (v : UInt32 → Sector) : Bool :=
  (Window.item (v p.sector) p.byte).toNat.testBit p.bit

/-- The device with `x` at `p`. -/
def put (p : BitPlace) (x : Bool) (v : UInt32 → Sector) : UInt32 → Sector :=
  Function.update v p.sector (Window.patch (v p.sector) p.byte
    [if x then setBit (Window.item (v p.sector) p.byte) p.bit
      else clearBit (Window.item (v p.sector) p.byte) p.bit])

/-- Byte and bit lie in their ranges. -/
structure Valid (p : BitPlace) : Prop where
  byte : p.byte < 512
  bit : p.bit < 8

variable {p q : BitPlace} {x : Bool} {v v' : UInt32 → Sector}

theorem get_congr (hsec : v' p.sector = v p.sector) : p.get v' = p.get v := by
  unfold get
  rw [hsec]

@[simp] theorem put_other {s : UInt32} (hs : s ≠ p.sector) : p.put x v s = v s :=
  Function.update_of_ne hs _ _

theorem put_sector : p.put x v p.sector = Window.patch (v p.sector) p.byte
    [if x then setBit (Window.item (v p.sector) p.byte) p.bit
      else clearBit (Window.item (v p.sector) p.byte) p.bit] :=
  Function.update_self _ _ _

/-- The byte that was written. -/
theorem item_put_self (hp : p.Valid) : Window.item (p.put x v p.sector) p.byte
    = if x then setBit (Window.item (v p.sector) p.byte) p.bit
      else clearBit (Window.item (v p.sector) p.byte) p.bit := by
  have hbyte := hp.byte
  rw [put_sector, Window.item_patch_inside _ (by simp; omega) (Nat.le_refl _) (by simp)]
  simp

/-- The other bytes of the sector. -/
theorem item_put_other {k : Nat} (hk : k < 512) (hne : k ≠ p.byte) :
    Window.item (p.put x v p.sector) k = Window.item (v p.sector) k := by
  rw [put_sector, Window.item_patch_outside _ hk]
  simp
  omega

theorem get_put_self (hp : p.Valid) : p.get (p.put x v) = x := by
  unfold get
  rw [item_put_self hp]
  cases x
  · simp [testBit_clearBit _ hp.bit hp.bit]
  · simp [testBit_setBit _ hp.bit]

/-- A bit at another place stays. -/
theorem get_put_ne (hp : p.Valid) (hq : q.Valid) (hne : q ≠ p) : q.get (p.put x v) = q.get v := by
  by_cases hsec : q.sector = p.sector
  swap
  · exact get_congr (put_other hsec)
  unfold get
  rw [hsec]
  by_cases hbyte : q.byte = p.byte
  · have hbit : q.bit ≠ p.bit := fun hbit => hne (by cases p; cases q; simp_all)
    rw [hbyte, item_put_self hp]
    cases x
    · simp [testBit_clearBit _ hq.bit hp.bit, hbit]
    · simp [testBit_setBit _ hp.bit, hbit]
  · rw [item_put_other hq.byte hbyte]

/-- Clearing the bit that was set gives the old device back. -/
theorem put_put (hp : p.Valid) (hclear : p.get v = false) : p.put false (p.put true v) = v := by
  have hself := item_put_self (x := true) (v := v) hp
  unfold put at hself ⊢
  rw [Function.update_self, Function.update_idem] at *
  simp only [if_true, Bool.false_eq_true, if_false] at hself ⊢
  rw [hself, clearBit_setBit hp.bit hclear, Window.patch_patch _ _ (by simp)]
  rw [Window.patch_item _ hp.byte, Function.update_eq_self]

end BitPlace

/-! ## Bitmap blocks -/

/-- Bit `k` of the bitmap in block `b`. -/
def bitmapBit (v : UInt32 → Sector) (ctx : Ext2Context) (b : UInt32) (k : Nat) : Bool :=
  (blockByte v ctx b (k / 8)).toNat.testBit (k % 8)

/-- Its place on the device. -/
def bitmapPlace (c : Ext2Context) (bitmap : UInt32) (k : Nat) : BitPlace :=
  ⟨blockSector c bitmap (k / 8), k / 8 % 512, k % 8⟩

theorem bitmapPlace_valid (c : Ext2Context) (bitmap : UInt32) (k : Nat) :
    (bitmapPlace c bitmap k).Valid := ⟨Nat.mod_lt _ (by decide), Nat.mod_lt _ (by decide)⟩

theorem bitmapBit_eq (v : UInt32 → Sector) (c : Ext2Context) (bitmap : UInt32) (k : Nat) :
    bitmapBit v c bitmap k = (bitmapPlace c bitmap k).get v := rfl

theorem bitmapBit_byte (v : UInt32 → Sector) (c : Ext2Context) (bitmap : UInt32) (p : Nat)
    (hj : j < 8) :
    bitmapBit v c bitmap (8 * p + j) = (blockByte v c bitmap p).toNat.testBit j := by
  rw [bitmapBit, show (8 * p + j) / 8 = p by omega, show (8 * p + j) % 8 = j by omega]

/-! ## Steps that only look -/

/-- Only `sysbuf` and the log are new. -/
def Machine.Browsed (m m' : Machine) : Prop :=
  ∃ s l, m' = { m with log := l, ctx := { m.ctx with sysbuf := s } }

theorem Machine.Browsed.refl (m : Machine) : m.Browsed m := ⟨_, _, rfl⟩

theorem Machine.Browsed.trans {m₁ m₂ m₃ : Machine} (h₁ : m₁.Browsed m₂) (h₂ : m₂.Browsed m₃) :
    m₁.Browsed m₃ := by
  obtain ⟨s, l, rfl⟩ := h₁
  obtain ⟨s', l', rfl⟩ := h₂
  exact ⟨s', l', rfl⟩

variable {h : Host} {m m' : Machine} {fe : FileEnt}

theorem Machine.Browsed.disk (hb : m.Browsed m') : m'.disk = m.disk := by
  obtain ⟨s, l, rfl⟩ := hb
  rfl

theorem Machine.Browsed.sane (hb : m.Browsed m') (hs : m.ctx.SaneBlockSize) :
    m'.ctx.SaneBlockSize := by
  obtain ⟨s, l, rfl⟩ := hb
  exact hs

theorem Machine.Browsed.groups (hb : m.Browsed m') :
    m'.ctx.numBlockgroups = m.ctx.numBlockgroups := by
  obtain ⟨s, l, rfl⟩ := hb
  rfl

theorem Machine.Browsed.descriptorAt (hb : m.Browsed m') (g : Nat) :
    descriptorAt m'.disk m'.ctx g = descriptorAt m.disk m.ctx g := by
  obtain ⟨s, l, rfl⟩ := hb
  rfl

theorem ext2BgDescriptor_browsed (hh : h.Reliable) (hs : m.ctx.SaneBlockSize) {g : UInt32}
    (hg : g.toNat < m.ctx.numBlockgroups.toNat) : ∃ m',
    ext2BgDescriptor g h m = .ok (descriptorAt m.disk m.ctx g.toNat, m') ∧ m.Browsed m' := by
  have hrun := ext2BgDescriptor_ok hh hs hg
  rw [UInt32.ofNat_toNat] at hrun
  exact ⟨_, hrun, _, _, rfl⟩

theorem ext2WriteBgDescriptor_ok (hh : h.Reliable) (hs : m.ctx.SaneBlockSize)
    (bg : BlockGroupDescriptor) {g : UInt32} (hg : g.toNat < m.ctx.numBlockgroups.toNat) : ∃ m',
    ext2WriteBgDescriptor bg g h m = .ok (0, m') ∧ m.Browsed m' := by
  have hcopies : ∀ (l : List UInt32) {m : Machine}, m.ctx.SaneBlockSize →
      ∃ m', ext2WriteBgCopies bg g l h m = .ok ((), m') ∧ m.Browsed m' := by
    intro l
    induction l with
    | nil => exact fun {m} _ => ⟨m, rfl, .refl m⟩
    | cons b rest ih =>
      intro m hs
      obtain ⟨m₁, hread, hb₁⟩ : ∃ m₁, readSysbuf (UInt32.ofNat ((b.toNat + 1)
          * (m.ctx.blockSize / 512) + g.toNat / 16) + m.ctx.partStart) h m = .ok ((), m₁) ∧
          m.Browsed m₁ := ⟨_, readSysbuf_ok hh _, _, _, rfl⟩
      obtain ⟨m₂, hset, hb₂⟩ : ∃ m₂, setSysbuf (Window.patch m₁.ctx.sysbuf (32 * (g.toNat % 16))
          (BlockGroupDescriptor.packed.bytes bg)) h m₁ = .ok ((), m₂) ∧ m₁.Browsed m₂ :=
        ⟨_, setSysbuf_apply _, _, _, rfl⟩
      obtain ⟨m', hrun, hb⟩ := ih (hb₂.sane (hb₁.sane hs))
      refine ⟨m', ?_, hb₁.trans (hb₂.trans hb)⟩
      unfold ext2WriteBgCopies
      rw [Prog.bind_ok getCtx_apply, Prog.bind_ok (ext2BlockSize_ok hs), Prog.bind_ok hread,
        Prog.bind_ok getCtx_apply, Prog.bind_ok hset, hrun]
  obtain ⟨m', hrun, hb⟩ := hcopies m.ctx.superblockBlocks hs
  refine ⟨m', ?_, hb⟩
  unfold ext2WriteBgDescriptor
  rw [Prog.bind_ok getCtx_apply, if_neg (Nat.not_le.2 hg), Prog.bind_ok hrun]
  rfl

/-! ## The group with the most free items -/

/-- The group with the largest count among `n` from `i` on, the first one of several; `g` with
    `most` when none is larger. -/
def mostFree (count : Nat → UInt16) : Nat → Nat → UInt16 → UInt32 → UInt16 × UInt32
  | 0, _, most, g => (most, g)
  | n + 1, i, most, g =>
    if most.toNat < (count i).toNat then mostFree count n (i + 1) (count i) (UInt32.ofNat i)
    else mostFree count n (i + 1) most g

theorem mostFreeGroup_ok (hh : h.Reliable) (free : BlockGroupDescriptor → UInt16) (n : Nat) :
    ∀ {m : Machine} (i : Nat) (most : UInt16) (g : UInt32), m.ctx.SaneBlockSize →
      i + n ≤ m.ctx.numBlockgroups.toNat → ∃ m', mostFreeGroup free n (UInt32.ofNat i) most g h m
        = .ok (mostFree (fun k => free (descriptorAt m.disk m.ctx k)) n i most g, m') ∧
        m.Browsed m' := by
  induction n with
  | zero => exact fun {m} i most g _ _ => ⟨m, rfl, .refl m⟩
  | succ n ih =>
    intro m i most g hs hi
    have hlt := m.ctx.numBlockgroups.toNat_lt
    have hi32 : (UInt32.ofNat i).toNat = i := UInt32.toNat_ofNat_of_lt' (by show i < 2 ^ 32; omega)
    obtain ⟨m₁, hbg, hb⟩ := ext2BgDescriptor_browsed hh hs (g := UInt32.ofNat i)
      (by rw [hi32]; omega)
    rw [hi32] at hbg
    have hdesc : (fun k => free (descriptorAt m₁.disk m₁.ctx k))
        = fun k => free (descriptorAt m.disk m.ctx k) := funext fun k => by rw [hb.descriptorAt]
    have hstep : ∀ (most : UInt16) (g : UInt32), ∃ m',
        mostFreeGroup free n (UInt32.ofNat i + 1) most g h m₁
          = .ok (mostFree (fun k => free (descriptorAt m.disk m.ctx k)) n (i + 1) most g, m') ∧
        m.Browsed m' := by
      intro most g
      obtain ⟨m', hrun, hb'⟩ := ih (i + 1) most g (hb.sane hs) (by rw [hb.groups]; omega)
      rw [hdesc, UInt32.ofNat_add] at hrun
      exact ⟨m', hrun, hb.trans hb'⟩
    unfold mostFreeGroup mostFree
    rw [Prog.bind_ok hbg]
    split
    · exact hstep _ _
    · exact hstep _ _

theorem mostFree_congr {count count' : Nat → UInt16} (n : Nat) : ∀ (i : Nat) (most : UInt16)
    (g : UInt32), (∀ k, i ≤ k → k < i + n → count k = count' k) →
    mostFree count n i most g = mostFree count' n i most g := by
  induction n with
  | zero => exact fun i most g _ => rfl
  | succ n ih =>
    intro i most g heq
    have hrest := fun most g => ih (i + 1) most g fun k hlo hhi => heq k (by omega) (by omega)
    simp only [mostFree, heq i (Nat.le_refl i) (by omega), hrest]

/-- The choice is a largest count, and the count of the group chosen. -/
theorem mostFree_spec (count : Nat → UInt16) (n : Nat) : ∀ (i : Nat) (most : UInt16) (g : UInt32),
    i + n ≤ 2 ^ 32 →
    (∀ k, i ≤ k → k < i + n → (count k).toNat ≤ (mostFree count n i most g).1.toNat) ∧
    most.toNat ≤ (mostFree count n i most g).1.toNat ∧
    (mostFree count n i most g = (most, g) ∨ (mostFree count n i most g).2.toNat < i + n ∧
      (mostFree count n i most g).1 = count (mostFree count n i most g).2.toNat) := by
  induction n with
  | zero => exact fun i most g _ => ⟨fun k hlo hhi => by omega, Nat.le_refl _, .inl rfl⟩
  | succ n ih =>
    intro i most g hi
    have hi32 : (UInt32.ofNat i).toNat = i := UInt32.toNat_ofNat_of_lt' (by show i < 2 ^ 32; omega)
    unfold mostFree
    split
    · next hlt =>
      obtain ⟨hall, hge, hwhich⟩ := ih (i + 1) (count i) (UInt32.ofNat i) (by omega)
      refine ⟨fun k hlo hhi => ?_, by omega, .inr ?_⟩
      · rcases Nat.eq_or_lt_of_le hlo with rfl | hlo
        · exact hge
        · exact hall k hlo (by omega)
      · rcases hwhich with heq | ⟨hlt', hcount⟩
        · rw [heq, hi32]
          exact ⟨by omega, rfl⟩
        · exact ⟨by omega, hcount⟩
    · next hnlt =>
      obtain ⟨hall, hge, hwhich⟩ := ih (i + 1) most g (by omega)
      refine ⟨fun k hlo hhi => ?_, hge, ?_⟩
      · rcases Nat.eq_or_lt_of_le hlo with rfl | hlo
        · omega
        · exact hall k hlo (by omega)
      · rcases hwhich with heq | ⟨hlt', hcount⟩
        · exact .inl heq
        · exact .inr ⟨by omega, hcount⟩

/-- Over all groups: the choice is 0 exactly when every count is, and otherwise a group's. -/
theorem mostFree_zero_iff (count : Nat → UInt16) {n : Nat} (hn : n < 2 ^ 32) :
    (mostFree count n 0 0 0).1 = 0 ↔ ∀ k < n, count k = 0 := by
  obtain ⟨hall, -, hwhich⟩ := mostFree_spec count n 0 0 0 (by omega)
  constructor
  · intro h0 k hk
    have hle := hall k (Nat.zero_le k) (by omega)
    rw [h0] at hle
    exact UInt16.toNat_inj.1 (Nat.le_zero.1 hle)
  · intro hzero
    rcases hwhich with heq | ⟨hlt, hcount⟩
    · rw [heq]
    · rw [hcount]
      exact hzero _ (by omega)

theorem mostFree_lt (count : Nat → UInt16) {n : Nat} (hn : n < 2 ^ 32)
    (hne : (mostFree count n 0 0 0).1 ≠ 0) : (mostFree count n 0 0 0).2.toNat < n ∧
      (mostFree count n 0 0 0).1 = count (mostFree count n 0 0 0).2.toNat := by
  obtain ⟨-, -, hwhich⟩ := mostFree_spec count n 0 0 0 (by omega)
  rcases hwhich with heq | ⟨hlt, hcount⟩
  · exact absurd (by rw [heq]) hne
  · exact ⟨by omega, hcount⟩

/-! ## The scan -/

/-- What a scan of the bytes `i ≤ p < i + n` of a bitmap finds in the view `v`: its first clear bit,
    whose sector the handle's buffer `b` then holds, or none. -/
inductive ScanFinds (v : UInt32 → Sector) (c : Ext2Context) (bitmap : UInt32) (i n : Nat)
    (b : BufferObject) : Option (Nat × UInt8 × Nat) → Prop where
  | none (full : ∀ k, 8 * i ≤ k → k < 8 * (i + n) → bitmapBit v c bitmap k = true) :
      ScanFinds v c bitmap i n b none
  | some {p j : Nat} (lo : i ≤ p) (hi : p < i + n) (bit : j < 8)
      (clear : bitmapBit v c bitmap (8 * p + j) = false)
      (first : ∀ k, 8 * i ≤ k → k < 8 * p + j → bitmapBit v c bitmap k = true)
      (buffer : b = { buffer := v (blockSector c bitmap p)
                      lbaBlock := UInt32.ofNat (bitmap.toNat * (c.blockSize / 512) + p / 512)
                      dirty := false }) :
      ScanFinds v c bitmap i n b (some (p, blockByte v c bitmap p, j))

/-- One byte of the scan. -/
theorem scanBitmap_succ (fe : FileEnt) (hh : h.Reliable) (hs : m.ctx.SaneBlockSize)
    (bitmap : UInt32) (n : Nat) {i : Nat} (hi : i < 2 ^ 32) : ∃ m₁ fe₁, Loads m fe m₁ fe₁ ∧
      fe₁.buffer = { buffer := view m fe (blockSector m.ctx bitmap i)
                     lbaBlock := UInt32.ofNat (bitmap.toNat * (m.ctx.blockSize / 512) + i / 512)
                     dirty := false } ∧
      scanBitmap bitmap (n + 1) i fe h m
        = match firstClearBit (blockByte (view m fe) m.ctx bitmap i) with
          | some j => .ok ((some (i, blockByte (view m fe) m.ctx bitmap i, j), fe₁), m₁)
          | none => scanBitmap bitmap n (i + 1) fe₁ h m₁ := by
  have hi32 : (UInt32.ofNat i).toNat = i := UInt32.toNat_ofNat_of_lt' hi
  refine ⟨_, _, Loads.load bitmap (UInt32.ofNat i), ?_, ?_⟩
  · simp only [loadedBuffer, hi32]
  · rw [scanBitmap, Prog.bind_ok (ext2LoadBuffer_ok hh hs _ _)]
    dsimp only
    rw [Prog.bind_ok (ext2ReadBuffer_ok (show i % 512 + 1 ≤ 512 by omega))]
    have hbyte : (Window.slice (loadedBuffer m fe bitmap (UInt32.ofNat i)).buffer (i % 512) 1).headD 0
        = blockByte (view m fe) m.ctx bitmap i := by
      simp [Window.slice, loadedBuffer, hi32, blockByte]
    rw [hbyte]
    cases firstClearBit (blockByte (view m fe) m.ctx bitmap i) with
    | none => rfl
    | some j => rfl

theorem scanBitmap_ok (hh : h.Reliable) (bitmap : UInt32) (n : Nat) :
    ∀ {m : Machine} (fe : FileEnt) (i : Nat), m.ctx.SaneBlockSize → i + n ≤ 2 ^ 32 →
      ∃ found m' fe', scanBitmap bitmap n i fe h m = .ok ((found, fe'), m') ∧ Loads m fe m' fe' ∧
        ScanFinds (view m fe) m.ctx bitmap i n fe'.buffer found := by
  induction n with
  | zero =>
    exact fun {m} fe i _ _ => ⟨none, m, fe, rfl, .refl m fe, .none fun k hlo hhi => by omega⟩
  | succ n ih =>
    intro m fe i hs hi
    obtain ⟨m₁, fe₁, hl, hbuf, hstep⟩ := scanBitmap_succ fe hh hs bitmap n (i := i) (by omega)
    rw [hstep]
    split
    · next j hj =>
      have hlt := firstClearBit_lt hj
      refine ⟨_, _, _, rfl, hl, .some (Nat.le_refl i) (by omega) hlt ?_ (fun k hlo hhi => ?_) hbuf⟩
      · rw [bitmapBit_byte _ _ _ _ hlt]
        exact firstClearBit_clear hj
      · obtain ⟨k', rfl⟩ : ∃ k', k = 8 * i + k' := ⟨k - 8 * i, by omega⟩
        rw [bitmapBit_byte _ _ _ _ (by omega)]
        exact firstClearBit_below hj (by omega)
    · next hnone =>
      obtain ⟨found, m', fe', hrun, hl', hfinds⟩ := ih fe₁ (i + 1)
        (by rw [hl.ctx_eq]; exact hs) (by omega)
      rw [hl.view_eq, hl.ctx_eq] at hfinds
      have hbyte : ∀ k, 8 * i ≤ k → k < 8 * (i + 1) →
          bitmapBit (view m fe) m.ctx bitmap k = true := by
        intro k hlo hhi
        obtain ⟨k', rfl⟩ : ∃ k', k = 8 * i + k' := ⟨k - 8 * i, by omega⟩
        rw [bitmapBit_byte _ _ _ _ (by omega)]
        exact firstClearBit_none hnone (by omega)
      refine ⟨found, m', fe', hrun, hl.trans hl', ?_⟩
      cases hfinds with
      | none full =>
        refine .none fun k hlo hhi => ?_
        rcases Nat.lt_or_ge k (8 * (i + 1)) with hk | hk
        · exact hbyte k hlo hk
        · exact full k hk (by omega)
      | some lo hi' bit clear first buffer =>
        refine .some (by omega) (by omega) bit clear (fun k hlo hhi => ?_) buffer
        rcases Nat.lt_or_ge k (8 * (i + 1)) with hk | hk
        · exact hbyte k hlo hk
        · exact first k hk hhi

end Embext
