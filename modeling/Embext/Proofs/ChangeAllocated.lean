import Embext.Proofs.Bitmap
import Embext.Proofs.Layout
import Mathlib.Data.Nat.ModEq
import Mathlib.Data.Nat.Prime.Basic

set_option autoImplicit false

/-! # The bit of a block

`ext2_change_allocated` takes the block's number for its position among the groups and the number of
the bitmap's block for a sector. The format counts blocks from `s_first_data_block` and a block has
`block_size / 512` sectors, so on a volume of the usual geometry the two only meet in a bitmap at
block 0. -/

namespace Embext

/-! ## Two places -/

/-- Where `ext2_change_allocated` looks. -/
def codePlace (v : UInt32 → Sector) (c : Ext2Context) (block : UInt32) : BitPlace where
  sector := UInt32.ofNat ((descriptorAt v c
    (block.toNat / c.superblock.sBlocksPerGroup.toNat)).bgBlockBitmap.toNat
      + block.toNat % c.superblock.sBlocksPerGroup.toNat / 8 / 512) + c.partStart
  byte := block.toNat % c.superblock.sBlocksPerGroup.toNat / 8 % 512
  bit := block.toNat % c.superblock.sBlocksPerGroup.toNat % 8

/-- The group of a block, and its position there. -/
def blockGroup (c : Ext2Context) (block : UInt32) : Nat :=
  (block.toNat - c.superblock.sFirstDataBlock.toNat) / c.superblock.sBlocksPerGroup.toNat

def blockIndex (c : Ext2Context) (block : UInt32) : Nat :=
  (block.toNat - c.superblock.sFirstDataBlock.toNat) % c.superblock.sBlocksPerGroup.toNat

/-- Where the bit that stands for a block is. -/
def blockPlace (v : UInt32 → Sector) (c : Ext2Context) (block : UInt32) : BitPlace :=
  bitmapPlace c (descriptorAt v c (blockGroup c block)).bgBlockBitmap (blockIndex c block)

/-- A block of the file system. -/
def IsBlock (c : Ext2Context) (block : UInt32) : Prop :=
  c.superblock.sFirstDataBlock.toNat ≤ block.toNat ∧
    block.toNat < c.superblock.sBlocksCount.toNat

/-- The geometry `mke2fs` gives a volume. -/
structure Ext2Context.Geometry (c : Ext2Context) : Prop where
  block : c.SaneBlockSize
  first : c.superblock.sFirstDataBlock = if c.superblock.sLogBlockSize = 0 then 1 else 0
  behind : c.superblockBlock = c.superblock.sFirstDataBlock
  perGroup : c.superblock.sBlocksPerGroup.toNat ≠ 0
  wholeBytes : c.superblock.sBlocksPerGroup.toNat % 8 = 0
  oneBlock : c.superblock.sBlocksPerGroup.toNat ≤ 8 * c.blockSize

variable {h : Host} {m m' : Machine} {c : Ext2Context} {v : UInt32 → Sector} {block : UInt32}
  {allocated dir : Bool}

theorem codePlace_valid (v : UInt32 → Sector) (c : Ext2Context) (block : UInt32) :
    (codePlace v c block).Valid := ⟨Nat.mod_lt _ (by decide), Nat.mod_lt _ (by decide)⟩

theorem blockPlace_valid (v : UInt32 → Sector) (c : Ext2Context) (block : UInt32) :
    (blockPlace v c block).Valid := bitmapPlace_valid _ _ _

/-- A block number and a sector number are the same only for block 0: `2^(n+1) - 1` is odd. -/
theorem eq_zero_of_scaled {n x log : Nat} (hn : n < 2 ^ 32) {s : UInt32}
    (heq : UInt32.ofNat (n + x) + s = UInt32.ofNat (n * 2 ^ (log + 1) + x) + s) : n = 0 := by
  have hcancel : UInt32.ofNat (n + x) = UInt32.ofNat (n * 2 ^ (log + 1) + x) := by
    grind
  have hmod : (n + x) % 2 ^ 32 = (n * 2 ^ (log + 1) + x) % 2 ^ 32 := by
    simpa [UInt32.toNat_ofNat'] using congrArg UInt32.toNat hcancel
  have hmod' : n ≡ n * 2 ^ (log + 1) [MOD 2 ^ 32] := Nat.ModEq.add_right_cancel' x hmod
  have hle : n ≤ n * 2 ^ (log + 1) := Nat.le_mul_of_pos_right _ (Nat.two_pow_pos _)
  have hdvd : 2 ^ 32 ∣ n * (2 ^ (log + 1) - 1) := by
    rw [Nat.mul_sub, Nat.mul_one]
    exact (Nat.modEq_iff_dvd' hle).1 hmod'
  have hodd : Odd (2 ^ (log + 1) - 1) := by
    have hpos := Nat.two_pow_pos log
    exact ⟨2 ^ log - 1, by rw [pow_succ]; omega⟩
  have hcop : Nat.Coprime (2 ^ 32) (2 ^ (log + 1) - 1) :=
    Nat.Coprime.pow_left _ (Nat.coprime_two_left.2 hodd)
  exact Nat.eq_zero_of_dvd_of_lt (hcop.dvd_of_dvd_mul_right hdvd) hn

/-- The two places of a block of the file system agree only in a bitmap at block 0 under blocks
    larger than 1 KiB. -/
theorem places_eq (hgeo : c.Geometry) (hblock : IsBlock c block)
    (heq : codePlace v c block = blockPlace v c block) : c.superblock.sLogBlockSize ≠ 0 ∧
      (descriptorAt v c (block.toNat / c.superblock.sBlocksPerGroup.toNat)).bgBlockBitmap = 0 := by
  have hfirst := hgeo.first
  have hdvd : 8 ∣ c.superblock.sBlocksPerGroup.toNat := Nat.dvd_of_mod_eq_zero hgeo.wholeBytes
  by_cases hlog : c.superblock.sLogBlockSize = 0
  · -- counting from 1 shifts the bit
    rw [if_pos hlog] at hfirst
    have hone : c.superblock.sFirstDataBlock.toNat = 1 := by
      rw [hfirst]
      rfl
    have hpos := hblock.1
    have hbit : block.toNat % c.superblock.sBlocksPerGroup.toNat % 8
        = (block.toNat - c.superblock.sFirstDataBlock.toNat) % c.superblock.sBlocksPerGroup.toNat % 8 :=
      congrArg BitPlace.bit heq
    rw [Nat.mod_mod_of_dvd _ hdvd, Nat.mod_mod_of_dvd _ hdvd, hone] at hbit
    omega
  · rw [if_neg hlog] at hfirst
    have hzero : c.superblock.sFirstDataBlock.toNat = 0 := by
      rw [hfirst]
      rfl
    refine ⟨hlog, ?_⟩
    have hsec := congrArg BitPlace.sector heq
    simp only [codePlace, blockPlace, bitmapPlace, blockSector, blockGroup, blockIndex, hzero,
      Nat.sub_zero, blockSize_div] at hsec
    exact UInt32.toNat_inj.1 (eq_zero_of_scaled (UInt32.toNat_lt _) hsec)

/-! ## The call -/

theorem ext2ChangeAllocated_outside (hper : m.ctx.superblock.sBlocksPerGroup.toNat ≠ 0)
    (hg : m.ctx.numBlockgroups.toNat ≤ block.toNat / m.ctx.superblock.sBlocksPerGroup.toNat) :
    ext2ChangeAllocated block allocated dir h m = .error .uninitialized := by
  have hg32 : (UInt32.ofNat (block.toNat / m.ctx.superblock.sBlocksPerGroup.toNat)).toNat
      = block.toNat / m.ctx.superblock.sBlocksPerGroup.toNat :=
    UInt32.toNat_ofNat_of_lt' (lt_of_le_of_lt (Nat.div_le_self _ _) block.toNat_lt)
  unfold ext2ChangeAllocated
  rw [Prog.bind_ok getCtx_apply, Prog.bind_ok (udiv_ok _ hper)]
  exact Prog.bind_error (ext2BgDescriptor_none (by rw [hg32]; exact hg))

/-- The free count after a change. -/
def freeAfter (allocated : Bool) (n : UInt32) : UInt32 := if allocated then n - 1 else n + 1

/-- The machine after the bit the code looks at has been written and counted. -/
def Marked (m : Machine) (block : UInt32) (allocated : Bool) (m' : Machine) : Prop :=
  ∃ s l, m' = { m with
    disk := (codePlace m.disk m.ctx block).put allocated m.disk
    log := l
    ctx := { m.ctx with
      sysbuf := s
      superblock := { m.ctx.superblock with
        sFreeBlocksCount := freeAfter allocated m.ctx.superblock.sFreeBlocksCount } } }

theorem Marked.disk (hm : Marked m block allocated m') :
    m'.disk = (codePlace m.disk m.ctx block).put allocated m.disk := by
  obtain ⟨s, l, rfl⟩ := hm
  rfl

theorem Marked.freeBlocks (hm : Marked m block allocated m') :
    m'.ctx.superblock.sFreeBlocksCount
      = freeAfter allocated m.ctx.superblock.sFreeBlocksCount := by
  obtain ⟨s, l, rfl⟩ := hm
  rfl

theorem Marked.geometry (hm : Marked m block allocated m') (hgeo : m.ctx.Geometry) :
    m'.ctx.Geometry := by
  obtain ⟨s, l, rfl⟩ := hm
  exact ⟨hgeo.block, hgeo.first, hgeo.behind, hgeo.perGroup, hgeo.wholeBytes, hgeo.oneBlock⟩

theorem Marked.groups (hm : Marked m block allocated m') :
    m'.ctx.numBlockgroups = m.ctx.numBlockgroups := by
  obtain ⟨s, l, rfl⟩ := hm
  rfl

theorem Marked.perGroup (hm : Marked m block allocated m') :
    m'.ctx.superblock.sBlocksPerGroup = m.ctx.superblock.sBlocksPerGroup := by
  obtain ⟨s, l, rfl⟩ := hm
  rfl

/-- While the descriptor of the block's group stays, the code looks at the same place again. -/
theorem Marked.codePlace_eq (hm : Marked m block allocated m')
    (hne : descriptorSector m.ctx (block.toNat / m.ctx.superblock.sBlocksPerGroup.toNat)
      ≠ (codePlace m.disk m.ctx block).sector) :
    codePlace m'.disk m'.ctx block = codePlace m.disk m.ctx block := by
  have hdesc : descriptorAt m'.disk m.ctx (block.toNat / m.ctx.superblock.sBlocksPerGroup.toNat)
      = descriptorAt m.disk m.ctx (block.toNat / m.ctx.superblock.sBlocksPerGroup.toNat) := by
    rw [hm.disk]
    exact descriptorAt_congr (BitPlace.put_other hne)
  have hctx : codePlace m'.disk m'.ctx block = codePlace m'.disk m.ctx block := by
    obtain ⟨s, l, rfl⟩ := hm
    rfl
  rw [hctx]
  unfold codePlace
  rw [hdesc]

/-- A call for a block of a known group looks at one bit: if it is already as requested nothing
    changes, otherwise the bit is written and counted. -/
theorem ext2ChangeAllocated_ok (hh : h.Reliable) (hs : m.ctx.SaneBlockSize)
    (hper : m.ctx.superblock.sBlocksPerGroup.toNat ≠ 0)
    (hg : block.toNat / m.ctx.superblock.sBlocksPerGroup.toNat < m.ctx.numBlockgroups.toNat)
    (allocated dir : Bool) :
    ((codePlace m.disk m.ctx block).get m.disk = allocated ∧ ∃ m',
      ext2ChangeAllocated block allocated dir h m = .ok (-1, m') ∧ m.Browsed m') ∨
    ((codePlace m.disk m.ctx block).get m.disk ≠ allocated ∧ ∃ m',
      ext2ChangeAllocated block allocated dir h m = .ok (0, m') ∧ Marked m block allocated m') := by
  have hg32 : (UInt32.ofNat (block.toNat / m.ctx.superblock.sBlocksPerGroup.toNat)).toNat
      = block.toNat / m.ctx.superblock.sBlocksPerGroup.toNat :=
    UInt32.toNat_ofNat_of_lt' (lt_of_le_of_lt (Nat.div_le_self _ _) block.toNat_lt)
  obtain ⟨m₁, hbg, hb₁⟩ := ext2BgDescriptor_browsed hh hs
    (g := UInt32.ofNat (block.toNat / m.ctx.superblock.sBlocksPerGroup.toNat))
    (by rw [hg32]; exact hg)
  rw [hg32] at hbg
  -- the sector of the bitmap comes to `sysbuf`
  obtain ⟨m₂, hread, hb₂, hsys⟩ : ∃ m₂,
      readSysbuf (codePlace m.disk m.ctx block).sector h m₁ = .ok ((), m₂) ∧ m.Browsed m₂ ∧
      m₂.ctx.sysbuf = m.disk (codePlace m.disk m.ctx block).sector :=
    ⟨_, readSysbuf_ok hh _, hb₁.trans ⟨_, _, rfl⟩, congrFun hb₁.disk _⟩
  obtain ⟨s₂, l₂, rfl⟩ := hb₂
  obtain rfl : s₂ = m.disk (codePlace m.disk m.ctx block).sector := hsys
  by_cases hbit : (codePlace m.disk m.ctx block).get m.disk = allocated
  · refine .inl ⟨hbit, _, ?_, m.disk (codePlace m.disk m.ctx block).sector, l₂, rfl⟩
    unfold ext2ChangeAllocated
    rw [Prog.bind_ok getCtx_apply, Prog.bind_ok (udiv_ok _ hper), Prog.bind_ok hbg,
      Prog.bind_ok (umod_ok _ hper)]
    refine (Prog.bind_ok hread).trans ((Prog.bind_ok getCtx_apply).trans ?_)
    exact (Prog.ite_apply _ _ _ _ _).trans (if_pos hbit)
  · have hwrite : ∀ bg buf, ∃ s l, ext2WriteBgDescriptor bg
        (UInt32.ofNat (block.toNat / m.ctx.superblock.sBlocksPerGroup.toNat)) h
        { m with
          disk := (codePlace m.disk m.ctx block).put allocated m.disk
          log := .write (codePlace m.disk m.ctx block).sector true :: l₂
          ctx := { m.ctx with sysbuf := buf } } = .ok (0, { m with
            disk := (codePlace m.disk m.ctx block).put allocated m.disk
            log := l
            ctx := { m.ctx with sysbuf := s } }) := by
      intro bg buf
      obtain ⟨m', hrun, s, l, hm'⟩ := ext2WriteBgDescriptor_ok hh (m := { m with
        disk := (codePlace m.disk m.ctx block).put allocated m.disk
        log := .write (codePlace m.disk m.ctx block).sector true :: l₂
        ctx := { m.ctx with sysbuf := buf } }) hs bg (by rw [hg32]; exact hg)
      exact ⟨s, l, hrun.trans (by rw [hm'])⟩
    choose s l hrun using hwrite
    refine .inr ⟨hbit, ?_⟩
    unfold ext2ChangeAllocated
    rw [Prog.bind_ok getCtx_apply, Prog.bind_ok (udiv_ok _ hper), Prog.bind_ok hbg,
      Prog.bind_ok (umod_ok _ hper)]
    exact ⟨_, (Prog.bind_ok hread).trans ((Prog.bind_ok getCtx_apply).trans
      (((Prog.ite_apply _ _ _ _ _).trans (if_neg hbit)).trans
        ((Prog.bind_ok (setSysbuf_apply _)).trans ((Prog.bind_ok (blockWrite_ok hh _ _)).trans
          ((Prog.bind_ok (hrun _ _)).trans ((Prog.bind_ok getCtx_apply).trans
            (Prog.bind_ok (setCtx_apply _)))))))), s _ _, l _ _, rfl⟩

/-- A call that returns 0 has written the bit. -/
theorem of_ext2ChangeAllocated_ok (hh : h.Reliable) (hs : m.ctx.SaneBlockSize)
    (hper : m.ctx.superblock.sBlocksPerGroup.toNat ≠ 0)
    (hg : block.toNat / m.ctx.superblock.sBlocksPerGroup.toNat < m.ctx.numBlockgroups.toNat)
    (hrun : ext2ChangeAllocated block allocated dir h m = .ok (0, m')) :
    (codePlace m.disk m.ctx block).get m.disk ≠ allocated ∧ Marked m block allocated m' := by
  rcases ext2ChangeAllocated_ok hh hs hper hg allocated dir with
    ⟨-, m₁, hrun₁, -⟩ | ⟨hflip, m₁, hrun₁, hmarked⟩
  · rw [hrun] at hrun₁
    cases hrun₁
  · rw [hrun] at hrun₁
    cases hrun₁
    exact ⟨hflip, hmarked⟩

/-! ## One bit or nothing -/

/-- A sector of a copy of the descriptor table. -/
def IsDescriptorSector (c : Ext2Context) (s : UInt32) : Prop :=
  ∃ b ∈ c.superblockBlocks, ∃ g < c.numBlockgroups.toNat,
    s = UInt32.ofNat ((b.toNat + 1) * (c.blockSize / 512) + g / 16) + c.partStart

/-- From `m` to `m'` the bit that stands for `block` has become `allocated`, and no other bit of a
    block bitmap has changed; outside the bitmap of its group and the descriptor tables everything is
    as it was, and an allocation can be undone. -/
structure Flips (h : Host) (m : Machine) (block : UInt32) (allocated dir : Bool) (m' : Machine) :
    Prop where
  inside : IsBlock m.ctx block
  before : (blockPlace m.disk m.ctx block).get m.disk ≠ allocated
  after : (blockPlace m.disk m.ctx block).get m'.disk = allocated
  bits : ∀ g < m.ctx.numBlockgroups.toNat, ∀ k < 8 * m.ctx.blockSize,
    bitmapPlace m.ctx (descriptorAt m.disk m.ctx g).bgBlockBitmap k ≠ blockPlace m.disk m.ctx block →
    bitmapBit m'.disk m.ctx (descriptorAt m.disk m.ctx g).bgBlockBitmap k
      = bitmapBit m.disk m.ctx (descriptorAt m.disk m.ctx g).bgBlockBitmap k
  sectors : ∀ s, ¬ InBlock m.ctx
      (descriptorAt m.disk m.ctx (blockGroup m.ctx block)).bgBlockBitmap.toNat s →
    ¬ IsDescriptorSector m.ctx s → m'.disk s = m.disk s
  undone : allocated = true → ∃ m'', ext2ChangeAllocated block false dir h m' = .ok (0, m'') ∧
    m''.disk = m.disk ∧
    m''.ctx.superblock.sFreeBlocksCount = m.ctx.superblock.sFreeBlocksCount

/-- The bit already is as requested, or stands for no block; nothing has changed. -/
structure Refuses (m : Machine) (block : UInt32) (allocated : Bool) (m' : Machine) : Prop where
  reason : (blockPlace m.disk m.ctx block).get m.disk = allocated ∨ ¬ IsBlock m.ctx block
  disk : m'.disk = m.disk
  counters : m'.ctx.superblock = m.ctx.superblock

/-- `ext2_change_allocated` changes exactly the bit of `block`, or refuses. -/
def ChangesOneBit (h : Host) (m : Machine) (block : UInt32) (allocated dir : Bool) : Prop :=
  ∃ r m', ext2ChangeAllocated block allocated dir h m = .ok (r, m') ∧
    (r = 0 ∧ Flips h m block allocated dir m' ∨ r = -1 ∧ Refuses m block allocated m')

/-- The group exists, and the bit the code looks at is as requested along with the one that stands
    for the block; or both are one bit, in a bitmap at block 0. -/
def MarksTruly (m : Machine) (block : UInt32) (allocated : Bool) : Prop :=
  block.toNat / m.ctx.superblock.sBlocksPerGroup.toNat < m.ctx.numBlockgroups.toNat ∧
  ((codePlace m.disk m.ctx block).get m.disk = allocated ∧
      ((blockPlace m.disk m.ctx block).get m.disk = allocated ∨ ¬ IsBlock m.ctx block) ∨
    (codePlace m.disk m.ctx block).get m.disk ≠ allocated ∧ IsBlock m.ctx block ∧
      m.ctx.superblock.sLogBlockSize ≠ 0 ∧ (descriptorAt m.disk m.ctx
        (block.toNat / m.ctx.superblock.sBlocksPerGroup.toNat)).bgBlockBitmap = 0)

/-- Blocks larger than 1 KiB are counted from 0. -/
theorem Ext2Context.Geometry.first_zero (hgeo : c.Geometry) (hlog : c.superblock.sLogBlockSize ≠ 0) :
    c.superblock.sFirstDataBlock.toNat = 0 := by
  rw [hgeo.first, if_neg hlog]
  rfl

theorem places_eq_of_zero (hgeo : c.Geometry) (hlog : c.superblock.sLogBlockSize ≠ 0)
    (hbitmap : (descriptorAt v c
      (block.toNat / c.superblock.sBlocksPerGroup.toNat)).bgBlockBitmap = 0) :
    codePlace v c block = blockPlace v c block := by
  simp only [codePlace, blockPlace, bitmapPlace, blockSector, blockGroup, blockIndex,
    hgeo.first_zero hlog, Nat.sub_zero, hbitmap, UInt32.toNat_zero, Nat.zero_mul]

/-- A bitmap at block 0 ends before the descriptors. -/
theorem descriptorSector_ne_codePlace (hgeo : c.Geometry) (hlog : c.superblock.sLogBlockSize ≠ 0)
    {g : Nat} (hg : g < c.numBlockgroups.toNat) (hbitmap : (descriptorAt v c
      (block.toNat / c.superblock.sBlocksPerGroup.toNat)).bgBlockBitmap = 0) :
    descriptorSector c g ≠ (codePlace v c block).sector := by
  have hle := blockSize_le hgeo.block
  have hbs := blockSize_eq_mul c
  have hcap := hgeo.oneBlock
  have hN := c.numBlockgroups.toNat_lt
  have hoff : block.toNat % c.superblock.sBlocksPerGroup.toNat
      < c.superblock.sBlocksPerGroup.toNat := Nat.mod_lt _ (Nat.pos_of_ne_zero hgeo.perGroup)
  have hbehind : c.superblockBlock.toNat = 0 := by
    rw [hgeo.behind]
    exact hgeo.first_zero hlog
  intro heq
  have hcancel : UInt32.ofNat ((c.superblockBlock.toNat + 1) * (c.blockSize / 512) + g / 16)
      = UInt32.ofNat (block.toNat % c.superblock.sBlocksPerGroup.toNat / 8 / 512) := by
    have hsec : _ + c.partStart = UInt32.ofNat (_ + _) + c.partStart := heq
    rw [hbitmap, UInt32.toNat_zero, Nat.zero_add] at hsec
    grind
  have hnat := congrArg UInt32.toNat hcancel
  rw [hbehind, Nat.zero_add, Nat.one_mul, UInt32.toNat_ofNat', UInt32.toNat_ofNat'] at hnat
  omega

/-- What changes one bit or nothing has marked truly. -/
theorem ChangesOneBit.marksTruly (hh : h.Reliable) (hgeo : m.ctx.Geometry)
    (hone : ChangesOneBit h m block allocated dir) : MarksTruly m block allocated := by
  obtain ⟨r, m', hrun, hcases⟩ := hone
  have hg : block.toNat / m.ctx.superblock.sBlocksPerGroup.toNat < m.ctx.numBlockgroups.toNat := by
    by_contra hout
    rw [ext2ChangeAllocated_outside hgeo.perGroup (Nat.not_lt.1 hout)] at hrun
    cases hrun
  refine ⟨hg, ?_⟩
  rcases ext2ChangeAllocated_ok hh hgeo.block hgeo.perGroup hg allocated dir with
    ⟨hsame, m₁, hrun₁, -⟩ | ⟨hflip, m₁, hrun₁, hmarked⟩
  · rw [hrun] at hrun₁
    cases hrun₁
    rcases hcases with ⟨hr, -⟩ | ⟨-, href⟩
    · exact absurd hr (by decide)
    · exact .inl ⟨hsame, href.reason⟩
  · rw [hrun] at hrun₁
    cases hrun₁
    rcases hcases with ⟨-, hfl⟩ | ⟨hr, -⟩
    · -- the bit of the block has changed, so it is the one the code wrote
      have hplace : codePlace m.disk m.ctx block = blockPlace m.disk m.ctx block := by
        by_contra hne
        have hkeep := BitPlace.get_put_ne (x := allocated) (v := m.disk)
          (codePlace_valid m.disk m.ctx block) (blockPlace_valid m.disk m.ctx block) (Ne.symm hne)
        rw [← hmarked.disk, hfl.after] at hkeep
        exact hfl.before hkeep.symm
      obtain ⟨hlog, hzero⟩ := places_eq hgeo hfl.inside hplace
      exact .inr ⟨hflip, hfl.inside, hlog, hzero⟩
    · exact absurd hr (by decide)

/-- **One bit or nothing.** On a volume of the usual geometry a call of `ext2_change_allocated`
    changes exactly the bit of its block or nothing if and only if it marks truly: as it looks in the
    wrong place it may only do so when there is nothing to change. -/
theorem changesOneBit_iff (hh : h.Reliable) (hgeo : m.ctx.Geometry) (block : UInt32)
    (allocated dir : Bool) :
    ChangesOneBit h m block allocated dir ↔ MarksTruly m block allocated := by
  constructor
  · exact ChangesOneBit.marksTruly hh hgeo
  · rintro ⟨hg, htruly⟩
    rcases ext2ChangeAllocated_ok hh hgeo.block hgeo.perGroup hg allocated dir with
      ⟨hsame, m', hrun, s, l, rfl⟩ | ⟨hflip, m', hrun, hmarked⟩
    · rcases htruly with ⟨-, hreason⟩ | ⟨hne, -⟩
      · exact ⟨-1, _, hrun, .inr ⟨rfl, hreason, rfl, rfl⟩⟩
      · exact absurd hsame hne
    · rcases htruly with ⟨hsame, -⟩ | ⟨-, hin, hlog, hzero⟩
      · exact absurd hsame hflip
      have hplace := places_eq_of_zero hgeo hlog hzero
      have hvalid := codePlace_valid m.disk m.ctx block
      have hdisk := hmarked.disk
      refine ⟨0, m', hrun, .inl ⟨rfl, hin, ?_, ?_, fun g _ k _ hne => ?_, fun x hx _ => ?_, ?_⟩⟩
      · rw [← hplace]
        exact hflip
      · rw [hdisk, ← hplace]
        exact BitPlace.get_put_self hvalid
      · rw [← hplace] at hne
        rw [bitmapBit_eq, bitmapBit_eq, hdisk]
        exact BitPlace.get_put_ne hvalid (bitmapPlace_valid _ _ _) hne
      · rw [hdisk]
        refine BitPlace.put_other fun hsec => hx ?_
        rw [hsec, hplace]
        refine blockSector_inBlock _ ?_
        have hidx : blockIndex m.ctx block < m.ctx.superblock.sBlocksPerGroup.toNat :=
          Nat.mod_lt _ (Nat.pos_of_ne_zero hgeo.perGroup)
        have := hgeo.oneBlock
        omega
      · rintro rfl
        have hcode := hmarked.codePlace_eq (descriptorSector_ne_codePlace hgeo hlog hg hzero)
        have hgeo' := hmarked.geometry hgeo
        have hclear : (codePlace m.disk m.ctx block).get m.disk = false := by simpa using hflip
        rcases ext2ChangeAllocated_ok hh hgeo'.block hgeo'.perGroup
            (by rw [hmarked.perGroup, hmarked.groups]; exact hg) false dir with
          ⟨hsame, -⟩ | ⟨-, m'', hrun', hmarked'⟩
        · rw [hcode, hdisk, BitPlace.get_put_self hvalid] at hsame
          cases hsame
        · refine ⟨m'', hrun', ?_, ?_⟩
          · rw [hmarked'.disk, hcode, hdisk, BitPlace.put_put hvalid hclear]
          · rw [hmarked'.freeBlocks, hmarked.freeBlocks]
            simp [freeAfter]

namespace SmallVolume

set_option maxRecDepth 4000

theorem machine_geometry : machine.ctx.Geometry where
  block := machine_sane
  first := by decide
  behind := by decide
  perGroup := by decide
  wholeBytes := by decide
  oneBlock := by decide

/-- Allocating the free block 9 sets a bit of sector 3, which is no bitmap. -/
theorem changesOneBit_fails : ¬ ChangesOneBit host machine 9 true false := by
  intro hone
  obtain ⟨-, ⟨hcode, -⟩ | ⟨-, -, hlog, -⟩⟩ := hone.marksTruly host_reliable machine_geometry
  · exact absurd hcode (by decide)
  · exact absurd hlog (by decide)

/-- Deallocating it is refused. -/
theorem changesOneBit_refused : ChangesOneBit host machine 9 false false :=
  (changesOneBit_iff host_reliable machine_geometry 9 false false).2
    ⟨by decide, .inl ⟨by decide, .inl (by decide)⟩⟩

end SmallVolume

end Embext
