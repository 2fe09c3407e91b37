import Embext.Proofs.BlockMap
import Embext.Proofs.ChangeAllocated
import Embext.Proofs.Read

set_option autoImplicit false

/-! # Taking a block

`ext2_allocate_block` finds the first free bit of the group with the most free blocks, adds one to
its number whatever `s_first_data_block` is, and has `ext2_change_allocated` mark the result, which
does so in another place. So the bit of the block that is returned is never set. -/

namespace Embext

variable {h : Host} {m m' : Machine} {fe fe' : FileEnt} {c : Ext2Context} {v : UInt32 → Sector}
  {b : UInt32}

/-! ## The call -/

/-- The group `ext2_allocate_block` chooses, with its recorded free count. -/
def mostFreeBlocks (v : UInt32 → Sector) (c : Ext2Context) : UInt16 × UInt32 :=
  mostFree (fun g => (descriptorAt v c g).bgFreeBlocksCount) c.numBlockgroups.toNat 0 0 0

/-- A block has been handed out: number, mark and handle. -/
structure BlockAllocated (m : Machine) (fe : FileEnt) (b : UInt32) (m' : Machine) (fe' : FileEnt) :
    Prop where
  number : ∃ k < m.ctx.superblock.sBlocksPerGroup.toNat,
    b = UInt32.ofNat (m.ctx.superblock.sBlocksPerGroup.toNat
      * (mostFreeBlocks m.disk m.ctx).2.toNat + k + 1) ∧
    bitmapBit (view m fe) m.ctx (descriptorAt m.disk m.ctx
      (mostFreeBlocks m.disk m.ctx).2.toNat).bgBlockBitmap k = false
  group : b.toNat / m.ctx.superblock.sBlocksPerGroup.toNat < m.ctx.numBlockgroups.toNat
  clear : (codePlace (view m fe) m.ctx b).get (view m fe) = false
  disk : m'.disk = (codePlace (view m fe) m.ctx b).put true (view m fe)
  counted : m'.ctx.superblock.sFreeBlocksCount = m.ctx.superblock.sFreeBlocksCount - 1
  handle : fe' = { fe with buffer := fe'.buffer }
  clean : fe'.buffer.dirty = false

/-- Without a free block in the records the call returns 0 and writes nothing. -/
theorem ext2AllocateBlock_full (fe : FileEnt) (hh : h.Reliable) (hs : m.ctx.SaneBlockSize)
    (hfull : (mostFreeBlocks m.disk m.ctx).1 = 0) (previous : UInt32) : ∃ m',
    ext2AllocateBlock fe previous h m = .ok ((0, { fe with rerrno := .enospc }), m') ∧
      m.Browsed m' := by
  obtain ⟨m', hrun, hb⟩ := mostFreeGroup_ok hh (·.bgFreeBlocksCount) m.ctx.numBlockgroups.toNat 0 0 0
    hs (by omega)
  refine ⟨m', ?_, hb⟩
  unfold ext2AllocateBlock
  rw [Prog.bind_ok getCtx_apply]
  refine (Prog.bind_ok hrun).trans ?_
  exact (Prog.ite_apply _ _ _ _ _).trans (if_pos hfull)

/-- A block is only found in groups of some size. -/
theorem perGroup_of_ext2AllocateBlock {previous : UInt32}
    (hrun : ext2AllocateBlock fe previous h m = .ok ((b, fe'), m')) (hb : b ≠ 0) :
    m.ctx.superblock.sBlocksPerGroup.toNat ≠ 0 := by
  intro hper
  unfold ext2AllocateBlock at hrun
  rw [Prog.bind_ok getCtx_apply] at hrun
  obtain ⟨⟨most, group⟩, m₁, -, hrun⟩ := Prog.of_bind_ok hrun
  dsimp only at hrun
  by_cases hmost : most = 0
  · rw [if_pos hmost] at hrun
    cases hrun
    exact hb rfl
  · rw [if_neg hmost] at hrun
    obtain ⟨bg, m₂, -, hrun⟩ := Prog.of_bind_ok hrun
    -- no byte of the bitmap is looked at
    rw [hper] at hrun
    cases hrun
    exact hb rfl

/-- The bitmap the call scans. -/
def takenBitmap (m : Machine) : UInt32 :=
  (descriptorAt m.disk m.ctx (mostFreeBlocks m.disk m.ctx).2.toNat).bgBlockBitmap

/-- The block that bit `k` of that bitmap is taken to stand for. -/
def takenBlock (m : Machine) (k : Nat) : UInt32 :=
  UInt32.ofNat (m.ctx.superblock.sBlocksPerGroup.toNat * (mostFreeBlocks m.disk m.ctx).2.toNat + k + 1)

/-- How the call goes on from what the scan of the bitmap has found. -/
def takeFound (m : Machine) (found : Option (Nat × UInt8 × Nat)) (fe : FileEnt) :
    Drv (UInt32 × FileEnt) :=
  match found with
  | none => pure (0, fe)
  | some (i, _, j) => do
    let r ← ext2ChangeAllocated (takenBlock m (8 * i + j)) true (fe.inode.iMode &&& ext2SIfdir ≠ 0)
    if r ≠ 0 then pure (0, fe) else pure (takenBlock m (8 * i + j), fe)

/-- With a free block in the records the call scans the bitmap of the group it chooses. -/
theorem ext2AllocateBlock_scan (fe : FileEnt) (hh : h.Reliable) (hs : m.ctx.SaneBlockSize)
    (hne : (mostFreeBlocks m.disk m.ctx).1 ≠ 0) (previous : UInt32) : ∃ found s l m₂ fe₂,
      Loads { m with log := l, ctx := { m.ctx with sysbuf := s } } fe m₂ fe₂ ∧
      ScanFinds (view m fe) { m.ctx with sysbuf := s } (takenBitmap m) 0
        (m.ctx.superblock.sBlocksPerGroup.toNat / 8) fe₂.buffer found ∧
      ext2AllocateBlock fe previous h m = takeFound m found fe₂ h m₂ := by
  have hN := m.ctx.numBlockgroups.toNat_lt
  obtain ⟨hlt, -⟩ := mostFree_lt _ hN hne
  obtain ⟨m₀, hmost, hb₀⟩ := mostFreeGroup_ok hh (·.bgFreeBlocksCount)
    m.ctx.numBlockgroups.toNat 0 0 0 hs (by omega)
  obtain ⟨m₁, hbg, hb₁⟩ := ext2BgDescriptor_browsed hh (hb₀.sane hs)
    (g := (mostFreeBlocks m.disk m.ctx).2) (by rw [hb₀.groups]; unfold mostFreeBlocks; omega)
  rw [hb₀.descriptorAt] at hbg
  obtain ⟨s, l, rfl⟩ := hb₀.trans hb₁
  obtain ⟨found, m₂, fe₂, hscan, hl, hfinds⟩ := scanBitmap_ok hh (takenBitmap m)
    (m.ctx.superblock.sBlocksPerGroup.toNat / 8) fe 0 (hb₁.sane (hb₀.sane hs))
    (by have := m.ctx.superblock.sBlocksPerGroup.toNat_lt; omega)
  refine ⟨found, s, l, m₂, fe₂, hl, hfinds, ?_⟩
  unfold ext2AllocateBlock
  rw [Prog.bind_ok getCtx_apply]
  refine (Prog.bind_ok hmost).trans ?_
  refine ((Prog.ite_apply _ _ _ _ _).trans (if_neg hne)).trans ?_
  refine (Prog.bind_ok hbg).trans ?_
  refine (Prog.bind_ok hscan).trans ?_
  cases found with
  | none => rfl
  | some x =>
    obtain ⟨i, byte, j⟩ := x
    have hblock : takenBlock m (8 * i + j) = UInt32.ofNat (m.ctx.superblock.sBlocksPerGroup.toNat
        * (mostFreeBlocks m.disk m.ctx).2.toNat + i * 8 + j + 1) := by
      unfold takenBlock
      rw [← Nat.add_assoc, Nat.mul_comm 8 i]
    dsimp only [takeFound]
    rw [hblock]
    rfl

/-- A call that returns a block has marked something for it. -/
theorem of_ext2AllocateBlock_ok (hh : h.Reliable) (hs : m.ctx.SaneBlockSize)
    (hper : m.ctx.superblock.sBlocksPerGroup.toNat ≠ 0) {previous : UInt32}
    (hrun : ext2AllocateBlock fe previous h m = .ok ((b, fe'), m')) (hb : b ≠ 0) :
    (mostFreeBlocks m.disk m.ctx).1 ≠ 0 ∧ BlockAllocated m fe b m' fe' := by
  have hne : (mostFreeBlocks m.disk m.ctx).1 ≠ 0 := by
    intro hfull
    obtain ⟨m₁, hrun₁, -⟩ := ext2AllocateBlock_full fe hh hs hfull previous
    rw [hrun] at hrun₁
    cases hrun₁
    exact hb rfl
  refine ⟨hne, ?_⟩
  obtain ⟨found, s, l, m₂, fe₂, hl, hfinds, hscan⟩ := ext2AllocateBlock_scan fe hh hs hne previous
  have hview : view m₂ fe₂ = view m fe := hl.view_eq
  have hctx₂ : m₂.ctx = { m.ctx with sysbuf := s } := hl.ctx_eq
  rw [hscan] at hrun
  cases hfinds with
  | none full =>
    cases hrun
    exact absurd rfl hb
  | @some p j lo hi bit clear first buffer =>
    obtain ⟨r, m₃, hchange, hrun⟩ := Prog.of_bind_ok hrun
    by_cases hr : r = 0
    swap
    · rw [if_pos hr] at hrun
      cases hrun
      exact absurd rfl hb
    rw [if_neg (not_not.2 hr)] at hrun
    cases hrun
    subst hr
    have hclean : fe'.buffer.dirty = false := by rw [buffer]
    have hdisk : m₂.disk = view m fe := by
      rw [← hview, view, hclean]
      rfl
    have hper₂ : m₂.ctx.superblock.sBlocksPerGroup = m.ctx.superblock.sBlocksPerGroup := by
      rw [hctx₂]
    have hgroups₂ : m₂.ctx.numBlockgroups = m.ctx.numBlockgroups := by rw [hctx₂]
    generalize hblock : takenBlock m (8 * p + j) = block at hchange hb
    have hcode : codePlace m₂.disk m₂.ctx block = codePlace (view m fe) m.ctx block := by
      rw [hctx₂, hdisk]
      rfl
    have hgroup : block.toNat / m₂.ctx.superblock.sBlocksPerGroup.toNat
        < m₂.ctx.numBlockgroups.toNat := by
      by_contra hout
      rw [ext2ChangeAllocated_outside (by rw [hper₂]; exact hper) (Nat.not_lt.1 hout)] at hchange
      cases hchange
    obtain ⟨hflip, hmarked⟩ := of_ext2ChangeAllocated_ok hh (by rw [hctx₂]; exact hs)
      (by rw [hper₂]; exact hper) hgroup hchange
    rw [hcode, hdisk] at hflip
    refine ⟨⟨8 * p + j, by omega, hblock.symm, clear⟩, ?_, by simpa using hflip, ?_, ?_, ?_, hclean⟩
    · rw [← hper₂, ← hgroups₂]
      exact hgroup
    · rw [hmarked.disk, hcode, hdisk]
    · rw [hmarked.freeBlocks, hctx₂]
      rfl
    · exact hl.handle

/-- Block `b` is the one the call asks to have marked: it stands behind the first clear bit. -/
def Takes (m : Machine) (fe : FileEnt) (b : UInt32) : Prop :=
  (mostFreeBlocks m.disk m.ctx).1 ≠ 0 ∧ ∃ k < 8 * (m.ctx.superblock.sBlocksPerGroup.toNat / 8),
    b = takenBlock m k ∧ bitmapBit (view m fe) m.ctx (takenBitmap m) k = false ∧
    ∀ j < k, bitmapBit (view m fe) m.ctx (takenBitmap m) j = true

/-- If that block lies in a known group the call returns, and what it returns is that block or 0. -/
theorem ext2AllocateBlock_takes (fe : FileEnt) (hh : h.Reliable) (hs : m.ctx.SaneBlockSize)
    (hgroup : ∀ b, Takes m fe b →
      b.toNat / m.ctx.superblock.sBlocksPerGroup.toNat < m.ctx.numBlockgroups.toNat)
    (previous : UInt32) : ∃ b fe' m', ext2AllocateBlock fe previous h m = .ok ((b, fe'), m') ∧
      (b ≠ 0 → Takes m fe b) := by
  by_cases hne : (mostFreeBlocks m.disk m.ctx).1 = 0
  · obtain ⟨m', hrun, -⟩ := ext2AllocateBlock_full fe hh hs hne previous
    exact ⟨0, _, m', hrun, fun h0 => absurd rfl h0⟩
  obtain ⟨found, s, l, m₂, fe₂, hl, hfinds, hscan⟩ := ext2AllocateBlock_scan fe hh hs hne previous
  have hctx₂ : m₂.ctx = { m.ctx with sysbuf := s } := hl.ctx_eq
  rw [hscan]
  cases hfinds with
  | none full => exact ⟨0, fe₂, m₂, rfl, fun h0 => absurd rfl h0⟩
  | @some p j lo hi bit clear first buffer =>
    have htakes : Takes m fe (takenBlock m (8 * p + j)) :=
      ⟨hne, _, by omega, rfl, clear, fun k hk => first k (Nat.zero_le _) hk⟩
    have hper : m.ctx.superblock.sBlocksPerGroup.toNat ≠ 0 := by omega
    rcases ext2ChangeAllocated_ok hh (by rw [hctx₂]; exact hs) (by rw [hctx₂]; exact hper)
        (by rw [hctx₂]; exact hgroup _ htakes) true (fe₂.inode.iMode &&& ext2SIfdir ≠ 0) with
      ⟨-, m₃, hchange, -⟩ | ⟨-, m₃, hchange, -⟩
    · refine ⟨0, fe₂, m₃, ?_, fun h0 => absurd rfl h0⟩
      exact (Prog.bind_ok hchange).trans ((Prog.ite_apply _ _ _ _ _).trans (if_pos (by decide)))
    · refine ⟨_, fe₂, m₃, ?_, fun _ => htakes⟩
      exact (Prog.bind_ok hchange).trans ((Prog.ite_apply _ _ _ _ _).trans (if_neg (by decide)))

/-! ## Sound and complete -/

/-- The real blocks of a group. -/
def groupBlocks (c : Ext2Context) (g : Nat) : Nat :=
  min c.superblock.sBlocksPerGroup.toNat (c.superblock.sBlocksCount.toNat
    - c.superblock.sFirstDataBlock.toNat - g * c.superblock.sBlocksPerGroup.toNat)

/-- Some group has a clear bit for a real block. -/
def HasFreeBlock (v : UInt32 → Sector) (c : Ext2Context) : Prop :=
  ∃ g < c.numBlockgroups.toNat, ∃ k < groupBlocks c g,
    bitmapBit v c (descriptorAt v c g).bgBlockBitmap k = false

/-- Bitmaps and descriptors agree, and the bitmaps lie behind the superblock. -/
structure ConsistentBlocks (v : UInt32 → Sector) (c : Ext2Context) : Prop where
  geometry : c.Geometry
  counts : ∀ g < c.numBlockgroups.toNat, (descriptorAt v c g).bgFreeBlocksCount.toNat
    = (List.range (groupBlocks c g)).countP fun k =>
        !bitmapBit v c (descriptorAt v c g).bgBlockBitmap k
  behind : ∀ g < c.numBlockgroups.toNat,
    c.superblock.sFirstDataBlock.toNat < (descriptorAt v c g).bgBlockBitmap.toNat

/-- What waits in the handle's buffer is no descriptor and no part of a block bitmap. -/
structure BufferApart (m : Machine) (fe : FileEnt) : Prop where
  descriptors : ∀ g < m.ctx.numBlockgroups.toNat,
    view m fe (descriptorSector m.ctx g) = m.disk (descriptorSector m.ctx g)
  bitmaps : ∀ g < m.ctx.numBlockgroups.toNat, ∀ off < m.ctx.blockSize,
    view m fe (blockSector m.ctx (descriptorAt m.disk m.ctx g).bgBlockBitmap off)
      = m.disk (blockSector m.ctx (descriptorAt m.disk m.ctx g).bgBlockBitmap off)

theorem BufferApart.of_clean (hclean : fe.buffer.dirty = false) : BufferApart m fe := by
  have hview : view m fe = m.disk := by simp [view, hclean]
  exact ⟨fun _ _ => by rw [hview], fun _ _ _ _ => by rw [hview]⟩

/-- The call returns a block exactly when there is a free one, a block of the file system whose own
    bit was clear and is the only one to be set. -/
def SoundAndComplete (h : Host) (m : Machine) (fe : FileEnt) (previous : UInt32) : Prop :=
  ∃ b fe' m', ext2AllocateBlock fe previous h m = .ok ((b, fe'), m') ∧
    (b ≠ 0 ↔ HasFreeBlock m.disk m.ctx) ∧
    (b ≠ 0 → IsBlock m.ctx b ∧ (blockPlace m.disk m.ctx b).get m.disk = false ∧
      (blockPlace m.disk m.ctx b).get m'.disk = true ∧
      ∀ g < m.ctx.numBlockgroups.toNat, ∀ k < 8 * m.ctx.blockSize,
        bitmapPlace m.ctx (descriptorAt m.disk m.ctx g).bgBlockBitmap k ≠ blockPlace m.disk m.ctx b →
        bitmapBit m'.disk m.ctx (descriptorAt m.disk m.ctx g).bgBlockBitmap k
          = bitmapBit m.disk m.ctx (descriptorAt m.disk m.ctx g).bgBlockBitmap k)

/-- The records tell whether there is a free block. -/
theorem ConsistentBlocks.hasFreeBlock_iff (hcons : ConsistentBlocks v c) :
    HasFreeBlock v c ↔ (mostFreeBlocks v c).1 ≠ 0 := by
  have hN := c.numBlockgroups.toNat_lt
  have hgroup : ∀ g < c.numBlockgroups.toNat, (descriptorAt v c g).bgFreeBlocksCount ≠ 0 ↔
      ∃ k < groupBlocks c g, bitmapBit v c (descriptorAt v c g).bgBlockBitmap k = false := by
    intro g hg
    have hcount := hcons.counts g hg
    have hpos := List.countP_pos_iff (p := fun k =>
      !bitmapBit v c (descriptorAt v c g).bgBlockBitmap k) (l := List.range (groupBlocks c g))
    rw [← hcount] at hpos
    rw [← UInt16.toNat_inj.ne, UInt16.toNat_zero, ← Nat.pos_iff_ne_zero, hpos]
    simp
  rw [Ne, mostFreeBlocks, mostFree_zero_iff _ hN]
  simp only [not_forall]
  constructor
  · rintro ⟨g, hg, hk⟩
    exact ⟨g, hg, (hgroup g hg).2 hk⟩
  · rintro ⟨g, hg, hne⟩
    exact ⟨g, hg, (hgroup g hg).1 hne⟩

/-- A block that has been handed out keeps its bit. -/
theorem BlockAllocated.bit_kept (ha : BlockAllocated m fe b m' fe')
    (hcons : ConsistentBlocks m.disk m.ctx) (hapart : BufferApart m fe) (hblock : IsBlock m.ctx b) :
    (blockPlace m.disk m.ctx b).get m'.disk = (blockPlace m.disk m.ctx b).get m.disk := by
  have hgeo := hcons.geometry
  have hgroup : blockGroup m.ctx b < m.ctx.numBlockgroups.toNat :=
    lt_of_le_of_lt (Nat.div_le_div_right (Nat.sub_le _ _)) ha.group
  have hindex : blockIndex m.ctx b < m.ctx.superblock.sBlocksPerGroup.toNat :=
    Nat.mod_lt _ (Nat.pos_of_ne_zero hgeo.perGroup)
  have hcap := hgeo.oneBlock
  have hcode : codePlace (view m fe) m.ctx b = codePlace m.disk m.ctx b := by
    unfold codePlace
    rw [descriptorAt_congr (hapart.descriptors _ ha.group)]
  have hne : blockPlace m.disk m.ctx b ≠ codePlace m.disk m.ctx b := by
    intro heq
    have hzero := (places_eq hgeo hblock heq.symm).2
    have hbehind := hcons.behind _ ha.group
    rw [hzero] at hbehind
    exact Nat.not_lt_zero _ hbehind
  rw [ha.disk, hcode, BitPlace.get_put_ne (codePlace_valid _ _ _) (blockPlace_valid _ _ _) hne]
  exact BitPlace.get_congr (hapart.bitmaps _ hgroup _ (by omega))

/-- So a sound call has found nothing. -/
theorem SoundAndComplete.full (hh : h.Reliable) (hcons : ConsistentBlocks m.disk m.ctx)
    (hapart : BufferApart m fe) {previous : UInt32} (hsound : SoundAndComplete h m fe previous) :
    ¬ HasFreeBlock m.disk m.ctx := by
  obtain ⟨b, fe', m', hrun, hiff, hgood⟩ := hsound
  intro hfree
  have hb := hiff.2 hfree
  obtain ⟨hblock, hclear, hset, -⟩ := hgood hb
  obtain ⟨-, ha⟩ := of_ext2AllocateBlock_ok hh hcons.geometry.block hcons.geometry.perGroup hrun hb
  rw [ha.bit_kept hcons hapart hblock, hclear] at hset
  cases hset

/-- **Soundness and completeness.** On a consistent volume `ext2_allocate_block` meets its contract
    if and only if there is no free block to give. -/
theorem soundAndComplete_iff (hh : h.Reliable) (hcons : ConsistentBlocks m.disk m.ctx)
    (hapart : BufferApart m fe) (previous : UInt32) :
    SoundAndComplete h m fe previous ↔ ¬ HasFreeBlock m.disk m.ctx := by
  constructor
  · exact SoundAndComplete.full hh hcons hapart
  · intro hfull
    have hnone : (mostFreeBlocks m.disk m.ctx).1 = 0 := by
      by_contra hne
      exact hfull (hcons.hasFreeBlock_iff.2 hne)
    obtain ⟨m', hrun, -⟩ := ext2AllocateBlock_full fe hh hcons.geometry.block hnone previous
    exact ⟨0, _, m', hrun, ⟨fun h0 => absurd rfl h0, fun hfree => absurd hfree hfull⟩,
      fun h0 => absurd rfl h0⟩

namespace SmallVolume

set_option maxRecDepth 4000

theorem machine_consistentBlocks : ConsistentBlocks machine.disk machine.ctx where
  geometry := machine_geometry
  counts g hg := by
    have hgroups : machine.ctx.numBlockgroups.toNat = 1 := by decide
    obtain rfl : g = 0 := by omega
    decide
  behind g hg := by
    have hgroups : machine.ctx.numBlockgroups.toNat = 1 := by decide
    obtain rfl : g = 0 := by omega
    decide

/-- Blocks 9 to 63 are free, and the block that is handed out stays so. -/
theorem soundAndComplete_fails : ConsistentBlocks machine.disk machine.ctx ∧
    ¬ SoundAndComplete host machine FileEnt.fresh 0 := by
  refine ⟨machine_consistentBlocks, fun hsound => ?_⟩
  refine hsound.full host_reliable machine_consistentBlocks (.of_clean rfl) ⟨0, ?_, 8, ?_, ?_⟩
  all_goals decide

/-- The small volume with all its blocks taken. -/
def fullMachine : Machine :=
  let full : BlockGroupDescriptor := { descriptor with bgFreeBlocksCount := 0 }
  let table := sectorOf [(0, BlockGroupDescriptor.packed.bytes full)]
  { machine with disk := Function.update (Function.update disk 6 fun _ => 0xFF) 4 table }

theorem fullMachine_consistentBlocks : ConsistentBlocks fullMachine.disk fullMachine.ctx where
  geometry := machine_geometry
  counts g hg := by
    have hgroups : fullMachine.ctx.numBlockgroups.toNat = 1 := by decide
    obtain rfl : g = 0 := by omega
    decide
  behind g hg := by
    have hgroups : fullMachine.ctx.numBlockgroups.toNat = 1 := by decide
    obtain rfl : g = 0 := by omega
    decide

/-- With every block taken the call returns 0. -/
theorem soundAndComplete_fullMachine : SoundAndComplete host fullMachine FileEnt.fresh 0 := by
  refine (soundAndComplete_iff host_reliable fullMachine_consistentBlocks (.of_clean rfl) 0).2 ?_
  rintro ⟨g, hg, k, hk, hclear⟩
  have hgroups : fullMachine.ctx.numBlockgroups.toNat = 1 := by decide
  obtain rfl : g = 0 := by omega
  have hbits : ∀ k < groupBlocks fullMachine.ctx 0, bitmapBit fullMachine.disk fullMachine.ctx
      (descriptorAt fullMachine.disk fullMachine.ctx 0).bgBlockBitmap k = true := by
    decide
  rw [hbits k hk] at hclear
  cases hclear

end SmallVolume

end Embext
