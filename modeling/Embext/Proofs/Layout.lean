import Embext.Proofs.BlockMap
import Embext.Proofs.Inode
import Mathlib.Algebra.Order.Group.Nat

set_option autoImplicit false

/-! # The layout of a volume

Every block of metadata plays one role: a copy of the superblock or of the descriptor table, a
bitmap, a block of an inode table. On a volume that is laid out no two roles share a block, and
every block has sectors of its own; so a write to a sector of one role leaves the others alone, and
two inodes never share a slot. -/

namespace Embext

/-! ## Sectors of a block -/

/-- Sector `x` belongs to block `b`. -/
def InBlock (c : Ext2Context) (b : Nat) (x : UInt32) : Prop :=
  ∃ i < c.blockSize / 512, x = UInt32.ofNat (b * (c.blockSize / 512) + i) + c.partStart

variable {c c' : Ext2Context} {v v' : UInt32 → Sector}

theorem blockSector_inBlock (b : UInt32) {off : Nat} (hoff : off < c.blockSize) :
    InBlock c b.toNat (blockSector c b off) := by
  have hbs := blockSize_eq_mul c
  exact ⟨off / 512, Nat.div_lt_of_lt_mul (hbs ▸ hoff), rfl⟩

/-- The number of a sector of a block whose sectors do not wrap around. -/
theorem sector_toNat {b i : Nat}
    (hfit : c.partStart.toNat + (b + 1) * (c.blockSize / 512) ≤ 2 ^ 32)
    (hi : i < c.blockSize / 512) :
    (UInt32.ofNat (b * (c.blockSize / 512) + i) + c.partStart).toNat
      = b * (c.blockSize / 512) + i + c.partStart.toNat := by
  rw [Nat.add_mul, Nat.one_mul] at hfit
  rw [UInt32.toNat_add, UInt32.toNat_ofNat']
  omega

/-- Block and position of a sector. -/
theorem sector_inj {b b' i i' : Nat}
    (hfit : c.partStart.toNat + (b + 1) * (c.blockSize / 512) ≤ 2 ^ 32)
    (hfit' : c.partStart.toNat + (b' + 1) * (c.blockSize / 512) ≤ 2 ^ 32)
    (hi : i < c.blockSize / 512) (hi' : i' < c.blockSize / 512)
    (heq : UInt32.ofNat (b * (c.blockSize / 512) + i) + c.partStart
      = UInt32.ofNat (b' * (c.blockSize / 512) + i') + c.partStart) : b = b' ∧ i = i' := by
  have hnat := congrArg UInt32.toNat heq
  rw [sector_toNat hfit hi, sector_toNat hfit' hi'] at hnat
  have hsum : b * (c.blockSize / 512) + i = b' * (c.blockSize / 512) + i' := by omega
  have hpos : 0 < c.blockSize / 512 := by omega
  have hdiv : ∀ a j : Nat, j < c.blockSize / 512 →
      (a * (c.blockSize / 512) + j) / (c.blockSize / 512) = a := by
    intro a j hj
    rw [Nat.mul_comm, Nat.mul_add_div hpos, Nat.div_eq_of_lt hj, Nat.add_zero]
  have hbb : b = b' := by
    rw [← hdiv b i hi, hsum, hdiv b' i' hi']
  subst hbb
  exact ⟨rfl, by omega⟩

/-- The sectors of a volume's blocks do not wrap around. -/
def Ext2Context.Fits (c : Ext2Context) : Prop :=
  c.partStart.toNat + c.superblock.sBlocksCount.toNat * (c.blockSize / 512) ≤ 2 ^ 32

theorem Ext2Context.Fits.block (hf : c.Fits) {b : Nat} (hb : b < c.superblock.sBlocksCount.toNat) :
    c.partStart.toNat + (b + 1) * (c.blockSize / 512) ≤ 2 ^ 32 :=
  le_trans (Nat.add_le_add_left (Nat.mul_le_mul_right _ hb) _) hf

/-- A sector belongs to one block. -/
theorem InBlock.unique {b b' : Nat} {x : UInt32} (hx : InBlock c b x) (hx' : InBlock c b' x)
    (hf : c.Fits) (hb : b < c.superblock.sBlocksCount.toNat)
    (hb' : b' < c.superblock.sBlocksCount.toNat) : b = b' := by
  obtain ⟨i, hi, rfl⟩ := hx
  obtain ⟨i', hi', heq⟩ := hx'
  exact (sector_inj (hf.block hb) (hf.block hb') hi hi' heq).1

/-! ## Roles -/

/-- What a block of metadata is for. -/
inductive MetaRole where
  | superblock (s : UInt32)
  | descriptors (s : UInt32) (j : Nat)
  | blockBitmap (g : Nat)
  | inodeBitmap (g : Nat)
  | inodeTable (g j : Nat)
  deriving DecidableEq

/-- The blocks of a descriptor table. -/
def descriptorBlocks (c : Ext2Context) : Nat :=
  (c.numBlockgroups.toNat * 32 + c.blockSize - 1) / c.blockSize

/-- The blocks of a group's inode table. -/
def inodeTableBlocks (c : Ext2Context) : Nat :=
  (c.superblock.sInodesPerGroup.toNat * c.superblock.sInodeSize.toNat + c.blockSize - 1)
    / c.blockSize

/-- The roles the volume has. -/
def MetaRole.Valid (c : Ext2Context) : MetaRole → Prop
  | superblock s => s ∈ c.superblockBlocks
  | descriptors s j => s ∈ c.superblockBlocks ∧ j < descriptorBlocks c
  | blockBitmap g | inodeBitmap g => g < c.numBlockgroups.toNat
  | inodeTable g j => g < c.numBlockgroups.toNat ∧ j < inodeTableBlocks c

/-- The block with a role. -/
def MetaRole.block (v : UInt32 → Sector) (c : Ext2Context) : MetaRole → Nat
  | superblock s => s.toNat
  | descriptors s j => s.toNat + 1 + j
  | blockBitmap g => (descriptorAt v c g).bgBlockBitmap.toNat
  | inodeBitmap g => (descriptorAt v c g).bgInodeBitmap.toNat
  | inodeTable g j => (descriptorAt v c g).bgInodeTable.toNat + j

/-- A volume on which every metadata block has one role: the driver's group count is the volume's,
    a bitmap fits a block, and the sectors do not wrap around. -/
structure LaidOut (v : UInt32 → Sector) (c : Ext2Context) : Prop where
  sane : c.Sane
  fits : c.Fits
  primary : c.superblockBlock ∈ c.superblockBlocks
  groups : c.numBlockgroups.toNat = (c.superblock.sBlocksCount.toNat
    - c.superblock.sFirstDataBlock.toNat + c.superblock.sBlocksPerGroup.toNat - 1)
      / c.superblock.sBlocksPerGroup.toNat
  blockBits : c.superblock.sBlocksPerGroup.toNat ≤ 8 * c.blockSize
  inodeBits : c.superblock.sInodesPerGroup.toNat ≤ 8 * c.blockSize
  inside : ∀ r : MetaRole, r.Valid c → r.block v c < c.superblock.sBlocksCount.toNat
  apart : ∀ r r' : MetaRole, r.Valid c → r'.Valid c → r.block v c = r'.block v c → r = r'

/-- Sector `x` belongs to the block with role `r`. -/
def MetaRole.Sectors (v : UInt32 → Sector) (c : Ext2Context) (r : MetaRole) (x : UInt32) : Prop :=
  InBlock c (r.block v c) x

/-- A sector of metadata has one role. -/
theorem LaidOut.role_unique (hl : LaidOut v c) {r r' : MetaRole} {x : UInt32} (hr : r.Valid c)
    (hr' : r'.Valid c) (hx : r.Sectors v c x) (hx' : r'.Sectors v c x) : r = r' :=
  hl.apart r r' hr hr' (hx.unique hx' hl.fits (hl.inside r hr) (hl.inside r' hr'))

/-! ## The sectors the driver computes -/

theorem descriptorBlock_lt {g : Nat} (hg : g < c.numBlockgroups.toNat) :
    g * 32 / c.blockSize < descriptorBlocks c := by
  have hbs := blockSize_ge c
  unfold descriptorBlocks
  have hle := Nat.div_mul_le_self (g * 32) c.blockSize
  rw [Nat.lt_iff_add_one_le, Nat.le_div_iff_mul_le (by omega), Nat.add_mul]
  omega

/-- The descriptor of group `g` in the table behind the superblock. -/
theorem descriptorSector_inBlock (c : Ext2Context) (g : Nat) :
    InBlock c (c.superblockBlock.toNat + 1 + g * 32 / c.blockSize) (descriptorSector c g) := by
  have hbs := blockSize_eq_mul c
  have hge := blockSize_ge c
  generalize hS : c.blockSize / 512 = S at hbs
  have hpos : 0 < S := by omega
  refine ⟨g / 16 % S, by rw [hS]; exact Nat.mod_lt _ hpos, ?_⟩
  have hq : g * 32 / c.blockSize = g / 16 / S := by
    rw [hbs, ← Nat.div_div_eq_div_mul]
    congr 1
    omega
  have hsum : (c.superblockBlock.toNat + 1 + g / 16 / S) * S + g / 16 % S
      = (c.superblockBlock.toNat + 1) * S + g / 16 := by
    rw [Nat.add_mul, Nat.add_assoc, Nat.div_add_mod']
  unfold descriptorSector
  rw [hq, hS, hsum]

/-- Slots fill a block. -/
theorem Ext2Context.Slotted.perBlock (hs : c.Slotted) : c.blockSize / c.superblock.sInodeSize.toNat
    = 512 / c.superblock.sInodeSize.toNat * (c.blockSize / 512) ∧
      c.blockSize / c.superblock.sInodeSize.toNat * c.superblock.sInodeSize.toNat = c.blockSize := by
  obtain ⟨hmul, hpos, hge⟩ := hs.size_mul
  have hbs := blockSize_eq_mul c
  generalize c.superblock.sInodeSize.toNat = z at *
  generalize 512 / z = p at *
  generalize c.blockSize / 512 = S at *
  have hN : c.blockSize / z = p * S := by
    rw [hbs, ← hmul, Nat.mul_right_comm, Nat.mul_div_cancel _ (by omega)]
  refine ⟨hN, ?_⟩
  rw [hN, hbs, Nat.mul_right_comm, hmul]

/-- The slot of an inode lies in its group's table. -/
theorem slotBlock_lt (hs : c.Slotted) (ino : UInt32) :
    inodeIndex c ino / (c.blockSize / c.superblock.sInodeSize.toNat) < inodeTableBlocks c := by
  obtain ⟨-, hmul⟩ := hs.perBlock
  have hbs := blockSize_ge c
  have hidx : inodeIndex c ino < c.superblock.sInodesPerGroup.toNat :=
    Nat.mod_lt _ (Nat.pos_of_ne_zero hs.perGroup_toNat)
  obtain ⟨-, -, hge⟩ := hs.size_mul
  unfold inodeTableBlocks
  generalize inodeIndex c ino = i at *
  generalize c.superblock.sInodesPerGroup.toNat = n at *
  generalize c.superblock.sInodeSize.toNat = z at *
  generalize hN : c.blockSize / z = N at *
  have hle : i / N * c.blockSize ≤ i * z := by
    rw [← hmul, ← Nat.mul_assoc]
    exact Nat.mul_le_mul_right _ (Nat.div_mul_le_self i N)
  have hnext : i * z + z ≤ n * z := by
    calc i * z + z = (i + 1) * z := by rw [Nat.add_mul, Nat.one_mul]
      _ ≤ n * z := Nat.mul_le_mul_right _ hidx
  rw [Nat.lt_iff_add_one_le, Nat.le_div_iff_mul_le (by omega), Nat.add_mul]
  omega

/-- The block with the slot of an inode. -/
def slotBlock (v : UInt32 → Sector) (c : Ext2Context) (ino : UInt32) : Nat :=
  (descriptorAt v c (inodeGroup c ino)).bgInodeTable.toNat
    + inodeIndex c ino / (c.blockSize / c.superblock.sInodeSize.toNat)

/-- The slot's sector by its block. -/
theorem slotSector_eq (hs : c.Slotted) (v : UInt32 → Sector) (ino : UInt32) :
    slotSector v c ino = UInt32.ofNat (slotBlock v c ino * (c.blockSize / 512)
      + inodeIndex c ino / (512 / c.superblock.sInodeSize.toNat) % (c.blockSize / 512))
      + c.partStart := by
  obtain ⟨hN, -⟩ := hs.perBlock
  unfold slotSector slotBlock
  rw [hN, ← Nat.div_div_eq_div_mul, Nat.add_mul, Nat.add_assoc, Nat.div_add_mod']

theorem slotSector_inBlock (hs : c.Slotted) (v : UInt32 → Sector) (ino : UInt32) :
    InBlock c (slotBlock v c ino) (slotSector v c ino) := by
  have hge := blockSize_ge c
  exact ⟨_, Nat.mod_lt _ (by omega), slotSector_eq hs v ino⟩

/-! ## Inode tables -/

/-- The inode tables overlap neither each other nor the descriptor table, and the sectors of both do
    not wrap around. -/
structure InodeTables (v : UInt32 → Sector) (c : Ext2Context) : Prop where
  slotted : c.Slotted
  fitsDescriptors : ∀ j < descriptorBlocks c,
    c.partStart.toNat + (c.superblockBlock.toNat + 1 + j + 1) * (c.blockSize / 512) ≤ 2 ^ 32
  fitsTables : ∀ g < c.numBlockgroups.toNat, ∀ j < inodeTableBlocks c,
    c.partStart.toNat + ((descriptorAt v c g).bgInodeTable.toNat + j + 1) * (c.blockSize / 512)
      ≤ 2 ^ 32
  apart : ∀ g < c.numBlockgroups.toNat, ∀ g' < c.numBlockgroups.toNat,
    ∀ j < inodeTableBlocks c, ∀ j' < inodeTableBlocks c,
    (descriptorAt v c g).bgInodeTable.toNat + j = (descriptorAt v c g').bgInodeTable.toNat + j' →
      g = g'
  clear : ∀ g < c.numBlockgroups.toNat, ∀ j < inodeTableBlocks c, ∀ k < descriptorBlocks c,
    (descriptorAt v c g).bgInodeTable.toNat + j ≠ c.superblockBlock.toNat + 1 + k

/-- An inode number of the volume. -/
def IsInode (c : Ext2Context) (ino : UInt32) : Prop :=
  ino ≠ 0 ∧ ino.toNat ≤ c.superblock.sInodesCount.toNat

/-- An inode number of the volume, in one of the groups the driver counts. -/
structure CountedInode (c : Ext2Context) (ino : UInt32) : Prop where
  isInode : IsInode c ino
  group : inodeGroup c ino < c.numBlockgroups.toNat

/-- A volume with one role for every block has such inode tables. -/
theorem LaidOut.inodeTables (hl : LaidOut v c) : InodeTables v c where
  slotted := hl.sane.slotted
  fitsDescriptors j hj :=
    hl.fits.block (hl.inside (.descriptors c.superblockBlock j) ⟨hl.primary, hj⟩)
  fitsTables g hg j hj := hl.fits.block (hl.inside (.inodeTable g j) ⟨hg, hj⟩)
  apart g hg g' hg' j hj j' hj' heq :=
    (MetaRole.inodeTable.inj (hl.apart (.inodeTable g j) (.inodeTable g' j') ⟨hg, hj⟩ ⟨hg', hj'⟩
      heq)).1
  clear g hg j hj k hk heq := by
    have hrole := hl.apart (.inodeTable g j) (.descriptors c.superblockBlock k) ⟨hg, hj⟩
      ⟨hl.primary, hk⟩ heq
    cases hrole

variable {ino ino' : UInt32}

/-- A sector of an inode table holds no descriptor. -/
theorem InodeTables.slot_ne_descriptor (hl : InodeTables v c) (hino : CountedInode c ino) {g : Nat}
    (hg : g < c.numBlockgroups.toNat) : slotSector v c ino ≠ descriptorSector c g := by
  have hj := slotBlock_lt hl.slotted ino
  have hk := descriptorBlock_lt hg
  obtain ⟨i, hi, hslot⟩ := slotSector_inBlock hl.slotted v ino
  obtain ⟨i', hi', hdesc⟩ := descriptorSector_inBlock c g
  intro heq
  rw [hslot, hdesc] at heq
  exact hl.clear _ hino.group _ hj _ hk
    (sector_inj (hl.fitsTables _ hino.group _ hj) (hl.fitsDescriptors _ hk) hi hi' heq).1

/-- An inode's number from its group and index. -/
theorem inode_eq_of_group_index
    (hg : inodeGroup c ino = inodeGroup c ino') (hi : inodeIndex c ino = inodeIndex c ino') :
    ino = ino' := by
  have hpred : ino - 1 = ino' - 1 := by
    apply UInt32.toNat_inj.1
    have h₁ := Nat.div_add_mod (ino - 1).toNat c.superblock.sInodesPerGroup.toNat
    have h₂ := Nat.div_add_mod (ino' - 1).toNat c.superblock.sInodesPerGroup.toNat
    unfold inodeGroup at hg
    unfold inodeIndex at hi
    rw [← h₁, ← h₂, hg, hi]
  grind

/-- Two inodes in one sector have slots side by side. -/
theorem InodeTables.slots_apart (hl : InodeTables v c) (hino : CountedInode c ino)
    (hino' : CountedInode c ino') (hne : ino ≠ ino')
    (hsec : slotSector v c ino = slotSector v c ino') :
    slotOffset c ino + 128 ≤ slotOffset c ino' ∨ slotOffset c ino' + 128 ≤ slotOffset c ino := by
  have hge := blockSize_ge c
  have hpos : 0 < c.blockSize / 512 := by omega
  have hj := slotBlock_lt hl.slotted ino
  have hj' := slotBlock_lt hl.slotted ino'
  rw [slotSector_eq hl.slotted v ino, slotSector_eq hl.slotted v ino'] at hsec
  obtain ⟨hblock, hmod⟩ := sector_inj (hl.fitsTables _ hino.group _ hj)
    (hl.fitsTables _ hino'.group _ hj') (Nat.mod_lt _ hpos) (Nat.mod_lt _ hpos) hsec
  -- one block of one table, and one sector of it
  have hg : inodeGroup c ino = inodeGroup c ino' :=
    hl.apart _ hino.group _ hino'.group _ hj _ hj' hblock
  have hidx : inodeIndex c ino ≠ inodeIndex c ino' := fun hi =>
    hne (inode_eq_of_group_index hg hi)
  have hquot : inodeIndex c ino / (512 / c.superblock.sInodeSize.toNat)
      = inodeIndex c ino' / (512 / c.superblock.sInodeSize.toNat) := by
    rw [hg, Nat.add_left_cancel_iff, hl.slotted.perBlock.1,
      ← Nat.div_div_eq_div_mul, ← Nat.div_div_eq_div_mul] at hblock
    rw [← Nat.div_add_mod (inodeIndex c ino / _) (c.blockSize / 512), hblock, hmod,
      Nat.div_add_mod]
  obtain ⟨-, -, hsize⟩ := hl.slotted.size_mul
  unfold slotOffset
  have hrem : inodeIndex c ino % (512 / c.superblock.sInodeSize.toNat)
      ≠ inodeIndex c ino' % (512 / c.superblock.sInodeSize.toNat) := by
    intro hm
    apply hidx
    rw [← Nat.div_add_mod (inodeIndex c ino) (512 / c.superblock.sInodeSize.toNat), hquot, hm,
      Nat.div_add_mod]
  generalize inodeIndex c ino % (512 / c.superblock.sInodeSize.toNat) = a at *
  generalize inodeIndex c ino' % (512 / c.superblock.sInodeSize.toNat) = b at *
  generalize c.superblock.sInodeSize.toNat = z at *
  have hstep : ∀ {x y : Nat}, x < y → x * z + 128 ≤ y * z := fun {x y} hxy => by
    calc x * z + 128 ≤ x * z + z := by omega
      _ = (x + 1) * z := by rw [Nat.add_mul, Nat.one_mul]
      _ ≤ y * z := Nat.mul_le_mul_right _ hxy
  rcases Nat.lt_or_gt_of_ne hrem with hlt | hgt
  · exact .inl (hstep hlt)
  · exact .inr (hstep hgt)

/-! ## Reading past a write -/

theorem descriptorAt_congr {g : Nat}
    (hx : v' (descriptorSector c g) = v (descriptorSector c g)) :
    descriptorAt v' c g = descriptorAt v c g := by
  unfold descriptorAt
  rw [hx]

/-- A slot is found by the descriptor of its group. -/
theorem slotSector_congr {ino : UInt32}
    (hd : descriptorAt v' c (inodeGroup c ino) = descriptorAt v c (inodeGroup c ino)) :
    slotSector v' c ino = slotSector v c ino := by
  unfold slotSector
  rw [hd]

theorem inodeAt_congr {ino : UInt32}
    (hd : descriptorAt v' c (inodeGroup c ino) = descriptorAt v c (inodeGroup c ino))
    (hx : v' (slotSector v c ino) = v (slotSector v c ino)) :
    inodeAt v' c ino = inodeAt v c ino := by
  unfold inodeAt
  rw [slotSector_congr hd, hx]

/-- Writing an inode leaves the descriptors. -/
theorem InodeTables.descriptorAt_putInode (hl : InodeTables v c) (hino : CountedInode c ino)
    {g : Nat} (hg : g < c.numBlockgroups.toNat) (inode : Inode) :
    descriptorAt (putInode v c ino inode) c g = descriptorAt v c g :=
  descriptorAt_congr (Function.update_of_ne (hl.slot_ne_descriptor hino hg).symm _ _)

theorem InodeTables.inodeAt_putInode (hl : InodeTables v c) (hino : CountedInode c ino)
    (inode : Inode) : inodeAt (putInode v c ino inode) c ino = inode :=
  inodeAt_putInode_self hl.slotted (hl.slot_ne_descriptor hino hino.group)

/-- Writing an inode leaves the others. -/
theorem InodeTables.inodeAt_putInode_ne (hl : InodeTables v c) (hino : CountedInode c ino)
    (hino' : CountedInode c ino') (hne : ino ≠ ino') (inode : Inode) :
    inodeAt (putInode v c ino inode) c ino' = inodeAt v c ino' := by
  have hd := hl.descriptorAt_putInode hino hino'.group inode
  by_cases hsec : slotSector v c ino = slotSector v c ino'
  · have hfit := slotOffset_le hl.slotted ino
    have hfit' := slotOffset_le hl.slotted ino'
    unfold inodeAt
    rw [slotSector_congr hd, putInode, hsec, Function.update_self]
    apply Inode.packed.get_congr
    intro k hk
    have hk' : k < 128 := hk
    have hlen : (Inode.packed.bytes inode).length = 128 := Packed.length_bytes ..
    refine Window.item_patch_outside _ (by omega) ?_
    rcases hl.slots_apart hino hino' hne hsec with hlt | hgt
    · exact .inr (by omega)
    · exact .inl (by omega)
  · exact inodeAt_congr hd (Function.update_of_ne (Ne.symm hsec) _ _)

end Embext
