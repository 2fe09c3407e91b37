import Embext.Library.DirTree
import Embext.Proofs.Append
import Embext.Proofs.InodeRuns
import Embext.Proofs.Reopen

set_option autoImplicit false

/-! # The directory tree of a volume

A set of directories whose blocks lie apart from each other and from the metadata, each listed by its
records, is a tree of directories in the sense of `DirTree`: paths and lookups are those of the tree.
A step that rewrites metadata and the blocks of these directories keeps them in place as long as the
descriptors and their block maps stay. -/

namespace Embext

variable {v w : UInt32 → Sector} {c c' : Ext2Context} {s : UInt32}

/-! ## Metadata -/

theorem copySector_inBlock (hs : c.SaneBlockSize) (b : UInt32) :
    InBlock c b.toNat (copySector c b) := by
  have hge := blockSize_ge c
  refine ⟨0, by omega, ?_⟩
  rw [copySector, log_succ_toNat hs, ← blockSize_div, Nat.add_zero]

/-- Sector `s` belongs to a block of metadata. -/
def InMetadata (v : UInt32 → Sector) (c : Ext2Context) (s : UInt32) : Prop :=
  ∃ r : MetaRole, r.Valid c ∧ r.Sectors v c s

namespace LaidOut

variable (hl : LaidOut v c) {g k : Nat} {ino : UInt32}
include hl

theorem copySector_sectors (b : UInt32) : (MetaRole.superblock b).Sectors v c (copySector c b) :=
  copySector_inBlock hl.sane.block b

theorem descriptorSector_sectors (hg : g < c.numBlockgroups.toNat) : ∃ j,
    (MetaRole.descriptors c.superblockBlock j).Valid c ∧
      (MetaRole.descriptors c.superblockBlock j).Sectors v c (descriptorSector c g) :=
  ⟨g * 32 / c.blockSize, ⟨hl.primary, descriptorBlock_lt hg⟩, descriptorSector_inBlock c g⟩

theorem slotSector_sectors (hino : CountedInode c ino) : ∃ j,
    (MetaRole.inodeTable (inodeGroup c ino) j).Valid c ∧
      (MetaRole.inodeTable (inodeGroup c ino) j).Sectors v c (slotSector v c ino) :=
  ⟨_, ⟨hino.group, slotBlock_lt hl.sane.slotted ino⟩, slotSector_inBlock hl.sane.slotted v ino⟩

omit hl in
theorem bitmapSector_sectors (v : UInt32 → Sector) (g : Nat) {off : Nat} (hoff : off < c.blockSize) :
    (MetaRole.inodeBitmap g).Sectors v c
      (blockSector c (descriptorAt v c g).bgInodeBitmap off) :=
  blockSector_inBlock _ hoff

theorem inodeIndex_lt (x : UInt32) : inodeIndex c x < 8 * c.blockSize :=
  lt_of_lt_of_le (Nat.mod_lt _ (Nat.pos_of_ne_zero hl.sane.slotted.perGroup_toNat)) hl.inodeBits

/-- The flush of the superblock reaches no other metadata. -/
theorem offCopies {r : MetaRole} (hr : r.Valid c) (hs : r.Sectors v c s)
    (hne : ∀ b, r ≠ .superblock b) : OffCopies c s := by
  rintro b hb rfl
  have hcopy : (MetaRole.superblock b).Valid c := hb
  exact hne b (hl.role_unique hr hcopy hs (hl.copySector_sectors b))

/-- Two roles, two sectors. -/
theorem sectors_ne {r r' : MetaRole} {x : UInt32} (hr : r.Valid c) (hr' : r'.Valid c)
    (hs : r.Sectors v c s) (hx : r'.Sectors v c x) (hne : r ≠ r') : s ≠ x := by
  rintro rfl
  exact hne (hl.role_unique hr hr' hs hx)

theorem inodeLayout (hbytes : 8 ∣ c.superblock.sInodesPerGroup.toNat)
    (hn : c.superblock.sInodesPerGroup.toNat * c.numBlockgroups.toNat < 2 ^ 32) :
    InodeLayout v c where
  block := hl.sane.block
  perGroup := Nat.pos_of_ne_zero hl.sane.slotted.perGroup_toNat
  wholeBytes := hbytes
  oneBlock := hl.inodeBits
  numbers := hn
  fits g hg := hl.fits.block (hl.inside (.inodeBitmap g) hg)
  distinct g hg g' hg' heq :=
    MetaRole.inodeBitmap.inj (hl.apart (.inodeBitmap g) (.inodeBitmap g') hg hg'
      (congrArg UInt32.toNat heq))
  bitmapsOffDescriptors g hg g' hg' off hoff := by
    obtain ⟨j, hvalid, hsec⟩ := hl.descriptorSector_sectors hg'
    exact hl.sectors_ne (r := .inodeBitmap g) hg hvalid (bitmapSector_sectors v g hoff) hsec (by simp)
  bitmapsOffCopies g hg off hoff :=
    hl.offCopies (r := .inodeBitmap g) hg (bitmapSector_sectors v g hoff) (by simp)
  descriptorsOffCopies g hg := by
    obtain ⟨j, hvalid, hsec⟩ := hl.descriptorSector_sectors hg
    exact hl.offCopies hvalid hsec (by simp)

end LaidOut

/-- The bit of inode `x`. -/
def inodeUsed (v : UInt32 → Sector) (c : Ext2Context) (x : UInt32) : Bool :=
  inodeBit v c (inodeGroup c x) (inodeIndex c x)

/-! ## Directories in their places -/

/-- Sector `s` holds bytes of the file of inode `d`. -/
def HoldsBytes (v : UInt32 → Sector) (c : Ext2Context) (d s : UInt32) : Prop :=
  ∃ p, Mapped v c (inodeAt v c d) p ∧ s = byteSector v c (inodeAt v c d) p

/-- Sector `s` is neither metadata nor part of one of the directories. -/
def Elsewhere (v : UInt32 → Sector) (c : Ext2Context) (dirs : Set UInt32) (s : UInt32) : Prop :=
  ¬ InMetadata v c s ∧ ∀ d ∈ dirs, ¬ HoldsBytes v c d s

/-- Directories of a volume that is laid out, their inodes in use: no sector holds bytes of two of
    their blocks, none holds metadata as well, and the tables that map them are elsewhere. -/
structure Placed (v : UInt32 → Sector) (c : Ext2Context) (dirs : Set UInt32) : Prop where
  layout : LaidOut v c
  wholeBytes : 8 ∣ c.superblock.sInodesPerGroup.toNat
  numbers : c.superblock.sInodesPerGroup.toNat * c.numBlockgroups.toNat
    ≤ c.superblock.sInodesCount.toNat
  positive : c.superblock.sInodesCount.toNat < 2 ^ 31
  inodes : ∀ d ∈ dirs, IsInode c d
  used : ∀ d ∈ dirs, inodeUsed v c d = true
  once : ∀ d ∈ dirs, ∀ p q, Mapped v c (inodeAt v c d) p → Mapped v c (inodeAt v c d) q →
    byteSector v c (inodeAt v c d) p = byteSector v c (inodeAt v c d) q → p / 512 = q / 512
  disjoint : ∀ d ∈ dirs, ∀ d' ∈ dirs, ∀ s, HoldsBytes v c d s → HoldsBytes v c d' s → d = d'
  data : ∀ d ∈ dirs, ∀ s, HoldsBytes v c d s → ¬ InMetadata v c s
  map : ∀ w, (∀ s, Elsewhere v c dirs s → w s = v s) → ∀ d ∈ dirs, ∀ k,
    fileBlock w c (inodeAt v c d) k = fileBlock v c (inodeAt v c d) k

namespace Placed

variable {dirs : Set UInt32} {d : UInt32} (hp : Placed v c dirs)
include hp

theorem inodeLayout : InodeLayout v c :=
  hp.layout.inodeLayout hp.wholeBytes (lt_of_le_of_lt hp.numbers c.superblock.sInodesCount.toNat_lt)

theorem counted {ino : UInt32} (hino : IsInode c ino) : CountedInode c ino :=
  ⟨hino, hp.layout.sane.covered ino hino.1 hino.2⟩

/-- Each of them lies apart. -/
theorem fileApart (hd : d ∈ dirs) : FileApart v c d (inodeAt v c d) := by
  have hcount := hp.counted (hp.inodes d hd)
  obtain ⟨j, hvalid, hslot⟩ := hp.layout.slotSector_sectors hcount
  obtain ⟨j', hvalid', hdesc⟩ := hp.layout.descriptorSector_sectors hcount.group
  constructor
  · exact hp.once d hd
  · intro w hw
    refine hp.map w (fun s hs => hw s ?_ fun p hmap heq => hs.2 d hd ⟨p, hmap, heq⟩) d hd
    rintro rfl
    exact hs.1 ⟨_, hvalid, hslot⟩
  · intro p hmap heq
    exact hp.data d hd _ ⟨p, hmap, rfl⟩ (heq ▸ ⟨_, hvalid, hslot⟩)
  · intro p hmap heq
    exact hp.data d hd _ ⟨p, hmap, rfl⟩ (heq ▸ ⟨_, hvalid', hdesc⟩)
  · exact hp.layout.sectors_ne hvalid hvalid' hslot hdesc (by simp)

end Placed

/-! ## After a step -/

/-- The device `w` is `v` after a step: the descriptors are the same, the directories have the block
    maps they had and stay in use, and only metadata and their blocks are different. -/
structure KeepsPlaces (v : UInt32 → Sector) (c : Ext2Context) (dirs : Set UInt32)
    (w : UInt32 → Sector) : Prop where
  descriptors : ∀ g < c.numBlockgroups.toNat, descriptorAt w c g = descriptorAt v c g
  maps : ∀ d ∈ dirs, (inodeAt w c d).iBlock = (inodeAt v c d).iBlock
  used : ∀ d ∈ dirs, inodeUsed v c d = true → inodeUsed w c d = true
  elsewhere : ∀ s, Elsewhere v c dirs s → w s = v s

section

variable {dirs : Set UInt32} {d : UInt32} (hp : Placed v c dirs) (hk : KeepsPlaces v c dirs w)
include hk

theorem KeepsPlaces.role_block {r : MetaRole} (hr : r.Valid c) : r.block w c = r.block v c := by
  cases r with
  | superblock s => rfl
  | descriptors s j => rfl
  | blockBitmap g => exact congrArg (fun b => b.bgBlockBitmap.toNat) (hk.descriptors g hr)
  | inodeBitmap g => exact congrArg (fun b => b.bgInodeBitmap.toNat) (hk.descriptors g hr)
  | inodeTable g j => exact congrArg (fun b => b.bgInodeTable.toNat + j) (hk.descriptors g hr.1)

theorem KeepsPlaces.inMetadata : InMetadata w c = InMetadata v c := by
  funext s
  refine propext (exists_congr fun r => and_congr_right fun hr => ?_)
  unfold MetaRole.Sectors
  rw [hk.role_block hr]

theorem KeepsPlaces.laidOut (hl : LaidOut v c) : LaidOut w c where
  sane := hl.sane
  fits := hl.fits
  primary := hl.primary
  groups := hl.groups
  blockBits := hl.blockBits
  inodeBits := hl.inodeBits
  inside r hr := by
    rw [hk.role_block hr]
    exact hl.inside r hr
  apart r r' hr hr' := by
    rw [hk.role_block hr, hk.role_block hr']
    exact hl.apart r r' hr hr'

include hp

theorem KeepsPlaces.fileBlock_eq (hd : d ∈ dirs) (k : Nat) :
    fileBlock w c (inodeAt w c d) k = fileBlock v c (inodeAt v c d) k :=
  (fileBlock_iBlock (hk.maps d hd) k).trans (hp.map w hk.elsewhere d hd k)

theorem KeepsPlaces.mapped_eq (hd : d ∈ dirs) :
    Mapped w c (inodeAt w c d) = Mapped v c (inodeAt v c d) := by
  funext p
  unfold Mapped
  rw [hk.fileBlock_eq hp hd]

theorem KeepsPlaces.byteSector_eq (hd : d ∈ dirs) :
    byteSector w c (inodeAt w c d) = byteSector v c (inodeAt v c d) := by
  funext p
  unfold byteSector
  rw [hk.fileBlock_eq hp hd]

theorem KeepsPlaces.holdsBytes_eq (hd : d ∈ dirs) : HoldsBytes w c d = HoldsBytes v c d := by
  funext s
  unfold HoldsBytes
  rw [hk.mapped_eq hp hd, hk.byteSector_eq hp hd]

theorem KeepsPlaces.elsewhere_iff : Elsewhere w c dirs s ↔ Elsewhere v c dirs s := by
  unfold Elsewhere
  rw [hk.inMetadata]
  refine and_congr_right fun _ => forall₂_congr fun d hd => ?_
  rw [hk.holdsBytes_eq hp hd]

/-- **Step.** -/
theorem Placed.step : Placed w c dirs where
  layout := hk.laidOut hp.layout
  wholeBytes := hp.wholeBytes
  numbers := hp.numbers
  positive := hp.positive
  inodes := hp.inodes
  used d hd := hk.used d hd (hp.used d hd)
  once d hd := by
    rw [hk.mapped_eq hp hd, hk.byteSector_eq hp hd]
    exact hp.once d hd
  disjoint d hd d' hd' := by
    rw [hk.holdsBytes_eq hp hd, hk.holdsBytes_eq hp hd']
    exact hp.disjoint d hd d' hd'
  data d hd := by
    rw [hk.holdsBytes_eq hp hd, hk.inMetadata]
    exact hp.data d hd
  map u hu d hd k := by
    rw [hk.fileBlock_eq hp hd, fileBlock_iBlock (hk.maps d hd)]
    refine hp.map u (fun s hs => ?_) d hd k
    rw [hu s ((hk.elsewhere_iff hp).2 hs), hk.elsewhere s hs]

/-- A file of which the step has kept the size and the bytes has the records it had. -/
theorem KeepsPlaces.listing {recs : List DirRecord} (hd : d ∈ dirs) (hl : Listing v c d recs)
    (hsize : (inodeAt w c d).iSize = (inodeAt v c d).iSize)
    (hbytes : ∀ s, HoldsBytes v c d s → w s = v s) : Listing w c d recs := by
  have hblock := hp.map w hk.elsewhere d hd
  have hsame : fileByte w c (inodeAt w c d) = fileByte w c (inodeAt v c d) := by
    funext p
    unfold fileByte
    rw [fileBlock_iBlock (hk.maps d hd)]
  constructor
  · intro p hlt
    rw [hsize] at hlt
    rw [hk.fileBlock_eq hp hd]
    exact hl.noHole p hlt
  · refine hl.records.congr (congrArg UInt32.toNat hsize) fun p hlt => ?_
    have hmap : Mapped v c (inodeAt v c d) p :=
      ⟨lt_trans hlt (inodeAt v c d).iSize.toNat_lt, hl.noHole p hlt⟩
    show fileByte w c (inodeAt w c d) p = fileByte v c (inodeAt v c d) p
    rw [hsame, fileByte_eq (hblock _), fileByte_eq rfl, hbytes _ ⟨p, hmap, rfl⟩]

theorem KeepsPlaces.directory {recs : List DirRecord} (hd : d ∈ dirs) (hdir : Directory v c d recs)
    (hsize : (inodeAt w c d).iSize = (inodeAt v c d).iSize)
    (hmode : (inodeAt w c d).iMode = (inodeAt v c d).iMode)
    (hbytes : ∀ s, HoldsBytes v c d s → w s = v s) : Directory w c d recs := by
  have hl := hk.listing hp hd ⟨hdir.noHole, hdir.records⟩ hsize hbytes
  exact ⟨hdir.positive, hdir.known, hmode ▸ hdir.mode, hl.noHole, hl.records, hdir.distinct⟩

omit hk in
/-- Two steps. -/
theorem KeepsPlaces.trans {u : UInt32 → Sector} (h₁ : KeepsPlaces v c dirs u)
    (h₂ : KeepsPlaces u c dirs w) : KeepsPlaces v c dirs w where
  descriptors g hg := (h₂.descriptors g hg).trans (h₁.descriptors g hg)
  maps d hd := (h₂.maps d hd).trans (h₁.maps d hd)
  used d hd hused := h₂.used d hd (h₁.used d hd hused)
  elsewhere s hs := (h₂.elsewhere s ((h₁.elsewhere_iff hp).2 hs)).trans (h₁.elsewhere s hs)

end

/-! ## Two kinds of steps -/

namespace Placed

variable {dirs : Set UInt32} {d x : UInt32} (hp : Placed v c dirs)
include hp

section

variable (hu : ∀ s, InMetadata v c s ∨ Elsewhere v c dirs s → w s = v s)
include hu

/-- Blocks of the directories are rewritten: every inode stays. -/
theorem inodeAt_data (hx : CountedInode c x) : inodeAt w c x = inodeAt v c x := by
  obtain ⟨j, hvalid, hsec⟩ := hp.layout.descriptorSector_sectors hx.group
  obtain ⟨j', hvalid', hsec'⟩ := hp.layout.slotSector_sectors hx
  exact inodeAt_congr (descriptorAt_congr (hu _ (.inl ⟨_, hvalid, hsec⟩)))
    (hu _ (.inl ⟨_, hvalid', hsec'⟩))

theorem inodeUsed_data (hx : CountedInode c x) : inodeUsed w c x = inodeUsed v c x := by
  obtain ⟨j, hvalid, hsec⟩ := hp.layout.descriptorSector_sectors hx.group
  have hdesc := descriptorAt_congr (hu _ (.inl ⟨_, hvalid, hsec⟩))
  unfold inodeUsed inodeBit inodePlace
  rw [hdesc]
  refine BitPlace.get_congr (hu _ (.inl ⟨.inodeBitmap _, hx.group, ?_⟩))
  exact LaidOut.bitmapSector_sectors v _ (Nat.div_lt_of_lt_mul (hp.layout.inodeIndex_lt x))

theorem keepsPlaces_data : KeepsPlaces v c dirs w where
  descriptors g hg := by
    obtain ⟨j, hvalid, hsec⟩ := hp.layout.descriptorSector_sectors hg
    exact descriptorAt_congr (hu _ (.inl ⟨_, hvalid, hsec⟩))
  maps d hd := by rw [hp.inodeAt_data hu (hp.counted (hp.inodes d hd))]
  used d hd hused := by rwa [hp.inodeUsed_data hu (hp.counted (hp.inodes d hd))]
  elsewhere s hs := hu s (.inr hs)

end

section

variable (i : Inode) (hx : CountedInode c x)
include hx

/-- An inode is rewritten: a sector that is not in its table stays. -/
theorem putInode_other {r : MetaRole} {s : UInt32} (hr : r.Valid c) (hs : r.Sectors v c s)
    (hne : ∀ g j, r ≠ .inodeTable g j) : putInode v c x i s = v s := by
  obtain ⟨j, hvalid, hsec⟩ := hp.layout.slotSector_sectors hx
  exact Function.update_of_ne (hp.layout.sectors_ne hr hvalid hs hsec (hne _ _)) _ _

theorem putInode_data {s : UInt32} (hs : ¬ InMetadata v c s) : putInode v c x i s = v s := by
  obtain ⟨j, hvalid, hsec⟩ := hp.layout.slotSector_sectors hx
  refine Function.update_of_ne ?_ _ _
  rintro rfl
  exact hs ⟨_, hvalid, hsec⟩

theorem inodeUsed_putInode {y : UInt32} (hy : CountedInode c y) :
    inodeUsed (putInode v c x i) c y = inodeUsed v c y := by
  unfold inodeUsed inodeBit inodePlace
  rw [hp.layout.inodeTables.descriptorAt_putInode hx hy.group]
  exact BitPlace.get_congr (hp.putInode_other i hx (r := .inodeBitmap _) hy.group
    (LaidOut.bitmapSector_sectors v _ (Nat.div_lt_of_lt_mul (hp.layout.inodeIndex_lt y))) (by simp))

theorem keepsPlaces_putInode (hi : x ∈ dirs → i.iBlock = (inodeAt v c x).iBlock) :
    KeepsPlaces v c dirs (putInode v c x i) where
  descriptors g hg := hp.layout.inodeTables.descriptorAt_putInode hx hg i
  maps d hd := by
    by_cases hne : x = d
    · subst hne
      rw [hp.layout.inodeTables.inodeAt_putInode hx, hi hd]
    · rw [hp.layout.inodeTables.inodeAt_putInode_ne hx (hp.counted (hp.inodes d hd)) hne]
  used d hd hused := by rwa [hp.inodeUsed_putInode i hx (hp.counted (hp.inodes d hd))]
  elsewhere s hs := hp.putInode_data i hx hs.1

end

end Placed

/-! ## Contexts of one volume -/

section

variable (hvol : c.SameVolume c')
include hvol

theorem inodes_sameVolume (v : UInt32 → Sector) : inodeAt v c' = inodeAt v c := by
  funext x
  rw [hvol]
  rfl

theorem inodesUsed_sameVolume (v : UInt32 → Sector) : inodeUsed v c' = inodeUsed v c := by
  funext x
  rw [hvol]
  rfl

theorem fileBlock_sameVolume (v : UInt32 → Sector) (i : Inode) : fileBlock v c' i = fileBlock v c i := by
  funext k
  exact fileBlock_sysbuf v c i k (by rw [hvol]) (by rw [hvol])

theorem blockSize_sameVolume : c'.blockSize = c.blockSize := by
  rw [hvol]
  rfl

theorem mapped_sameVolume (v : UInt32 → Sector) : Mapped v c' = Mapped v c := by
  funext i p
  unfold Mapped
  rw [fileBlock_sameVolume hvol, blockSize_sameVolume hvol]

theorem byteSector_sameVolume (v : UInt32 → Sector) : byteSector v c' = byteSector v c := by
  funext i p
  unfold byteSector blockSector
  rw [fileBlock_sameVolume hvol, blockSize_sameVolume hvol, hvol]

theorem holdsBytes_sameVolume (v : UInt32 → Sector) : HoldsBytes v c' = HoldsBytes v c := by
  unfold HoldsBytes
  rw [inodes_sameVolume hvol, mapped_sameVolume hvol, byteSector_sameVolume hvol]

theorem inMetadata_sameVolume (v : UInt32 → Sector) : InMetadata v c' = InMetadata v c := by
  rw [hvol]
  rfl

theorem LaidOut.sameVolume (hl : LaidOut v c) : LaidOut v c' := by
  have hsane := hl.sane.of_sameVolume hvol
  rw [hvol] at hsane ⊢
  exact ⟨hsane, hl.fits, hl.primary, hl.groups, hl.blockBits, hl.inodeBits, hl.inside, hl.apart⟩

theorem Placed.sameVolume {dirs : Set UInt32} (hp : Placed v c dirs) : Placed v c' dirs := by
  have hinode := inodes_sameVolume hvol v
  have hmapped := mapped_sameVolume hvol v
  have hsector := byteSector_sameVolume hvol v
  have hholds := holdsBytes_sameVolume hvol v
  have hmeta := inMetadata_sameVolume hvol v
  constructor
  · exact hp.layout.sameVolume hvol
  · rw [hvol]
    exact hp.wholeBytes
  · rw [hvol]
    exact hp.numbers
  · rw [hvol]
    exact hp.positive
  · rw [hvol]
    exact hp.inodes
  · rw [hvol]
    exact hp.used
  · rw [hinode, hmapped, hsector]
    exact hp.once
  · rw [hholds]
    exact hp.disjoint
  · rw [hholds, hmeta]
    exact hp.data
  · intro u hu d hd k
    rw [hinode, fileBlock_sameVolume hvol, fileBlock_sameVolume hvol]
    refine hp.map u (fun s hs => hu s ?_) d hd k
    unfold Elsewhere
    rw [hmeta, hholds]
    exact hs

end

/-! ## The tree -/

/-- The directories of a volume with their records: every entry of them that is a directory of the
    volume is among them, and every record is one that `ext2_readdir` returns. -/
structure Tree (v : UInt32 → Sector) (c : Ext2Context) (dirs : Set UInt32)
    (recs : UInt32 → List DirRecord) : Prop where
  placed : Placed v c dirs
  root : ext2RootIno ∈ dirs
  directory : ∀ d ∈ dirs, Directory v c d (recs d)
  plain : ∀ d ∈ dirs, ∀ r ∈ recs d, r.Plain
  closed : ∀ d ∈ dirs, ∀ r ∈ recs d, r.hdr.inode ∉ dirs → IsInode c r.hdr.inode →
    (inodeAt v c r.hdr.inode).iMode &&& 0xF000 ≠ ext2SIfdir

theorem Tree.sameVolume {dirs : Set UInt32} {recs : UInt32 → List DirRecord}
    (ht : Tree v c dirs recs) (hvol : c.SameVolume c') : Tree v c' dirs recs := by
  refine ⟨ht.placed.sameVolume hvol, ht.root, fun d hd => (ht.directory d hd).sameVolume hvol,
    ht.plain, ?_⟩
  rw [hvol]
  exact ht.closed

/-- What the records say. -/
def names (dirs : Set UInt32) (recs : UInt32 → List DirRecord) : DirTree UInt32 (List UInt8) where
  dirs := dirs
  entries d := (entries (recs d)).map fun e => (e.dName, e.dIno)

theorem mem_names {dirs : Set UInt32} {recs : UInt32 → List DirRecord} {d n : UInt32}
    {name : List UInt8} : (name, n) ∈ (names dirs recs).entries d ↔
      ∃ r ∈ recs d, r.Live ∧ r.name = name ∧ r.hdr.inode = n := by
  simp [names, entries, live, DirRecord.dirent, and_assoc]

theorem searchable_of_plain {name : List UInt8} {l : List DirRecord} (hl : ∀ r ∈ l, r.Plain) :
    Searchable name l := by
  induction l with
  | nil => exact .nil
  | cons r l ih =>
    obtain ⟨hr, hl⟩ := List.forall_mem_cons.1 hl
    by_cases hname : r.name = name
    · exact .found hr hname
    · exact .passed hr hname (ih hl)

namespace Tree

variable {dirs : Set UInt32} {recs : UInt32 → List DirRecord} {d x y z n : UInt32}
  {els tail : List (List UInt8)} {name : List UInt8} {path : List UInt8}
  (ht : Tree v c dirs recs)
include ht

theorem distinct : (names dirs recs).Distinct := by
  intro d hd
  have hnodup := (ht.directory d hd).distinct
  simpa [names, entries, DirRecord.dirent, Function.comp_def] using hnodup

/-- A directory that an entry leads to is one of the tree. -/
theorem mem_of_directory {r : DirRecord} {l : List DirRecord} (hd : d ∈ dirs) (hr : r ∈ recs d)
    (hdir : Directory v c r.hdr.inode l) : r.hdr.inode ∈ dirs := by
  by_contra hnot
  exact ht.closed d hd r hr hnot ⟨hdir.positive, hdir.known⟩ hdir.mode

/-- Paths lead where the tree says. -/
theorem resolves_iff (hx : x ∈ dirs) :
    Resolves v c x els z ↔ (names dirs recs).Leads x els z := by
  constructor
  · intro hres
    -- the nodes on the way are directories, so they are in the tree
    have hall : (∀ l, Directory v c x l → x ∈ dirs) → (names dirs recs).Leads x els z := by
      clear hx
      induction hres with
      | here x => exact fun _ => .here x
      | @entry x z path l r dir mem live rest ih =>
        intro hmem
        have hx := hmem l dir
        obtain rfl := dir.records.records.unique (ht.directory x hx).records.records
        exact .entry hx (mem_names.2 ⟨r, mem, live, rfl, rfl⟩)
          (ih fun l' hdir => ht.mem_of_directory hx mem hdir)
    exact hall fun _ _ => hx
  · intro hleads
    clear hx
    induction hleads with
    | here x => exact .here x
    | @entry x y z name els dir mem _ ih =>
      obtain ⟨r, hr, hlive, rfl, rfl⟩ := mem_names.1 mem
      exact .entry (ht.directory x dir) hr hlive ih

/-- The searches along a path of the tree find what they look for. -/
theorem searched_append (hleads : (names dirs recs).Leads x els y) (htail : Searched v c y tail) :
    Searched v c x (els ++ tail) := by
  induction hleads with
  | here x => exact htail
  | @entry x y z name els dir mem _ ih =>
    obtain ⟨r, hr, hlive, rfl, rfl⟩ := mem_names.1 mem
    refine .directory (ht.directory x dir) (searchable_of_plain (ht.plain x dir)) fun r' hr' hl' hname => ?_
    obtain rfl := eq_of_name_eq (ht.directory x dir).distinct hr hr' hlive hl' hname.symm
    exact ih htail

theorem leads (hleads : (names dirs recs).Leads ext2RootIno (pathElements path) z) :
    Leads v c path z := by
  refine ⟨?_, (ht.resolves_iff ht.root).2 hleads⟩
  have hsearched := ht.searched_append hleads (.done z)
  rwa [List.append_nil] at hsearched

/-- The search for a name that is not there gets to the end, whatever comes behind it. -/
theorem searched_of_misses (hmiss : (names dirs recs).Misses ext2RootIno els) :
    Searched v c ext2RootIno els := by
  obtain ⟨init, name, rest, d, rfl, hleads, hd, hname⟩ := hmiss
  refine ht.searched_append hleads (.directory (ht.directory d hd) (searchable_of_plain (ht.plain d hd))
    fun r hr hlive heq => ?_)
  exact absurd (mem_names.2 ⟨r, hr, hlive, heq, rfl⟩) (hname r.hdr.inode)

end Tree

end Embext
