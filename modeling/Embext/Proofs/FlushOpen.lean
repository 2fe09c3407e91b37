import Embext.Proofs.Layout

set_option autoImplicit false

/-! # Flushing an inode and opening it again

`ext2_flush_inode` finds the descriptor of an inode's group by dividing the group number,
`ext2_open_inode` by multiplying it by the size of a descriptor in 32 bits. The two agree on the
groups below `2 ^ 27`; from there on an open goes to the slot of a lower group. -/

namespace Embext

variable {v : UInt32 → Sector} {c : Ext2Context} {ino ino' : UInt32}

/-! ## The slot that is opened -/

theorem pred_toNat (hpos : ino ≠ 0) : (ino - 1).toNat = ino.toNat - 1 :=
  UInt32.toNat_sub_of_le _ _ (UInt32.le_iff_toNat_le.2
    (Nat.one_le_iff_ne_zero.2 fun h0 => hpos (UInt32.toNat_inj.1 h0)))

/-- An inode number by its group and index. -/
theorem toNat_eq_group_index (c : Ext2Context) (hpos : ino ≠ 0) :
    ino.toNat = inodeGroup c ino * c.superblock.sInodesPerGroup.toNat + inodeIndex c ino + 1 := by
  have hne : ino.toNat ≠ 0 := fun h0 => hpos (UInt32.toNat_inj.1 h0)
  have hdiv := Nat.div_add_mod' (ino - 1).toNat c.superblock.sInodesPerGroup.toNat
  have hpred := pred_toNat hpos
  unfold inodeGroup inodeIndex
  omega

/-- The number whose slot `ext2_open_inode` goes to. -/
def openedNumber (c : Ext2Context) (ino : UInt32) : UInt32 :=
  UInt32.ofNat (inodeGroup c ino % 2 ^ 27 * c.superblock.sInodesPerGroup.toNat
    + inodeIndex c ino + 1)

/-- It is a number with the same index, in the group taken modulo `2 ^ 27`. -/
theorem openedNumber_spec (hs : c.Slotted) (hpos : ino ≠ 0) :
    openedNumber c ino ≠ 0 ∧ (openedNumber c ino).toNat ≤ ino.toNat ∧
      inodeGroup c (openedNumber c ino) = inodeGroup c ino % 2 ^ 27 ∧
      inodeIndex c (openedNumber c ino) = inodeIndex c ino := by
  have hper := Nat.pos_of_ne_zero hs.perGroup_toNat
  have hino := toNat_eq_group_index c hpos
  have hlt := ino.toNat_lt
  have hidx : inodeIndex c ino < c.superblock.sInodesPerGroup.toNat := Nat.mod_lt _ hper
  have hmul := Nat.mul_le_mul_right c.superblock.sInodesPerGroup.toNat
    (Nat.mod_le (inodeGroup c ino) (2 ^ 27))
  have hnat : (openedNumber c ino).toNat = inodeGroup c ino % 2 ^ 27 *
      c.superblock.sInodesPerGroup.toNat + inodeIndex c ino + 1 :=
    UInt32.toNat_ofNat_of_lt' (show _ < 2 ^ 32 by omega)
  have hne : openedNumber c ino ≠ 0 := fun h0 => by
    rw [h0] at hnat
    have : (0 : UInt32).toNat = 0 := rfl
    omega
  have hpred : (openedNumber c ino - 1).toNat = inodeGroup c ino % 2 ^ 27 *
      c.superblock.sInodesPerGroup.toNat + inodeIndex c ino := by
    rw [pred_toNat hne, hnat]
    omega
  refine ⟨hne, by omega, ?_, ?_⟩
  · rw [inodeGroup, hpred, Nat.mul_comm, Nat.mul_add_div hper, Nat.div_eq_of_lt hidx, Nat.add_zero]
  · rw [inodeIndex, hpred, Nat.mul_comm, Nat.mul_add_mod, Nat.mod_eq_of_lt hidx]

/-- An open reads the slot of that number. -/
theorem openedInode_eq_inodeAt (hs : c.Slotted) (hpos : ino ≠ 0) (v : UInt32 → Sector) :
    openedInode v c ino = inodeAt v c (openedNumber c ino) := by
  obtain ⟨-, -, hgroup, hindex⟩ := openedNumber_spec hs hpos
  have hdiv : inodeGroup c ino % 2 ^ 27 * 32 % 2 ^ 32 / 512 = inodeGroup c ino * 32 % 2 ^ 32 / 512 := by
    omega
  have hmod : inodeGroup c ino % 2 ^ 27 * 32 % 512 = inodeGroup c ino * 32 % 512 := by omega
  have hsame : openedInode v c (openedNumber c ino) = openedInode v c ino := by
    unfold openedInode slotOffset
    rw [hgroup, hindex, hdiv, hmod]
  rw [← hsame]
  exact openedInode_eq hs (by rw [hgroup]; exact Nat.mod_lt _ (by decide)) v

theorem CountedInode.openedNumber (hs : c.Slotted) (hino : CountedInode c ino) :
    CountedInode c (openedNumber c ino) := by
  obtain ⟨hpos, hle, hgroup, -⟩ := openedNumber_spec hs hino.isInode.1
  refine ⟨⟨hpos, hle.trans hino.isInode.2⟩, ?_⟩
  rw [hgroup]
  exact lt_of_le_of_lt (Nat.mod_le _ _) hino.group

/-- Which numbers are opened through the slot of `ino`. -/
theorem openedNumber_eq_iff (hs : c.Slotted) (hpos' : ino' ≠ 0) (hpos : ino ≠ 0) :
    openedNumber c ino' = ino ↔
      inodeIndex c ino' = inodeIndex c ino ∧ inodeGroup c ino' % 2 ^ 27 = inodeGroup c ino := by
  obtain ⟨-, -, hgroup, hindex⟩ := openedNumber_spec hs hpos'
  constructor
  · rintro rfl
    exact ⟨hindex.symm, hgroup.symm⟩
  · rintro ⟨hi, hg⟩
    exact inode_eq_of_group_index (c := c) (hgroup.trans hg) (hindex.trans hi)

/-! ## Flush and open -/

variable {h : Host} {m m' : Machine} {fe : FileEnt}

/-- Opening number `ino` on handle `fe` succeeds and reads `inode`. -/
def OpensOn (h : Host) (m : Machine) (fe : FileEnt) (ino : UInt32) (inode : Inode) : Prop :=
  ∃ fe' m', ext2OpenInode fe ino h m = .ok ((0, fe'), m') ∧ fe'.inode = inode

/-- After any changed inode has been flushed under number `ino` from a clean handle, that number opens
    on it, and every other one opens on what it opened on before. -/
def FlushOpenAgree (h : Host) (m : Machine) (ino : UInt32) : Prop :=
  ∀ fe : FileEnt, fe.inodeNumber = ino → fe.buffer.dirty = false → fe.flags.fsDirty = true →
    ∃ fe' m', ext2FlushInode fe h m = .ok ((0, fe'), m') ∧
      (∀ fe₀, OpensOn h m' fe₀ ino fe.inode) ∧
      ∀ ino', CountedInode m.ctx ino' → ino' ≠ ino → ∀ fe₀, ∃ inode,
        OpensOn h m fe₀ ino' inode ∧ OpensOn h m' fe₀ ino' inode

/-- What an open reads. -/
theorem opensOn_iff (hh : h.Reliable) (hs : m.ctx.Slotted) (hino : CountedInode m.ctx ino)
    (fe : FileEnt) (inode : Inode) :
    OpensOn h m fe ino inode ↔ inodeAt m.disk m.ctx (openedNumber m.ctx ino) = inode := by
  obtain ⟨s, l, hrun⟩ := ext2OpenInode_opened fe hh hs hino.isInode.1 hino.isInode.2
  rw [← openedInode_eq_inodeAt hs hino.isInode.1]
  constructor
  · rintro ⟨fe', m', hopen, rfl⟩
    rw [hrun] at hopen
    cases hopen
    rfl
  · rintro rfl
    exact ⟨_, _, hrun, rfl⟩

theorem openedNumber_sysbuf (c : Ext2Context) (s : Sector) (ino : UInt32) :
    openedNumber { c with sysbuf := s } ino = openedNumber c ino := rfl

/-- What an open reads after a flush. -/
theorem opensOn_flushed (hh : h.Reliable) (hl : InodeTables m.disk m.ctx)
    (hino : CountedInode m.ctx ino) (hino' : CountedInode m.ctx ino') {value inode : Inode}
    {s : Sector} (hdisk : m'.disk = putInode m.disk m.ctx ino value)
    (hctx : m'.ctx = { m.ctx with sysbuf := s }) (fe₀ : FileEnt) :
    OpensOn h m' fe₀ ino' inode ↔
      (if openedNumber m.ctx ino' = ino then value
        else inodeAt m.disk m.ctx (openedNumber m.ctx ino')) = inode := by
  have hs' : m'.ctx.Slotted := by
    rw [hctx]
    exact ⟨hl.slotted.block, hl.slotted.size, hl.slotted.perGroup⟩
  have hcounted : CountedInode m'.ctx ino' := by
    rw [hctx]
    exact ⟨hino'.isInode, hino'.group⟩
  rw [opensOn_iff hh hs' hcounted, hctx, hdisk, inodeAt_sysbuf, openedNumber_sysbuf]
  split
  · next heq => rw [heq, hl.inodeAt_putInode hino]
  · next hne =>
    rw [hl.inodeAt_putInode_ne hino (hino'.openedNumber hl.slotted) (Ne.symm hne)]

/-- Some inode differs from a given one. -/
theorem exists_inode_ne (inode : Inode) : ∃ value : Inode, value ≠ inode := by
  refine ⟨{ inode with iSize := inode.iSize + 1 }, fun heq => ?_⟩
  have hsize : inode.iSize + 1 = inode.iSize := congrArg Inode.iSize heq
  grind

/-- A handle ready to flush `inode` under number `ino`. -/
def FileEnt.changed (ino : UInt32) (inode : Inode) : FileEnt :=
  { FileEnt.fresh with
    inodeNumber := ino
    inode := inode
    flags := { FileEnt.fresh.flags with fsDirty := true } }

/-- What a flush leaves for the opens. -/
theorem ext2FlushInode_opens (fe : FileEnt) (hh : h.Reliable) (hl : InodeTables m.disk m.ctx)
    (hino : CountedInode m.ctx fe.inodeNumber) (hclean : fe.buffer.dirty = false)
    (hdirty : fe.flags.fsDirty = true) :
    ∃ fe' m', ext2FlushInode fe h m = .ok ((0, fe'), m') ∧
      ∀ ino', CountedInode m.ctx ino' → ∀ fe₀ inode, OpensOn h m' fe₀ ino' inode ↔
        (if openedNumber m.ctx ino' = fe.inodeNumber then fe.inode
          else inodeAt m.disk m.ctx (openedNumber m.ctx ino')) = inode := by
  obtain ⟨m', fe', hrun, hst, -⟩ := ext2FlushInode_ok hh hl.slotted hclean hdirty hino.group
  obtain ⟨s, l, hm'⟩ := hst.machine
  refine ⟨_, m', hrun, fun ino' hino' fe₀ inode => ?_⟩
  generalize hw : putInode m.disk m.ctx fe.inodeNumber fe.inode = w at hm'
  exact opensOn_flushed hh hl hino hino' (by rw [hm', hw]) (by rw [hm']) fe₀

/-- Agreement by the slots the opens go to. -/
theorem FlushOpenAgree.slots (hh : h.Reliable) (hl : InodeTables m.disk m.ctx)
    (hino : CountedInode m.ctx ino) (hagree : FlushOpenAgree h m ino) :
    openedNumber m.ctx ino = ino ∧ ∀ ino', CountedInode m.ctx ino' → ino' ≠ ino →
      openedNumber m.ctx ino' ≠ ino := by
  constructor
  · by_contra hne
    obtain ⟨value, hvalue⟩ := exists_inode_ne (inodeAt m.disk m.ctx (openedNumber m.ctx ino))
    obtain ⟨fe', m', hrun, hself, -⟩ := hagree (FileEnt.changed ino value) rfl rfl rfl
    obtain ⟨fe'', m'', hrun', hopens⟩ := ext2FlushInode_opens (FileEnt.changed ino value) hh hl hino
      rfl rfl
    rw [hrun] at hrun'
    cases hrun'
    have hread := (hopens ino hino FileEnt.fresh value).1 (hself FileEnt.fresh)
    rw [if_neg (show ¬ openedNumber m.ctx ino = (FileEnt.changed ino value).inodeNumber from hne)]
      at hread
    exact hvalue hread.symm
  · intro ino' hino' hne hopened
    obtain ⟨value, hvalue⟩ := exists_inode_ne (inodeAt m.disk m.ctx ino)
    obtain ⟨fe', m', hrun, -, hothers⟩ := hagree (FileEnt.changed ino value) rfl rfl rfl
    obtain ⟨fe'', m'', hrun', hopens⟩ := ext2FlushInode_opens (FileEnt.changed ino value) hh hl hino
      rfl rfl
    rw [hrun] at hrun'
    cases hrun'
    obtain ⟨inode, hbefore, hafter⟩ := hothers ino' hino' hne FileEnt.fresh
    have hbefore := (opensOn_iff hh hl.slotted hino' _ _).1 hbefore
    have hafter := (hopens ino' hino' _ _).1 hafter
    rw [hopened] at hbefore
    rw [if_pos (show openedNumber m.ctx ino' = (FileEnt.changed ino value).inodeNumber from hopened)]
      at hafter
    exact hvalue (hafter.trans hbefore.symm)

/-- **A flush and the opens agree** on an inode exactly when its group is below `2 ^ 27` and no other
number is opened through its slot. -/
theorem flushOpenAgree_iff (hh : h.Reliable) (hl : InodeTables m.disk m.ctx)
    (hino : CountedInode m.ctx ino) : FlushOpenAgree h m ino ↔
      inodeGroup m.ctx ino < 2 ^ 27 ∧ ∀ ino', CountedInode m.ctx ino' →
        inodeIndex m.ctx ino' = inodeIndex m.ctx ino →
        inodeGroup m.ctx ino' % 2 ^ 27 = inodeGroup m.ctx ino → ino' = ino := by
  have hpos := hino.isInode.1
  constructor
  · intro hagree
    obtain ⟨hself, hothers⟩ := hagree.slots hh hl hino
    have hgroup := (openedNumber_spec hl.slotted hpos).2.2.1
    rw [hself] at hgroup
    refine ⟨by omega, fun ino' hino' hidx hgrp => ?_⟩
    by_contra hne
    exact hothers ino' hino' hne ((openedNumber_eq_iff hl.slotted hino'.isInode.1 hpos).2 ⟨hidx, hgrp⟩)
  · rintro ⟨hlow, honly⟩ fe rfl hclean hdirty
    obtain ⟨fe', m', hrun, hopens⟩ := ext2FlushInode_opens fe hh hl hino hclean hdirty
    have hself : openedNumber m.ctx fe.inodeNumber = fe.inodeNumber :=
      (openedNumber_eq_iff hl.slotted hpos hpos).2 ⟨rfl, Nat.mod_eq_of_lt hlow⟩
    refine ⟨fe', m', hrun, fun fe₀ => (hopens _ hino _ _).2 (if_pos hself),
      fun ino' hino' hne fe₀ => ⟨inodeAt m.disk m.ctx (openedNumber m.ctx ino'),
        (opensOn_iff hh hl.slotted hino' _ _).2 rfl, (hopens ino' hino' _ _).2 (if_neg ?_)⟩⟩
    intro hopened
    obtain ⟨hidx, hgrp⟩ := (openedNumber_eq_iff hl.slotted hino'.isInode.1 hpos).1 hopened
    exact hne (honly ino' hino' hidx hgrp)

/-! ## A volume of more than `2 ^ 27` groups -/

namespace ManyGroups

/-- Groups of eight blocks of 1 KiB with one inode each. -/
def superblock : Superblock :=
  { SmallVolume.superblock with
    sInodesCount := 134217729
    sBlocksCount := 1073741832
    sBlocksPerGroup := 8
    sInodesPerGroup := 1 }

/-- The inode tables stand behind each other, far from the descriptors. -/
def descriptor (g : Nat) : BlockGroupDescriptor :=
  { SmallVolume.descriptor with bgInodeTable := UInt32.ofNat (8388608 + g) }

/-- The descriptor table, from sector 4 on. -/
def disk (s : UInt32) : Sector := fun k =>
  BlockGroupDescriptor.packed.put (descriptor ((s.toNat - 4) * 16 + k / 32)) (k % 32)

def ctx : Ext2Context where
  partStart := 0
  superblock := superblock
  sparse := false
  sysbuf := fun _ => 0
  superblockBlock := 1
  readOnly := false
  numBlockgroups := 134217729
  superblockBlocks := [1]

def machine : Machine := { SmallVolume.machine with disk := disk, ctx := ctx }

theorem descriptorAt_disk {g : Nat} (hg : g < 134217729) : descriptorAt disk ctx g = descriptor g := by
  have hsec : (descriptorSector ctx g).toNat = 4 + g / 16 := by
    have hblock : ctx.superblockBlock.toNat = 1 := rfl
    have hsize : ctx.blockSize = 1024 := rfl
    have hstart : ctx.partStart.toNat = 0 := rfl
    rw [descriptorSector, UInt32.toNat_add, UInt32.toNat_ofNat', hblock, hsize, hstart]
    omega
  apply BlockGroupDescriptor.packed.get_of_put
  intro k hk
  have hk' : k < 32 := hk
  have hpos : 32 * (g % 16) + k < 512 := by omega
  have hg' : (4 + g / 16 - 4) * 16 + (32 * (g % 16) + k) / 32 = g := by omega
  have hk32 : (32 * (g % 16) + k) % 32 = k := by omega
  simp only [Window.item, disk, Fin.ofNat, hsec, Nat.mod_eq_of_lt hpos, hg', hk32]

theorem inodeTable_toNat {g : Nat} (hg : g < 134217729) :
    (descriptorAt disk ctx g).bgInodeTable.toNat = 8388608 + g := by
  rw [descriptorAt_disk hg]
  exact UInt32.toNat_ofNat_of_lt' (show _ < 2 ^ 32 by omega)

theorem inodeTables : InodeTables disk ctx := by
  have hsize : ctx.blockSize = 1024 := rfl
  have hstart : ctx.partStart.toNat = 0 := rfl
  have hblock : ctx.superblockBlock.toNat = 1 := rfl
  have hgroups : ctx.numBlockgroups.toNat = 134217729 := rfl
  have hdesc : descriptorBlocks ctx = 4194305 := by decide
  have htable : inodeTableBlocks ctx = 1 := by decide
  refine ⟨⟨by unfold Ext2Context.SaneBlockSize; decide, .inl rfl, by decide⟩,
    ?_, ?_, ?_, ?_⟩
  · intro j hj
    rw [hsize, hstart, hblock]
    omega
  · intro g hg j hj
    rw [inodeTable_toNat hg, hsize, hstart]
    rw [hgroups] at hg
    omega
  · intro g hg g' hg' j hj j' hj' heq
    rw [inodeTable_toNat hg, inodeTable_toNat hg'] at heq
    omega
  · intro g hg j hj k hk
    rw [inodeTable_toNat hg, hblock]
    omega

theorem countedInode {ino : UInt32} (hpos : ino ≠ 0) (hle : ino.toNat ≤ 134217729) :
    CountedInode ctx ino := by
  refine ⟨⟨hpos, hle⟩, ?_⟩
  have hper : ctx.superblock.sInodesPerGroup.toNat = 1 := rfl
  have hgroups : ctx.numBlockgroups.toNat = 134217729 := rfl
  have hne : ino.toNat ≠ 0 := fun h0 => hpos (UInt32.toNat_inj.1 h0)
  rw [inodeGroup, hper, hgroups, pred_toNat hpos]
  omega

/-- The inode of group `2 ^ 27` is opened through the slot of inode 1. -/
theorem flushOpenAgree_fails : SmallVolume.host.Reliable ∧ InodeTables machine.disk machine.ctx ∧
    CountedInode machine.ctx 134217729 ∧ ¬ FlushOpenAgree SmallVolume.host machine 134217729 := by
  have hino : CountedInode machine.ctx 134217729 := countedInode (by decide) (by decide)
  refine ⟨SmallVolume.host_reliable, inodeTables, hino, fun hagree => ?_⟩
  have hself := (hagree.slots SmallVolume.host_reliable inodeTables hino).1
  have hone : openedNumber machine.ctx 134217729 = 1 := by decide
  exact absurd (hone.symm.trans hself) (by decide)

/-- That of group 1 is opened through its own. -/
theorem flushOpenAgree_second : FlushOpenAgree SmallVolume.host machine 2 := by
  refine (flushOpenAgree_iff SmallVolume.host_reliable inodeTables
    (countedInode (by decide) (by decide))).2 ⟨by decide, fun ino' hino' hidx hgrp => ?_⟩
  have hgroup : inodeGroup machine.ctx 2 = 1 := by decide
  have hlt : inodeGroup machine.ctx ino' < 134217729 := hino'.group
  exact inode_eq_of_group_index (c := machine.ctx) (by omega) hidx

end ManyGroups

end Embext
