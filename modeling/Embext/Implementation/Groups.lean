import Embext.Implementation.Buffer

set_option autoImplicit false

/-! # Block groups, inode slots and the superblock

`ext2_get_bg_descriptor`, `ext2_write_bg_descriptor`, `ext2_flush_superblock`, `ext2_flush_inode`
and `ext2_open_inode`: every transfer between the in-memory records and their places on disk. -/

namespace Embext

/-! ## Group descriptors -/

/-- `ext2_get_bg_descriptor`; `none` is the return value -1, which leaves `*bg` unassigned. -/
def ext2GetBgDescriptor (blockGroup : UInt32) : Drv (Option BlockGroupDescriptor) := do
  let ctx ← getCtx
  if ctx.numBlockgroups.toNat ≤ blockGroup.toNat then pure none
  else
    let bs ← ext2BlockSize
    let lba := UInt32.ofNat ((ctx.superblockBlock.toNat + 1) * (bs / 512) + blockGroup.toNat / 16)
    readSysbuf (lba + ctx.partStart)
    let ctx ← getCtx
    pure (some (BlockGroupDescriptor.packed.get fun k =>
      Window.item ctx.sysbuf (32 * (blockGroup.toNat % 16) + k)))

/-- The descriptor a caller goes on with when it ignores the return value. -/
def ext2BgDescriptor (blockGroup : UInt32) : Drv BlockGroupDescriptor := do
  match ← ext2GetBgDescriptor blockGroup with
  | some bg => pure bg
  | none => Prog.fault .uninitialized

/-- The loop of `ext2_write_bg_descriptor` over the copies of the table: each sector is read into
    `sysbuf` and the descriptor copied over its slot. No `block_write` follows. -/
def ext2WriteBgCopies (bg : BlockGroupDescriptor) (blockGroup : UInt32) :
    List UInt32 → Drv Unit
  | [] => pure ()
  | b :: rest => do
    let ctx ← getCtx
    let bs ← ext2BlockSize
    let lba := UInt32.ofNat ((b.toNat + 1) * (bs / 512) + blockGroup.toNat / 16)
    readSysbuf (lba + ctx.partStart)
    let ctx ← getCtx
    setSysbuf (Window.patch ctx.sysbuf (32 * (blockGroup.toNat % 16))
      (BlockGroupDescriptor.packed.bytes bg))
    ext2WriteBgCopies bg blockGroup rest

def ext2WriteBgDescriptor (bg : BlockGroupDescriptor) (blockGroup : UInt32) : Drv Int := do
  let ctx ← getCtx
  if ctx.numBlockgroups.toNat ≤ blockGroup.toNat then pure (-1)
  else
    ext2WriteBgCopies bg blockGroup ctx.superblockBlocks
    pure 0

/-! ## The superblock -/

/-- The loop of `ext2_flush_superblock`; a failed `block_write` goes unnoticed. -/
def ext2FlushCopies : List UInt32 → Drv Unit
  | [] => pure ()
  | b :: rest => do
    let ctx ← getCtx
    let ctx := { ctx with superblock := { ctx.superblock with
      sBlockGroupNr := UInt16.ofNat b.toNat } }
    let buf := Window.patch ctx.sysbuf 0 (Superblock.packed.bytes ctx.superblock)
    setCtx { ctx with sysbuf := buf }
    let lba ← shl b (ctx.superblock.sLogBlockSize + 1)
    let _ ← blockWrite (lba + ctx.partStart) buf
    ext2FlushCopies rest

def ext2FlushSuperblock : Drv Int := do
  setSysbuf fun _ => 0
  let ctx ← getCtx
  ext2FlushCopies ctx.superblockBlocks
  pure 0

/-! ## Inodes -/

/-- `ext2_flush_inode`. The results of `ext2_get_bg_descriptor`, `ext2_load_buffer` and
    `ext2_store_buffer` are dropped. -/
def ext2FlushInode (fe : FileEnt) : Drv (Int × FileEnt) := do
  let ctx ← getCtx
  let blockGroup ← udiv (fe.inodeNumber - 1).toNat ctx.superblock.sInodesPerGroup.toNat
  let inodeIndex ← umod (fe.inodeNumber - 1).toNat ctx.superblock.sInodesPerGroup.toNat
  if fe.flags.fsDirty then
    let bg ← ext2BgDescriptor (UInt32.ofNat blockGroup)
    let bs ← ext2BlockSize
    let perBlock ← udiv bs ctx.superblock.sInodeSize.toNat
    let skip ← udiv inodeIndex perBlock
    let inodeBlock := UInt32.ofNat (bg.bgInodeTable.toNat + skip)
    let offset := inodeIndex * ctx.superblock.sInodeSize.toNat % 2 ^ 32
    let (_, fe) ← ext2LoadBuffer fe inodeBlock (UInt32.ofNat (offset % bs))
    let buffer ← ext2WriteBuffer fe.buffer (Inode.packed.bytes fe.inode) offset
    let (_, fe) ← ext2StoreBuffer { fe with buffer := buffer }
    pure (0, { fe with flags := { fe.flags with fsDirty := false } })
  else pure (0, fe)

/-- `ext2_open_inode`. -/
def ext2OpenInode (fe : FileEnt) (inode : UInt32) : Drv (Int × FileEnt) := do
  let ctx ← getCtx
  let blockGroup ← udiv (inode - 1).toNat ctx.superblock.sInodesPerGroup.toNat
  let inodeIndex ← umod (inode - 1).toNat ctx.superblock.sInodesPerGroup.toNat
  if ctx.superblock.sInodesCount.toNat < inode.toNat ∨ inode.toNat = 0 then pure (-1, fe)
  else
    let bgBlock ← shl (ctx.superblockBlock + 1) (ctx.superblock.sLogBlockSize + 1)
    let bgBlock := bgBlock + UInt32.ofNat (blockGroup * 32 % 2 ^ 32 / 512)
    readSysbuf (bgBlock + ctx.partStart)
    let ctx ← getCtx
    let table := (BlockGroupDescriptor.packed.get fun k =>
      Window.item ctx.sysbuf (blockGroup * 32 % 512 + k)).bgInodeTable
    let inodeBlock ← shl table (ctx.superblock.sLogBlockSize + 1)
    let perSector ← udiv 512 ctx.superblock.sInodeSize.toNat
    let skip ← udiv inodeIndex perSector
    readSysbuf (inodeBlock + UInt32.ofNat skip + ctx.partStart)
    let ctx ← getCtx
    let start := inodeIndex % perSector * ctx.superblock.sInodeSize.toNat
    if start + 128 ≤ 512 then
      pure (0, { fe with
        inode := Inode.packed.get fun k => Window.item ctx.sysbuf (start + k)
        inodeNumber := inode
        flags := ⟨true, false, false, false⟩
        cursor := 0 })
    else Prog.fault .outOfBounds

def ext2UpdateAtime (fe : FileEnt) : Drv FileEnt := do
  let t ← timeNull
  pure { fe with inode := { fe.inode with iAtime := t }, flags := { fe.flags with fsDirty := true } }

def ext2UpdateMtime (fe : FileEnt) : Drv FileEnt := do
  let t ← timeNull
  pure { fe with inode := { fe.inode with iMtime := t }, flags := { fe.flags with fsDirty := true } }

end Embext
