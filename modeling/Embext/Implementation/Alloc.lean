import Embext.Implementation.Groups

set_option autoImplicit false

/-! # Allocation of blocks and inodes

`ext2_change_allocated`, `ext2_allocate_inode`, `ext2_allocate_block` and `ext2_truncate_file`. The
two allocators choose the group and scan its bitmap with the same two loops, written once here. -/

namespace Embext

/-! ## The two loops shared by the allocators -/

/-- `for(i = 0; i < num_blockgroups; i++)`: the group whose descriptor records the most free items
    (`free`), with that count; the first such group wins. `n` groups are left, `i` is the next. -/
def mostFreeGroup (free : BlockGroupDescriptor → UInt16) :
    Nat → UInt32 → UInt16 → UInt32 → Drv (UInt16 × UInt32)
  | 0, _, most, group => pure (most, group)
  | n + 1, i, most, group => do
    let bg ← ext2BgDescriptor i
    if most.toNat < (free bg).toNat then mostFreeGroup free n (i + 1) (free bg) i
    else mostFreeGroup free n (i + 1) most group

/-- `for(j = 0; j < 8; j++)`: the first clear bit of a bitmap byte. -/
def firstClearBit (b : UInt8) : Option Nat :=
  (List.range 8).find? fun j => !b.toNat.testBit j

/-- A bitmap byte with its bit `j` set. -/
def setBit (b : UInt8) (j : Nat) : UInt8 := UInt8.ofNat (b.toNat ||| 2 ^ j)

/-- A bitmap byte with its bit `j` clear. -/
def clearBit (b : UInt8) (j : Nat) : UInt8 :=
  if b.toNat.testBit j then UInt8.ofNat (b.toNat - 2 ^ j) else b

/-- The byte-by-byte scan of the bitmap in block `bitmap`: byte `i` goes through the handle's
    buffer. The result is the first byte with a clear bit, its value and the bit. -/
def scanBitmap (bitmap : UInt32) :
    Nat → Nat → FileEnt → Drv (Option (Nat × UInt8 × Nat) × FileEnt)
  | 0, _, fe => pure (none, fe)
  | n + 1, i, fe => do
    let (_, fe) ← ext2LoadBuffer fe bitmap (UInt32.ofNat i)
    let byte ← ext2ReadBuffer fe.buffer i 1
    let b := byte.headD 0
    match firstClearBit b with
    | some j => pure (some (i, b, j), fe)
    | none => scanBitmap bitmap n (i + 1) fe

/-! ## Blocks -/

/-- `ext2_change_allocated`. `bg_block_bitmap` is used as a sector number, without the factor
    `block_size / 512`. -/
def ext2ChangeAllocated (block : UInt32) (allocated : Bool) (forDirectory : Bool) : Drv Int := do
  let ctx ← getCtx
  let group ← udiv block.toNat ctx.superblock.sBlocksPerGroup.toNat
  let bg ← ext2BgDescriptor (UInt32.ofNat group)
  let bitmapOffset ← umod block.toNat ctx.superblock.sBlocksPerGroup.toNat
  let lba := UInt32.ofNat (bg.bgBlockBitmap.toNat + bitmapOffset / 8 / 512)
  readSysbuf (lba + ctx.partStart)
  let ctx ← getCtx
  let byte := Window.item ctx.sysbuf (bitmapOffset / 8 % 512)
  -- the bit is already in the requested state: report failure, write nothing
  if byte.toNat.testBit (bitmapOffset % 8) = allocated then pure (-1)
  else
    let byte := if allocated then setBit byte (bitmapOffset % 8)
      else clearBit byte (bitmapOffset % 8)
    let buf := Window.patch ctx.sysbuf (bitmapOffset / 8 % 512) [byte]
    setSysbuf buf
    let _ ← blockWrite (lba + ctx.partStart) buf
    let dirs : UInt16 := if forDirectory then 1 else 0
    let bg := if allocated then
        { bg with
          bgFreeBlocksCount := bg.bgFreeBlocksCount - 1
          bgUsedDirsCount := bg.bgUsedDirsCount + dirs }
      else
        { bg with
          bgFreeBlocksCount := bg.bgFreeBlocksCount + 1
          bgUsedDirsCount := bg.bgUsedDirsCount - dirs }
    let _ ← ext2WriteBgDescriptor bg (UInt32.ofNat group)
    let ctx ← getCtx
    let sb := ctx.superblock
    setCtx { ctx with superblock := { sb with
      sFreeBlocksCount := if allocated then sb.sFreeBlocksCount - 1
        else sb.sFreeBlocksCount + 1 } }
    pure 0

/-- `ext2_allocate_block`; 0 means that no block was allocated. `previous_block` is not used. -/
def ext2AllocateBlock (fe : FileEnt) (_previousBlock : UInt32) : Drv (UInt32 × FileEnt) := do
  let ctx ← getCtx
  let (most, group) ← mostFreeGroup (·.bgFreeBlocksCount) ctx.numBlockgroups.toNat 0 0 0
  if most = 0 then pure (0, { fe with rerrno := .enospc })
  else
    let bg ← ext2BgDescriptor group
    let (found, fe) ← scanBitmap bg.bgBlockBitmap (ctx.superblock.sBlocksPerGroup.toNat / 8) 0 fe
    match found with
    | none => pure (0, fe)
    | some (i, _, j) =>
      let blockNo := UInt32.ofNat
        (ctx.superblock.sBlocksPerGroup.toNat * group.toNat + i * 8 + j + 1)
      let r ← ext2ChangeAllocated blockNo true (fe.inode.iMode &&& ext2SIfdir ≠ 0)
      if r ≠ 0 then pure (0, fe) else pure (blockNo, fe)

/-! ## Inodes -/

/-- `ext2_allocate_inode`. The number goes to `fe.inodeNumber`. -/
def ext2AllocateInode (fe : FileEnt) : Drv (Int × FileEnt) := do
  let ctx ← getCtx
  let (most, group) ← mostFreeGroup (·.bgFreeInodesCount) ctx.numBlockgroups.toNat 0 0 0
  if most = 0 then pure (-1, { fe with rerrno := .enospc })
  else
    let bg ← ext2BgDescriptor group
    let ipg := ctx.superblock.sInodesPerGroup.toNat
    let (found, fe) ← scanBitmap bg.bgInodeBitmap (ipg / 8) 0 fe
    match found with
    | none =>
      -- with fewer than 8 inodes in a group the loop body never ran and `j` was never assigned
      if 0 < ipg ∧ ipg / 8 = 0 then Prog.fault .uninitialized
      else pure (-1, { fe with rerrno := .eio })
    | some (i, b, j) =>
      let fe := { fe with inodeNumber := UInt32.ofNat (ipg * group.toNat + i * 8 + j + 1) }
      let buffer ← ext2WriteBuffer fe.buffer [setBit b j] i
      let (_, fe) ← ext2StoreBuffer { fe with buffer := buffer }
      let bg := { bg with bgFreeInodesCount := bg.bgFreeInodesCount - 1 }
      let _ ← ext2WriteBgDescriptor bg group
      let ctx ← getCtx
      setCtx { ctx with superblock := { ctx.superblock with
        sFreeInodesCount := ctx.superblock.sFreeInodesCount - 1 } }
      let _ ← ext2FlushSuperblock
      pure (0, fe)

/-! ## Truncation -/

/-- One pointer of the table in block `table`, read through the handle's buffer. -/
def ext2ReadPointer (fe : FileEnt) (table : UInt32) (i : Nat) : Drv (UInt32 × FileEnt) := do
  let (_, fe) ← ext2LoadBuffer fe table (UInt32.ofNat (i * 4))
  let block ← ext2ReadBufferU32 fe.buffer (i * 4)
  pure (block, fe)

/-- `for(i = 0; i < indirect_entries; i++)` over the pointers of `table`, up to the first zero. -/
def forPointers (table : UInt32) (body : UInt32 → FileEnt → Drv FileEnt) :
    Nat → Nat → FileEnt → Drv FileEnt
  | 0, _, fe => pure fe
  | n + 1, i, fe => do
    let (block, fe) ← ext2ReadPointer fe table i
    if block ≠ 0 then
      let fe ← body block fe
      forPointers table body n (i + 1) fe
    else pure fe

/-- `ext2_change_allocated(.., EXT2_DEALLOCATED, isdir)` with its result dropped. -/
def ext2Deallocate (isdir : Bool) (block : UInt32) (fe : FileEnt) : Drv FileEnt := do
  let _ ← ext2ChangeAllocated block false isdir
  pure fe

def FileEnt.setBlock (fe : FileEnt) (k : Fin 15) (b : UInt32) : FileEnt :=
  { fe with inode := { fe.inode with iBlock := Function.update fe.inode.iBlock k b } }

/-- The twelve direct pointers. -/
def ext2TruncateDirect (isdir : Bool) : List (Fin 15) → FileEnt → Drv FileEnt
  | [], fe => pure fe
  | k :: rest, fe => do
    if fe.inode.iBlock k ≠ 0 then
      let fe ← ext2Deallocate isdir (fe.inode.iBlock k) fe
      ext2TruncateDirect isdir rest (fe.setBlock k 0)
    else ext2TruncateDirect isdir rest (fe.setBlock k 0)

/-- The singly indirect blocks: `free` deallocates one block, `entries` pointers to a table. -/
def ext2TruncateSingle (free : UInt32 → FileEnt → Drv FileEnt) (entries : Nat) (fe : FileEnt) :
    Drv FileEnt := do
  if fe.inode.iBlock 12 ≠ 0 then
    let fe ← forPointers (fe.inode.iBlock 12) free entries 0 fe
    let fe ← free (fe.inode.iBlock 12) fe
    pure (fe.setBlock 12 0)
  else pure fe

/-- The doubly indirect blocks. -/
def ext2TruncateDouble (free : UInt32 → FileEnt → Drv FileEnt) (entries : Nat) (fe : FileEnt) :
    Drv FileEnt := do
  if fe.inode.iBlock 13 ≠ 0 then
    let fe ← forPointers (fe.inode.iBlock 13) (fun block fe => do
      let fe ← forPointers block free entries 0 fe
      free block fe) entries 0 fe
    let fe ← free (fe.inode.iBlock 13) fe
    pure (fe.setBlock 13 0)
  else pure fe

/-- The triply indirect blocks. The walk starts from `i_block[13]`, and its innermost loop reads the
    pointers of `block` where `block2` holds them. -/
def ext2TruncateTriple (free : UInt32 → FileEnt → Drv FileEnt) (entries : Nat) (fe : FileEnt) :
    Drv FileEnt := do
  if fe.inode.iBlock 14 ≠ 0 then
    let fe ← forPointers (fe.inode.iBlock 13) (fun block fe => do
      let fe ← forPointers block (fun block2 fe => do
        let fe ← forPointers block free entries 0 fe
        free block2 fe) entries 0 fe
      free block fe) entries 0 fe
    let fe ← free (fe.inode.iBlock 14) fe
    pure (fe.setBlock 14 0)
  else pure fe

/-- `ext2_truncate_file`. -/
def ext2TruncateFile (fe : FileEnt) : Drv (Int × FileEnt) := do
  let bs ← ext2BlockSize
  let entries := bs / 4
  let isdir := decide (fe.inode.iMode &&& ext2SIfdir ≠ 0)
  let fe ← ext2TruncateDirect isdir (List.ofFn fun k : Fin 12 => k.castLE (by decide)) fe
  let fe ← ext2TruncateSingle (ext2Deallocate isdir) entries fe
  let fe ← ext2TruncateDouble (ext2Deallocate isdir) entries fe
  let fe ← ext2TruncateTriple (ext2Deallocate isdir) entries fe
  pure (0, { fe with inode := { fe.inode with iSize := 0, iBlocks := 0 } })

end Embext
