import Embext.Implementation.Path

set_option autoImplicit false

/-! # Mounting

`is_power`, `ext2_mount` and `ext2_umount`. -/

namespace Embext

/-- The loop of `is_power`: divide `x` by `ofy` while it divides. -/
def isPowerLoop : Nat → Nat → Nat → Nat
  | 0, x, _ => x
  | fuel + 1, x, ofy => if x % ofy = 0 then isPowerLoop fuel (x / ofy) ofy else x

/-- `is_power(x, ofy)`, for the positive `x` it is called with; each division by `ofy ≥ 2` shrinks
    `x`, so `x` iterations are enough. -/
def isPower (x ofy : Nat) : Bool := isPowerLoop x x ofy = 1

/-- The test of `ext2_mount` for a group that carries a superblock under `sparse_super`; the
    arguments of `is_power` stand the way the source has them. -/
def carriesSuperblock (i : Nat) : Bool :=
  i = 0 || i = 1 || isPower 3 i || isPower 5 i || isPower 7 i

/-- `num_blockgroups`. -/
def numBlockgroups (sb : Superblock) : Nat :=
  sb.sBlocksCount.toNat / sb.sBlocksPerGroup.toNat +
    if sb.sBlocksCount.toNat % sb.sBlocksPerGroup.toNat ≠ 0 then 1 else 0

/-- `superblock_block`. -/
def superblockBlock (sb : Superblock) : UInt32 := if sb.sLogBlockSize = 0 then 1 else 0

/-- `sparse`. -/
def isSparse (sb : Superblock) : Bool :=
  sb.sRevLevel = 1 ∧ sb.sFeatureRoCompat &&& ext2FeatureRoCompatSparseSuper ≠ 0

/-- The groups listed in `superblock_blocks`. -/
def superblockGroups (sb : Superblock) : List Nat :=
  (List.range (numBlockgroups sb)).filter fun i => !isSparse sb || carriesSuperblock i

/-- `superblock_blocks`, as the two passes below leave it. -/
def superblockBlocks (sb : Superblock) : List UInt32 :=
  (superblockGroups sb).map fun i =>
    UInt32.ofNat (i * sb.sBlocksPerGroup.toNat + (superblockBlock sb).toNat)

/-- The pass of `ext2_mount` that counts the groups with a copy, under `sparse_super`. -/
def countSuperblocks : List Nat → Nat → Nat
  | [], n => n
  | i :: rest, n => countSuperblocks rest (if carriesSuperblock i then n + 1 else n)

/-- `num_superblocks`, the length of the array `ext2_mount` allocates. -/
def numSuperblocks (sb : Superblock) : Nat :=
  if isSparse sb then countSuperblocks (List.range (numBlockgroups sb)) 0 else numBlockgroups sb

/-- The pass that fills the array of `size` entries; `blocks` are the ones filled in so far. -/
def fillSuperblocks (sb : Superblock) (size : Nat) :
    List Nat → List UInt32 → Except Fault (List UInt32)
  | [], blocks => .ok blocks
  | i :: rest, blocks =>
    if isSparse sb && !carriesSuperblock i then fillSuperblocks sb size rest blocks
    else if blocks.length < size then
      fillSuperblocks sb size rest (blocks ++
        [UInt32.ofNat (i * sb.sBlocksPerGroup.toNat + (superblockBlock sb).toNat)])
    else .error .outOfBounds

/-- The superblock found in the sector `ext2_mount` reads. -/
def Sector.superblock (s : Sector) : Superblock := Superblock.packed.get (Window.item s)

/-- The context `ext2_mount` has built when it reaches its final flush. `sysbuf` still holds the
    superblock's sector. -/
def mountedContext (readOnly : Bool) (partStart : UInt32) (sysbuf : Sector) (mtime : UInt32) :
    Ext2Context :=
  let sb := Sector.superblock sysbuf
  { partStart := partStart
    superblock := { sb with
      sMtime := mtime
      sMntCount := sb.sMntCount + 1
      sState := ext2ErrorFs }
    sparse := isSparse sb
    sysbuf := sysbuf
    superblockBlock := superblockBlock sb
    readOnly := readOnly
    numBlockgroups := UInt32.ofNat (numBlockgroups sb)
    superblockBlocks := superblockBlocks sb }

/-- `ext2_mount`. The context comes from `malloc`, so `sysbuf` has the bytes `garbage` until the
    first successful read. On success the new context is the machine's; the return value -1 leaves
    the machine's context as it was. -/
def ext2Mount (garbage : Sector) (partStart volumeSize : UInt32) : Drv Int := do
  let (_, sysbuf) ← blockRead (partStart + 2) garbage
  let sb := Sector.superblock sysbuf
  if sb.sMagic ≠ ext2SuperMagic then pure (-1)
  else
    let scaled ← shl sb.sBlocksCount sb.sLogBlockSize
    if volumeSize.toNat < scaled.toNat then pure (-1)
    else
      let readOnly ← blockGetDeviceReadOnly
      let _ ← udiv sb.sBlocksCount.toNat sb.sBlocksPerGroup.toNat
      let mtime ← timeNull
      setCtx (mountedContext readOnly partStart sysbuf mtime)
      let _ ← ext2FlushSuperblock
      pure 0

/-- `ext2_umount`. -/
def ext2Umount : Drv Int := do
  let ctx ← getCtx
  setCtx { ctx with superblock := { ctx.superblock with sState := ext2ValidFs } }
  let _ ← ext2FlushSuperblock
  pure 0

end Embext
