import Embext.Proofs.Buffer

set_option autoImplicit false

/-! # A small volume

One block group of 63 blocks of 1 KiB, 16 inodes of 128 bytes: superblock in block 1, descriptors
in block 2, the bitmaps in blocks 3 and 4, the inode table in blocks 5 and 6, the root directory in
block 7. The root holds `f` (inode 11, 1000 bytes in block 8) and `e` (inode 12, empty). The
concrete runs of the development start from it. -/

namespace Embext.SmallVolume

/-- A sector that is zero but for some byte strings. -/
def sectorOf (parts : List (Nat × List UInt8)) : Sector :=
  parts.foldl (fun s p => Window.patch s p.1 p.2) fun _ => 0

/-- A directory record's header and name. -/
def dirRecord (inode : UInt32) (recLen : UInt16) (name : List UInt8) : List UInt8 :=
  Ext2DirHeader.packed.bytes ⟨inode, recLen, UInt8.ofNat name.length, 0⟩ ++ name

def superblock : Superblock :=
  { Superblock.packed.get fun _ => 0 with
    sInodesCount := 16
    sBlocksCount := 64
    sFreeBlocksCount := 55
    sFreeInodesCount := 4
    sFirstDataBlock := 1
    sBlocksPerGroup := 64
    sInodesPerGroup := 16
    sMagic := ext2SuperMagic
    sState := ext2ValidFs
    sMaxMntCount := 20
    sInodeSize := 128 }

def descriptor : BlockGroupDescriptor where
  bgBlockBitmap := 3
  bgInodeBitmap := 4
  bgInodeTable := 5
  bgFreeBlocksCount := 55
  bgFreeInodesCount := 4
  bgUsedDirsCount := 1
  bgPad := 0
  bgReserved := fun _ => 0

def rootInode : Inode :=
  { Inode.zero with
    iMode := 0x41ED
    iSize := 1024
    iLinksCount := 2
    iBlock := fun k => if k = 0 then 7 else 0 }

def fInode : Inode :=
  { Inode.zero with
    iMode := 0x81A4
    iSize := 1000
    iLinksCount := 1
    iBlock := fun k => if k = 0 then 8 else 0 }

def eInode : Inode := { Inode.zero with iMode := 0x81A4, iLinksCount := 1 }

def disk (s : UInt32) : Sector :=
  if s = 2 then sectorOf [(0, Superblock.packed.bytes superblock)]
  else if s = 4 then sectorOf [(0, BlockGroupDescriptor.packed.bytes descriptor)]
  else if s = 6 then sectorOf [(0, [0xFF])]
  else if s = 8 then sectorOf [(0, [0xFF, 0x0F])]
  else if s = 10 then sectorOf [(128, Inode.packed.bytes rootInode)]
  else if s = 12 then
    sectorOf [(256, Inode.packed.bytes fInode), (384, Inode.packed.bytes eInode)]
  else if s = 14 then
    sectorOf [(0, dirRecord 2 12 [46]), (12, dirRecord 2 12 [46, 46]), (24, dirRecord 11 12 [102]),
      (36, dirRecord 12 988 [101])]
  else fun _ => 0

/-- A driver whose transfers all succeed. -/
def host : Host where
  fails := fun _ => false
  clock := fun n => UInt32.ofNat (1000 + n)
  readOnly := false
  uid := 0
  gid := 0
  patience := 100

/-- The context after mounting the volume. -/
def ctx : Ext2Context := mountedContext host.readOnly 0 (disk 2) 1000

/-- The mounted volume. -/
def machine : Machine where
  disk := disk
  log := []
  ticks := 1
  ctx := ctx
  rerrno := .other 0
  dName := fun _ => 0

theorem host_reliable : host.Reliable := fun _ => rfl

theorem machine_sane : machine.ctx.SaneBlockSize := by
  unfold Ext2Context.SaneBlockSize
  decide +kernel

/-- `"/f"` -/
def pathF : List UInt8 := [47, 102]

/-- `"/e"` -/
def pathE : List UInt8 := [47, 101]

end Embext.SmallVolume
