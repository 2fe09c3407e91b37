import Embext.Library.Packed
import Embext.Library.Program
import Embext.Library.Window

set_option autoImplicit false

/-! # Data of the driver

The on-disk records of `embext.h` with their packed layouts, the run-time structures
(`ext2context`, `file_ent`), and the machine a driver call runs on: a block device whose transfers
may fail, a clock, the caller's error location and the `static struct dirent` of `ext2_readdir`.

32- and 16-bit fields are `UInt32` and `UInt16`. The flag words of a handle and of `ext2_open` are
records with one `Bool` for each bit the code tests. -/

namespace Embext

/-- One 512-byte sector, the unit of `block_read` and `block_write`. -/
abbrev Sector := Fin 512 → UInt8

instance sector_neZero : NeZero 512 := ⟨by decide⟩

/-- The length of `i_block`. -/
instance iBlock_neZero : NeZero 15 := ⟨by decide⟩

/-! ## Constants of `embext.h`, `errno.h` -/

def maxPathLen : Nat := 1024
def maxPathLevels : Nat := 100

def ext2SuperMagic : UInt16 := 0xEF53

def ext2ValidFs : UInt16 := 1
def ext2ErrorFs : UInt16 := 2

def ext2RootIno : UInt32 := 2

def ext2SIfreg : UInt16 := 0x8000
def ext2SIfdir : UInt16 := 0x4000

def ext2FeatureRoCompatSparseSuper : UInt32 := 0x0001

def embextMagic : UInt32 := 0xEBEDDED2

def int64Max : Int := 2 ^ 63 - 1

/-- The error codes the driver stores through `rerrno`; `other` is whatever the caller had there. -/
inductive Errno where
  | enoent | eio | ebadf | eexist | eisdir | einval | enospc | erofs | enotty | eoverflow
  | other (code : Nat)
  deriving DecidableEq, Repr

/-! ## On-disk records -/

/-- `struct superblock`. -/
structure Superblock where
  sInodesCount : UInt32
  sBlocksCount : UInt32
  sRBlocksCount : UInt32
  sFreeBlocksCount : UInt32
  sFreeInodesCount : UInt32
  sFirstDataBlock : UInt32
  sLogBlockSize : UInt32
  sLogFragSize : UInt32
  sBlocksPerGroup : UInt32
  sFragsPerGroup : UInt32
  sInodesPerGroup : UInt32
  sMtime : UInt32
  sWtime : UInt32
  sMntCount : UInt16
  sMaxMntCount : UInt16
  sMagic : UInt16
  sState : UInt16
  sErrors : UInt16
  sMinorRevLevel : UInt16
  sLastcheck : UInt32
  sCheckinterval : UInt32
  sCreatorOs : UInt32
  sRevLevel : UInt32
  sDefResuid : UInt16
  sDefResgid : UInt16
  sFirstIno : UInt32
  sInodeSize : UInt16
  sBlockGroupNr : UInt16
  sFeatureCompat : UInt32
  sFeatureIncompat : UInt32
  sFeatureRoCompat : UInt32
  sUuid : Fin 16 → UInt8
  sVolumeName : Fin 16 → UInt8
  sLastMounted : Fin 64 → UInt8
  sAlgoBitmap : UInt32
  sPreallocBlocks : UInt8
  sPreallocDirBlocks : UInt8
  alignment1 : Fin 2 → UInt8
  sJournalUuid : Fin 16 → UInt8
  sJournalInum : UInt32
  sJournalDev : UInt32
  sLastOrphan : UInt32
  sHashSeed : Fin 4 → UInt32
  sDefHashVersion : UInt8
  alignment2 : Fin 3 → UInt8
  sDefaultMountOptions : UInt32
  sFirstMetaBg : UInt32

/-- `struct block_group_descriptor`. -/
structure BlockGroupDescriptor where
  bgBlockBitmap : UInt32
  bgInodeBitmap : UInt32
  bgInodeTable : UInt32
  bgFreeBlocksCount : UInt16
  bgFreeInodesCount : UInt16
  bgUsedDirsCount : UInt16
  bgPad : UInt16
  bgReserved : Fin 12 → UInt8

/-- `struct inode`. -/
structure Inode where
  iMode : UInt16
  iUid : UInt16
  iSize : UInt32
  iAtime : UInt32
  iCtime : UInt32
  iMtime : UInt32
  iDtime : UInt32
  iGid : UInt16
  iLinksCount : UInt16
  iBlocks : UInt32
  iFlags : UInt32
  iOsd1 : UInt32
  iBlock : Fin 15 → UInt32
  iGeneration : UInt32
  iFileAcl : UInt32
  iDirAcl : UInt32
  iFaddr : UInt32
  iOsd2 : Fin 12 → UInt8

/-- `struct ext2_dir_header`; its fields are aligned, so the compiler adds no padding. -/
structure Ext2DirHeader where
  inode : UInt32
  recLen : UInt16
  nameLen : UInt8
  fileType : UInt8

/-! ## Packed layouts -/

open Packed in
/-- The 264 bytes of a superblock. -/
def Superblock.packed : Packed Superblock :=
  (pair u32 <| pair u32 <| pair u32 <| pair u32 <| pair u32 <| pair u32 <| pair u32 <| pair u32 <|
    pair u32 <| pair u32 <| pair u32 <| pair u32 <| pair u32 <| pair u16 <| pair u16 <| pair u16 <|
    pair u16 <| pair u16 <| pair u16 <| pair u32 <| pair u32 <| pair u32 <| pair u32 <| pair u16 <|
    pair u16 <| pair u32 <| pair u16 <| pair u16 <| pair u32 <| pair u32 <| pair u32 <|
    pair (array u8 16) <| pair (array u8 16) <| pair (array u8 64) <| pair u32 <| pair u8 <|
    pair u8 <| pair (array u8 2) <| pair (array u8 16) <| pair u32 <| pair u32 <| pair u32 <|
    pair (array u32 4) <| pair u8 <| pair (array u8 3) <| pair u32 u32).record
  { toFun := fun (a1, a2, a3, a4, a5, a6, a7, a8, a9, a10, a11, a12, a13, a14, a15, a16, a17, a18,
        a19, a20, a21, a22, a23, a24, a25, a26, a27, a28, a29, a30, a31, a32, a33, a34, a35, a36,
        a37, a38, a39, a40, a41, a42, a43, a44, a45, a46, a47) =>
      ⟨a1, a2, a3, a4, a5, a6, a7, a8, a9, a10, a11, a12, a13, a14, a15, a16, a17, a18, a19, a20,
        a21, a22, a23, a24, a25, a26, a27, a28, a29, a30, a31, a32, a33, a34, a35, a36, a37, a38,
        a39, a40, a41, a42, a43, a44, a45, a46, a47⟩
    invFun := fun s =>
      (s.sInodesCount, s.sBlocksCount, s.sRBlocksCount, s.sFreeBlocksCount, s.sFreeInodesCount,
        s.sFirstDataBlock, s.sLogBlockSize, s.sLogFragSize, s.sBlocksPerGroup, s.sFragsPerGroup,
        s.sInodesPerGroup, s.sMtime, s.sWtime, s.sMntCount, s.sMaxMntCount, s.sMagic, s.sState,
        s.sErrors, s.sMinorRevLevel, s.sLastcheck, s.sCheckinterval, s.sCreatorOs, s.sRevLevel,
        s.sDefResuid, s.sDefResgid, s.sFirstIno, s.sInodeSize, s.sBlockGroupNr, s.sFeatureCompat,
        s.sFeatureIncompat, s.sFeatureRoCompat, s.sUuid, s.sVolumeName, s.sLastMounted,
        s.sAlgoBitmap, s.sPreallocBlocks, s.sPreallocDirBlocks, s.alignment1, s.sJournalUuid,
        s.sJournalInum, s.sJournalDev, s.sLastOrphan, s.sHashSeed, s.sDefHashVersion, s.alignment2,
        s.sDefaultMountOptions, s.sFirstMetaBg)
    left_inv := fun _ => rfl
    right_inv := fun _ => rfl }

open Packed in
/-- The 32 bytes of a block group descriptor. -/
def BlockGroupDescriptor.packed : Packed BlockGroupDescriptor :=
  (pair u32 <| pair u32 <| pair u32 <| pair u16 <| pair u16 <| pair u16 <| pair u16
    (array u8 12)).record
  { toFun := fun (a, b, c, d, e, f, g, h) => ⟨a, b, c, d, e, f, g, h⟩
    invFun := fun s => (s.bgBlockBitmap, s.bgInodeBitmap, s.bgInodeTable, s.bgFreeBlocksCount,
      s.bgFreeInodesCount, s.bgUsedDirsCount, s.bgPad, s.bgReserved)
    left_inv := fun _ => rfl
    right_inv := fun _ => rfl }

open Packed in
/-- The 128 bytes of an inode. -/
def Inode.packed : Packed Inode :=
  (pair u16 <| pair u16 <| pair u32 <| pair u32 <| pair u32 <| pair u32 <| pair u32 <| pair u16 <|
    pair u16 <| pair u32 <| pair u32 <| pair u32 <| pair (array u32 15) <| pair u32 <| pair u32 <|
    pair u32 <| pair u32 (array u8 12)).record
  { toFun := fun (a1, a2, a3, a4, a5, a6, a7, a8, a9, a10, a11, a12, a13, a14, a15, a16, a17,
        a18) =>
      ⟨a1, a2, a3, a4, a5, a6, a7, a8, a9, a10, a11, a12, a13, a14, a15, a16, a17, a18⟩
    invFun := fun s => (s.iMode, s.iUid, s.iSize, s.iAtime, s.iCtime, s.iMtime, s.iDtime, s.iGid,
      s.iLinksCount, s.iBlocks, s.iFlags, s.iOsd1, s.iBlock, s.iGeneration, s.iFileAcl, s.iDirAcl,
      s.iFaddr, s.iOsd2)
    left_inv := fun _ => rfl
    right_inv := fun _ => rfl }

open Packed in
/-- The 8 bytes of a directory record's header. -/
def Ext2DirHeader.packed : Packed Ext2DirHeader :=
  (pair u32 <| pair u16 <| pair u8 u8).record
  { toFun := fun (a, b, c, d) => ⟨a, b, c, d⟩
    invFun := fun s => (s.inode, s.recLen, s.nameLen, s.fileType)
    left_inv := fun _ => rfl
    right_inv := fun _ => rfl }

theorem Superblock.packed_size : Superblock.packed.size = 264 := rfl

theorem BlockGroupDescriptor.packed_size : BlockGroupDescriptor.packed.size = 32 := rfl

theorem Inode.packed_size : Inode.packed.size = 128 := rfl

theorem Ext2DirHeader.packed_size : Ext2DirHeader.packed.size = 8 := rfl

/-! ## Run-time structures -/

/-- `struct ext2context`. `num_superblocks` is the length of `superblock_blocks`. -/
structure Ext2Context where
  partStart : UInt32
  superblock : Superblock
  sparse : Bool
  sysbuf : Sector
  superblockBlock : UInt32
  readOnly : Bool
  numBlockgroups : UInt32
  superblockBlocks : List UInt32

/-- `struct buffer_object`: the one-sector write-back buffer of a handle. -/
structure BufferObject where
  buffer : Sector
  lbaBlock : UInt32
  dirty : Bool

/-- The bits of `file_ent.flags` (`EXT2_FLAG_READ` to `EXT2_FLAG_FS_DIRTY`). -/
structure FileFlags where
  read : Bool
  write : Bool
  append : Bool
  fsDirty : Bool
  deriving DecidableEq

/-- `struct file_ent`; the context it points to is the one the machine holds. -/
structure FileEnt where
  magic : UInt32
  flags : FileFlags
  cursor : Int
  inodeNumber : UInt32
  buffer : BufferObject
  inode : Inode
  rerrno : Errno

/-- The bits of `ext2_open`'s `flags` argument. -/
structure OpenFlags where
  wronly : Bool
  rdwr : Bool
  append : Bool
  creat : Bool
  excl : Bool
  trunc : Bool
  deriving DecidableEq

/-- `O_RDONLY`. -/
def oRdonly : OpenFlags := ⟨false, false, false, false, false, false⟩

/-- `O_RDWR`. -/
def oRdwr : OpenFlags := { oRdonly with rdwr := true }

/-- `O_WRONLY`. -/
def oWronly : OpenFlags := { oRdonly with wronly := true }

/-- The record `memset` to zero leaves. -/
def Inode.zero : Inode where
  iMode := 0
  iUid := 0
  iSize := 0
  iAtime := 0
  iCtime := 0
  iMtime := 0
  iDtime := 0
  iGid := 0
  iLinksCount := 0
  iBlocks := 0
  iFlags := 0
  iOsd1 := 0
  iBlock := fun _ => 0
  iGeneration := 0
  iFileAcl := 0
  iDirAcl := 0
  iFaddr := 0
  iOsd2 := fun _ => 0

/-- A handle fresh from `malloc` and `memset`, with its magic set. -/
def FileEnt.fresh : FileEnt where
  magic := embextMagic
  flags := ⟨false, false, false, false⟩
  cursor := 0
  inodeNumber := 0
  buffer := ⟨fun _ => 0, 0, false⟩
  inode := Inode.zero
  rerrno := .other 0

/-! ## The machine -/

/-- One call of `block_read` or `block_write`, with whether it returned 0. -/
inductive Transfer where
  | read (sector : UInt32) (ok : Bool)
  | write (sector : UInt32) (ok : Bool)
  deriving DecidableEq

/-- What the driver is given from outside: which transfers of the block driver fail (by their
    number since the start), what `time(NULL)` returns at each call, the read-only switch, the user
    and group, and how many iterations a loop without a bound of its own is followed. -/
structure Host where
  fails : Nat → Bool
  clock : Nat → UInt32
  readOnly : Bool
  uid : UInt16
  gid : UInt16
  patience : Nat

/-- What a call can change: the sectors of the device, the transfers issued (newest first), the
    number of clock readings, the mounted context, `*rerrno` and the static `d_name`. -/
structure Machine where
  disk : UInt32 → Sector
  log : List Transfer
  ticks : Nat
  ctx : Ext2Context
  rerrno : Errno
  dName : Fin 256 → UInt8

/-- Ways a call leaves the behaviour that C defines, or does not return. -/
inductive Fault where
  /-- a copy beyond the end of an array -/
  | outOfBounds
  /-- a division or remainder by zero -/
  | divByZero
  /-- a shift by at least the operand's width, or one that overflows `int` -/
  | badShift
  /-- a read of a variable that was never assigned -/
  | uninitialized
  /-- a use of memory that was freed -/
  | useAfterFree
  /-- a loop still running after `Host.patience` iterations -/
  | noReturn
  deriving DecidableEq, Repr

/-- A driver call. -/
abbrev Drv (α : Type) := Prog Host Fault Machine α

end Embext
