import Embext.Implementation.Types

set_option autoImplicit false

/-! # The partition table

`partition.c`: the four entries of a master boot record, checked against the size of the volume and
gathered in a static list. -/

namespace Embext

/-- `PARTITION0START`. -/
def partition0Start : Nat := 0x1BE

/-- `mbr_entry`. -/
structure MbrEntry where
  bootable : UInt8
  chs : Fin 3 → UInt8
  type : UInt8
  chsEnd : Fin 3 → UInt8
  lbaStart : UInt32
  length : UInt32

open Packed in
/-- The 16 bytes of an entry. -/
def MbrEntry.packed : Packed MbrEntry :=
  (pair u8 <| pair (array u8 3) <| pair u8 <| pair (array u8 3) <| pair u32 u32).record
  { toFun := fun (a, b, c, d, e, f) => ⟨a, b, c, d, e, f⟩
    invFun := fun s => (s.bootable, s.chs, s.type, s.chsEnd, s.lbaStart, s.length)
    left_inv := fun _ => rfl
    right_inv := fun _ => rfl }

theorem MbrEntry.packed_size : MbrEntry.packed.size = 16 := rfl

/-- `struct partition`. -/
structure Partition where
  start : UInt32
  length : UInt32
  type : UInt8
  deriving DecidableEq

/-- `entry` in iteration `i`. -/
def mbrEntry (mbr : Sector) (i : Nat) : MbrEntry :=
  MbrEntry.packed.get fun k => Window.item mbr (partition0Start + 16 * i + k)

/-- What is copied from an entry. -/
def MbrEntry.partition (entry : MbrEntry) : Partition := ⟨entry.lbaStart, entry.length, entry.type⟩

/-- The test on an entry; the sum is a `uint32_t`. -/
def MbrEntry.valid (volumeSize : UInt32) (entry : MbrEntry) : Bool :=
  entry.lbaStart < volumeSize ∧ entry.lbaStart + entry.length ≤ volumeSize ∧ entry.lbaStart > 0 ∧
    entry.length > 0

/-- The static array `retval`. -/
abbrev Retval := Fin 4 → Partition

/-- The loop of `read_partition_table` over the entries that are left, with `j` found so far. -/
def readEntries (mbr : Sector) (volumeSize : UInt32) :
    List Nat → Nat → Retval → Except Fault (Nat × Retval)
  | [], j, retval => .ok (j, retval)
  | i :: rest, j, retval =>
    let entry := mbrEntry mbr i
    if entry.valid volumeSize then
      if j < 4 then
        readEntries mbr volumeSize rest (j + 1) (Window.patch retval j [entry.partition])
      else .error .outOfBounds
    else readEntries mbr volumeSize rest j retval

/-- `read_partition_table`: the return value and the array `*retlist` points to. -/
def readPartitionTable (mbr : Sector) (volumeSize : UInt32) (retval : Retval) :
    Except Fault (Nat × Retval) :=
  readEntries mbr volumeSize (List.range 4) 0 retval

end Embext
