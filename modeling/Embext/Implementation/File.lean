import Embext.Implementation.Alloc

set_option autoImplicit false

/-! # Open files

The block map of an inode (`ext2_block_from_offset`, `ext2_select_buffer`) and the calls on an open
handle: `ext2_read`, `ext2_write`, `ext2_lseek`, `ext2_fstat`, `ext2_isatty`, `ext2_readdir`,
`ext2_close`. The handle is passed in and returned; the NULL checks belong to the caller of this
layer, the magic check is here. -/

namespace Embext

/-! ## The block map -/

/-- `ext2_block_from_offset`. Products of `indirect_entries` wrap at 32 bits; the all-ones value
    stands for an offset past the largest mappable one. -/
def ext2BlockFromOffset (fe : FileEnt) (offset : Nat) : Drv (UInt32 × FileEnt) := do
  let bs ← ext2BlockSize
  let ie := bs / 4
  let index := offset / bs % 2 ^ 32
  if index < 12 then pure (fe.inode.iBlock (Fin.ofNat 15 index), fe)
  else
    let index := index - 12
    if index < ie then ext2ReadPointer fe (fe.inode.iBlock 12) index
    else
      let index := index - ie
      if index < ie * ie % 2 ^ 32 then
        let (block, fe) ← ext2ReadPointer fe (fe.inode.iBlock 13) (index / ie)
        ext2ReadPointer fe block (index % ie)
      else
        let index := index - ie * ie % 2 ^ 32
        if index < ie * ie * ie % 2 ^ 32 then
          let (block, fe) ← ext2ReadPointer fe (fe.inode.iBlock 14) (index / (ie * ie % 2 ^ 32))
          let (block, fe) ← ext2ReadPointer fe block (index / ie % ie)
          ext2ReadPointer fe block (index % ie)
        else pure (0xFFFFFFFF, fe)

/-- `ext2_select_buffer`. A block allocated here always becomes `i_block[0]`. -/
def ext2SelectBuffer (fe : FileEnt) : Drv (Int × FileEnt) := do
  let bs ← ext2BlockSize
  let (block, fe) ← ext2BlockFromOffset fe (fe.cursor % 2 ^ 64).toNat
  let previous := ((fe.cursor / bs - 1) * bs % 2 ^ 64).toNat
  let (previousBlock, fe) ← ext2BlockFromOffset fe previous
  let inBlock := UInt32.ofNat (fe.cursor % bs).toNat
  if block ≠ 0 then
    let (_, fe) ← ext2LoadBuffer fe block inBlock
    pure (0, fe)
  else if fe.flags.write then
    let (newBlock, fe) ← ext2AllocateBlock fe previousBlock
    if newBlock ≠ 0 then
      let (_, fe) ← ext2LoadBuffer (fe.setBlock 0 newBlock) newBlock inBlock
      pure (0, fe)
    else pure (-1, fe)
  else pure (-1, fe)

/-! ## Reading and writing -/

/-- A value returned as `int`. -/
def toInt32 (x : Int) : Int := (x + 2 ^ 31) % 2 ^ 32 - 2 ^ 31

/-- `amount_to_copy` of `ext2_read`: `left` bytes are still wanted, `space` is the buffer space. -/
def readAmount (left space : Nat) (fe : FileEnt) : Nat :=
  let amount := if space < left then space else left
  if (fe.inode.iSize.toNat : Int) - fe.cursor < amount then
    ((fe.inode.iSize.toNat : Int) - fe.cursor).toNat
  else amount

/-- `amount_to_copy` of `ext2_write`. -/
def writeAmount (left space : Nat) : Nat := if space < left then space else left

/-- The loop of `ext2_read`: `left` is `count - i`, `acc` the bytes delivered so far. The result is
    `none` when a buffer selection failed. Every iteration copies at least one byte, so `left`
    iterations are enough. -/
def ext2ReadLoop : Nat → Nat → List UInt8 → FileEnt → Drv (Option (List UInt8) × FileEnt)
  | 0, left, acc, fe => if left = 0 then pure (some acc, fe) else Prog.fault .noReturn
  | fuel + 1, left, acc, fe => do
    if left = 0 then pure (some acc, fe)
    else if (fe.inode.iSize.toNat : Int) ≤ fe.cursor then pure (some acc, fe)
    else
      let (r, fe) ← ext2SelectBuffer fe
      if r ≠ 0 then
        setErrno .eio
        pure (none, fe)
      else
        let bs ← ext2BlockSize
        let space ← ext2BufferSpace fe
        let amount := readAmount left space fe
        let bytes ← ext2ReadBuffer fe.buffer (fe.cursor % bs).toNat amount
        ext2ReadLoop fuel (left - amount) (acc ++ bytes) { fe with cursor := fe.cursor + amount }

/-- `ext2_read`: the return value, the bytes stored to the caller's buffer and the handle. -/
def ext2Read (fe : FileEnt) (count : Nat) : Drv (Int × List UInt8 × FileEnt) := do
  if fe.magic ≠ embextMagic then
    setErrno .ebadf
    pure (-1, [], fe)
  else
    let (r, fe) ← ext2ReadLoop count count [] fe
    match r with
    | none => pure (-1, [], fe)
    | some bytes =>
      if 0 < bytes.length then
        let fe ← ext2UpdateAtime fe
        pure (toInt32 bytes.length, bytes, fe)
      else pure (toInt32 bytes.length, bytes, fe)

inductive Whence where
  | set | cur | «end» | other
  deriving DecidableEq, Repr

/-- `ext2_lseek`. -/
def ext2Lseek (fe : FileEnt) (offset : Int) (whence : Whence) : Drv (Int × FileEnt) := do
  if fe.magic ≠ embextMagic then
    setErrno .ebadf
    pure (-1, fe)
  else
    match whence with
    | .set =>
      if offset < 0 then
        setErrno .einval
        pure (-1, fe)
      else pure (toInt32 offset, { fe with cursor := offset })
    | .cur =>
      if int64Max - fe.cursor < offset then
        setErrno .eoverflow
        pure (-1, fe)
      else if offset + fe.cursor < 0 then
        setErrno .einval
        pure (-1, fe)
      else pure (toInt32 (fe.cursor + offset), { fe with cursor := fe.cursor + offset })
    | .end =>
      let size : Int := fe.inode.iSize.toNat
      if int64Max - size < offset then
        setErrno .eoverflow
        pure (-1, fe)
      else if offset + size < 0 then
        setErrno .einval
        pure (-1, fe)
      else
        -- `i_size + offset` is a `uint32_t`
        let cursor := (size + offset) % 2 ^ 32
        pure (toInt32 cursor, { fe with cursor := cursor })
    | .other =>
      setErrno .einval
      pure (-1, fe)

/-- The loop of `ext2_write`: `data` is what is left to write. The result is the number of bytes
    written, or `none` when a buffer selection failed. -/
def ext2WriteLoop : Nat → List UInt8 → Nat → FileEnt → Drv (Option Nat × FileEnt)
  | 0, data, done, fe => if data = [] then pure (some done, fe) else Prog.fault .noReturn
  | fuel + 1, data, done, fe => do
    if data = [] then pure (some done, fe)
    else
      let (r, fe) ← ext2SelectBuffer fe
      if r ≠ 0 then
        setErrno .eio
        pure (none, fe)
      else
        let bs ← ext2BlockSize
        let space ← ext2BufferSpace fe
        let amount := writeAmount data.length space
        let buffer ← ext2WriteBuffer fe.buffer (data.take amount) (fe.cursor % bs).toNat
        let fe := { fe with buffer := buffer, cursor := fe.cursor + amount }
        let fe :=
          if (fe.inode.iSize.toNat : Int) < fe.cursor then
            { fe with
              inode := { fe.inode with iSize := UInt32.ofNat (fe.cursor % 2 ^ 32).toNat }
              flags := { fe.flags with fsDirty := true } }
          else fe
        ext2WriteLoop fuel (data.drop amount) (done + amount) fe

/-- The part of `ext2_write` after the checks and the seek of an append. -/
def ext2WriteFrom (fe : FileEnt) (data : List UInt8) : Drv (Int × FileEnt) := do
  let (r, fe) ← ext2WriteLoop data.length data 0 fe
  match r with
  | none => pure (-1, fe)
  | some done =>
    if 0 < done then
      let fe ← ext2UpdateMtime fe
      pure (toInt32 done, fe)
    else pure (toInt32 done, fe)

/-- `ext2_write`. -/
def ext2Write (fe : FileEnt) (data : List UInt8) : Drv (Int × FileEnt) := do
  if fe.magic ≠ embextMagic then
    setErrno .ebadf
    pure (-1, fe)
  else if !fe.flags.write then
    setErrno .ebadf
    pure (-1, fe)
  else if fe.flags.append then
    let (r, fe) ← ext2Lseek fe 0 .end
    if r = -1 then pure (-1, fe) else ext2WriteFrom fe data
  else ext2WriteFrom fe data

/-! ## The other calls on a handle -/

/-- The fields `ext2_fstat` fills in. -/
structure Stat where
  stIno : UInt32
  stMode : UInt16
  stNlink : UInt16
  stUid : UInt16
  stGid : UInt16
  stSize : UInt32
  stAtime : UInt32
  stMtime : UInt32
  stCtime : UInt32
  stBlksize : Nat
  stBlocks : UInt32

def ext2Fstat (fe : FileEnt) : Drv (Int × Option Stat) := do
  if fe.magic ≠ embextMagic then
    setErrno .ebadf
    pure (-1, none)
  else
    let bs ← ext2BlockSize
    pure (0, some
      { stIno := fe.inodeNumber, stMode := fe.inode.iMode, stNlink := fe.inode.iLinksCount
        stUid := fe.inode.iUid, stGid := fe.inode.iGid, stSize := fe.inode.iSize
        stAtime := fe.inode.iAtime, stMtime := fe.inode.iMtime, stCtime := fe.inode.iCtime
        stBlksize := bs, stBlocks := fe.inode.iBlocks })

def ext2Isatty (fe : FileEnt) : Drv Int := do
  if fe.magic ≠ embextMagic then
    setErrno .ebadf
    pure 0
  else
    setErrno .enotty
    pure 0

/-- `struct dirent` as a caller sees it: the inode number and the C string in `d_name`. -/
structure Dirent where
  dIno : UInt32
  dName : List UInt8
  deriving DecidableEq

/-- The C string at the start of a character array. -/
def cString {n : Nat} (a : Fin n → UInt8) : List UInt8 := (List.ofFn a).takeWhile (· ≠ 0)

/-- `ext2_readdir`; `none` is NULL. `d_name` is static: when the name cannot be read it keeps the
    bytes of an earlier call. -/
def ext2Readdir (fe : FileEnt) : Drv (Option Dirent × FileEnt) := do
  let (r, ino, fe) ← ext2Read fe 4
  if r < 4 then pure (none, fe)
  else
    let (r, recLen, fe) ← ext2Read fe 2
    if r < 2 then pure (none, fe)
    else
      let (r, nameLen, fe) ← ext2Read fe 1
      if r < 1 then pure (none, fe)
      else
        let (r, _, fe) ← ext2Read fe 1
        if r < 1 then pure (none, fe)
        else
          let dIno := Packed.u32.ofList ino
          let recLen := (Packed.u16.ofList recLen).toNat
          let nameLen := (Packed.u8.ofList nameLen).toNat
          -- `d_ino` is an `int`
          if 0 < dIno.toNat ∧ dIno.toNat < 2 ^ 31 then
            let (_, name, fe) ← ext2Read fe nameLen
            Prog.modify fun m => { m with
              dName := Window.patch (Window.patch m.dName 0 name) nameLen [0] }
            let (_, fe) ← ext2Lseek fe ((recLen : Int) - 8 - nameLen) .cur
            let m ← Prog.get
            pure (some ⟨dIno, cString m.dName⟩, fe)
          else pure (none, fe)

/-- `ext2_close`; after a return value of 0 the handle is freed. -/
def ext2Close (fe : FileEnt) : Drv (Int × FileEnt) := do
  if fe.magic ≠ embextMagic then
    setErrno .ebadf
    pure (-1, fe)
  else
    let (r, fe) ← (if fe.buffer.dirty then ext2StoreBuffer fe else pure (0, fe))
    if r ≠ 0 then
      setErrno fe.rerrno
      pure (-1, fe)
    else
      let (r, fe) ← (if fe.flags.fsDirty then ext2FlushInode fe else pure (0, fe))
      if r ≠ 0 then
        setErrno fe.rerrno
        pure (-1, fe)
      else pure (0, { fe with magic := 0 })

end Embext
