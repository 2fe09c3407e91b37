import Embext.Implementation.File
import Embext.Library.Loop

set_option autoImplicit false

/-! # The transfer loops in machine integers

The loops of `ext2_read` and `ext2_write` once more, now with `i` and `amount_to_copy` as the
`uint32_t` they are and with the conversions that C makes between them, `size_t` and `int64_t`. The
`memcpy` of a turn is left open, so that a turn goes on when it has left the buffer: a read copies
nothing, a write takes what becomes of the buffer as a parameter. -/

namespace Embext

open Prog (Turn)

/-- `ext2_buffer_space`. The `size_t` of the remainder makes the difference one. -/
def bufferSpace (bs : Nat) (cursor : Int) : UInt32 :=
  (UInt64.ofNat (bs - 1) - UInt64.ofInt cursor % 512).toUInt32

/-- The first cut of `amount_to_copy`: `count - i` bytes, or the space in the buffer. -/
def amountInSpace (count : UInt64) (i space : UInt32) : UInt32 :=
  (if space.toUInt64 < count - i.toUInt64 then space.toUInt64 else count - i.toUInt64).toUInt32

/-- The second cut in a read: what is left of the file, an `int64_t`. -/
def amountInFile (amount iSize : UInt32) (cursor : Int) : UInt32 :=
  if (iSize.toNat : Int) - cursor < amount.toNat then UInt32.ofInt (iSize.toNat - cursor) else amount

/-- The variables of the loops: `i`, `amount_to_copy` of the last turn, and the handle. -/
structure Locals where
  i : UInt32
  amountToCopy : UInt32
  fe : FileEnt

/-- One turn of the loop of `ext2_read`. It leaves with `i`, or with `none` when a selection failed. -/
def readTurn (count : UInt64) (s : Locals) : Drv (Turn Locals (Option UInt32 × FileEnt)) :=
  if s.i.toUInt64 < count then
    if (s.fe.inode.iSize.toNat : Int) ≤ s.fe.cursor then pure (.leave (some s.i, s.fe))
    else do
      let (r, fe) ← ext2SelectBuffer s.fe
      if r ≠ 0 then
        setErrno .eio
        pure (.leave (none, fe))
      else
        let bs ← ext2BlockSize
        let amount := amountInSpace count s.i (bufferSpace bs fe.cursor)
        let amount := amountInFile amount fe.inode.iSize fe.cursor
        pure (.next ⟨s.i + amount, amount, { fe with cursor := fe.cursor + amount.toNat }⟩)
  else pure (.leave (some s.i, s.fe))

/-- What `memcpy` makes of the buffer in a write: at an offset, from byte `i` on, so many bytes. -/
abbrev Copy := BufferObject → Nat → UInt32 → UInt32 → BufferObject

/-- One turn of the loop of `ext2_write`. -/
def writeTurn (copy : Copy) (count : UInt64) (s : Locals) :
    Drv (Turn Locals (Option UInt32 × FileEnt)) :=
  if s.i.toUInt64 < count then do
    let (r, fe) ← ext2SelectBuffer s.fe
    if r ≠ 0 then
      setErrno .eio
      pure (.leave (none, fe))
    else
      let bs ← ext2BlockSize
      let amount := amountInSpace count s.i (bufferSpace bs fe.cursor)
      let buffer := copy fe.buffer (fe.cursor % bs).toNat s.i amount
      let fe := { fe with buffer := buffer, cursor := fe.cursor + amount.toNat }
      let fe :=
        if (fe.inode.iSize.toNat : Int) < fe.cursor then
          { fe with
            inode := { fe.inode with iSize := UInt32.ofNat (fe.cursor % 2 ^ 32).toNat }
            flags := { fe.flags with fsDirty := true } }
        else fe
      pure (.next ⟨s.i + amount, amount, fe⟩)
  else pure (.leave (some s.i, s.fe))

/-- A transfer from the loop on; the loop is followed for one turn more than there are bytes. -/
def transferFrom (turn : Locals → Drv (Turn Locals (Option UInt32 × FileEnt)))
    (update : FileEnt → Drv FileEnt) (count : UInt64) (fe : FileEnt) : Drv (Int × FileEnt) := do
  let (o, fe) ← Prog.loop .noReturn turn (count.toNat + 1) ⟨0, 0, fe⟩
  match o with
  | none => pure (-1, fe)
  | some i =>
    if 0 < i then
      let fe ← update fe
      pure (toInt32 i.toNat, fe)
    else pure (toInt32 i.toNat, fe)

/-- `ext2_read` without the bytes it delivers. -/
def readTransfer (fe : FileEnt) (count : UInt64) : Drv (Int × FileEnt) :=
  if fe.magic ≠ embextMagic then do
    setErrno .ebadf
    pure (-1, fe)
  else transferFrom (readTurn count) ext2UpdateAtime count fe

/-- `ext2_write`. -/
def writeTransfer (copy : Copy) (fe : FileEnt) (count : UInt64) : Drv (Int × FileEnt) :=
  if fe.magic ≠ embextMagic then do
    setErrno .ebadf
    pure (-1, fe)
  else if !fe.flags.write then do
    setErrno .ebadf
    pure (-1, fe)
  else if fe.flags.append then do
    let (r, fe) ← ext2Lseek fe 0 .end
    if r = -1 then pure (-1, fe) else transferFrom (writeTurn copy count) ext2UpdateMtime count fe
  else transferFrom (writeTurn copy count) ext2UpdateMtime count fe

end Embext
