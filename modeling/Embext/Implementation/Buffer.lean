import Embext.Implementation.Types

set_option autoImplicit false

/-! # Block transfers and the sector buffer

The block driver's `block_read` and `block_write` as the driver sees them, and the one-sector
buffer of a handle: `ext2_store_buffer`, `ext2_load_buffer`, `ext2_read_buffer`,
`ext2_write_buffer`, `ext2_buffer_space`. A return value of 0 is `0`, every failure is `-1`. -/

namespace Embext

/-! ## The block driver -/

def Machine.logged (m : Machine) (t : Transfer) : Machine := { m with log := t :: m.log }

/-- `block_read`: on failure the caller's memory `old` stays as it was. -/
def blockRead (sector : UInt32) (old : Sector) : Drv (Int × Sector) := fun h m =>
  if h.fails m.log.length then .ok ((-1, old), m.logged (.read sector false))
  else .ok ((0, m.disk sector), m.logged (.read sector true))

/-- `block_write`: on failure the sector stays as it was. -/
def blockWrite (sector : UInt32) (data : Sector) : Drv Int := fun h m =>
  if h.fails m.log.length then .ok (-1, m.logged (.write sector false))
  else .ok (0, { m.logged (.write sector true) with
    disk := fun t => if t = sector then data else m.disk t })

/-! ## Small accessors -/

def getCtx : Drv Ext2Context := fun _ m => .ok (m.ctx, m)

def setCtx (c : Ext2Context) : Drv Unit := Prog.modify fun m => { m with ctx := c }

def setSysbuf (s : Sector) : Drv Unit :=
  Prog.modify fun m => { m with ctx := { m.ctx with sysbuf := s } }

/-- `*rerrno = e`. -/
def setErrno (e : Errno) : Drv Unit := Prog.modify fun m => { m with rerrno := e }

def getErrno : Drv Errno := fun _ m => .ok (m.rerrno, m)

/-- `time(NULL)`. -/
def timeNull : Drv UInt32 := fun h m => .ok (h.clock m.ticks, { m with ticks := m.ticks + 1 })

/-- `block_get_device_read_only()`. -/
def blockGetDeviceReadOnly : Drv Bool := fun h m => .ok (h.readOnly, m)

def getuid : Drv UInt16 := fun h m => .ok (h.uid, m)

def getgid : Drv UInt16 := fun h m => .ok (h.gid, m)

/-- How many iterations of an unbounded loop are followed. -/
def patience : Drv Nat := fun h m => .ok (h.patience, m)

/-- `block_read(sector, context->sysbuf)`; no caller looks at the result. -/
def readSysbuf (sector : UInt32) : Drv Unit := do
  let ctx ← getCtx
  let (_, s) ← blockRead sector ctx.sysbuf
  setSysbuf s

/-- `ext2_block_size`: `1024 << s_log_block_size` as an `int`. -/
def ext2BlockSize : Drv Nat := do
  let ctx ← getCtx
  if ctx.superblock.sLogBlockSize.toNat ≤ 20 then
    pure (1024 * 2 ^ ctx.superblock.sLogBlockSize.toNat)
  else Prog.fault .badShift

/-- `x << n` on a `uint32_t`. -/
def shl (x : UInt32) (n : UInt32) : Drv UInt32 :=
  if n.toNat < 32 then pure (UInt32.ofNat (x.toNat * 2 ^ n.toNat)) else Prog.fault .badShift

/-- An unsigned division; the divisor may come from the disk. -/
def udiv (x y : Nat) : Drv Nat := if y = 0 then Prog.fault .divByZero else pure (x / y)

/-- The remainder that goes with `udiv`. -/
def umod (x y : Nat) : Drv Nat := if y = 0 then Prog.fault .divByZero else pure (x % y)

/-! ## The sector buffer -/

def ext2StoreBuffer (fe : FileEnt) : Drv (Int × FileEnt) := do
  let ctx ← getCtx
  let r ← blockWrite (fe.buffer.lbaBlock + ctx.partStart) fe.buffer.buffer
  if r ≠ 0 then pure (-1, { fe with rerrno := .eio })
  else pure (0, { fe with buffer := { fe.buffer with dirty := false } })

/-- The part of `ext2_load_buffer` after a dirty buffer has been stored. The result of `block_read`
    is dropped. -/
def ext2FillBuffer (fe : FileEnt) (blockNumber offset : UInt32) : Drv (Int × FileEnt) := do
  let bs ← ext2BlockSize
  let ctx ← getCtx
  let lba := UInt32.ofNat (blockNumber.toNat * (bs / 512) + offset.toNat / 512)
  let (_, s) ← blockRead (lba + ctx.partStart) fe.buffer.buffer
  pure (0, { fe with buffer := { fe.buffer with buffer := s, lbaBlock := lba } })

def ext2LoadBuffer (fe : FileEnt) (blockNumber offset : UInt32) : Drv (Int × FileEnt) := do
  if fe.buffer.dirty then
    let (r, fe) ← ext2StoreBuffer fe
    if r ≠ 0 then pure (-1, fe)
    else ext2FillBuffer fe blockNumber offset
  else ext2FillBuffer fe blockNumber offset

/-- `ext2_read_buffer`: the bytes `memcpy` delivers. -/
def ext2ReadBuffer (b : BufferObject) (offset count : Nat) : Drv (List UInt8) :=
  if offset % 512 + count ≤ 512 then pure (Window.slice b.buffer (offset % 512) count)
  else Prog.fault .outOfBounds

def ext2WriteBuffer (b : BufferObject) (source : List UInt8) (offset : Nat) : Drv BufferObject :=
  if offset % 512 + source.length ≤ 512 then
    pure { b with buffer := Window.patch b.buffer (offset % 512) source, dirty := true }
  else Prog.fault .outOfBounds

/-- `ext2_read_buffer` of one little-endian 32-bit value. -/
def ext2ReadBufferU32 (b : BufferObject) (offset : Nat) : Drv UInt32 := do
  let l ← ext2ReadBuffer b offset 4
  pure (Packed.u32.ofList l)

/-- `ext2_buffer_space`: measured against the file system's block, not against the buffer. -/
def ext2BufferSpace (fe : FileEnt) : Drv Nat := do
  let bs ← ext2BlockSize
  pure (bs - 1 - (fe.cursor % 512).toNat)

end Embext
