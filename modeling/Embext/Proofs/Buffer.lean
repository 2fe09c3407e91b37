import Embext.Implementation.Mount
import Mathlib.Logic.Function.Basic

set_option autoImplicit false

/-! # The sector buffer under reliable transfers

What a handle stands for is the device with its dirty buffer laid over it, the **view**. Under a
driver whose transfers all succeed, storing and loading leave the view alone, and after a load the
buffer holds exactly the sector of the view that was asked for. -/

namespace Embext

/-- Every transfer of the block driver succeeds. -/
def Host.Reliable (h : Host) : Prop := ∀ n, h.fails n = false

/-- `ext2_block_size` as a number. -/
def Ext2Context.blockSize (ctx : Ext2Context) : Nat :=
  1024 * 2 ^ ctx.superblock.sLogBlockSize.toNat

/-- `1024 << s_log_block_size` does not overflow an `int`. -/
def Ext2Context.SaneBlockSize (ctx : Ext2Context) : Prop :=
  ctx.superblock.sLogBlockSize.toNat ≤ 20

/-- A record copied into an array is read back from where it was put. -/
theorem Packed.get_patch {α : Type} {n : Nat} [NeZero n] (c : Packed α) (s : Fin n → UInt8) (a : α)
    {off : Nat} (hfit : off + c.size ≤ n) :
    c.get (fun k => Window.item (Window.patch s off (c.bytes a)) (off + k)) = a := by
  apply c.get_of_put
  intro k hk
  have hlen : (c.bytes a).length = c.size := c.length_bytes a
  rw [Window.item_patch_inside _ (by omega) (Nat.le_add_right off k) (by omega),
    Packed.getElem_bytes, Nat.add_sub_cancel_left]

/-- The device with the handle's dirty buffer laid over it. -/
def view (m : Machine) (fe : FileEnt) : UInt32 → Sector :=
  if fe.buffer.dirty then
    Function.update m.disk (fe.buffer.lbaBlock + m.ctx.partStart) fe.buffer.buffer
  else m.disk

/-- The device sector that holds byte `off` of block `b`. -/
def blockSector (ctx : Ext2Context) (b : UInt32) (off : Nat) : UInt32 :=
  UInt32.ofNat (b.toNat * (ctx.blockSize / 512) + off / 512) + ctx.partStart

/-- Byte `off` of block `b` of the file system on the sectors `v`. -/
def blockByte (v : UInt32 → Sector) (ctx : Ext2Context) (b : UInt32) (off : Nat) : UInt8 :=
  Window.item (v (blockSector ctx b off)) (off % 512)

/-- Pointer `i` of the table in block `b`. -/
def pointerAt (v : UInt32 → Sector) (ctx : Ext2Context) (b : UInt32) (i : Nat) : UInt32 :=
  Packed.u32.get fun k => blockByte v ctx b (i * 4 + k)

/-- The state after some loads: only the buffer, the device and the log may have changed, and the
    view has not. -/
structure Loads (m : Machine) (fe : FileEnt) (m' : Machine) (fe' : FileEnt) : Prop where
  handle : fe' = { fe with buffer := fe'.buffer }
  machine : m' = { m with disk := m'.disk, log := m'.log }
  grows : m.log <:+ m'.log
  view_eq : view m' fe' = view m fe
  clean : fe.buffer.dirty = false → fe'.buffer.dirty = false ∧ m'.disk = m.disk

theorem Loads.refl (m : Machine) (fe : FileEnt) : Loads m fe m fe :=
  ⟨rfl, rfl, List.suffix_rfl, rfl, fun h => ⟨h, rfl⟩⟩

theorem Loads.ctx_eq {m m' : Machine} {fe fe' : FileEnt} (h : Loads m fe m' fe') :
    m'.ctx = m.ctx := by
  rw [h.machine]

theorem Loads.trans {m₁ m₂ m₃ : Machine} {fe₁ fe₂ fe₃ : FileEnt} (h₁ : Loads m₁ fe₁ m₂ fe₂)
    (h₂ : Loads m₂ fe₂ m₃ fe₃) : Loads m₁ fe₁ m₃ fe₃ where
  handle := by rw [h₂.handle, h₁.handle]
  machine := by rw [h₂.machine, h₁.machine]
  grows := h₁.grows.trans h₂.grows
  view_eq := h₂.view_eq.trans h₁.view_eq
  clean h := by
    obtain ⟨hd, hk⟩ := h₁.clean h
    obtain ⟨hd', hk'⟩ := h₂.clean hd
    exact ⟨hd', hk'.trans hk⟩

theorem blockSize_ge (ctx : Ext2Context) : 1024 ≤ ctx.blockSize := by
  have := Nat.one_le_two_pow (n := ctx.superblock.sLogBlockSize.toNat)
  unfold Ext2Context.blockSize
  omega

theorem blockSize_eq_mul (ctx : Ext2Context) : ctx.blockSize = 512 * (ctx.blockSize / 512) := by
  unfold Ext2Context.blockSize
  omega

theorem blockSize_le {ctx : Ext2Context} (hs : ctx.SaneBlockSize) : ctx.blockSize ≤ 2 ^ 30 := by
  have : 2 ^ ctx.superblock.sLogBlockSize.toNat ≤ 2 ^ 20 := Nat.pow_le_pow_right (by omega) hs
  unfold Ext2Context.blockSize
  omega

/-- Blocks divide the range of a machine integer. -/
theorem blockSize_dvd_pow {ctx : Ext2Context} (hs : ctx.SaneBlockSize) {n : Nat} (hn : 30 ≤ n) :
    ctx.blockSize ∣ 2 ^ n := by
  have hlog := hs
  unfold Ext2Context.SaneBlockSize at hlog
  have hpow : ctx.blockSize = 2 ^ (10 + ctx.superblock.sLogBlockSize.toNat) := by
    unfold Ext2Context.blockSize
    rw [Nat.pow_add]
  rw [hpow]
  exact Nat.pow_dvd_pow 2 (by omega)

/-! ## Single steps -/

variable {h : Host} {m : Machine} {fe : FileEnt}

theorem blockRead_ok (hh : h.Reliable) (s : UInt32) (old : Sector) :
    blockRead s old h m = .ok ((0, m.disk s), m.logged (.read s true)) := by
  simp [blockRead, hh m.log.length]

theorem blockWrite_ok (hh : h.Reliable) (s : UInt32) (data : Sector) :
    blockWrite s data h m = .ok (0, { m.logged (.write s true) with
      disk := Function.update m.disk s data }) := by
  simp only [blockWrite, hh m.log.length, Bool.false_eq_true, if_false, Except.ok.injEq,
    Prod.mk.injEq, true_and]
  congr 1
  funext t
  simp [Function.update_apply]

@[simp] theorem getCtx_apply : getCtx h m = .ok (m.ctx, m) := rfl

@[simp] theorem setErrno_apply (e : Errno) :
    setErrno e h m = .ok ((), { m with rerrno := e }) := rfl

@[simp] theorem getErrno_apply : getErrno h m = .ok (m.rerrno, m) := rfl

@[simp] theorem timeNull_apply :
    timeNull h m = .ok (h.clock m.ticks, { m with ticks := m.ticks + 1 }) := rfl

@[simp] theorem setSysbuf_apply (s : Sector) :
    setSysbuf s h m = .ok ((), { m with ctx := { m.ctx with sysbuf := s } }) := rfl

@[simp] theorem setCtx_apply (c : Ext2Context) :
    setCtx c h m = .ok ((), { m with ctx := c }) := rfl

/-- Only a shift by less than the width returns. -/
theorem of_shl_ok {x n y : UInt32} {m' : Machine} (hrun : shl x n h m = .ok (y, m')) :
    n.toNat < 32 ∧ y = UInt32.ofNat (x.toNat * 2 ^ n.toNat) ∧ m' = m := by
  unfold shl at hrun
  by_cases hn : n.toNat < 32
  · rw [if_pos hn] at hrun
    cases hrun
    exact ⟨hn, rfl, rfl⟩
  · rw [if_neg hn] at hrun
    exact absurd hrun (by simp)

theorem shl_ok (x : UInt32) {n : UInt32} (hn : n.toNat < 32) :
    shl x n h m = .ok (UInt32.ofNat (x.toNat * 2 ^ n.toNat), m) := by
  unfold shl
  rw [if_pos hn]
  rfl

/-- Only a division by a nonzero number returns. -/
theorem of_udiv_ok {x y z : Nat} {m' : Machine} (hrun : udiv x y h m = .ok (z, m')) :
    y ≠ 0 ∧ z = x / y ∧ m' = m := by
  unfold udiv at hrun
  by_cases hy : y = 0
  · rw [if_pos hy] at hrun
    exact absurd hrun (by simp)
  · rw [if_neg hy] at hrun
    cases hrun
    exact ⟨hy, rfl, rfl⟩

theorem udiv_ok (x : Nat) {y : Nat} (hy : y ≠ 0) : udiv x y h m = .ok (x / y, m) := by
  unfold udiv
  rw [if_neg hy]
  rfl

theorem umod_ok (x : Nat) {y : Nat} (hy : y ≠ 0) : umod x y h m = .ok (x % y, m) := by
  unfold umod
  rw [if_neg hy]
  rfl

theorem ext2BlockSize_ok (hs : m.ctx.SaneBlockSize) :
    ext2BlockSize h m = .ok (m.ctx.blockSize, m) := by
  unfold Ext2Context.SaneBlockSize at hs
  simp [ext2BlockSize, Prog.bind_apply, hs, Ext2Context.blockSize]

/-- `ext2_block_size` returns only when the shift is defined. -/
theorem of_ext2BlockSize_ok {n : Nat} {m' : Machine} (hrun : ext2BlockSize h m = .ok (n, m')) :
    m.ctx.SaneBlockSize ∧ n = m.ctx.blockSize ∧ m' = m := by
  by_cases hs : m.ctx.SaneBlockSize
  · rw [ext2BlockSize_ok hs] at hrun
    cases hrun
    exact ⟨hs, rfl, rfl⟩
  · have hlog : ¬ m.ctx.superblock.sLogBlockSize.toNat ≤ 20 := hs
    unfold ext2BlockSize at hrun
    rw [Prog.bind_ok getCtx_apply, if_neg hlog] at hrun
    exact absurd hrun (by simp)

theorem ext2StoreBuffer_ok (hh : h.Reliable) :
    ext2StoreBuffer fe h m = .ok ((0, { fe with buffer := { fe.buffer with dirty := false } }),
      { m with
        disk := Function.update m.disk (fe.buffer.lbaBlock + m.ctx.partStart) fe.buffer.buffer
        log := .write (fe.buffer.lbaBlock + m.ctx.partStart) true :: m.log }) := by
  simp [ext2StoreBuffer, Prog.bind_apply, blockWrite_ok hh, Machine.logged]

/-- A store to a known sector. -/
theorem ext2StoreBuffer_at (hh : h.Reliable) {s : UInt32}
    (hs : fe.buffer.lbaBlock + m.ctx.partStart = s) :
    ext2StoreBuffer fe h m = .ok ((0, { fe with buffer := { fe.buffer with dirty := false } }),
      { m with disk := Function.update m.disk s fe.buffer.buffer, log := .write s true :: m.log }) := by
  rw [← hs]
  exact ext2StoreBuffer_ok hh

/-- The log after a load: a dirty buffer is written first. -/
def loadLog (m : Machine) (fe : FileEnt) (s : UInt32) : List Transfer :=
  .read s true :: (if fe.buffer.dirty then
    .write (fe.buffer.lbaBlock + m.ctx.partStart) true :: m.log else m.log)

/-- The buffer a load leaves: the sector of the view, clean. -/
def loadedBuffer (m : Machine) (fe : FileEnt) (b off : UInt32) : BufferObject where
  buffer := view m fe (blockSector m.ctx b off.toNat)
  lbaBlock := UInt32.ofNat (b.toNat * (m.ctx.blockSize / 512) + off.toNat / 512)
  dirty := false

theorem ext2LoadBuffer_ok (hh : h.Reliable) (hs : m.ctx.SaneBlockSize) (b off : UInt32) :
    ext2LoadBuffer fe b off h m = .ok ((0, { fe with buffer := loadedBuffer m fe b off }),
      { m with
        disk := view m fe
        log := loadLog m fe (blockSector m.ctx b off.toNat) }) := by
  by_cases hd : fe.buffer.dirty = true
  · have hs' : ({ m with
        disk := Function.update m.disk (fe.buffer.lbaBlock + m.ctx.partStart) fe.buffer.buffer
        log := .write (fe.buffer.lbaBlock + m.ctx.partStart) true :: m.log } :
        Machine).ctx.SaneBlockSize := hs
    simp only [ext2LoadBuffer, hd, if_true, Prog.bind_apply, ext2StoreBuffer_ok hh,
      ext2FillBuffer, ext2BlockSize_ok hs', getCtx_apply, blockRead_ok hh, Prog.pure_apply,
      Machine.logged, view, loadLog, loadedBuffer, blockSector, ne_eq, not_true_eq_false, if_false]
  · simp only [ext2LoadBuffer, hd, Prog.bind_apply, ext2FillBuffer, ext2BlockSize_ok hs,
      getCtx_apply, blockRead_ok hh, Prog.pure_apply, Machine.logged, view, loadLog, loadedBuffer,
      blockSector, Bool.false_eq_true, if_false]

/-- The newest entry after a load is the read of its sector. -/
theorem loadLog_eq (m : Machine) (fe : FileEnt) (s : UInt32) :
    ∃ l, m.log <:+ l ∧ loadLog m fe s = .read s true :: l := by
  refine ⟨_, ?_, rfl⟩
  split
  · exact List.suffix_cons _ _
  · exact List.suffix_rfl

/-- A load keeps the view. -/
theorem Loads.load (b off : UInt32) : Loads m fe
    { m with disk := view m fe, log := loadLog m fe (blockSector m.ctx b off.toNat) }
    { fe with buffer := loadedBuffer m fe b off } where
  handle := rfl
  machine := rfl
  grows := by
    obtain ⟨l, hl, hlog⟩ := loadLog_eq m fe (blockSector m.ctx b off.toNat)
    exact hlog ▸ hl.trans (List.suffix_cons _ _)
  view_eq := by simp [view, loadedBuffer]
  clean hd := by simp [view, loadedBuffer, hd]

theorem ext2ReadBuffer_ok {b : BufferObject} {off n : Nat} (hfit : off % 512 + n ≤ 512) :
    ext2ReadBuffer b off n h m = .ok (Window.slice b.buffer (off % 512) n, m) := by
  simp [ext2ReadBuffer, hfit]

theorem ext2ReadBuffer_error {b : BufferObject} {off n : Nat} (hfit : 512 < off % 512 + n) :
    ext2ReadBuffer b off n h m = .error .outOfBounds := by
  simp [ext2ReadBuffer, Nat.not_le.2 hfit]

/-- One pointer through the buffer is the pointer of the view, and the view is kept. -/
theorem ext2ReadPointer_ok (fe : FileEnt) (hh : h.Reliable) (hs : m.ctx.SaneBlockSize)
    (table : UInt32) {i : Nat} (hi : i * 4 < 2 ^ 32) : ∃ m' fe', ext2ReadPointer fe table i h m
      = .ok ((pointerAt (view m fe) m.ctx table i, fe'), m') ∧ Loads m fe m' fe' := by
  have hoff : (UInt32.ofNat (i * 4)).toNat = i * 4 := UInt32.toNat_ofNat_of_lt' hi
  refine ⟨_, _, ?_, Loads.load table (UInt32.ofNat (i * 4))⟩
  simp only [ext2ReadPointer, Prog.bind_apply, ext2LoadBuffer_ok hh hs, ext2ReadBufferU32,
    ext2ReadBuffer_ok (show i * 4 % 512 + 4 ≤ 512 by omega), Prog.pure_apply, Except.ok.injEq,
    Prod.mk.injEq, and_true]
  apply Packed.get_congr
  intro k hk
  have hk4 : k < 4 := hk
  simp only [loadedBuffer, hoff, blockByte]
  rw [List.getD_eq_getElem?_getD, List.getElem?_eq_getElem (by simpa using hk4), Option.getD_some,
    Window.getElem_slice]
  have hsec : blockSector m.ctx table (i * 4 + k) = blockSector m.ctx table (i * 4) := by
    unfold blockSector
    congr 3
    omega
  rw [hsec]
  congr 1
  omega

/-- A pointer is read off a clean buffer. -/
theorem of_ext2ReadPointer_ok {m' : Machine} {fe' : FileEnt} (hh : h.Reliable)
    (hs : m.ctx.SaneBlockSize) {t b : UInt32} {k : Nat}
    (hrun : ext2ReadPointer fe t k h m = .ok ((b, fe'), m')) :
    fe'.buffer.dirty = false ∧ m'.ctx = m.ctx := by
  unfold ext2ReadPointer at hrun
  rw [Prog.bind_ok (ext2LoadBuffer_ok hh hs _ _)] at hrun
  obtain ⟨b', m₁, hread, hrun⟩ := Prog.of_bind_ok hrun
  cases hrun
  obtain ⟨l, m₂, hread, hpure⟩ := Prog.of_bind_ok hread
  cases hpure
  unfold ext2ReadBuffer at hread
  split at hread
  · cases hread
    exact ⟨rfl, rfl⟩
  · cases hread

end Embext
