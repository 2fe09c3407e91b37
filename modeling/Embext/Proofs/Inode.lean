import Embext.Proofs.SmallVolume
import Mathlib.Tactic.Ring

set_option autoImplicit false

/-! # Inode slots

Where the inode of a number lives, from two descriptions in the code: `ext2_open_inode` counts
sectors from the start of the inode table, `ext2_flush_inode` goes through the block and the offset
in it. On a sane volume both reach the same slot. -/

namespace Embext

/-! ## The slots -/

/-- The group of an inode. -/
def inodeGroup (ctx : Ext2Context) (ino : UInt32) : Nat :=
  (ino - 1).toNat / ctx.superblock.sInodesPerGroup.toNat

/-- Its index in the group. -/
def inodeIndex (ctx : Ext2Context) (ino : UInt32) : Nat :=
  (ino - 1).toNat % ctx.superblock.sInodesPerGroup.toNat

/-- The sector with the descriptor of group `g`. -/
def descriptorSector (ctx : Ext2Context) (g : Nat) : UInt32 :=
  UInt32.ofNat ((ctx.superblockBlock.toNat + 1) * (ctx.blockSize / 512) + g / 16) + ctx.partStart

/-- The descriptor of group `g`. -/
def descriptorAt (v : UInt32 → Sector) (ctx : Ext2Context) (g : Nat) : BlockGroupDescriptor :=
  BlockGroupDescriptor.packed.get fun k =>
    Window.item (v (descriptorSector ctx g)) (32 * (g % 16) + k)

/-- The sector with the slot of an inode. -/
def slotSector (v : UInt32 → Sector) (ctx : Ext2Context) (ino : UInt32) : UInt32 :=
  UInt32.ofNat ((descriptorAt v ctx (inodeGroup ctx ino)).bgInodeTable.toNat * (ctx.blockSize / 512)
    + inodeIndex ctx ino / (512 / ctx.superblock.sInodeSize.toNat)) + ctx.partStart

/-- The slot's offset in its sector. -/
def slotOffset (ctx : Ext2Context) (ino : UInt32) : Nat :=
  inodeIndex ctx ino % (512 / ctx.superblock.sInodeSize.toNat) * ctx.superblock.sInodeSize.toNat

/-- The inode in the slot of `ino`. -/
def inodeAt (v : UInt32 → Sector) (ctx : Ext2Context) (ino : UInt32) : Inode :=
  Inode.packed.get fun k => Window.item (v (slotSector v ctx ino)) (slotOffset ctx ino + k)

/-- The sectors with the slot of `ino` overwritten. -/
def putInode (v : UInt32 → Sector) (ctx : Ext2Context) (ino : UInt32) (inode : Inode) :
    UInt32 → Sector :=
  Function.update v (slotSector v ctx ino)
    (Window.patch (v (slotSector v ctx ino)) (slotOffset ctx ino) (Inode.packed.bytes inode))

/-- What the driver relies on in the superblock of a volume: a block size an `int` can hold, the
    descriptors behind the superblock's block, one of the inode sizes that divide a sector, and a
    group for every inode. -/
structure Ext2Context.Sane (ctx : Ext2Context) : Prop where
  block : ctx.SaneBlockSize
  first : ctx.superblockBlock.toNat ≤ 1
  size : ctx.superblock.sInodeSize = 128 ∨ ctx.superblock.sInodeSize = 256 ∨
    ctx.superblock.sInodeSize = 512
  perGroup : ctx.superblock.sInodesPerGroup ≠ 0
  groups : ctx.numBlockgroups.toNat ≤ 2 ^ 27
  covered : ∀ ino : UInt32, ino ≠ 0 → ino.toNat ≤ ctx.superblock.sInodesCount.toNat →
    inodeGroup ctx ino < ctx.numBlockgroups.toNat

/-- What it takes to compute the slot of an inode. -/
structure Ext2Context.Slotted (ctx : Ext2Context) : Prop where
  block : ctx.SaneBlockSize
  size : ctx.superblock.sInodeSize = 128 ∨ ctx.superblock.sInodeSize = 256 ∨
    ctx.superblock.sInodeSize = 512
  perGroup : ctx.superblock.sInodesPerGroup ≠ 0

variable {ctx : Ext2Context}

theorem Ext2Context.Sane.slotted (hs : ctx.Sane) : ctx.Slotted := ⟨hs.block, hs.size, hs.perGroup⟩

theorem Ext2Context.Slotted.size_toNat (hs : ctx.Slotted) : ctx.superblock.sInodeSize.toNat = 128 ∨
    ctx.superblock.sInodeSize.toNat = 256 ∨ ctx.superblock.sInodeSize.toNat = 512 := by
  rcases hs.size with h | h | h
  · rw [h]; exact .inl rfl
  · rw [h]; exact .inr (.inl rfl)
  · rw [h]; exact .inr (.inr rfl)

/-- Slots fill a sector. -/
theorem Ext2Context.Slotted.size_mul (hs : ctx.Slotted) :
    512 / ctx.superblock.sInodeSize.toNat * ctx.superblock.sInodeSize.toNat = 512 ∧
      0 < 512 / ctx.superblock.sInodeSize.toNat ∧ 128 ≤ ctx.superblock.sInodeSize.toNat := by
  rcases hs.size_toNat with h | h | h <;> rw [h] <;> decide

theorem Ext2Context.Slotted.perGroup_toNat (hs : ctx.Slotted) :
    ctx.superblock.sInodesPerGroup.toNat ≠ 0 := fun h0 => hs.perGroup (UInt32.toNat_inj.1 h0)

/-- A slot lies inside its sector. -/
theorem slotOffset_le (hs : ctx.Slotted) (ino : UInt32) : slotOffset ctx ino + 128 ≤ 512 := by
  obtain ⟨hmul, hpos, hge⟩ := hs.size_mul
  unfold slotOffset
  have hlt := Nat.mod_lt (inodeIndex ctx ino) hpos
  generalize inodeIndex ctx ino % (512 / ctx.superblock.sInodeSize.toNat) = i at *
  generalize 512 / ctx.superblock.sInodeSize.toNat = n at *
  calc i * ctx.superblock.sInodeSize.toNat + 128
      ≤ i * ctx.superblock.sInodeSize.toNat + ctx.superblock.sInodeSize.toNat := by omega
    _ = (i + 1) * ctx.superblock.sInodeSize.toNat := by ring
    _ ≤ n * ctx.superblock.sInodeSize.toNat := Nat.mul_le_mul_right _ hlt
    _ = 512 := hmul

/-- What was put in a slot apart from the descriptor is found there. -/
theorem inodeAt_putInode_self (hs : ctx.Slotted) {v : UInt32 → Sector} {ino : UInt32} {inode : Inode}
    (hslot : slotSector v ctx ino ≠ descriptorSector ctx (inodeGroup ctx ino)) :
    inodeAt (putInode v ctx ino inode) ctx ino = inode := by
  have hdesc : descriptorAt (putInode v ctx ino inode) ctx (inodeGroup ctx ino)
      = descriptorAt v ctx (inodeGroup ctx ino) := by
    unfold descriptorAt putInode
    rw [Function.update_of_ne hslot.symm]
  have hsec : slotSector (putInode v ctx ino inode) ctx ino = slotSector v ctx ino := by
    unfold slotSector
    rw [hdesc]
  have hfit := slotOffset_le hs ino
  unfold inodeAt
  rw [hsec, putInode, Function.update_self]
  exact Packed.get_patch _ _ _ hfit

/-- The sectors of a block as `ext2_open_inode` counts them. -/
theorem blockSize_div (ctx : Ext2Context) :
    ctx.blockSize / 512 = 2 ^ (ctx.superblock.sLogBlockSize.toNat + 1) := by
  unfold Ext2Context.blockSize
  rw [Nat.pow_succ]
  omega

theorem log_succ_toNat (hs : ctx.SaneBlockSize) :
    (ctx.superblock.sLogBlockSize + 1).toNat = ctx.superblock.sLogBlockSize.toNat + 1 := by
  unfold Ext2Context.SaneBlockSize at hs
  rw [UInt32.toNat_add]
  have h1 : (1 : UInt32).toNat = 1 := rfl
  omega

theorem log_succ_lt (hs : ctx.SaneBlockSize) : (ctx.superblock.sLogBlockSize + 1).toNat < 32 := by
  rw [log_succ_toNat hs]
  unfold Ext2Context.SaneBlockSize at hs
  omega

theorem ofNat_add_ofNat (a b : Nat) : UInt32.ofNat a + UInt32.ofNat b = UInt32.ofNat (a + b) := by
  apply UInt32.toNat_inj.1
  rw [UInt32.toNat_add, UInt32.toNat_ofNat', UInt32.toNat_ofNat', UInt32.toNat_ofNat',
    ← Nat.add_mod]

variable {h : Host} {m : Machine} {fe : FileEnt}

theorem inodeAt_sysbuf (v : UInt32 → Sector) (ctx : Ext2Context) (s : Sector) (ino : UInt32) :
    inodeAt v { ctx with sysbuf := s } ino = inodeAt v ctx ino := rfl

/-! ## Opening an inode -/

theorem readSysbuf_ok (hh : h.Reliable) (sec : UInt32) : readSysbuf sec h m
    = .ok ((), { m with ctx := { m.ctx with sysbuf := m.disk sec }
                        log := .read sec true :: m.log }) := by
  unfold readSysbuf
  simp only [Prog.bind_apply, getCtx_apply, blockRead_ok hh, setSysbuf_apply, Machine.logged]

/-- The handle after `ext2_open_inode` has found inode `ino`. -/
def FileEnt.openedOn (fe : FileEnt) (inode : Inode) (ino : UInt32) : FileEnt :=
  { fe with
    inode := inode
    inodeNumber := ino
    flags := ⟨true, false, false, false⟩
    cursor := 0 }

/-- The inode `ext2_open_inode` reads. `block_group * 32` wraps at 32 bits. -/
def openedInode (v : UInt32 → Sector) (ctx : Ext2Context) (ino : UInt32) : Inode :=
  let sec := UInt32.ofNat ((ctx.superblockBlock + 1).toNat
      * 2 ^ (ctx.superblock.sLogBlockSize + 1).toNat)
    + UInt32.ofNat (inodeGroup ctx ino * 32 % 2 ^ 32 / 512) + ctx.partStart
  let table := (BlockGroupDescriptor.packed.get fun k =>
    Window.item (v sec) (inodeGroup ctx ino * 32 % 512 + k)).bgInodeTable
  let slot := UInt32.ofNat (table.toNat * 2 ^ (ctx.superblock.sLogBlockSize + 1).toNat)
    + UInt32.ofNat (inodeIndex ctx ino / (512 / ctx.superblock.sInodeSize.toNat)) + ctx.partStart
  Inode.packed.get fun k => Window.item (v slot) (slotOffset ctx ino + k)

/-- Without a wrap it is the inode in the slot. -/
theorem openedInode_eq (hs : ctx.Slotted) {ino : UInt32} (hg : inodeGroup ctx ino < 2 ^ 27)
    (v : UInt32 → Sector) : openedInode v ctx ino = inodeAt v ctx ino := by
  have hlog := log_succ_toNat hs.block
  have hsec : UInt32.ofNat ((ctx.superblockBlock + 1).toNat
      * 2 ^ (ctx.superblock.sLogBlockSize + 1).toNat)
      + UInt32.ofNat (inodeGroup ctx ino * 32 % 2 ^ 32 / 512) + ctx.partStart
      = descriptorSector ctx (inodeGroup ctx ino) := by
    have hdiv : inodeGroup ctx ino * 32 % 2 ^ 32 / 512 = inodeGroup ctx ino / 16 := by omega
    unfold descriptorSector
    rw [hdiv, ofNat_add_ofNat, hlog, blockSize_div]
    congr 1
    apply UInt32.toNat_inj.1
    have h1 : (1 : UInt32).toNat = 1 := rfl
    rw [UInt32.toNat_ofNat', UInt32.toNat_ofNat', UInt32.toNat_add, h1, Nat.add_mod,
      Nat.mod_mul_mod, ← Nat.add_mod]
  have htable : (BlockGroupDescriptor.packed.get fun k => Window.item
      (v (descriptorSector ctx (inodeGroup ctx ino))) (inodeGroup ctx ino * 32 % 512 + k))
      = descriptorAt v ctx (inodeGroup ctx ino) := by
    rw [show inodeGroup ctx ino * 32 % 512 = 32 * (inodeGroup ctx ino % 16) by omega]
    rfl
  unfold openedInode inodeAt slotSector
  dsimp only
  rw [hsec, htable]
  simp only [ofNat_add_ofNat, hlog, blockSize_div]

/-- A number outside the volume is not opened, any other is opened on what was read for it. -/
theorem of_ext2OpenInode_ok (hh : h.Reliable) {ino : UInt32} {r : Int} {fe' : FileEnt} {m' : Machine}
    (hrun : ext2OpenInode fe ino h m = .ok ((r, fe'), m')) :
    r = -1 ∧ fe' = fe ∧ m' = m ∧ (m.ctx.superblock.sInodesCount.toNat < ino.toNat ∨ ino = 0) ∨
    r = 0 ∧ fe' = fe.openedOn (openedInode m.disk m.ctx ino) ino ∧
      (∃ s l, m' = { m with ctx := { m.ctx with sysbuf := s }, log := l }) ∧
      ino.toNat ≤ m.ctx.superblock.sInodesCount.toNat ∧ ino ≠ 0 := by
  obtain ⟨ctx, m₁, hctx, hrun⟩ := Prog.of_bind_ok hrun
  cases hctx
  obtain ⟨g, m₂, hdiv, hrun⟩ := Prog.of_bind_ok hrun
  obtain ⟨hper, rfl, rfl⟩ := of_udiv_ok hdiv
  obtain ⟨i, m₃, hmod, hrun⟩ := Prog.of_bind_ok hrun
  rw [umod_ok _ hper] at hmod
  cases hmod
  by_cases hout : m₂.ctx.superblock.sInodesCount.toNat < ino.toNat ∨ ino.toNat = 0
  · rw [if_pos hout] at hrun
    cases hrun
    refine .inl ⟨rfl, rfl, rfl, hout.imp id fun h0 => UInt32.toNat_inj.1 h0⟩
  rw [if_neg hout] at hrun
  obtain ⟨x, m₃, hshl, hrun⟩ := Prog.of_bind_ok hrun
  obtain ⟨hlog, rfl, rfl⟩ := of_shl_ok hshl
  dsimp only at hrun
  rw [Prog.bind_ok (readSysbuf_ok hh _), Prog.bind_ok getCtx_apply, Prog.bind_ok (shl_ok _ hlog)]
    at hrun
  obtain ⟨p, m₄, hsector, hrun⟩ := Prog.of_bind_ok hrun
  obtain ⟨-, rfl, rfl⟩ := of_udiv_ok hsector
  obtain ⟨k, m₅, hskip, hrun⟩ := Prog.of_bind_ok hrun
  obtain ⟨-, rfl, rfl⟩ := of_udiv_ok hskip
  dsimp only at hrun
  rw [Prog.bind_ok (readSysbuf_ok hh _), Prog.bind_ok getCtx_apply, Prog.ite_apply] at hrun
  dsimp only at hrun
  split at hrun
  · cases hrun
    rw [not_or] at hout
    exact .inr ⟨rfl, rfl, ⟨_, _, rfl⟩, Nat.not_lt.1 hout.1, fun h0 => hout.2 (by rw [h0]; rfl)⟩
  · cases hrun

/-- A number outside the volume is not opened. -/
theorem ext2OpenInode_missing (hper : m.ctx.superblock.sInodesPerGroup ≠ 0) {ino : UInt32}
    (hout : m.ctx.superblock.sInodesCount.toNat < ino.toNat ∨ ino = 0) :
    ext2OpenInode fe ino h m = .ok ((-1, fe), m) := by
  have hper' : m.ctx.superblock.sInodesPerGroup.toNat ≠ 0 := fun h0 => hper (UInt32.toNat_inj.1 h0)
  have hin : m.ctx.superblock.sInodesCount.toNat < ino.toNat ∨ ino.toNat = 0 := by
    rcases hout with hlt | rfl
    · exact .inl hlt
    · exact .inr rfl
  unfold ext2OpenInode
  rw [Prog.bind_ok getCtx_apply, Prog.bind_ok (udiv_ok _ hper'), Prog.bind_ok (umod_ok _ hper'),
    if_pos hin]
  rfl

/-- An inode number of the volume is opened. -/
theorem ext2OpenInode_opened (fe : FileEnt) (hh : h.Reliable) (hs : m.ctx.Slotted) {ino : UInt32}
    (hpos : ino ≠ 0) (hknown : ino.toNat ≤ m.ctx.superblock.sInodesCount.toNat) : ∃ s l,
    ext2OpenInode fe ino h m = .ok ((0, fe.openedOn (openedInode m.disk m.ctx ino) ino),
      { m with ctx := { m.ctx with sysbuf := s }, log := l }) := by
  have hper := hs.perGroup_toNat
  have hout : ¬ (m.ctx.superblock.sInodesCount.toNat < ino.toNat ∨ ino.toNat = 0) := by
    rintro (hlt | h0)
    · omega
    · exact hpos (UInt32.toNat_inj.1 h0)
  obtain ⟨hmul, hpos', hge⟩ := hs.size_mul
  have hsize : m.ctx.superblock.sInodeSize.toNat ≠ 0 := by omega
  have hfit := slotOffset_le hs ino
  obtain ⟨x, hrun⟩ : ∃ x, ext2OpenInode fe ino h m = .ok x := by
    unfold ext2OpenInode
    rw [Prog.bind_ok getCtx_apply, Prog.bind_ok (udiv_ok _ hper), Prog.bind_ok (umod_ok _ hper),
      if_neg hout, Prog.bind_ok (shl_ok _ (log_succ_lt hs.block))]
    dsimp only
    rw [Prog.bind_ok (readSysbuf_ok hh _), Prog.bind_ok getCtx_apply,
      Prog.bind_ok (shl_ok _ (log_succ_lt hs.block)), Prog.bind_ok (udiv_ok _ hsize),
      Prog.bind_ok (udiv_ok _ (by omega))]
    dsimp only
    rw [Prog.bind_ok (readSysbuf_ok hh _), Prog.bind_ok getCtx_apply]
    exact ⟨_, (Prog.ite_apply _ _ _ _ _).trans (if_pos hfit)⟩
  obtain ⟨⟨r, fe₁⟩, m₁⟩ := x
  rcases of_ext2OpenInode_ok hh hrun with ⟨-, -, -, hlt | h0⟩ | ⟨rfl, rfl, ⟨s, l, rfl⟩, -, -⟩
  · omega
  · exact absurd h0 hpos
  · exact ⟨s, l, hrun⟩

/-! ## Flushing an inode -/

theorem ext2BgDescriptor_ok (hh : h.Reliable) (hs : m.ctx.SaneBlockSize) {g : Nat}
    (hg : g < m.ctx.numBlockgroups.toNat) : ext2BgDescriptor (UInt32.ofNat g) h m
      = .ok (descriptorAt m.disk m.ctx g,
        { m with ctx := { m.ctx with sysbuf := m.disk (descriptorSector m.ctx g) }
                 log := .read (descriptorSector m.ctx g) true :: m.log }) := by
  have hlt := m.ctx.numBlockgroups.toNat_lt
  have hg32 : (UInt32.ofNat g).toNat = g := UInt32.toNat_ofNat_of_lt' (by show g < 2 ^ 32; omega)
  unfold ext2BgDescriptor ext2GetBgDescriptor
  simp only [Prog.bind_apply, getCtx_apply, hg32, Nat.not_le.2 hg, if_false, ext2BlockSize_ok hs,
    readSysbuf_ok hh]
  rfl

/-- A group past the last leaves the descriptor unassigned. -/
theorem ext2BgDescriptor_none {g : UInt32} (hg : m.ctx.numBlockgroups.toNat ≤ g.toNat) :
    ext2BgDescriptor g h m = .error .uninitialized := by
  unfold ext2BgDescriptor ext2GetBgDescriptor
  simp only [Prog.bind_apply, getCtx_apply, if_pos hg, Prog.pure_apply, Prog.fault_apply]

/-- The slot through the block and the offset in it. -/
theorem flushSlot (hs : ctx.Slotted) (t : UInt32) (ino : UInt32) :
    blockSector ctx (UInt32.ofNat (t.toNat
        + inodeIndex ctx ino / (ctx.blockSize / ctx.superblock.sInodeSize.toNat)))
      (UInt32.ofNat (inodeIndex ctx ino * ctx.superblock.sInodeSize.toNat % 2 ^ 32
        % ctx.blockSize)).toNat
      = UInt32.ofNat (t.toNat * (ctx.blockSize / 512)
        + inodeIndex ctx ino / (512 / ctx.superblock.sInodeSize.toNat)) + ctx.partStart := by
  obtain ⟨hmul, hpos, hge⟩ := hs.size_mul
  have hbs := blockSize_eq_mul ctx
  have hge1024 := blockSize_ge ctx
  have hle := blockSize_le hs.block
  have hdvd : ctx.blockSize ∣ 2 ^ 32 := blockSize_dvd_pow hs.block (by decide)
  generalize inodeIndex ctx ino = i
  generalize ctx.superblock.sInodeSize.toNat = z at *
  generalize hp : 512 / z = p at *
  generalize hS : ctx.blockSize / 512 = S at *
  have hz : 0 < z := by omega
  have hN : ctx.blockSize / z = p * S := by
    rw [hbs, ← hmul, Nat.mul_right_comm, Nat.mul_div_cancel _ hz]
  have hlt : i * z % 2 ^ 32 % ctx.blockSize < 2 ^ 32 :=
    lt_of_lt_of_le (Nat.mod_lt _ (by omega)) (by omega)
  have hr : i * z % 2 ^ 32 % ctx.blockSize / 512 = i / p % S := by
    rw [Nat.mod_mod_of_dvd _ hdvd, hbs, Nat.mod_mul_right_div_self, ← hmul,
      Nat.mul_div_mul_right _ _ hz]
  have hsum : i / (p * S) * S + i / p % S = i / p := by
    rw [← Nat.div_div_eq_div_mul]
    exact Nat.div_add_mod' _ _
  unfold blockSector
  rw [hN, hS, UInt32.toNat_ofNat_of_lt' hlt, hr]
  congr 1
  apply UInt32.toNat_inj.1
  rw [UInt32.toNat_ofNat', UInt32.toNat_ofNat', UInt32.toNat_ofNat', Nat.add_mod,
    Nat.mod_mul_mod, ← Nat.add_mod, Nat.add_mul, Nat.add_assoc, hsum]

theorem flushOffset (hs : ctx.Slotted) (ino : UInt32) :
    inodeIndex ctx ino * ctx.superblock.sInodeSize.toNat % 2 ^ 32 % 512 = slotOffset ctx ino := by
  obtain ⟨hmul, -, -⟩ := hs.size_mul
  unfold slotOffset
  rw [Nat.mod_mod_of_dvd _ (by decide)]
  conv_lhs => rw [← hmul, Nat.mul_mod_mul_right]

theorem ext2WriteBuffer_ok {b : BufferObject} {d : List UInt8} {off : Nat}
    (hfit : off % 512 + d.length ≤ 512) : ext2WriteBuffer b d off h m
      = .ok ({ b with buffer := Window.patch b.buffer (off % 512) d, dirty := true }, m) := by
  unfold ext2WriteBuffer
  rw [if_pos hfit]
  rfl

/-- The state after some stores and loads: the handle's buffer is clean and only the device, the log
    and `sysbuf` may differ. -/
structure Stored (m : Machine) (fe : FileEnt) (v : UInt32 → Sector) (m' : Machine)
    (fe' : FileEnt) : Prop where
  machine : ∃ s l, m' = { m with disk := v, log := l, ctx := { m.ctx with sysbuf := s } }
  handle : ∃ b, b.dirty = false ∧ fe' = { fe with buffer := b }

/-- A flush of a changed inode returns only with a descriptor for the inode's group. -/
theorem of_ext2FlushInode_ok {r : Int} {fe' : FileEnt} {m' : Machine}
    (hrun : ext2FlushInode fe h m = .ok ((r, fe'), m')) (hdirty : fe.flags.fsDirty = true) :
    m.ctx.SaneBlockSize ∧ m.ctx.superblock.sInodesPerGroup ≠ 0 ∧
      inodeGroup m.ctx fe.inodeNumber < m.ctx.numBlockgroups.toNat := by
  obtain ⟨ctx, m₀, hctx, hrun⟩ := Prog.of_bind_ok hrun
  cases hctx
  obtain ⟨g, m₁, hdiv, hrun⟩ := Prog.of_bind_ok hrun
  obtain ⟨hper, rfl, rfl⟩ := of_udiv_ok hdiv
  rw [Prog.bind_ok (umod_ok _ hper), if_pos hdirty] at hrun
  obtain ⟨bg, m₂, hbg, -⟩ := Prog.of_bind_ok hrun
  have hg32 : (UInt32.ofNat ((fe.inodeNumber - 1).toNat
      / m₁.ctx.superblock.sInodesPerGroup.toNat)).toNat = inodeGroup m₁.ctx fe.inodeNumber := by
    apply UInt32.toNat_ofNat_of_lt'
    exact lt_of_le_of_lt (Nat.div_le_self _ _) (fe.inodeNumber - 1).toNat_lt
  have hg : inodeGroup m₁.ctx fe.inodeNumber < m₁.ctx.numBlockgroups.toNat := by
    by_contra hg
    rw [ext2BgDescriptor_none (by rw [hg32]; exact Nat.not_lt.1 hg)] at hbg
    cases hbg
  refine ⟨?_, fun h0 => hper (by rw [h0]; rfl), hg⟩
  -- the descriptor is found through the block size
  obtain ⟨o, m₃, hget, -⟩ := Prog.of_bind_ok hbg
  unfold ext2GetBgDescriptor at hget
  rw [Prog.bind_ok getCtx_apply, hg32, if_neg (Nat.not_le.2 hg)] at hget
  obtain ⟨bs, m₄, hbs, -⟩ := Prog.of_bind_ok hget
  exact (of_ext2BlockSize_ok hbs).1

/-- A changed inode is written to its slot, the rest of the sector stays. -/
theorem ext2FlushInode_ok (hh : h.Reliable) (hs : m.ctx.Slotted) (hclean : fe.buffer.dirty = false)
    (hdirty : fe.flags.fsDirty = true)
    (hg : inodeGroup m.ctx fe.inodeNumber < m.ctx.numBlockgroups.toNat) : ∃ m' fe',
    ext2FlushInode fe h m
      = .ok ((0, { fe' with flags := { fe.flags with fsDirty := false } }), m') ∧
    Stored m fe (putInode m.disk m.ctx fe.inodeNumber fe.inode) m' fe' ∧
    ∃ l, m.log <:+ l ∧ m'.log = .write (slotSector m.disk m.ctx fe.inodeNumber) true :: l := by
  obtain ⟨hmul, hpos, hge⟩ := hs.size_mul
  have hbs := blockSize_eq_mul m.ctx
  have hbs1024 := blockSize_ge m.ctx
  have hsize : m.ctx.superblock.sInodeSize.toNat ≠ 0 := by omega
  have hper : m.ctx.blockSize / m.ctx.superblock.sInodeSize.toNat ≠ 0 := by
    refine (Nat.div_pos ?_ (by omega)).ne'
    have := Nat.div_mul_le_self 512 m.ctx.superblock.sInodeSize.toNat
    rcases hs.size_toNat with h | h | h <;> omega
  have hfit : inodeIndex m.ctx fe.inodeNumber * m.ctx.superblock.sInodeSize.toNat % 2 ^ 32 % 512
      + (Inode.packed.bytes fe.inode).length ≤ 512 := by
    rw [flushOffset hs, Packed.length_bytes]
    exact slotOffset_le hs _
  -- after the descriptor has been read only `sysbuf` and the log are new
  obtain ⟨m₁, hm₁⟩ : ∃ m₁ : Machine, m₁ = { m with
      ctx := { m.ctx with sysbuf := m.disk (descriptorSector m.ctx
        (inodeGroup m.ctx fe.inodeNumber)) }
      log := .read (descriptorSector m.ctx (inodeGroup m.ctx fe.inodeNumber)) true :: m.log } :=
    ⟨_, rfl⟩
  have hbg := ext2BgDescriptor_ok hh hs.block hg
  rw [← hm₁] at hbg
  have hs₁ : m₁.ctx.SaneBlockSize := by
    rw [hm₁]
    exact hs.block
  have hview : view m₁ fe = m.disk := by
    rw [hm₁]
    simp only [view, hclean, Bool.false_eq_true, if_false]
  -- the block and the offset the slot is loaded through
  generalize hb : UInt32.ofNat ((descriptorAt m.disk m.ctx
    (inodeGroup m.ctx fe.inodeNumber)).bgInodeTable.toNat + inodeIndex m.ctx fe.inodeNumber
      / (m.ctx.blockSize / m.ctx.superblock.sInodeSize.toNat)) = b
  generalize ho : UInt32.ofNat (inodeIndex m.ctx fe.inodeNumber
    * m.ctx.superblock.sInodeSize.toNat % 2 ^ 32 % m.ctx.blockSize) = o
  have hslot : blockSector m.ctx b o.toNat = slotSector m.disk m.ctx fe.inodeNumber := by
    rw [← hb, ← ho]
    exact flushSlot hs _ _
  have hslot₁ : blockSector m₁.ctx b o.toNat = slotSector m.disk m.ctx fe.inodeNumber := by
    rw [hm₁]
    exact hslot
  have hgroup : (fe.inodeNumber - 1).toNat / m.ctx.superblock.sInodesPerGroup.toNat
      = inodeGroup m.ctx fe.inodeNumber := rfl
  have hindex : (fe.inodeNumber - 1).toNat % m.ctx.superblock.sInodesPerGroup.toNat
      = inodeIndex m.ctx fe.inodeNumber := rfl
  have hbs₁ : m₁.ctx.blockSize = m.ctx.blockSize := by
    rw [hm₁]
    rfl
  have hload : ext2LoadBuffer fe b o h m₁ = _ := ext2LoadBuffer_ok hh hs₁ b o
  rw [hview, hslot₁] at hload
  have hbuf : (loadedBuffer m₁ fe b o).buffer = m.disk (slotSector m.disk m.ctx fe.inodeNumber) := by
    unfold loadedBuffer
    rw [hview, hslot₁]
  -- the handle and the machine of the final store
  obtain ⟨fe₂, hfe₂⟩ : ∃ fe₂ : FileEnt, fe₂ = { fe with buffer := { loadedBuffer m₁ fe b o with
      buffer := Window.patch (m.disk (slotSector m.disk m.ctx fe.inodeNumber))
        (slotOffset m.ctx fe.inodeNumber) (Inode.packed.bytes fe.inode)
      dirty := true } } := ⟨_, rfl⟩
  obtain ⟨m₂, hm₂⟩ : ∃ m₂ : Machine, m₂ = { m₁ with
      disk := m.disk
      log := loadLog m₁ fe (slotSector m.disk m.ctx fe.inodeNumber) } := ⟨_, rfl⟩
  have hsec : fe₂.buffer.lbaBlock + m₂.ctx.partStart = slotSector m.disk m.ctx fe.inodeNumber := by
    rw [hfe₂, hm₂]
    exact hslot₁
  have hstore := ext2StoreBuffer_at hh hsec
  have hgrow : m.log <:+ m₂.log := by
    obtain ⟨l, hsuf, hlog⟩ := loadLog_eq m₁ fe (slotSector m.disk m.ctx fe.inodeNumber)
    have h₁ : m.log <:+ m₁.log := by
      rw [hm₁]
      exact List.suffix_cons _ _
    rw [hm₂]
    exact hlog ▸ (h₁.trans hsuf).trans (List.suffix_cons _ _)
  refine ⟨{ m₂ with
      disk := Function.update m₂.disk (slotSector m.disk m.ctx fe.inodeNumber) fe₂.buffer.buffer
      log := .write (slotSector m.disk m.ctx fe.inodeNumber) true :: m₂.log },
    { fe₂ with buffer := { fe₂.buffer with dirty := false } }, ?_,
    ⟨?_, ⟨{ fe₂.buffer with dirty := false }, rfl, ?_⟩⟩, ⟨_, hgrow, rfl⟩⟩
  · unfold ext2FlushInode
    rw [Prog.bind_ok getCtx_apply, Prog.bind_ok (udiv_ok _ hs.perGroup_toNat),
      Prog.bind_ok (umod_ok _ hs.perGroup_toNat), if_pos hdirty, hgroup, hindex, Prog.bind_ok hbg,
      Prog.bind_ok (ext2BlockSize_ok hs₁), hbs₁, Prog.bind_ok (udiv_ok _ hsize),
      Prog.bind_ok (udiv_ok _ hper)]
    dsimp only
    rw [hb, ho, Prog.bind_ok hload]
    dsimp only
    rw [Prog.bind_ok (ext2WriteBuffer_ok hfit), flushOffset hs, hbuf, ← hm₂]
    rw [hfe₂] at hstore ⊢
    exact Prog.bind_ok hstore
  · rw [hm₂, hfe₂, hm₁]
    exact ⟨_, _, rfl⟩
  · rw [hfe₂]

/-- A flush leaves a clean, unmarked handle and its inode in the slot, if that is apart from the
    group's descriptor. -/
theorem ext2FlushInode_inodeAt (hh : h.Reliable) (hs : m.ctx.Slotted)
    (hclean : fe.buffer.dirty = false) (hdirty : fe.flags.fsDirty = true)
    (hslot : slotSector m.disk m.ctx fe.inodeNumber
      ≠ descriptorSector m.ctx (inodeGroup m.ctx fe.inodeNumber))
    {r : Int} {fe' : FileEnt} {m' : Machine}
    (hrun : ext2FlushInode fe h m = .ok ((r, fe'), m')) :
    (∃ b, b.dirty = false ∧
      fe' = { fe with buffer := b, flags := { fe.flags with fsDirty := false } }) ∧
      inodeAt m'.disk m'.ctx fe.inodeNumber = fe.inode := by
  obtain ⟨m₁, fe₁, hok, hst, -⟩ := ext2FlushInode_ok hh hs hclean hdirty
    (of_ext2FlushInode_ok hrun hdirty).2.2
  rw [hok] at hrun
  cases hrun
  obtain ⟨b, hb, hfe₁⟩ := hst.handle
  obtain ⟨s, l, hm'⟩ := hst.machine
  refine ⟨⟨b, hb, by rw [hfe₁]⟩, ?_⟩
  have hself : inodeAt (putInode m.disk m.ctx fe.inodeNumber fe.inode) m.ctx fe.inodeNumber
      = fe.inode := inodeAt_putInode_self hs hslot
  generalize putInode m.disk m.ctx fe.inodeNumber fe.inode = w at hm' hself
  rw [hm', inodeAt_sysbuf, hself]

namespace SmallVolume

set_option maxRecDepth 4000

/-- The volume has what the driver relies on. -/
theorem machine_ctx_sane : machine.ctx.Sane where
  block := machine_sane
  first := by decide
  size := .inl (by decide)
  perGroup := by decide
  groups := by decide
  covered ino h0 hle := by
    have hper : machine.ctx.superblock.sInodesPerGroup.toNat = 16 := by decide
    have hcount : machine.ctx.superblock.sInodesCount.toNat = 16 := by decide
    have hgroups : machine.ctx.numBlockgroups.toNat = 1 := by decide
    have hne : ino.toNat ≠ 0 := fun h => h0 (UInt32.toNat_inj.1 h)
    have hpred : (ino - 1).toNat = ino.toNat - 1 :=
      UInt32.toNat_sub_of_le _ _ (UInt32.le_iff_toNat_le.2 (Nat.one_le_iff_ne_zero.2 hne))
    rw [inodeGroup, hper, hgroups, hpred]
    omega

end SmallVolume

end Embext
