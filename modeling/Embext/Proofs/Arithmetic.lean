import Embext.Proofs.Inode
import Embext.Proofs.Mount

set_option autoImplicit false

/-! # What the checks of a mount are worth

`ext2_mount` tests the magic and compares the block count, shifted to KiB and cut to 32 bits, with
the number of sectors of the volume. The divisors and shift counts that the superblock feeds to the
rest of the driver are not tested. -/

namespace Embext

open Prog (Avoids avoids_pure avoids_fault avoids_total avoids_ite maintains_pure maintains_ite)

/-! ## Faults of the arithmetic -/

/-- A division by zero or a shift that is not defined. -/
def Fault.Arithmetic (e : Fault) : Prop := e = .divByZero ∨ e = .badShift

variable {h : Host} {c : Ext2Context}

/-- The machine works on the volume of `c`. -/
def OnVolume (c : Ext2Context) (m : Machine) : Prop := c.SameVolume m.ctx

/-- The fields of the superblock that the arithmetic relies on. -/
structure Ext2Context.Guarded (c : Ext2Context) : Prop where
  log : c.superblock.sLogBlockSize.toNat ≤ 20
  perGroup : c.superblock.sBlocksPerGroup.toNat ≠ 0
  inodes : c.superblock.sInodesPerGroup.toNat ≠ 0
  slots : c.superblock.sInodesCount.toNat ≠ 0 → c.superblock.sInodeSize.toNat ≠ 0 ∧
    c.superblock.sInodeSize.toNat ≤ 512
  tables : c.numBlockgroups.toNat ≠ 0 → c.superblock.sInodeSize.toNat ≠ 0 ∧
    c.superblock.sInodeSize.toNat ≤ c.blockSize

/-- A program put together from the primitive steps stays on the volume. -/
theorem Steps.onVolume {alloc : Prop} {α : Type} {m : Drv α} (hm : Steps alloc m) :
    m.Maintains h (OnVolume c) fun _ => True :=
  fun _ _ _ hs hrun => ⟨hs.trans (hm.sameVolume hrun), trivial⟩

theorem onVolume_getCtx : getCtx.Maintains h (OnVolume c) (c.SameVolume ·) := by
  intro m a m' hm hrun
  cases hrun
  exact ⟨hm, hm⟩

/-- A step that cannot go wrong, before anything else. -/
theorem Avoids.step {α β : Type} {m : Drv α} {k : α → Drv β}
    (hm : m.Avoids h (OnVolume c) Fault.Arithmetic) (hs : Steps True m)
    (hk : ∀ a, (k a).Avoids h (OnVolume c) Fault.Arithmetic) :
    (m >>= k).Avoids h (OnVolume c) Fault.Arithmetic :=
  Prog.Avoids.bind hm hs.onVolume fun a _ => hk a

theorem avoids_getCtx : getCtx.Avoids h (OnVolume c) Fault.Arithmetic :=
  avoids_total fun m _ => ⟨m.ctx, m, rfl⟩

theorem avoids_setSysbuf (s : Sector) : (setSysbuf s).Avoids h (OnVolume c) Fault.Arithmetic :=
  avoids_total fun _ _ => ⟨_, _, rfl⟩

theorem avoids_blockRead (s : UInt32) (old : Sector) :
    (blockRead s old).Avoids h (OnVolume c) Fault.Arithmetic :=
  avoids_total fun _ _ => ⟨_, _, blockRead_apply s old⟩

theorem avoids_blockWrite (s : UInt32) (d : Sector) :
    (blockWrite s d).Avoids h (OnVolume c) Fault.Arithmetic := by
  intro m e _ herr
  unfold blockWrite at herr
  split at herr <;> cases herr

theorem avoids_readSysbuf (s : UInt32) : (readSysbuf s).Avoids h (OnVolume c) Fault.Arithmetic := by
  unfold readSysbuf
  exact Avoids.step avoids_getCtx (.prim .getCtx) fun ctx =>
    Avoids.step (avoids_blockRead _ _) (.prim (.blockRead _ _)) fun (_, s) => avoids_setSysbuf s

theorem avoids_shl (x : UInt32) {n : UInt32} (hn : n.toNat < 32) :
    (shl x n).Avoids h (OnVolume c) Fault.Arithmetic :=
  avoids_total fun _ _ => ⟨_, _, shl_ok x hn⟩

theorem avoids_udiv (x : Nat) {y : Nat} (hy : y ≠ 0) :
    (udiv x y).Avoids h (OnVolume c) Fault.Arithmetic :=
  avoids_total fun _ _ => ⟨_, _, udiv_ok x hy⟩

theorem avoids_umod (x : Nat) {y : Nat} (hy : y ≠ 0) :
    (umod x y).Avoids h (OnVolume c) Fault.Arithmetic :=
  avoids_total fun _ _ => ⟨_, _, umod_ok x hy⟩

section volume

variable (hlog : c.superblock.sLogBlockSize.toNat ≤ 20)
include hlog

theorem SameVolume.saneBlockSize {c' : Ext2Context} (hvol : c.SameVolume c') :
    c'.SaneBlockSize := by
  unfold Ext2Context.SameVolume at hvol
  rw [hvol]
  exact hlog

omit hlog in
theorem SameVolume.blockSize_eq {c' : Ext2Context} (hvol : c.SameVolume c') :
    c'.blockSize = c.blockSize := by
  unfold Ext2Context.SameVolume at hvol
  rw [hvol]
  rfl

theorem avoids_ext2BlockSize : ext2BlockSize.Avoids h (OnVolume c) Fault.Arithmetic :=
  avoids_total fun _ hm => ⟨_, _, ext2BlockSize_ok (SameVolume.saneBlockSize hlog hm)⟩

theorem onVolume_ext2BlockSize :
    ext2BlockSize.Maintains h (OnVolume c) fun bs => bs = c.blockSize := by
  intro m a m' hm hrun
  rw [ext2BlockSize_ok (SameVolume.saneBlockSize hlog hm)] at hrun
  cases hrun
  exact ⟨hm, SameVolume.blockSize_eq hm⟩

/-! ## The functions -/

omit hlog in
theorem avoids_ext2StoreBuffer (fe : FileEnt) :
    (ext2StoreBuffer fe).Avoids h (OnVolume c) Fault.Arithmetic := by
  unfold ext2StoreBuffer
  exact Avoids.step avoids_getCtx (.prim .getCtx) fun ctx =>
    Avoids.step (avoids_blockWrite _ _) (.prim (.blockWrite _ _)) fun r =>
      avoids_ite (fun _ => avoids_pure _) fun _ => avoids_pure _

theorem avoids_ext2LoadBuffer (fe : FileEnt) (b off : UInt32) :
    (ext2LoadBuffer fe b off).Avoids h (OnVolume c) Fault.Arithmetic := by
  have hfill : ∀ fe : FileEnt,
      (ext2FillBuffer fe b off).Avoids h (OnVolume c) Fault.Arithmetic := by
    intro fe
    unfold ext2FillBuffer
    exact Avoids.step (avoids_ext2BlockSize hlog) steps_ext2BlockSize fun bs =>
      Avoids.step avoids_getCtx (.prim .getCtx) fun ctx =>
        Avoids.step (avoids_blockRead _ _) (.prim (.blockRead _ _)) fun _ => avoids_pure _
  unfold ext2LoadBuffer
  refine avoids_ite (fun _ => ?_) fun _ => hfill fe
  exact Avoids.step (avoids_ext2StoreBuffer _) (steps_ext2StoreBuffer _) fun (r, fe) =>
    avoids_ite (fun _ => avoids_pure _) fun _ => hfill fe

omit hlog in
theorem avoids_ext2ReadBuffer (b : BufferObject) (off n : Nat) :
    (ext2ReadBuffer b off n).Avoids h (OnVolume c) Fault.Arithmetic :=
  avoids_ite (fun _ => avoids_pure _) fun _ => avoids_fault (by simp [Fault.Arithmetic])

omit hlog in
theorem avoids_ext2WriteBuffer (b : BufferObject) (d : List UInt8) (off : Nat) :
    (ext2WriteBuffer b d off).Avoids h (OnVolume c) Fault.Arithmetic :=
  avoids_ite (fun _ => avoids_pure _) fun _ => avoids_fault (by simp [Fault.Arithmetic])

theorem avoids_ext2ReadPointer (fe : FileEnt) (table : UInt32) (i : Nat) :
    (ext2ReadPointer fe table i).Avoids h (OnVolume c) Fault.Arithmetic := by
  unfold ext2ReadPointer ext2ReadBufferU32
  exact Avoids.step (avoids_ext2LoadBuffer hlog _ _ _) (steps_ext2LoadBuffer _ _ _) fun (_, fe) =>
    Avoids.step (Avoids.step (avoids_ext2ReadBuffer _ _ _) (steps_ext2ReadBuffer _ _ _) fun l =>
      avoids_pure _) (.bind (steps_ext2ReadBuffer _ _ _) fun l => .pure _) fun b => avoids_pure _

theorem avoids_ext2BlockFromOffset (fe : FileEnt) (offset : Nat) :
    (ext2BlockFromOffset fe offset).Avoids h (OnVolume c) Fault.Arithmetic := by
  unfold ext2BlockFromOffset
  refine Avoids.step (avoids_ext2BlockSize hlog) steps_ext2BlockSize fun bs =>
    avoids_ite (fun _ => avoids_pure _) fun _ =>
      avoids_ite (fun _ => avoids_ext2ReadPointer hlog _ _ _) fun _ => avoids_ite (fun _ => ?_)
        fun _ => avoids_ite (fun _ => ?_) fun _ => avoids_pure _
  · exact Avoids.step (avoids_ext2ReadPointer hlog _ _ _) (steps_ext2ReadPointer _ _ _)
      fun (b, fe) => avoids_ext2ReadPointer hlog _ _ _
  · exact Avoids.step (avoids_ext2ReadPointer hlog _ _ _) (steps_ext2ReadPointer _ _ _)
      fun (b, fe) => Avoids.step (avoids_ext2ReadPointer hlog _ _ _) (steps_ext2ReadPointer _ _ _)
        fun (b, fe) => avoids_ext2ReadPointer hlog _ _ _

theorem avoids_ext2BgDescriptor (g : UInt32) :
    (ext2BgDescriptor g).Avoids h (OnVolume c) Fault.Arithmetic := by
  have hget : (ext2GetBgDescriptor g).Avoids h (OnVolume c) Fault.Arithmetic := by
    unfold ext2GetBgDescriptor
    exact Avoids.step avoids_getCtx (.prim .getCtx) fun ctx => avoids_ite (fun _ => avoids_pure _)
      fun _ => Avoids.step (avoids_ext2BlockSize hlog) steps_ext2BlockSize fun bs =>
        Avoids.step (avoids_readSysbuf _) (steps_readSysbuf _) fun _ =>
          Avoids.step avoids_getCtx (.prim .getCtx) fun ctx => avoids_pure _
  have hsteps : Steps True (ext2GetBgDescriptor g) := by
    unfold ext2GetBgDescriptor
    exact .bind (.prim .getCtx) fun ctx => .ite (fun _ => .pure _) fun _ =>
      .bind steps_ext2BlockSize fun bs => .bind (steps_readSysbuf _) fun _ =>
        .bind (.prim .getCtx) fun ctx => .pure _
  unfold ext2BgDescriptor
  refine Avoids.step hget hsteps fun bg => ?_
  cases bg with
  | none => exact avoids_fault (by simp [Fault.Arithmetic])
  | some bg => exact avoids_pure _

theorem avoids_ext2WriteBgDescriptor (bg : BlockGroupDescriptor) (g : UInt32) :
    (ext2WriteBgDescriptor bg g).Avoids h (OnVolume c) Fault.Arithmetic := by
  have hcopies : ∀ l : List UInt32,
      (ext2WriteBgCopies bg g l).Avoids h (OnVolume c) Fault.Arithmetic ∧
        Steps True (ext2WriteBgCopies bg g l) := by
    intro l
    induction l with
    | nil => exact ⟨avoids_pure _, .pure _⟩
    | cons b rest ih =>
      refine ⟨?_, ?_⟩
      · exact Avoids.step avoids_getCtx (.prim .getCtx) fun ctx =>
          Avoids.step (avoids_ext2BlockSize hlog) steps_ext2BlockSize fun bs =>
            Avoids.step (avoids_readSysbuf _) (steps_readSysbuf _) fun _ =>
              Avoids.step avoids_getCtx (.prim .getCtx) fun ctx =>
                Avoids.step (avoids_setSysbuf _) (steps_setSysbuf _) fun _ => ih.1
      · exact .bind (.prim .getCtx) fun ctx => .bind steps_ext2BlockSize fun bs =>
          .bind (steps_readSysbuf _) fun _ => .bind (.prim .getCtx) fun ctx =>
            .bind (steps_setSysbuf _) fun _ => ih.2
  unfold ext2WriteBgDescriptor
  exact Avoids.step avoids_getCtx (.prim .getCtx) fun ctx => avoids_ite (fun _ => avoids_pure _)
    fun _ => Avoids.step (hcopies _).1 (hcopies _).2 fun _ => avoids_pure _

theorem avoids_mostFreeGroup (free : BlockGroupDescriptor → UInt16) (n : Nat) : ∀ i most g,
    (mostFreeGroup free n i most g).Avoids h (OnVolume c) Fault.Arithmetic := by
  induction n with
  | zero => exact fun i most g => avoids_pure _
  | succ n ih =>
    intro i most g
    exact Avoids.step (avoids_ext2BgDescriptor hlog _) (steps_ext2BgDescriptor _) fun bg =>
      avoids_ite (fun _ => ih _ _ _) fun _ => ih _ _ _

theorem avoids_scanBitmap (bitmap : UInt32) (n : Nat) : ∀ i fe,
    (scanBitmap bitmap n i fe).Avoids h (OnVolume c) Fault.Arithmetic := by
  induction n with
  | zero => exact fun i fe => avoids_pure _
  | succ n ih =>
    intro i fe
    refine Avoids.step (avoids_ext2LoadBuffer hlog _ _ _) (steps_ext2LoadBuffer _ _ _)
      fun (_, fe) => Avoids.step (avoids_ext2ReadBuffer _ _ _) (steps_ext2ReadBuffer _ _ _)
        fun byte => ?_
    dsimp only
    split
    · exact avoids_pure _
    · exact ih _ _

theorem avoids_ext2ChangeAllocated (hper : c.superblock.sBlocksPerGroup.toNat ≠ 0)
    (block : UInt32) (allocated forDirectory : Bool) :
    (ext2ChangeAllocated block allocated forDirectory).Avoids h (OnVolume c) Fault.Arithmetic := by
  unfold ext2ChangeAllocated
  refine Prog.Avoids.bind avoids_getCtx onVolume_getCtx fun ctx hctx => ?_
  have hper' : ctx.superblock.sBlocksPerGroup.toNat ≠ 0 := by
    rw [show ctx.superblock.sBlocksPerGroup = c.superblock.sBlocksPerGroup by rw [hctx]]
    exact hper
  refine Avoids.step (avoids_udiv _ hper') (steps_udiv _ _) fun g =>
    Avoids.step (avoids_ext2BgDescriptor hlog _) (steps_ext2BgDescriptor _) fun bg =>
      Avoids.step (avoids_umod _ hper') (steps_umod _ _) fun o =>
        Avoids.step (avoids_readSysbuf _) (steps_readSysbuf _) fun _ =>
          Avoids.step avoids_getCtx (.prim .getCtx) fun ctx =>
            avoids_ite (fun _ => avoids_pure _) fun _ => ?_
  refine Avoids.step (avoids_setSysbuf _) (steps_setSysbuf _) fun _ =>
    Avoids.step (avoids_blockWrite _ _) (.prim (.blockWrite _ _)) fun _ =>
      Avoids.step (avoids_ext2WriteBgDescriptor hlog _ _) (steps_ext2WriteBgDescriptor _ _)
        fun _ => avoids_total fun _ _ => ⟨_, _, rfl⟩

theorem avoids_ext2AllocateBlock (hper : c.superblock.sBlocksPerGroup.toNat ≠ 0) (fe : FileEnt)
    (previous : UInt32) :
    (ext2AllocateBlock fe previous).Avoids h (OnVolume c) Fault.Arithmetic := by
  unfold ext2AllocateBlock
  refine Avoids.step avoids_getCtx (.prim .getCtx) fun ctx =>
    Avoids.step (avoids_mostFreeGroup hlog _ _ _ _ _) (steps_mostFreeGroup _ _ _ _ _)
      fun (most, g) => avoids_ite (fun _ => avoids_pure _) fun _ =>
        Avoids.step (avoids_ext2BgDescriptor hlog _) (steps_ext2BgDescriptor _) fun bg =>
          Avoids.step (avoids_scanBitmap hlog _ _ _ _) (steps_scanBitmap _ _ _ _)
            fun (found, fe) => ?_
  cases found with
  | none => exact avoids_pure _
  | some x =>
    exact Avoids.step (avoids_ext2ChangeAllocated hlog hper _ _ _)
      (steps_ext2ChangeAllocated _ _ _) fun r => avoids_ite (fun _ => avoids_pure _) fun _ =>
        avoids_pure _

end volume

theorem onVolume_udiv (x : Nat) {y : Nat} :
    (udiv x y).Maintains h (OnVolume c) fun z => z = x / y := by
  intro m z m' hm hrun
  obtain ⟨-, hz, rfl⟩ := of_udiv_ok hrun
  exact ⟨hm, hz⟩

/-- The shift count of the slots stays below the width. -/
theorem SameVolume.shift_lt {c' : Ext2Context} (hvol : c.SameVolume c')
    (hlog : c.superblock.sLogBlockSize.toNat ≤ 20) :
    (c'.superblock.sLogBlockSize + 1).toNat < 32 := by
  have hsane := SameVolume.saneBlockSize hlog hvol
  have hsucc := log_succ_toNat hsane
  unfold Ext2Context.SaneBlockSize at hsane
  omega

theorem avoids_ext2OpenInode (hc : c.Guarded) (fe : FileEnt) {ino : UInt32} (h0 : ino ≠ 0)
    (hle : ino.toNat ≤ c.superblock.sInodesCount.toNat) :
    (ext2OpenInode fe ino).Avoids h (OnVolume c) Fault.Arithmetic := by
  have hne : ino.toNat ≠ 0 := fun hz => h0 (UInt32.toNat_inj.1 hz)
  obtain ⟨hsize, hfit⟩ := hc.slots (by omega)
  have hslots : 512 / c.superblock.sInodeSize.toNat ≠ 0 :=
    (Nat.div_pos hfit (Nat.pos_of_ne_zero hsize)).ne'
  unfold ext2OpenInode
  refine Prog.Avoids.bind avoids_getCtx onVolume_getCtx fun ctx hctx => ?_
  have hper : ctx.superblock.sInodesPerGroup.toNat ≠ 0 := by
    rw [show ctx.superblock.sInodesPerGroup = c.superblock.sInodesPerGroup by rw [hctx]]
    exact hc.inodes
  have hshift := SameVolume.shift_lt hctx hc.log
  refine Avoids.step (avoids_udiv _ hper) (steps_udiv _ _) fun g =>
    Avoids.step (avoids_umod _ hper) (steps_umod _ _) fun i =>
      avoids_ite (fun _ => avoids_pure _) fun _ =>
        Avoids.step (avoids_shl _ hshift) (steps_shl _ _) fun b =>
          Avoids.step (avoids_readSysbuf _) (steps_readSysbuf _) fun _ => ?_
  refine Prog.Avoids.bind avoids_getCtx onVolume_getCtx fun ctx hctx => ?_
  have hsz : ctx.superblock.sInodeSize = c.superblock.sInodeSize := by rw [hctx]
  rw [hsz]
  refine Avoids.step (avoids_shl _ (SameVolume.shift_lt hctx hc.log)) (steps_shl _ _) fun b =>
    Prog.Avoids.bind (avoids_udiv _ hsize) (onVolume_udiv _) fun n hn => ?_
  rw [hn]
  exact Avoids.step (avoids_udiv _ hslots) (steps_udiv _ _) fun skip =>
    Avoids.step (avoids_readSysbuf _) (steps_readSysbuf _) fun _ =>
      Avoids.step avoids_getCtx (.prim .getCtx) fun ctx => avoids_ite (fun _ => avoids_pure _)
        fun _ => avoids_fault (by simp [Fault.Arithmetic])

/-- A descriptor is only read for a group of the volume. -/
theorem onVolume_ext2BgDescriptor (g : UInt32) : (ext2BgDescriptor g).Maintains h (OnVolume c)
    fun _ => c.numBlockgroups.toNat ≠ 0 := by
  intro m bg m' hm hrun
  refine ⟨(Steps.onVolume (show Steps True _ from steps_ext2BgDescriptor g) m _ m' hm hrun).1, ?_⟩
  intro h0
  have hgroups : m.ctx.numBlockgroups.toNat = 0 := by
    rw [show m.ctx.numBlockgroups = c.numBlockgroups by rw [hm]]
    exact h0
  rw [ext2BgDescriptor_none (by rw [hgroups]; exact Nat.zero_le _)] at hrun
  cases hrun

theorem avoids_ext2FlushInode (hc : c.Guarded) (fe : FileEnt) :
    (ext2FlushInode fe).Avoids h (OnVolume c) Fault.Arithmetic := by
  unfold ext2FlushInode
  refine Prog.Avoids.bind avoids_getCtx onVolume_getCtx fun ctx hctx => ?_
  have hper : ctx.superblock.sInodesPerGroup.toNat ≠ 0 := by
    rw [show ctx.superblock.sInodesPerGroup = c.superblock.sInodesPerGroup by rw [hctx]]
    exact hc.inodes
  have hsz : ctx.superblock.sInodeSize = c.superblock.sInodeSize := by rw [hctx]
  rw [hsz]
  refine Avoids.step (avoids_udiv _ hper) (steps_udiv _ _) fun g =>
    Avoids.step (avoids_umod _ hper) (steps_umod _ _) fun i =>
      avoids_ite (fun _ => ?_) fun _ => avoids_pure _
  refine Prog.Avoids.bind (avoids_ext2BgDescriptor hc.log _) (onVolume_ext2BgDescriptor _)
    fun bg hgroups => ?_
  -- the tables exist, so a slot fits a block
  obtain ⟨hsize, hfit⟩ := hc.tables hgroups
  have hslots : c.blockSize / c.superblock.sInodeSize.toNat ≠ 0 :=
    (Nat.div_pos hfit (Nat.pos_of_ne_zero hsize)).ne'
  refine Prog.Avoids.bind (avoids_ext2BlockSize hc.log) (onVolume_ext2BlockSize hc.log)
    fun bs hbs => ?_
  rw [hbs]
  refine Prog.Avoids.bind (avoids_udiv _ hsize) (onVolume_udiv _) fun n hn => ?_
  rw [hn]
  exact Avoids.step (avoids_udiv _ hslots) (steps_udiv _ _) fun skip =>
    Avoids.step (avoids_ext2LoadBuffer hc.log _ _ _) (steps_ext2LoadBuffer _ _ _) fun (_, fe) =>
      Avoids.step (avoids_ext2WriteBuffer _ _ _) (steps_ext2WriteBuffer _ _ _) fun b =>
        Avoids.step (avoids_ext2StoreBuffer _) (steps_ext2StoreBuffer _) fun (_, fe) =>
          avoids_pure _

/-! ## Volumes with safe arithmetic -/

/-- No division, remainder or shift of the functions that work on the volume goes wrong, whatever
    handle, inode number of the volume, block or offset they are given. The last two fields are the
    divisors that `ext2_block_from_offset` computes from the block size, where it uses them. -/
structure SafeArithmetic (h : Host) (c : Ext2Context) : Prop where
  openInode : ∀ (fe : FileEnt) (ino : UInt32), ino ≠ 0 →
    ino.toNat ≤ c.superblock.sInodesCount.toNat →
    (ext2OpenInode fe ino).Avoids h (OnVolume c) Fault.Arithmetic
  flushInode : ∀ fe : FileEnt, (ext2FlushInode fe).Avoids h (OnVolume c) Fault.Arithmetic
  changeAllocated : ∀ (block : UInt32) (allocated forDirectory : Bool),
    (ext2ChangeAllocated block allocated forDirectory).Avoids h (OnVolume c) Fault.Arithmetic
  allocateBlock : ∀ (fe : FileEnt) (previous : UInt32),
    (ext2AllocateBlock fe previous).Avoids h (OnVolume c) Fault.Arithmetic
  blockFromOffset : ∀ (fe : FileEnt) (offset : Nat),
    (ext2BlockFromOffset fe offset).Avoids h (OnVolume c) Fault.Arithmetic
  entries : c.blockSize ≠ 0 ∧ c.blockSize / 4 ≠ 0
  entriesSquared : c.blockSize / 4 * (c.blockSize / 4) * (c.blockSize / 4) % 2 ^ 32 ≠ 0 →
    c.blockSize / 4 * (c.blockSize / 4) % 2 ^ 32 ≠ 0

theorem Ext2Context.Guarded.safe (hc : c.Guarded) : SafeArithmetic h c where
  openInode fe _ h0 hle := avoids_ext2OpenInode hc fe h0 hle
  flushInode fe := avoids_ext2FlushInode hc fe
  changeAllocated := avoids_ext2ChangeAllocated hc.log hc.perGroup
  allocateBlock := avoids_ext2AllocateBlock hc.log hc.perGroup
  blockFromOffset := avoids_ext2BlockFromOffset hc.log
  entries := by
    have := blockSize_ge c
    omega
  entriesSquared := by
    intro hcube hsquare
    apply hcube
    rw [Nat.mul_mod, hsquare, Nat.zero_mul, Nat.zero_mod]

theorem udiv_zero (x : Nat) {m : Machine} : udiv x 0 h m = .error .divByZero := rfl

/-- Safe arithmetic needs every one of the guards. -/
theorem SafeArithmetic.guarded (hsafe : SafeArithmetic h c) {m : Machine} (hm : OnVolume c m) :
    c.Guarded := by
  have hdiv : Fault.divByZero.Arithmetic := .inl rfl
  have hsh : Fault.badShift.Arithmetic := .inr rfl
  have hlog : c.superblock.sLogBlockSize.toNat ≤ 20 := by
    by_contra hbig
    have hlogm : ¬ m.ctx.superblock.sLogBlockSize.toNat ≤ 20 := by
      rw [show m.ctx.superblock.sLogBlockSize = c.superblock.sLogBlockSize by rw [hm]]
      exact hbig
    refine hsafe.blockFromOffset FileEnt.fresh 0 m .badShift hm ?_ hsh
    unfold ext2BlockFromOffset
    refine Prog.bind_error ?_
    unfold ext2BlockSize
    rw [Prog.bind_ok getCtx_apply, if_neg hlogm]
    rfl
  have hinodes : c.superblock.sInodesPerGroup.toNat ≠ 0 := by
    intro h0
    have h0m : m.ctx.superblock.sInodesPerGroup.toNat = 0 := by
      rw [show m.ctx.superblock.sInodesPerGroup = c.superblock.sInodesPerGroup by rw [hm]]
      exact h0
    refine hsafe.flushInode FileEnt.fresh m .divByZero hm ?_ hdiv
    unfold ext2FlushInode
    rw [Prog.bind_ok getCtx_apply, h0m]
    exact Prog.bind_error (udiv_zero _)
  have hperm : m.ctx.superblock.sInodesPerGroup.toNat ≠ 0 := by
    rw [show m.ctx.superblock.sInodesPerGroup = c.superblock.sInodesPerGroup by rw [hm]]
    exact hinodes
  refine ⟨hlog, ?_, hinodes, ?_, ?_⟩
  · intro h0
    have h0m : m.ctx.superblock.sBlocksPerGroup.toNat = 0 := by
      rw [show m.ctx.superblock.sBlocksPerGroup = c.superblock.sBlocksPerGroup by rw [hm]]
      exact h0
    refine hsafe.changeAllocated 0 false false m .divByZero hm ?_ hdiv
    unfold ext2ChangeAllocated
    rw [Prog.bind_ok getCtx_apply, h0m]
    exact Prog.bind_error (udiv_zero _)
  · intro hcount
    by_contra hbad
    -- inode 1 is in the volume, and its slot cannot be computed
    have hone : (1 : UInt32).toNat = 1 := rfl
    refine hsafe.openInode FileEnt.fresh 1 (by decide) (by omega) m .divByZero hm ?_ hdiv
    have hin : ¬ (m.ctx.superblock.sInodesCount.toNat < (1 : UInt32).toNat ∨
        (1 : UInt32).toNat = 0) := by
      rw [show m.ctx.superblock.sInodesCount = c.superblock.sInodesCount by rw [hm]]
      omega
    have hshift := SameVolume.shift_lt hm hlog
    unfold ext2OpenInode
    rw [Prog.bind_ok getCtx_apply, Prog.bind_ok (udiv_ok _ hperm), Prog.bind_ok (umod_ok _ hperm),
      if_neg hin, Prog.bind_ok (shl_ok _ hshift)]
    dsimp only
    obtain ⟨⟨⟩, m₁, hread⟩ : ∃ u m₁, readSysbuf (UInt32.ofNat ((m.ctx.superblockBlock + 1).toNat
      * 2 ^ (m.ctx.superblock.sLogBlockSize + 1).toNat) + UInt32.ofNat ((1 - 1 : UInt32).toNat
        / m.ctx.superblock.sInodesPerGroup.toNat * 32 % 2 ^ 32 / 512) + m.ctx.partStart) h m
          = .ok (u, m₁) := by
      unfold readSysbuf
      rw [Prog.bind_ok getCtx_apply, Prog.bind_ok (blockRead_apply _ _)]
      exact ⟨_, _, rfl⟩
    have hm₁ : OnVolume c m₁ :=
      (Steps.onVolume (show Steps True _ from steps_readSysbuf _) m _ m₁ hm hread).1
    have hsz : m₁.ctx.superblock.sInodeSize = c.superblock.sInodeSize := by rw [hm₁]
    rw [Prog.bind_ok hread, Prog.bind_ok getCtx_apply,
      Prog.bind_ok (shl_ok _ (SameVolume.shift_lt hm₁ hlog)), hsz]
    by_cases hzero : c.superblock.sInodeSize.toNat = 0
    · rw [hzero]
      exact Prog.bind_error (udiv_zero _)
    · have hquot : 512 / c.superblock.sInodeSize.toNat = 0 := Nat.div_eq_of_lt (by
        by_contra hge
        exact hbad ⟨hzero, by omega⟩)
      rw [Prog.bind_ok (udiv_ok _ hzero), hquot]
      exact Prog.bind_error (udiv_zero _)
  · intro hgroups
    by_contra hbad
    -- the slot of inode 1 in a dirty handle
    obtain ⟨fe, hfe⟩ : ∃ fe : FileEnt, fe = { FileEnt.fresh with
      inodeNumber := 1, flags := ⟨true, false, false, true⟩ } := ⟨_, rfl⟩
    have hdirty : fe.flags.fsDirty = true := by rw [hfe]
    have hnum : (fe.inodeNumber - 1).toNat = 0 := by rw [hfe]; rfl
    refine hsafe.flushInode fe m .divByZero hm ?_ hdiv
    have hgroupsm : m.ctx.numBlockgroups.toNat ≠ 0 := by
      rw [show m.ctx.numBlockgroups = c.numBlockgroups by rw [hm]]
      exact hgroups
    have hzero : (UInt32.ofNat (0 / m.ctx.superblock.sInodesPerGroup.toNat)).toNat = 0 := by
      rw [Nat.zero_div]
      rfl
    obtain ⟨bg, m₁, hbg⟩ : ∃ bg m₁, ext2BgDescriptor
        (UInt32.ofNat (0 / m.ctx.superblock.sInodesPerGroup.toNat)) h m = .ok (bg, m₁) := by
      unfold ext2BgDescriptor ext2GetBgDescriptor readSysbuf
      simp only [Prog.bind_apply, getCtx_apply, hzero,
        Nat.not_le.2 (Nat.pos_of_ne_zero hgroupsm), if_false,
        ext2BlockSize_ok (SameVolume.saneBlockSize hlog hm), blockRead_apply, setSysbuf_apply,
        Prog.pure_apply]
      exact ⟨_, _, rfl⟩
    have hm₁ : OnVolume c m₁ :=
      (Steps.onVolume (show Steps True _ from steps_ext2BgDescriptor _) m _ m₁ hm hbg).1
    have hsz : m.ctx.superblock.sInodeSize = c.superblock.sInodeSize := by rw [hm]
    unfold ext2FlushInode
    rw [Prog.bind_ok getCtx_apply, Prog.bind_ok (udiv_ok _ hperm), Prog.bind_ok (umod_ok _ hperm),
      if_pos hdirty, hnum, Prog.bind_ok hbg,
      Prog.bind_ok (ext2BlockSize_ok (SameVolume.saneBlockSize hlog hm₁)), hsz,
      SameVolume.blockSize_eq hm₁]
    by_cases hsize : c.superblock.sInodeSize.toNat = 0
    · rw [hsize]
      exact Prog.bind_error (udiv_zero _)
    · have hquot : c.blockSize / c.superblock.sInodeSize.toNat = 0 := Nat.div_eq_of_lt (by
        by_contra hge
        exact hbad ⟨hsize, by omega⟩)
      rw [Prog.bind_ok (udiv_ok _ hsize), hquot]
      exact Prog.bind_error (udiv_zero _)

/-! ## What mounting promises -/

/-- `ext2_mount` turns the volume down, or mounts it with a context on which no arithmetic goes
    wrong. -/
def MountGuardsArithmetic (h : Host) (m : Machine) (garbage : Sector)
    (partStart volumeSize : UInt32) : Prop :=
  (∃ m', ext2Mount garbage partStart volumeSize h m = .ok (-1, m')) ∨
    ∃ m', ext2Mount garbage partStart volumeSize h m = .ok (0, m') ∧ SafeArithmetic h m'.ctx

/-- Superblock fields with which all divisors are nonzero and all shifts defined. Without inodes no
    slot is looked for in a sector, without blocks there is no group and no table. -/
structure Superblock.Arithmetic (sb : Superblock) : Prop where
  log : sb.sLogBlockSize.toNat ≤ 20
  perGroup : sb.sBlocksPerGroup.toNat ≠ 0
  inodes : sb.sInodesPerGroup.toNat ≠ 0
  slots : sb.sInodesCount.toNat ≠ 0 → sb.sInodeSize.toNat ≠ 0 ∧ sb.sInodeSize.toNat ≤ 512
  tables : sb.sBlocksCount.toNat ≠ 0 → sb.sInodeSize.toNat ≠ 0 ∧
    sb.sInodeSize.toNat ≤ 1024 * 2 ^ sb.sLogBlockSize.toNat

variable {m m' : Machine} {garbage : Sector} {partStart volumeSize : UInt32}

/-- There are groups where there are blocks, also in 32 bits. -/
theorem numBlockgroups_ne_zero_iff {sb : Superblock} (hper : sb.sBlocksPerGroup.toNat ≠ 0) :
    (UInt32.ofNat (numBlockgroups sb)).toNat ≠ 0 ↔ sb.sBlocksCount.toNat ≠ 0 := by
  have hlt := sb.sBlocksCount.toNat_lt
  have hdiv := Nat.div_add_mod sb.sBlocksCount.toNat sb.sBlocksPerGroup.toNat
  have hle : numBlockgroups sb ≤ sb.sBlocksCount.toNat := by
    have hquot : sb.sBlocksCount.toNat / sb.sBlocksPerGroup.toNat
        ≤ sb.sBlocksPerGroup.toNat * (sb.sBlocksCount.toNat / sb.sBlocksPerGroup.toNat) :=
      Nat.le_mul_of_pos_left _ (Nat.pos_of_ne_zero hper)
    unfold numBlockgroups
    split <;> omega
  rw [UInt32.toNat_ofNat', Nat.mod_eq_of_lt (by omega)]
  constructor
  · exact fun hg hb => hg (by omega)
  · intro hb hg
    unfold numBlockgroups at hg
    have hmod : sb.sBlocksCount.toNat % sb.sBlocksPerGroup.toNat = 0 := by
      by_contra hmod
      rw [if_pos hmod] at hg
      exact absurd hg (Nat.succ_ne_zero _)
    have hquot : sb.sBlocksCount.toNat / sb.sBlocksPerGroup.toNat = 0 :=
      Nat.eq_zero_of_add_eq_zero_right hg
    rw [hmod, hquot, Nat.mul_zero] at hdiv
    exact hb hdiv.symm

/-- The guards of a freshly mounted context are those of the superblock that was read. -/
theorem guarded_mounted_iff (hrun : ext2Mount garbage partStart volumeSize h m = .ok (0, m')) :
    m'.ctx.Guarded ↔ (mountSector h m garbage partStart).superblock.Arithmetic := by
  have hvol := ext2Mount_sameVolume hrun
  generalize mountSector h m garbage partStart = s at hvol ⊢
  have hblock := SameVolume.blockSize_eq hvol
  unfold Ext2Context.SameVolume at hvol
  have hsb : ∀ {α : Type} (f : Superblock → α), f m'.ctx.superblock = f { s.superblock with
      sMtime := m'.ctx.superblock.sMtime
      sMntCount := m'.ctx.superblock.sMntCount
      sState := m'.ctx.superblock.sState
      sFreeBlocksCount := m'.ctx.superblock.sFreeBlocksCount
      sFreeInodesCount := m'.ctx.superblock.sFreeInodesCount
      sBlockGroupNr := m'.ctx.superblock.sBlockGroupNr } := by
    intro α f
    rw [hvol]
    rfl
  have hgroups : m'.ctx.numBlockgroups = UInt32.ofNat (numBlockgroups s.superblock) := by
    rw [hvol]
    rfl
  have hbs : m'.ctx.blockSize = 1024 * 2 ^ s.superblock.sLogBlockSize.toNat := hblock
  constructor
  · intro hg
    have hper : s.superblock.sBlocksPerGroup.toNat ≠ 0 := by
      rw [← hsb (·.sBlocksPerGroup)]
      exact hg.perGroup
    refine ⟨?_, hper, ?_, ?_, fun hb => ?_⟩
    · rw [← hsb (·.sLogBlockSize)]
      exact hg.log
    · rw [← hsb (·.sInodesPerGroup)]
      exact hg.inodes
    · rw [← hsb (·.sInodesCount), ← hsb (·.sInodeSize)]
      exact hg.slots
    · rw [← hsb (·.sInodeSize), ← hbs]
      refine hg.tables ?_
      rw [hgroups]
      exact (numBlockgroups_ne_zero_iff hper).2 hb
  · intro ha
    refine ⟨?_, ?_, ?_, ?_, fun hg => ?_⟩
    · rw [hsb (·.sLogBlockSize)]
      exact ha.log
    · rw [hsb (·.sBlocksPerGroup)]
      exact ha.perGroup
    · rw [hsb (·.sInodesPerGroup)]
      exact ha.inodes
    · rw [hsb (·.sInodesCount), hsb (·.sInodeSize)]
      exact ha.slots
    · rw [hsb (·.sInodeSize), hbs]
      rw [hgroups] at hg
      exact ha.tables ((numBlockgroups_ne_zero_iff ha.perGroup).1 hg)

theorem MountGuardsArithmetic.arithmetic
    (hguards : MountGuardsArithmetic h m garbage partStart volumeSize) :
    MountRejects (mountSector h m garbage partStart).superblock volumeSize ∨
      (mountSector h m garbage partStart).superblock.Arithmetic := by
  rcases hguards with hrej | ⟨m', hrun, hsafe⟩
  · exact .inl (ext2Mount_rejects_iff.1 hrej)
  · exact .inr ((guarded_mounted_iff hrun).1 (hsafe.guarded (Ext2Context.SameVolume.refl _)))

/-- **Mount guards the arithmetic.** Whatever the sector of the superblock holds: the mount turns it
    down or all later divisions and shifts are defined, if and only if its checks turn it down or the
    fields that feed divisors and shift counts are themselves good. -/
theorem mountGuardsArithmetic_iff (h : Host) (m : Machine) (garbage : Sector)
    (partStart volumeSize : UInt32) :
    MountGuardsArithmetic h m garbage partStart volumeSize ↔
      MountRejects (mountSector h m garbage partStart).superblock volumeSize ∨
      (mountSector h m garbage partStart).superblock.Arithmetic := by
  constructor
  · exact MountGuardsArithmetic.arithmetic
  · intro hcases
    by_cases hrej : MountRejects (mountSector h m garbage partStart).superblock volumeSize
    · exact .inl (ext2Mount_rejects_iff.2 hrej)
    · have ha := hcases.resolve_left hrej
      have hlog := ha.log
      have hmagic : (mountSector h m garbage partStart).superblock.sMagic = ext2SuperMagic := by
        by_contra hne
        exact hrej (.inl hne)
      have hacc : MountAccepts (mountSector h m garbage partStart).superblock volumeSize :=
        ⟨hmagic, Nat.not_lt.1 fun hlt => hrej (.inr ⟨by omega, hlt⟩)⟩
      obtain ⟨m', hrun⟩ := ext2Mount_returns rfl hacc ha.perGroup (by omega)
      exact .inr ⟨m', hrun, ((guarded_mounted_iff hrun).2 ha).safe⟩

namespace SmallVolume

/-- The small volume with inodes of 1024 bytes, a size the format allows. -/
def largeInodes : Machine :=
  let sb : Superblock := { superblock with sInodeSize := 1024 }
  { machine with disk := Function.update disk 2 (sectorOf [(0, Superblock.packed.bytes sb)]) }

/-- A sector holds half of such an inode, and the driver divides by the zero that results. -/
theorem mountGuardsArithmetic_fails :
    ¬ MountGuardsArithmetic host largeInodes (fun _ => 0) 0 128 := by
  intro hguards
  rcases hguards.arithmetic with hrej | ha
  · rcases hrej with hmagic | ⟨-, hfit⟩
    · exact absurd hmagic (by decide +kernel)
    · exact absurd hfit (by decide +kernel)
  · exact absurd (ha.slots (by decide +kernel)).2 (by decide +kernel)

end SmallVolume

/-! ## Volumes that fit -/

/-- `ext2_mount` mounts only file systems that fit the volume, counted in sectors. -/
def MountsOnlyIfFits (h : Host) (m : Machine) (garbage : Sector) (partStart volumeSize : UInt32) :
    Prop :=
  ∀ m', ext2Mount garbage partStart volumeSize h m = .ok (0, m') →
    (mountSector h m garbage partStart).superblock.sBlocksCount.toNat *
      (1024 * 2 ^ (mountSector h m garbage partStart).superblock.sLogBlockSize.toNat / 512)
      ≤ volumeSize.toNat

/-- A file system that passes the check of a volume too short for it: the check counts KiB, and cuts
    them to 32 bits. -/
structure Superblock.Oversized (sb : Superblock) (volumeSize : UInt32) : Prop where
  magic : sb.sMagic = ext2SuperMagic
  groups : sb.sBlocksPerGroup.toNat ≠ 0
  shift : sb.sLogBlockSize.toNat < 31
  passes : sb.sBlocksCount.toNat * 2 ^ sb.sLogBlockSize.toNat % 2 ^ 32 ≤ volumeSize.toNat
  short : volumeSize.toNat < sb.sBlocksCount.toNat * 2 ^ (sb.sLogBlockSize.toNat + 1)

theorem sectorsPerBlock (log : Nat) : 1024 * 2 ^ log / 512 = 2 ^ (log + 1) := by
  rw [show 1024 = 512 * 2 from rfl, Nat.mul_assoc, Nat.mul_div_cancel_left _ (by decide), pow_succ,
    Nat.mul_comm]

/-- An oversized file system is mounted. -/
theorem Superblock.Oversized.mounted {sb : Superblock} (hsb : sb.Oversized volumeSize)
    (hsec : sb = (mountSector h m garbage partStart).superblock) :
    ∃ m', ext2Mount garbage partStart volumeSize h m = .ok (0, m') :=
  ext2Mount_returns hsec ⟨hsb.magic, by rw [UInt32.toNat_ofNat']; exact hsb.passes⟩ hsb.groups
    hsb.shift

namespace SmallVolume

end SmallVolume

end Embext
