import Embext.Implementation.Session
import Embext.Library.Generated

set_option autoImplicit false

/-! # What every call leaves alone

Every function that works on a mounted volume is put together from a few primitive steps
(`Step`): transfers, the error location, the clock, `d_name`, and updates of the context that touch
only `sysbuf`, the free counters and `s_block_group_nr`. One pass over the functions establishes
this; facts about all calls then follow from facts about the primitives. -/

namespace Embext

open Prog (Gen)

/-! ## Primitive steps -/

/-- Two contexts of one mounted volume: everything but `sysbuf`, the free counters and
    `s_block_group_nr` is the same. -/
def Ext2Context.SameVolume (c c' : Ext2Context) : Prop :=
  c' = { c with
    sysbuf := c'.sysbuf
    superblock := { c.superblock with
      sFreeBlocksCount := c'.superblock.sFreeBlocksCount
      sFreeInodesCount := c'.superblock.sFreeInodesCount
      sBlockGroupNr := c'.superblock.sBlockGroupNr } }

theorem Ext2Context.SameVolume.refl (c : Ext2Context) : c.SameVolume c := rfl

theorem Ext2Context.SameVolume.trans {c₁ c₂ c₃ : Ext2Context} (h₁ : c₁.SameVolume c₂)
    (h₂ : c₂.SameVolume c₃) : c₁.SameVolume c₃ := by
  unfold SameVolume at *
  rw [h₂, h₁]

/-- An update of the context that stays with its volume. -/
def KeepsVolume (f : Ext2Context → Ext2Context) : Prop := ∀ c : Ext2Context, c.SameVolume (f c)

/-- An update of the context that leaves the count of free inodes. -/
def KeepsFreeInodes (f : Ext2Context → Ext2Context) : Prop :=
  ∀ c : Ext2Context, (f c).superblock.sFreeInodesCount = c.superblock.sFreeInodesCount

/-- The primitive steps of the driver. Only with `alloc` may the count of free inodes change. -/
inductive Step (alloc : Prop) : (α : Type) → Drv α → Prop where
  | blockRead (s : UInt32) (old : Sector) : Step alloc _ (blockRead s old)
  | blockWrite (s : UInt32) (data : Sector) : Step alloc _ (blockWrite s data)
  | get : Step alloc _ Prog.get
  | getCtx : Step alloc _ getCtx
  | getErrno : Step alloc _ getErrno
  | setErrno (e : Errno) : Step alloc _ (setErrno e)
  | timeNull : Step alloc _ timeNull
  | patience : Step alloc _ patience
  | getuid : Step alloc _ getuid
  | getgid : Step alloc _ getgid
  | dName (f : (Fin 256 → UInt8) → Fin 256 → UInt8) :
      Step alloc _ (Prog.modify fun m => { m with dName := f m.dName })
  | context (f : Ext2Context → Ext2Context) (hf : KeepsVolume f)
      (hfree : alloc ∨ KeepsFreeInodes f) :
      Step alloc _ (Prog.modify fun m => { m with ctx := f m.ctx })

/-- A function put together from the primitive steps. -/
abbrev Steps (alloc : Prop) {α : Type} (m : Drv α) : Prop := Gen (Step alloc) α m

variable {alloc : Prop}

/-- A set of primitives that the functions can be put together from as long as they do not look at
    `*rerrno`. -/
class Primitives (B : (α : Type) → Drv α → Prop) : Prop where
  blockRead (s : UInt32) (old : Sector) : B _ (Embext.blockRead s old)
  blockWrite (s : UInt32) (data : Sector) : B _ (Embext.blockWrite s data)
  getCtx : B _ Embext.getCtx
  setErrno (e : Errno) : B _ (Embext.setErrno e)
  timeNull : B _ Embext.timeNull
  patience : B _ Embext.patience
  dName (f : (Fin 256 → UInt8) → Fin 256 → UInt8) :
    B _ (Prog.modify fun m => { m with dName := f m.dName })
  readName {α : Type} (g : (Fin 256 → UInt8) → α) :
    Gen B α (Prog.get >>= fun m => pure (g m.dName))
  context (f : Ext2Context → Ext2Context) (hf : KeepsVolume f) (hfree : KeepsFreeInodes f) :
    B _ (Prog.modify fun m => { m with ctx := f m.ctx })

instance : Primitives (Step alloc) where
  blockRead := .blockRead
  blockWrite := .blockWrite
  getCtx := .getCtx
  setErrno := .setErrno
  timeNull := .timeNull
  patience := .patience
  dName := .dName
  readName _ := .bind (.prim .get) fun _ => .pure _
  context f hf hfree := .context f hf (.inr hfree)

variable {B : (α : Type) → Drv α → Prop} [Primitives B]

/-- Reading the context and storing a changed one is one primitive step. -/
theorem gen_update {α : Type} {f : Ext2Context → Ext2Context} {k : Ext2Context → Drv α}
    (hf : B _ (Prog.modify fun m => { m with ctx := f m.ctx })) (hk : ∀ c, Gen B _ (k c)) :
    Gen B _ (do let c ← Embext.getCtx; setCtx (f c); k c) :=
  show Gen B _ (do
    let c ← Embext.getCtx
    (Prog.modify fun m => { m with ctx := f m.ctx } : Drv Unit)
    k c) from
  .bind (.prim Primitives.getCtx) fun c => .bind (.prim hf) fun _ => hk c

/-! ## The sector buffer -/

theorem steps_setSysbuf (s : Sector) : Gen B _ (setSysbuf s) :=
  .prim (Primitives.context (fun c : Ext2Context => { c with sysbuf := s }) (fun _ => rfl)
    fun _ => rfl)

theorem steps_readSysbuf (sector : UInt32) : Gen B _ (readSysbuf sector) := by
  unfold readSysbuf
  exact .bind (.prim Primitives.getCtx) fun ctx =>
    .bind (.prim (Primitives.blockRead _ _)) fun (_, s) => steps_setSysbuf s

theorem steps_ext2BlockSize : Gen B _ ext2BlockSize := by
  unfold ext2BlockSize
  exact .bind (.prim Primitives.getCtx) fun ctx => .ite (fun _ => .pure _) fun _ => .fault _

omit [Primitives B] in
theorem steps_shl (x n : UInt32) : Gen B _ (shl x n) :=
  .ite (fun _ => .pure _) fun _ => .fault _

omit [Primitives B] in
theorem steps_udiv (x y : Nat) : Gen B _ (udiv x y) :=
  .ite (fun _ => .fault _) fun _ => .pure _

omit [Primitives B] in
theorem steps_umod (x y : Nat) : Gen B _ (umod x y) :=
  .ite (fun _ => .fault _) fun _ => .pure _

theorem steps_ext2StoreBuffer (fe : FileEnt) : Gen B _ (ext2StoreBuffer fe) := by
  unfold ext2StoreBuffer
  exact .bind (.prim Primitives.getCtx) fun ctx => .bind (.prim (Primitives.blockWrite _ _)) fun r =>
    .ite (fun _ => .pure _) fun _ => .pure _

theorem steps_ext2FillBuffer (fe : FileEnt) (b off : UInt32) :
    Gen B _ (ext2FillBuffer fe b off) := by
  unfold ext2FillBuffer
  exact .bind steps_ext2BlockSize fun bs => .bind (.prim Primitives.getCtx) fun ctx =>
    .bind (.prim (Primitives.blockRead _ _)) fun (_, s) => .pure _

theorem steps_ext2LoadBuffer (fe : FileEnt) (b off : UInt32) :
    Gen B _ (ext2LoadBuffer fe b off) := by
  unfold ext2LoadBuffer
  refine .ite (fun _ => ?_) fun _ => steps_ext2FillBuffer _ _ _
  exact .bind (steps_ext2StoreBuffer _) fun (r, fe) =>
    .ite (fun _ => .pure _) fun _ => steps_ext2FillBuffer _ _ _

omit [Primitives B] in
theorem steps_ext2ReadBuffer (b : BufferObject) (off n : Nat) :
    Gen B _ (ext2ReadBuffer b off n) :=
  .ite (fun _ => .pure _) fun _ => .fault _

omit [Primitives B] in
theorem steps_ext2WriteBuffer (b : BufferObject) (d : List UInt8) (off : Nat) :
    Gen B _ (ext2WriteBuffer b d off) :=
  .ite (fun _ => .pure _) fun _ => .fault _

theorem steps_ext2ReadPointer (fe : FileEnt) (table : UInt32) (i : Nat) :
    Gen B _ (ext2ReadPointer fe table i) := by
  unfold ext2ReadPointer ext2ReadBufferU32
  exact .bind (steps_ext2LoadBuffer _ _ _) fun (_, fe) =>
    .bind (.bind (steps_ext2ReadBuffer _ _ _) fun l => .pure _) fun block => .pure _

/-! ## Groups, inodes and the superblock -/

theorem steps_ext2BgDescriptor (g : UInt32) : Gen B _ (ext2BgDescriptor g) := by
  unfold ext2BgDescriptor ext2GetBgDescriptor
  refine .bind (.bind (.prim Primitives.getCtx) fun ctx => .ite (fun _ => .pure _) fun _ => ?_)
    fun bg => ?_
  · exact .bind steps_ext2BlockSize fun bs => .bind (steps_readSysbuf _) fun _ =>
      .bind (.prim Primitives.getCtx) fun ctx => .pure _
  · cases bg with
    | none => exact .fault _
    | some bg => exact .pure _

theorem steps_ext2WriteBgDescriptor (bg : BlockGroupDescriptor) (g : UInt32) :
    Gen B _ (ext2WriteBgDescriptor bg g) := by
  have hcopies : ∀ l, Gen B _ (ext2WriteBgCopies bg g l) := by
    intro l
    induction l with
    | nil => exact .pure _
    | cons b rest ih =>
      exact .bind (.prim Primitives.getCtx) fun ctx => .bind steps_ext2BlockSize fun bs =>
        .bind (steps_readSysbuf _) fun _ => .bind (.prim Primitives.getCtx) fun ctx =>
          .bind (steps_setSysbuf _) fun _ => ih
  unfold ext2WriteBgDescriptor
  exact .bind (.prim Primitives.getCtx) fun ctx => .ite (fun _ => .pure _) fun _ =>
    .bind (hcopies _) fun _ => .pure _

theorem steps_ext2FlushCopies (l : List UInt32) : Gen B _ (ext2FlushCopies l) := by
  induction l with
  | nil => exact .pure _
  | cons b rest ih =>
    refine gen_update (Primitives.context (fun c : Ext2Context => { c with
      superblock := { c.superblock with sBlockGroupNr := UInt16.ofNat b.toNat }
      sysbuf := Window.patch c.sysbuf 0 (Superblock.packed.bytes
        { c.superblock with sBlockGroupNr := UInt16.ofNat b.toNat }) })
      (fun _ => rfl) fun _ => rfl) fun c => ?_
    exact .bind (steps_shl _ _) fun lba => .bind (.prim (Primitives.blockWrite _ _)) fun _ => ih

theorem steps_ext2FlushSuperblock : Gen B _ ext2FlushSuperblock := by
  unfold ext2FlushSuperblock
  exact .bind (steps_setSysbuf _) fun _ => .bind (.prim Primitives.getCtx) fun ctx =>
    .bind (steps_ext2FlushCopies _) fun _ => .pure _

theorem steps_ext2FlushInode (fe : FileEnt) : Gen B _ (ext2FlushInode fe) := by
  unfold ext2FlushInode
  refine .bind (.prim Primitives.getCtx) fun ctx => .bind (steps_udiv _ _) fun g =>
    .bind (steps_umod _ _) fun i => .ite (fun _ => ?_) fun _ => .pure _
  exact .bind (steps_ext2BgDescriptor _) fun bg => .bind steps_ext2BlockSize fun bs =>
    .bind (steps_udiv _ _) fun perBlock => .bind (steps_udiv _ _) fun skip =>
      .bind (steps_ext2LoadBuffer _ _ _) fun (_, fe) => .bind (steps_ext2WriteBuffer _ _ _) fun b =>
        .bind (steps_ext2StoreBuffer _) fun (_, fe) => .pure _

theorem steps_ext2OpenInode (fe : FileEnt) (ino : UInt32) : Gen B _ (ext2OpenInode fe ino) := by
  unfold ext2OpenInode
  refine .bind (.prim Primitives.getCtx) fun ctx => .bind (steps_udiv _ _) fun g =>
    .bind (steps_umod _ _) fun i => .ite (fun _ => .pure _) fun _ => ?_
  exact .bind (steps_shl _ _) fun bgBlock => .bind (steps_readSysbuf _) fun _ =>
    .bind (.prim Primitives.getCtx) fun ctx => .bind (steps_shl _ _) fun inodeBlock =>
      .bind (steps_udiv _ _) fun perSector => .bind (steps_udiv _ _) fun skip =>
        .bind (steps_readSysbuf _) fun _ => .bind (.prim Primitives.getCtx) fun ctx =>
          .ite (fun _ => .pure _) fun _ => .fault _

theorem steps_ext2UpdateAtime (fe : FileEnt) : Gen B _ (ext2UpdateAtime fe) :=
  .bind (.prim Primitives.timeNull) fun _ => .pure _

theorem steps_ext2UpdateMtime (fe : FileEnt) : Gen B _ (ext2UpdateMtime fe) :=
  .bind (.prim Primitives.timeNull) fun _ => .pure _

/-! ## Allocation -/

theorem steps_mostFreeGroup (free : BlockGroupDescriptor → UInt16) (n : Nat) :
    ∀ i most g, Gen B _ (mostFreeGroup free n i most g) := by
  induction n with
  | zero => exact fun i most g => .pure _
  | succ n ih =>
    intro i most g
    exact .bind (steps_ext2BgDescriptor _) fun bg => .ite (fun _ => ih _ _ _) fun _ => ih _ _ _

theorem steps_scanBitmap (bitmap : UInt32) (n : Nat) :
    ∀ i fe, Gen B _ (scanBitmap bitmap n i fe) := by
  induction n with
  | zero => exact fun i fe => .pure _
  | succ n ih =>
    intro i fe
    refine .bind (steps_ext2LoadBuffer _ _ _) fun (_, fe) =>
      .bind (steps_ext2ReadBuffer _ _ _) fun byte => ?_
    dsimp only
    split
    · exact .pure _
    · exact ih _ _

theorem steps_ext2ChangeAllocated (block : UInt32) (set dir : Bool) :
    Gen B _ (ext2ChangeAllocated block set dir) := by
  unfold ext2ChangeAllocated
  refine .bind (.prim Primitives.getCtx) fun ctx => .bind (steps_udiv _ _) fun g =>
    .bind (steps_ext2BgDescriptor _) fun bg => .bind (steps_umod _ _) fun off =>
      .bind (steps_readSysbuf _) fun _ => .bind (.prim Primitives.getCtx) fun ctx =>
        .ite (fun _ => .pure _) fun _ => ?_
  refine .bind (steps_setSysbuf _) fun _ => .bind (.prim (Primitives.blockWrite _ _)) fun _ =>
    .bind (steps_ext2WriteBgDescriptor _ _) fun _ => ?_
  exact gen_update (Primitives.context (fun c : Ext2Context => { c with superblock :=
    { c.superblock with
      sFreeBlocksCount := if set then c.superblock.sFreeBlocksCount - 1
        else c.superblock.sFreeBlocksCount + 1 } }) (fun _ => rfl) fun _ => rfl) fun c => .pure _

theorem steps_ext2AllocateBlock (fe : FileEnt) (b : UInt32) :
    Gen B _ (ext2AllocateBlock fe b) := by
  unfold ext2AllocateBlock
  refine .bind (.prim Primitives.getCtx) fun ctx => .bind (steps_mostFreeGroup _ _ _ _ _)
    fun (most, g) => .ite (fun _ => .pure _) fun _ => .bind (steps_ext2BgDescriptor _) fun bg =>
      .bind (steps_scanBitmap _ _ _ _) fun (found, fe) => ?_
  cases found with
  | none => exact .pure _
  | some x =>
    exact .bind (steps_ext2ChangeAllocated _ _ _) fun r => .ite (fun _ => .pure _) fun _ => .pure _

/-- The one function that changes the count of free inodes. -/
theorem steps_ext2AllocateInode (fe : FileEnt) : Steps True (ext2AllocateInode fe) := by
  unfold ext2AllocateInode
  refine .bind (.prim .getCtx) fun ctx => .bind (steps_mostFreeGroup _ _ _ _ _) fun (most, g) =>
    .ite (fun _ => .pure _) fun _ => .bind (steps_ext2BgDescriptor _) fun bg =>
      .bind (steps_scanBitmap _ _ _ _) fun (found, fe) => ?_
  cases found with
  | none => exact .ite (fun _ => .fault _) fun _ => .pure _
  | some x =>
    refine .bind (steps_ext2WriteBuffer _ _ _) fun b => .bind (steps_ext2StoreBuffer _)
      fun (_, fe) => .bind (steps_ext2WriteBgDescriptor _ _) fun _ => ?_
    exact gen_update (.context (fun c : Ext2Context => { c with superblock := { c.superblock with
      sFreeInodesCount := c.superblock.sFreeInodesCount - 1 } })
      (fun _ => rfl) (.inl trivial)) fun c => .bind steps_ext2FlushSuperblock fun _ => .pure _

theorem steps_forPointers (table : UInt32) {body : UInt32 → FileEnt → Drv FileEnt}
    (hbody : ∀ b fe, Gen B _ (body b fe)) (n : Nat) :
    ∀ i fe, Gen B _ (forPointers table body n i fe) := by
  induction n with
  | zero => exact fun i fe => .pure _
  | succ n ih =>
    intro i fe
    exact .bind (steps_ext2ReadPointer _ _ _) fun (block, fe) =>
      .ite (fun _ => .bind (hbody _ _) fun fe => ih _ _) fun _ => .pure _

theorem steps_ext2Deallocate (isdir : Bool) (b : UInt32) (fe : FileEnt) :
    Gen B _ (ext2Deallocate isdir b fe) :=
  .bind (steps_ext2ChangeAllocated _ _ _) fun _ => .pure _

theorem steps_ext2TruncateDirect (isdir : Bool) (l : List (Fin 15)) :
    ∀ fe, Gen B _ (ext2TruncateDirect isdir l fe) := by
  induction l with
  | nil => exact fun fe => .pure _
  | cons k rest ih =>
    intro fe
    exact .ite (fun _ => .bind (steps_ext2Deallocate _ _ _) fun fe => ih _) fun _ => ih _

theorem steps_ext2TruncateFile (fe : FileEnt) : Gen B _ (ext2TruncateFile fe) := by
  have hfree : ∀ isdir b fe, Gen B _ (ext2Deallocate isdir b fe) := steps_ext2Deallocate
  have hloop : ∀ {isdir : Bool} {n i : Nat} {table : UInt32} {fe : FileEnt},
      Gen B _ (forPointers table (ext2Deallocate isdir) n i fe) :=
    steps_forPointers _ (hfree _) _ _ _
  unfold ext2TruncateFile ext2TruncateSingle ext2TruncateDouble ext2TruncateTriple
  refine .bind steps_ext2BlockSize fun bs => .bind (steps_ext2TruncateDirect _ _ _) fun fe => ?_
  refine .bind (.ite (fun _ => ?_) fun _ => .pure _) fun fe => .bind (.ite (fun _ => ?_) fun _ =>
    .pure _) fun fe => .bind (.ite (fun _ => ?_) fun _ => .pure _) fun fe => .pure _
  · exact .bind hloop fun fe => .bind (hfree _ _ _) fun fe => .pure _
  · exact .bind (steps_forPointers _ (fun b fe => .bind hloop fun fe => hfree _ _ _) _ _ _)
      fun fe => .bind (hfree _ _ _) fun fe => .pure _
  · refine .bind (steps_forPointers _ (fun b fe => .bind (steps_forPointers _ (fun b fe => ?_) _ _ _)
      fun fe => hfree _ _ _) _ _ _) fun fe => .bind (hfree _ _ _) fun fe => .pure _
    exact .bind hloop fun fe => hfree _ _ _

/-! ## Calls on a handle -/

theorem steps_ext2BlockFromOffset (fe : FileEnt) (offset : Nat) :
    Gen B _ (ext2BlockFromOffset fe offset) := by
  have hptr : ∀ {fe : FileEnt} {t : UInt32} {i : Nat}, Gen B _ (ext2ReadPointer fe t i) :=
    steps_ext2ReadPointer _ _ _
  unfold ext2BlockFromOffset
  refine .bind steps_ext2BlockSize fun bs => .ite (fun _ => .pure _) fun _ =>
    .ite (fun _ => hptr) fun _ => .ite (fun _ => .bind hptr fun (b, fe) => hptr) fun _ =>
      .ite (fun _ => ?_) fun _ => .pure _
  exact .bind hptr fun (b, fe) => .bind hptr fun (b, fe) => hptr

theorem steps_ext2SelectBuffer (fe : FileEnt) : Gen B _ (ext2SelectBuffer fe) := by
  unfold ext2SelectBuffer
  refine .bind steps_ext2BlockSize fun bs => .bind (steps_ext2BlockFromOffset _ _)
    fun (block, fe) => .bind (steps_ext2BlockFromOffset _ _) fun (previous, fe) =>
      .ite (fun _ => .bind (steps_ext2LoadBuffer _ _ _) fun (_, fe) => .pure _) fun _ =>
        .ite (fun _ => ?_) fun _ => .pure _
  exact .bind (steps_ext2AllocateBlock _ _) fun (b, fe) =>
    .ite (fun _ => .bind (steps_ext2LoadBuffer _ _ _) fun (_, fe) => .pure _) fun _ => .pure _

theorem steps_ext2ReadLoop (fuel : Nat) :
    ∀ left acc fe, Gen B _ (ext2ReadLoop fuel left acc fe) := by
  induction fuel with
  | zero => exact fun left acc fe => .ite (fun _ => .pure _) fun _ => .fault _
  | succ fuel ih =>
    intro left acc fe
    refine .ite (fun _ => .pure _) fun _ => .ite (fun _ => .pure _) fun _ =>
      .bind (steps_ext2SelectBuffer _) fun (r, fe) =>
        .ite (fun _ => .bind (.prim (Primitives.setErrno _)) fun _ => .pure _) fun _ => ?_
    exact .bind steps_ext2BlockSize fun bs => .bind (.bind steps_ext2BlockSize fun _ => .pure _)
      fun space => .bind (steps_ext2ReadBuffer _ _ _) fun bytes => ih _ _ _

/-- A magic that does not match ends a call with `EBADF`. -/
theorem gen_checked {α : Type} {c : Prop} [Decidable c] {a : α} {m : Drv α}
    (hm : Gen B _ m) : Gen B _ (if c then do setErrno .ebadf; pure a else m) :=
  .ite (fun _ => .bind (.prim (Primitives.setErrno _)) fun _ => .pure _) fun _ => hm

theorem steps_ext2Read (fe : FileEnt) (count : Nat) : Gen B _ (ext2Read fe count) := by
  unfold ext2Read
  refine gen_checked (.bind (steps_ext2ReadLoop _ _ _ _) fun (r, fe) => ?_)
  cases r with
  | none => exact .pure _
  | some bytes =>
    exact .ite (fun _ => .bind (steps_ext2UpdateAtime _) fun fe => .pure _) fun _ => .pure _

theorem steps_ext2Lseek (fe : FileEnt) (offset : Int) (whence : Whence) :
    Gen B _ (ext2Lseek fe offset whence) := by
  have hfail : ∀ e, Gen B _ (do setErrno e; pure ((-1 : Int), fe)) := fun e =>
    .bind (.prim (Primitives.setErrno _)) fun _ => .pure _
  unfold ext2Lseek
  refine gen_checked ?_
  cases whence with
  | set => exact .ite (fun _ => hfail _) fun _ => .pure _
  | cur => exact .ite (fun _ => hfail _) fun _ => .ite (fun _ => hfail _) fun _ => .pure _
  | «end» => exact .ite (fun _ => hfail _) fun _ => .ite (fun _ => hfail _) fun _ => .pure _
  | other => exact hfail _

theorem steps_ext2WriteLoop (fuel : Nat) :
    ∀ data done fe, Gen B _ (ext2WriteLoop fuel data done fe) := by
  induction fuel with
  | zero => exact fun data done fe => .ite (fun _ => .pure _) fun _ => .fault _
  | succ fuel ih =>
    intro data done fe
    refine .ite (fun _ => .pure _) fun _ => .bind (steps_ext2SelectBuffer _) fun (r, fe) =>
      .ite (fun _ => .bind (.prim (Primitives.setErrno _)) fun _ => .pure _) fun _ => ?_
    exact .bind steps_ext2BlockSize fun bs => .bind (.bind steps_ext2BlockSize fun _ => .pure _)
      fun space => .bind (steps_ext2WriteBuffer _ _ _) fun b => ih _ _ _

theorem steps_ext2WriteFrom (fe : FileEnt) (data : List UInt8) :
    Gen B _ (ext2WriteFrom fe data) := by
  unfold ext2WriteFrom
  refine .bind (steps_ext2WriteLoop _ _ _ _) fun (r, fe) => ?_
  cases r with
  | none => exact .pure _
  | some done =>
    exact .ite (fun _ => .bind (steps_ext2UpdateMtime _) fun fe => .pure _) fun _ => .pure _

theorem steps_ext2Write (fe : FileEnt) (data : List UInt8) : Gen B _ (ext2Write fe data) := by
  unfold ext2Write
  refine gen_checked (gen_checked (.ite (fun _ => ?_) fun _ => steps_ext2WriteFrom _ _))
  exact .bind (steps_ext2Lseek _ _ _) fun (r, fe) =>
    .ite (fun _ => .pure _) fun _ => steps_ext2WriteFrom _ _

theorem steps_ext2Fstat (fe : FileEnt) : Gen B _ (ext2Fstat fe) := by
  unfold ext2Fstat
  exact gen_checked (.bind steps_ext2BlockSize fun bs => .pure _)

theorem steps_ext2Isatty (fe : FileEnt) : Gen B _ (ext2Isatty fe) := by
  unfold ext2Isatty
  exact gen_checked (.bind (.prim (Primitives.setErrno _)) fun _ => .pure _)

theorem steps_ext2Readdir (fe : FileEnt) : Gen B _ (ext2Readdir fe) := by
  unfold ext2Readdir
  refine .bind (steps_ext2Read _ _) fun (r, ino, fe) => .ite (fun _ => .pure _) fun _ =>
    .bind (steps_ext2Read _ _) fun (r, recLen, fe) => .ite (fun _ => .pure _) fun _ =>
      .bind (steps_ext2Read _ _) fun (r, nameLen, fe) => .ite (fun _ => .pure _) fun _ =>
        .bind (steps_ext2Read _ _) fun (r, _, fe) => .ite (fun _ => .pure _) fun _ =>
          .ite (fun _ => ?_) fun _ => .pure _
  exact .bind (steps_ext2Read _ _) fun (_, name, fe) =>
    .bind (.prim (Primitives.dName fun d => Window.patch (Window.patch d 0 name) _ [0])) fun _ =>
      .bind (steps_ext2Lseek _ _ _) fun (_, fe) => Primitives.readName fun d =>
        ((some ⟨Packed.u32.ofList ino, cString d⟩, fe) : Option Dirent × FileEnt)

theorem steps_ext2Close (fe : FileEnt) : Gen B _ (ext2Close fe) := by
  have hfail : ∀ fe : FileEnt, Gen B _ (do setErrno fe.rerrno; pure ((-1 : Int), fe)) :=
    fun fe => .bind (.prim (Primitives.setErrno _)) fun _ => .pure _
  unfold ext2Close
  refine gen_checked (.bind (.ite (fun _ => steps_ext2StoreBuffer _) fun _ => .pure _)
    fun (r, fe) => .ite (fun _ => hfail _) fun _ => ?_)
  exact .bind (.ite (fun _ => steps_ext2FlushInode _) fun _ => .pure _)
    fun (r, fe) => .ite (fun _ => hfail _) fun _ => .pure _

/-! ## Paths -/

theorem steps_findEntry (name : List UInt8) (fuel : Nat) :
    ∀ fe, Gen B _ (findEntry name fuel fe) := by
  induction fuel with
  | zero => exact fun fe => .fault _
  | succ fuel ih =>
    intro fe
    refine .bind (steps_ext2Readdir _) fun (de, fe) => ?_
    cases de with
    | none => exact .pure _
    | some de => exact .ite (fun _ => .pure _) fun _ => ih _

theorem steps_lookupElements (l : List (List UInt8)) :
    ∀ ino fe, Gen B _ (lookupElements l ino fe) := by
  induction l with
  | nil => exact fun ino fe => .pure _
  | cons name rest ih =>
    intro ino fe
    refine .bind (steps_ext2OpenInode _ _) fun (r, fe) =>
      .ite (fun _ => .bind (.prim (Primitives.setErrno _)) fun _ => .pure _) fun _ =>
        .bind (.prim Primitives.patience) fun bound =>
          .bind (steps_findEntry _ _ _) fun (found, fe) => ?_
    cases found with
    | none => exact .bind (.prim (Primitives.setErrno _)) fun _ => .pure _
    | some next => exact ih _ _

theorem steps_ext2LookupPath (fe : FileEnt) (path : List UInt8) :
    Gen B _ (ext2LookupPath fe path) := by
  unfold ext2LookupPath
  exact .bind (steps_lookupElements _ _ _) fun (ino, fe) => .pure _

theorem steps_ext2OpenExisting (fe : FileEnt) (flags : OpenFlags) (mode : Nat) :
    Gen B _ (ext2OpenExisting fe flags mode) := by
  have hfail : ∀ e, Gen B _ (do setErrno e; pure (none : Option FileEnt)) := fun e =>
    .bind (.prim (Primitives.setErrno _)) fun _ => .pure _
  unfold ext2OpenExisting
  refine .ite (fun _ => hfail _) fun _ => .ite (fun _ => .pure _) fun _ =>
    .bind (.prim Primitives.getCtx) fun ctx => .ite (fun _ => hfail _) fun _ =>
      .ite (fun _ => hfail _) fun _ => .ite (fun _ => ?_) fun _ => .pure _
  exact .bind (steps_ext2TruncateFile _) fun (_, fe) => .pure _

/-- `ext2_open` up to the branch that creates the file. -/
theorem steps_ext2OpenWith {append : List UInt8 → UInt32 → List UInt8 → Drv Int}
    (hcreate : ∀ fe name mode, Steps alloc (ext2Create append fe name mode)) (name : List UInt8)
    (flags : OpenFlags) (mode : Nat) : Steps alloc (ext2OpenWith append name flags mode) := by
  unfold ext2OpenWith
  refine .bind (steps_ext2LookupPath _ _) fun (ino, fe) =>
    .bind (steps_ext2OpenInode _ _) fun (i, fe) => .bind (.prim .getErrno) fun e =>
      .ite (fun _ => .ite (fun _ => ?_) fun _ => hcreate _ _ _) fun _ =>
        .ite (fun _ => steps_ext2OpenExisting _ _ _) fun _ => .pure _
  exact .bind (.prim (.setErrno _)) fun _ => .pure _

theorem steps_ext2Create {append : List UInt8 → UInt32 → List UInt8 → Drv Int}
    (happend : ∀ d i n, Steps True (append d i n)) (fe : FileEnt) (name : List UInt8) (mode : Nat) :
    Steps True (ext2Create append fe name mode) := by
  have hfail : ∀ e, Steps True (do setErrno e; pure (none : Option FileEnt)) := fun e =>
    .bind (.prim (.setErrno _)) fun _ => .pure _
  unfold ext2Create
  refine .bind (.prim .getCtx) fun ctx => .ite (fun _ => hfail _) fun _ =>
    .bind (steps_ext2AllocateInode _) fun (r, fe) => .ite (fun _ => hfail _) fun _ => ?_
  dsimp only
  split
  · exact hfail _
  · refine .bind (happend _ _ _) fun r => .ite (fun _ => .pure _) fun _ => ?_
    exact .bind (.prim .getuid) fun uid => .bind (.prim .getgid) fun gid =>
      .bind (.prim .timeNull) fun _ => .bind (.prim .timeNull) fun _ =>
        .bind (.prim .timeNull) fun _ => .bind (steps_ext2FlushInode _) fun (_, fe) => .pure _

/-- Without `O_CREAT` nothing is created, and the count of free inodes stays. -/
theorem steps_ext2OpenPlain (name : List UInt8) {flags : OpenFlags} (hc : flags.creat = false)
    (mode : Nat) : Steps alloc (ext2OpenPlain name flags mode) := by
  unfold ext2OpenPlain ext2OpenWith
  refine .bind (steps_ext2LookupPath _ _) fun (ino, fe) =>
    .bind (steps_ext2OpenInode _ _) fun (i, fe) => .bind (.prim .getErrno) fun e => ?_
  rw [hc]
  refine .ite (fun _ => ?_) fun _ => .ite (fun _ => steps_ext2OpenExisting _ _ _) fun _ => .pure _
  exact .bind (.prim (.setErrno _)) fun _ => .pure _

theorem steps_lastRecord (lastBlock : Int) (bs fuel : Nat) :
    ∀ this hdr fe, Steps alloc (lastRecord lastBlock bs fuel this hdr fe) := by
  induction fuel with
  | zero => exact fun this hdr fe => .fault _
  | succ fuel ih =>
    intro this hdr fe
    exact .bind (steps_ext2Lseek _ _ _) fun (r, fe) => .ite (fun _ => .pure _) fun _ =>
      .bind (steps_ext2Read _ _) fun (r, bytes, fe) => .ite (fun _ => .pure _) fun _ =>
        .ite (fun _ => ih _ _ _) fun _ => .pure _

theorem steps_appendInSlack (fe : FileEnt) (lastBlock : Int) (bs this minOld : Nat)
    (hdr : Ext2DirHeader) (inode : UInt32) (filename : List UInt8) :
    Steps alloc (appendInSlack fe lastBlock bs this minOld hdr inode filename) := by
  unfold appendInSlack
  exact .bind (steps_ext2Lseek _ _ _) fun (_, fe) => .bind (steps_ext2Write _ _) fun (_, fe) =>
    .bind (steps_ext2Lseek _ _ _) fun (_, fe) => .bind (steps_ext2Write _ _) fun (_, fe) =>
      .bind (steps_ext2Write _ _) fun (_, fe) => .pure _

theorem steps_writeZeros (n : Nat) : ∀ fe, Steps alloc (writeZeros n fe) := by
  induction n with
  | zero => exact fun fe => .pure _
  | succ n ih => exact fun fe => .bind (steps_ext2Write _ _) fun (_, fe) => ih _

theorem steps_appendInNewBlock (fe : FileEnt) (bs : Nat) (inode : UInt32) (filename : List UInt8) :
    Steps alloc (appendInNewBlock fe bs inode filename) := by
  unfold appendInNewBlock
  exact .bind (steps_ext2Lseek _ _ _) fun (_, fe) => .bind (steps_writeZeros _ _) fun fe =>
    .bind (steps_ext2Lseek _ _ _) fun (_, fe) => .bind (steps_ext2Write _ _) fun (_, fe) =>
      .bind (steps_ext2Write _ _) fun (_, fe) => .pure _

theorem steps_ext2AppendToDirectory (directory : List UInt8) (inode : UInt32)
    (filename : List UInt8) : Steps alloc (ext2AppendToDirectory directory inode filename) := by
  have hclose : ∀ (e : Errno) (fe : FileEnt),
      Steps alloc (do setErrno e; let _ ← ext2Close fe; pure (-1 : Int)) := fun e fe =>
    .bind (.prim (.setErrno _)) fun _ => .bind (steps_ext2Close _) fun _ => .pure _
  unfold ext2AppendToDirectory ext2CloseLocal
  refine .bind steps_ext2BlockSize fun bs => .bind (steps_ext2OpenPlain _ rfl _) fun fe => ?_
  cases fe with
  | none => exact .pure _
  | some fe =>
    refine .bind (steps_ext2Lseek _ _ _) fun (len, fe) => .ite (fun _ => hclose _ _) fun _ =>
      .ite (fun _ => hclose _ _) fun _ => .bind (.prim .patience) fun bound =>
        .bind (steps_lastRecord _ _ _ _ _ _) fun (found, fe) => ?_
    cases found with
    | none =>
      exact .bind (.bind (.prim .getErrno) fun e => .bind (steps_ext2Close _) fun _ =>
        .prim (.setErrno _)) fun _ => .pure _
    | some x =>
      exact .bind (.ite (fun _ => steps_appendInSlack _ _ _ _ _ _ _ _) fun _ =>
        steps_appendInNewBlock _ _ _ _) fun fe => .bind (steps_ext2Close _) fun _ => .pure _

theorem steps_ext2Open (name : List UInt8) (flags : OpenFlags) (mode : Nat) :
    Steps True (ext2Open name flags mode) :=
  steps_ext2OpenWith (steps_ext2Create fun _ _ _ => steps_ext2AppendToDirectory _ _ _) _ _ _

/-! ## Runs -/

theorem steps_withHandle (files : Files) (fd : Nat) (null : Reply)
    {body : FileEnt → Drv (Reply × Option FileEnt)} (hbody : ∀ fe, Steps alloc (body fe)) :
    Steps alloc (withHandle files fd null body) := by
  unfold withHandle
  split
  · exact .bind (.prim (.setErrno _)) fun _ => .pure _
  · exact .fault _
  · exact .bind (hbody _) fun (reply, fe) => .pure _

theorem steps_execCall (call : Call) (files : Files) : Steps True (execCall call files) := by
  cases call with
  | «open» name flags mode =>
    refine .bind (steps_ext2Open _ _ _) fun fe => ?_
    cases fe with
    | none => exact .pure _
    | some fe => exact .pure _
  | close fd =>
    exact steps_withHandle _ _ _ fun fe => .bind (steps_ext2Close _) fun (r, fe) => .pure _
  | read fd count =>
    exact steps_withHandle _ _ _ fun fe => .bind (steps_ext2Read _ _) fun (r, bytes, fe) => .pure _
  | write fd data =>
    exact steps_withHandle _ _ _ fun fe => .bind (steps_ext2Write _ _) fun (r, fe) => .pure _
  | lseek fd offset whence =>
    exact steps_withHandle _ _ _ fun fe => .bind (steps_ext2Lseek _ _ _) fun (r, fe) => .pure _
  | readdir fd =>
    exact steps_withHandle _ _ _ fun fe => .bind (steps_ext2Readdir _) fun (de, fe) => .pure _
  | fstat fd =>
    exact steps_withHandle _ _ _ fun fe => .bind (steps_ext2Fstat _) fun (r, st) => .pure _
  | isatty fd =>
    exact steps_withHandle _ _ _ fun fe => .bind (steps_ext2Isatty _) fun r => .pure _

theorem steps_runCalls (calls : List Call) : ∀ files, Steps True (runCalls calls files) := by
  induction calls with
  | nil => exact fun files => .pure _
  | cons call rest ih =>
    intro files
    exact .bind (steps_execCall _ _) fun (reply, files) => .bind (ih _) fun (replies, files) =>
      .pure _

/-! ## Seeks -/

/-- A seek moves the cursor and nothing else. -/
theorem of_ext2Lseek_ok {h : Host} {m m' : Machine} {fe fe' : FileEnt} {offset : Int}
    {whence : Whence} {r : Int} (hrun : ext2Lseek fe offset whence h m = .ok ((r, fe'), m')) :
    ∃ c e, fe' = { fe with cursor := c } ∧ m' = { m with rerrno := e } := by
  have hfail : ∀ e : Errno, (do setErrno e; pure ((-1 : Int), fe) : Drv (Int × FileEnt)) h m
      = .ok ((r, fe'), m') → ∃ c e, fe' = { fe with cursor := c } ∧ m' = { m with rerrno := e } := by
    intro e hrun
    cases hrun
    exact ⟨fe.cursor, e, rfl, rfl⟩
  have hmove : ∀ r' c : Int, (pure (r', { fe with cursor := c }) : Drv (Int × FileEnt)) h m
      = .ok ((r, fe'), m') → ∃ c e, fe' = { fe with cursor := c } ∧ m' = { m with rerrno := e } := by
    intro r' c hrun
    simp only [Prog.pure_apply, Except.ok.injEq, Prod.mk.injEq] at hrun
    obtain ⟨⟨-, rfl⟩, rfl⟩ := hrun
    exact ⟨c, m.rerrno, rfl, rfl⟩
  unfold ext2Lseek at hrun
  rw [Prog.ite_apply] at hrun
  split at hrun
  · exact hfail _ hrun
  · cases whence with
    | set =>
      dsimp only at hrun
      rw [Prog.ite_apply] at hrun
      split at hrun
      · exact hfail _ hrun
      · exact hmove _ _ hrun
    | cur =>
      dsimp only at hrun
      rw [Prog.ite_apply, Prog.ite_apply] at hrun
      split at hrun
      · exact hfail _ hrun
      · split at hrun
        · exact hfail _ hrun
        · exact hmove _ _ hrun
    | «end» =>
      dsimp only at hrun
      rw [Prog.ite_apply, Prog.ite_apply] at hrun
      split at hrun
      · exact hfail _ hrun
      · split at hrun
        · exact hfail _ hrun
        · exact hmove _ _ hrun
    | other => exact hfail _ hrun

/-! ## What one primitive step does -/

/-- The host with a block driver that never fails. -/
def Host.reliable (h : Host) : Host := { h with fails := fun _ => false }

variable {α : Type} {m : Drv α} {h : Host} {s s' : Machine} {a : α}

/-- A step is one transfer, or it leaves the device and the log alone. -/
inductive Effect (alloc : Prop) (h : Host) (s : Machine) : Machine → Prop where
  | read (sec : UInt32) : Effect alloc h s (s.logged (.read sec !(h.fails s.log.length)))
  | write (sec : UInt32) (data : Sector) :
      Effect alloc h s { s.logged (.write sec !(h.fails s.log.length)) with
        disk := if h.fails s.log.length then s.disk else Function.update s.disk sec data }
  | local {s' : Machine} (hdisk : s'.disk = s.disk) (hlog : s'.log = s.log)
      (hctx : s.ctx.SameVolume s'.ctx)
      (hfree : alloc ∨ s'.ctx.superblock.sFreeInodesCount = s.ctx.superblock.sFreeInodesCount) :
      Effect alloc h s s'

theorem Step.effect (hm : Step alloc α m) (hrun : m h s = .ok (a, s')) : Effect alloc h s s' := by
  cases hm with
  | blockRead sec old =>
    unfold Embext.blockRead at hrun
    split at hrun
    · next hf => cases hrun; simpa [hf] using (Effect.read sec : Effect alloc h s _)
    · next hf => cases hrun; simpa [hf] using (Effect.read sec : Effect alloc h s _)
  | blockWrite sec d =>
    have hupd : (fun t => if t = sec then d else s.disk t) = Function.update s.disk sec d := by
      funext t
      rw [Function.update_apply]
    unfold Embext.blockWrite at hrun
    rw [hupd] at hrun
    split at hrun
    · next hf =>
      cases hrun
      simpa [hf, Machine.logged] using (Effect.write sec d : Effect alloc h s _)
    · next hf =>
      cases hrun
      simpa [hf, Machine.logged] using (Effect.write sec d : Effect alloc h s _)
  | context f hf hfree =>
    cases hrun
    exact .local rfl rfl (hf s.ctx) (hfree.imp id fun hk => hk s.ctx)
  | get | getCtx | getErrno | setErrno | timeNull | patience | getuid | getgid | dName =>
    cases hrun
    exact .local rfl rfl (.refl _) (.inr rfl)

/-- A step whose transfer succeeds is the same step on a driver that never fails. -/
theorem Step.reliable (hm : Step alloc α m) (hrun : m h s = .ok (a, s'))
    (hok : h.fails s.log.length = false ∨ s'.log = s.log) : m h.reliable s = .ok (a, s') := by
  cases hm with
  | blockRead sec old =>
    have hf : h.fails s.log.length = false := by
      refine hok.resolve_right fun heq => ?_
      have hlen := congrArg List.length heq
      unfold Embext.blockRead at hrun
      split at hrun <;> cases hrun <;> simp [Machine.logged] at hlen
    unfold Embext.blockRead at hrun ⊢
    rw [if_neg (by rw [hf]; decide)] at hrun
    exact hrun
  | blockWrite sec d =>
    have hf : h.fails s.log.length = false := by
      refine hok.resolve_right fun heq => ?_
      have hlen := congrArg List.length heq
      unfold Embext.blockWrite at hrun
      split at hrun <;> cases hrun <;> simp [Machine.logged] at hlen
    unfold Embext.blockWrite at hrun ⊢
    rw [if_neg (by rw [hf]; decide)] at hrun
    exact hrun
  | context | get | getCtx | getErrno | setErrno | timeNull | patience | getuid | getgid | dName =>
    exact hrun

/-! ## What a whole call does -/

/-- An invariant that every effect keeps is kept by every call. -/
theorem Steps.invariant {I : Machine → Prop} (hI : ∀ t t', I t → Effect alloc h t t' → I t')
    (hm : Steps alloc m) (hs : I s) (hrun : m h s = .ok (a, s')) : I s' :=
  (hm.maintains (fun _ _ hp t _ t' ht hr => ⟨hI t t' ht (hp.effect hr), trivial⟩) s a s' hs hrun).1

/-- The log only grows. -/
theorem Steps.suffix (hm : Steps alloc m) (hrun : m h s = .ok (a, s')) : s.log <:+ s'.log := by
  refine hm.invariant (I := fun t => s.log <:+ t.log) ?_ List.suffix_rfl hrun
  intro t t' ht he
  cases he with
  | read sec => exact ht.trans (List.suffix_cons _ _)
  | write sec d => exact ht.trans (List.suffix_cons _ _)
  | «local» hdisk hlog _ _ => rwa [hlog]

/-- A call stays with its volume. -/
theorem Steps.sameVolume (hm : Steps alloc m) (hrun : m h s = .ok (a, s')) :
    s.ctx.SameVolume s'.ctx := by
  refine hm.invariant (I := fun t => s.ctx.SameVolume t.ctx) ?_ (.refl _) hrun
  intro t t' ht he
  cases he with
  | read sec => exact ht
  | write sec d => exact ht
  | «local» _ _ hctx _ => exact ht.trans hctx

/-- Only an inode allocation changes the count of free inodes. -/
theorem Steps.freeInodes (hm : Steps False m) (hrun : m h s = .ok (a, s')) :
    s'.ctx.superblock.sFreeInodesCount = s.ctx.superblock.sFreeInodesCount := by
  refine hm.invariant (I := fun t => t.ctx.superblock.sFreeInodesCount
    = s.ctx.superblock.sFreeInodesCount) ?_ rfl hrun
  intro t t' ht he
  cases he with
  | read sec => exact ht
  | write sec d => exact ht
  | «local» _ _ _ hfree => exact (hfree.resolve_left not_false).trans ht

/-- The pattern of faults spares every transfer issued between two states. -/
def Host.Spares (h : Host) (s s' : Machine) : Prop :=
  ∀ k, s.log.length ≤ k → k < s'.log.length → h.fails k = false

theorem Host.Spares.split {s₁ s₂ s₃ : Machine} (h₁ : s₁.log <:+ s₂.log) (h₂ : s₂.log <:+ s₃.log)
    (hsp : h.Spares s₁ s₃) : h.Spares s₁ s₂ ∧ h.Spares s₂ s₃ :=
  ⟨fun k hlo hhi => hsp k hlo (hhi.trans_le h₂.length_le),
    fun k hlo hhi => hsp k (h₁.length_le.trans hlo) hhi⟩

/-- A call whose transfers are spared is the same call on a driver that never fails. -/
theorem Steps.reliable (hm : Steps alloc m) (hrun : m h s = .ok (a, s')) (hsp : h.Spares s s') :
    m h.reliable s = .ok (a, s') := by
  refine (hm.transfer (fun t t' => t.log <:+ t'.log) h.Spares
    (fun _ => List.suffix_rfl) (fun _ _ _ => List.IsSuffix.trans)
    (fun _ _ _ => Host.Spares.split) ?_ s a s' hrun).2 hsp
  intro β p hp t b t' hr
  have hsuf : t.log <:+ t'.log := Steps.suffix (.prim hp) hr
  refine ⟨hsuf, fun hsp => hp.reliable hr ?_⟩
  by_cases hlen : t.log.length = t'.log.length
  · exact .inr (hsuf.eq_of_length hlen).symm
  · exact .inl (hsp _ le_rfl (lt_of_le_of_ne hsuf.length_le hlen))

end Embext
