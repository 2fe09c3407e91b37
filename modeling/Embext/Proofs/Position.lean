import Embext.Implementation.Session

set_option autoImplicit false

/-! # The place of a volume on the device

Every transfer of the driver goes to a sector number plus the start of the partition, whatever the number
was computed from, and no function does anything else with the start. So a program on volumes that lie
`p` sectors further does what it does on the volumes where they are, `p` sectors further. -/

namespace Embext

open Prog (Tracks tracks_pure tracks_fault tracks_ite)

/-! ## Moving the device -/

def Transfer.moved (p : UInt32) : Transfer → Transfer
  | read s b => read (s + p) b
  | write s b => write (s + p) b

def Ext2Context.moved (p : UInt32) (c : Ext2Context) : Ext2Context :=
  { c with partStart := c.partStart + p }

/-- The sectors lie `p` further, and the partition starts `p` later. -/
def Machine.moved (p : UInt32) (m : Machine) : Machine :=
  { m with
    disk := fun s => m.disk (s - p)
    log := m.log.map (Transfer.moved p)
    ctx := m.ctx.moved p }

/-- The function `g` does on the moved device what `f` does. -/
abbrev Moves (p : UInt32) {α : Type} (f g : Drv α) : Prop := Tracks (Machine.moved p) (fun a => a) f g

/-- A function that does the same on the moved device. -/
abbrev Floats (p : UInt32) {α : Type} (f : Drv α) : Prop := Moves p f f

section

variable {p : UInt32} {α : Type} {h : Host} {c : Ext2Context}

/-! ## Primitive steps -/

@[simp] theorem moved_log_length (p : UInt32) (m : Machine) :
    (m.moved p).log.length = m.log.length := by simp [Machine.moved]

@[simp] theorem moved_logged (p : UInt32) (m : Machine) (t : Transfer) :
    (m.moved p).logged (t.moved p) = (m.logged t).moved p := rfl

theorem moves_blockRead (s : UInt32) (old : Sector) :
    Moves p (blockRead s old) (blockRead (s + p) old) := by
  intro h m
  have hsector : (m.moved p).disk (s + p) = m.disk s := congrArg m.disk (UInt32.add_sub_cancel s p)
  unfold blockRead
  rw [moved_log_length, hsector]
  split <;> rfl

theorem moves_blockWrite (s : UInt32) (data : Sector) :
    Moves p (blockWrite s data) (blockWrite (s + p) data) := by
  intro h m
  have hdisk : (fun t => if t = s + p then data else (m.moved p).disk t)
      = fun t => (fun t => if t = s then data else m.disk t) (t - p) := by
    funext t
    have hiff : t = s + p ↔ t - p = s := by
      rw [UInt32.sub_eq_iff_eq_add]
    simp only [hiff]
    rfl
  unfold blockWrite
  rw [moved_log_length, hdisk]
  split <;> rfl

theorem moves_getCtx {k k' : Ext2Context → Drv α} (hk : ∀ c, Moves p (k c) (k' (c.moved p))) :
    Moves p (getCtx >>= k) (getCtx >>= k') := fun h m => hk m.ctx h m

theorem moves_setCtx (c : Ext2Context) : Moves p (setCtx c) (setCtx (c.moved p)) := fun _ _ => rfl

theorem floats_setSysbuf (s : Sector) : Floats p (setSysbuf s) := fun _ _ => rfl

theorem floats_setErrno (e : Errno) : Floats p (setErrno e) := fun _ _ => rfl

theorem floats_dName (f : (Fin 256 → UInt8) → Fin 256 → UInt8) :
    Floats p (Prog.modify fun m => { m with dName := f m.dName }) := fun _ _ => rfl

theorem floats_getErrno : Floats p getErrno := fun _ _ => rfl

theorem floats_timeNull : Floats p timeNull := fun _ _ => rfl

theorem floats_patience : Floats p patience := fun _ _ => rfl

theorem floats_getuid : Floats p getuid := fun _ _ => rfl

theorem floats_getgid : Floats p getgid := fun _ _ => rfl

theorem floats_shl (x n : UInt32) : Floats p (shl x n) := tracks_ite (tracks_pure _) (tracks_fault _)

theorem floats_udiv (x y : Nat) : Floats p (udiv x y) := tracks_ite (tracks_fault _) (tracks_pure _)

theorem floats_umod (x y : Nat) : Floats p (umod x y) := tracks_ite (tracks_fault _) (tracks_pure _)

/-! ## Transfers on the volume -/

theorem moved_sector (s : UInt32) (c : Ext2Context) (p : UInt32) :
    s + (c.moved p).partStart = s + c.partStart + p := (UInt32.add_assoc ..).symm

theorem moves_blockReadAt (s : UInt32) (c : Ext2Context) (old : Sector) :
    Moves p (blockRead (s + c.partStart) old) (blockRead (s + (c.moved p).partStart) old) := by
  rw [moved_sector]
  exact moves_blockRead _ old

theorem moves_blockWriteAt (s : UInt32) (c : Ext2Context) (data : Sector) :
    Moves p (blockWrite (s + c.partStart) data) (blockWrite (s + (c.moved p).partStart) data) := by
  rw [moved_sector]
  exact moves_blockWrite _ data

theorem moves_readSysbufAt (s : UInt32) (c : Ext2Context) :
    Moves p (readSysbuf (s + c.partStart)) (readSysbuf (s + (c.moved p).partStart)) :=
  moves_getCtx fun c' => (moves_blockReadAt s c c'.sysbuf).bind fun (_, s) => floats_setSysbuf s

theorem floats_ext2BlockSize : Floats p ext2BlockSize :=
  moves_getCtx fun _ => tracks_ite (tracks_pure _) (tracks_fault _)

theorem floats_ext2StoreBuffer (fe : FileEnt) : Floats p (ext2StoreBuffer fe) :=
  moves_getCtx fun c => (moves_blockWriteAt _ c _).bind fun _ =>
    tracks_ite (tracks_pure _) (tracks_pure _)

theorem floats_ext2FillBuffer (fe : FileEnt) (b off : UInt32) : Floats p (ext2FillBuffer fe b off) :=
  floats_ext2BlockSize.bind fun _ => moves_getCtx fun c => (moves_blockReadAt _ c _).bind fun _ =>
    tracks_pure _

theorem floats_ext2LoadBuffer (fe : FileEnt) (b off : UInt32) : Floats p (ext2LoadBuffer fe b off) :=
  tracks_ite ((floats_ext2StoreBuffer fe).bind fun (_, fe) => tracks_ite (tracks_pure _)
    (floats_ext2FillBuffer fe b off)) (floats_ext2FillBuffer fe b off)

theorem floats_ext2ReadBuffer (b : BufferObject) (off n : Nat) : Floats p (ext2ReadBuffer b off n) :=
  tracks_ite (tracks_pure _) (tracks_fault _)

theorem floats_ext2ReadBufferU32 (b : BufferObject) (off : Nat) : Floats p (ext2ReadBufferU32 b off) :=
  (floats_ext2ReadBuffer b off 4).bind fun _ => tracks_pure _

theorem floats_ext2WriteBuffer (b : BufferObject) (d : List UInt8) (off : Nat) :
    Floats p (ext2WriteBuffer b d off) := tracks_ite (tracks_pure _) (tracks_fault _)

theorem floats_ext2BufferSpace (fe : FileEnt) : Floats p (ext2BufferSpace fe) :=
  floats_ext2BlockSize.bind fun _ => tracks_pure _

theorem floats_ext2ReadPointer (fe : FileEnt) (table : UInt32) (i : Nat) :
    Floats p (ext2ReadPointer fe table i) :=
  (floats_ext2LoadBuffer _ _ _).bind fun (_, _) =>
    (floats_ext2ReadBufferU32 _ _).bind fun _ => tracks_pure _

/-! ## Groups, the superblock and inodes -/

theorem floats_ext2BgDescriptor (g : UInt32) : Floats p (ext2BgDescriptor g) := by
  have hget : Floats p (ext2GetBgDescriptor g) := moves_getCtx fun c => tracks_ite (tracks_pure _)
    (floats_ext2BlockSize.bind fun _ => (moves_readSysbufAt _ c).bind fun _ =>
      moves_getCtx fun _ => tracks_pure _)
  refine hget.bind fun bg => ?_
  cases bg with
  | none => exact tracks_fault _
  | some bg => exact tracks_pure _

theorem floats_ext2WriteBgCopies (bg : BlockGroupDescriptor) (g : UInt32) (l : List UInt32) :
    Floats p (ext2WriteBgCopies bg g l) := by
  induction l with
  | nil => exact tracks_pure _
  | cons b rest ih =>
    exact moves_getCtx fun c => floats_ext2BlockSize.bind fun _ => (moves_readSysbufAt _ c).bind fun _ =>
      moves_getCtx fun _ => (floats_setSysbuf _).bind fun _ => ih

theorem floats_ext2WriteBgDescriptor (bg : BlockGroupDescriptor) (g : UInt32) :
    Floats p (ext2WriteBgDescriptor bg g) :=
  moves_getCtx fun _ => tracks_ite (tracks_pure _)
    ((floats_ext2WriteBgCopies bg g _).bind fun _ => tracks_pure _)

theorem floats_ext2FlushCopies (l : List UInt32) : Floats p (ext2FlushCopies l) := by
  induction l with
  | nil => exact tracks_pure _
  | cons b rest ih =>
    refine moves_getCtx fun c => ?_
    exact (moves_setCtx _).bind fun _ => (floats_shl _ _).bind fun _ =>
      (moves_blockWriteAt _ c _).bind fun _ => ih

theorem floats_ext2FlushSuperblock : Floats p ext2FlushSuperblock :=
  (floats_setSysbuf _).bind fun _ => moves_getCtx fun _ => (floats_ext2FlushCopies _).bind fun _ =>
    tracks_pure _

theorem floats_ext2FlushInode (fe : FileEnt) : Floats p (ext2FlushInode fe) := by
  refine moves_getCtx fun _ => (floats_udiv _ _).bind fun _ => (floats_umod _ _).bind fun _ =>
    tracks_ite ?_ (tracks_pure _)
  exact (floats_ext2BgDescriptor _).bind fun _ => floats_ext2BlockSize.bind fun _ =>
    (floats_udiv _ _).bind fun _ => (floats_udiv _ _).bind fun _ =>
      (floats_ext2LoadBuffer _ _ _).bind fun (_, _) => (floats_ext2WriteBuffer _ _ _).bind fun _ =>
        (floats_ext2StoreBuffer _).bind fun (_, _) => tracks_pure _

theorem floats_ext2OpenInode (fe : FileEnt) (ino : UInt32) : Floats p (ext2OpenInode fe ino) := by
  refine moves_getCtx fun c => (floats_udiv _ _).bind fun _ => (floats_umod _ _).bind fun _ =>
    tracks_ite (tracks_pure _) ((floats_shl _ _).bind fun _ => (moves_readSysbufAt _ c).bind fun _ => ?_)
  exact moves_getCtx fun c => (floats_shl _ _).bind fun _ => (floats_udiv _ _).bind fun _ =>
    (floats_udiv _ _).bind fun _ => (moves_readSysbufAt _ c).bind fun _ =>
      moves_getCtx fun _ => tracks_ite (tracks_pure _) (tracks_fault _)

theorem floats_ext2UpdateAtime (fe : FileEnt) : Floats p (ext2UpdateAtime fe) :=
  floats_timeNull.bind fun _ => tracks_pure _

theorem floats_ext2UpdateMtime (fe : FileEnt) : Floats p (ext2UpdateMtime fe) :=
  floats_timeNull.bind fun _ => tracks_pure _

/-! ## Allocation -/

theorem floats_mostFreeGroup (free : BlockGroupDescriptor → UInt16) (n : Nat) : ∀ i most g,
    Floats p (mostFreeGroup free n i most g) := by
  induction n with
  | zero => exact fun i most g => tracks_pure _
  | succ n ih =>
    exact fun i most g => (floats_ext2BgDescriptor _).bind fun _ => tracks_ite (ih _ _ _) (ih _ _ _)

theorem floats_scanBitmap (bitmap : UInt32) (n : Nat) : ∀ i fe,
    Floats p (scanBitmap bitmap n i fe) := by
  induction n with
  | zero => exact fun i fe => tracks_pure _
  | succ n ih =>
    intro i fe
    refine (floats_ext2LoadBuffer _ _ _).bind fun (_, fe) => (floats_ext2ReadBuffer _ _ _).bind
      fun byte => ?_
    dsimp only
    split
    · exact tracks_pure _
    · exact ih _ _

theorem floats_ext2ChangeAllocated (block : UInt32) (set dir : Bool) :
    Floats p (ext2ChangeAllocated block set dir) := by
  refine moves_getCtx fun c => (floats_udiv _ _).bind fun _ => (floats_ext2BgDescriptor _).bind
    fun _ => (floats_umod _ _).bind fun _ => (moves_readSysbufAt _ c).bind fun _ =>
      moves_getCtx fun c => tracks_ite (tracks_pure _) ?_
  exact (floats_setSysbuf _).bind fun _ => (moves_blockWriteAt _ _ _).bind fun _ =>
    (floats_ext2WriteBgDescriptor _ _).bind fun _ => moves_getCtx fun _ => (moves_setCtx _).bind
      fun _ => tracks_pure _

theorem floats_ext2AllocateBlock (fe : FileEnt) (b : UInt32) : Floats p (ext2AllocateBlock fe b) := by
  refine moves_getCtx fun _ => (floats_mostFreeGroup _ _ _ _ _).bind fun (_, _) =>
    tracks_ite (tracks_pure _) ((floats_ext2BgDescriptor _).bind fun _ =>
      (floats_scanBitmap _ _ _ _).bind fun (found, fe) => ?_)
  cases found with
  | none => exact tracks_pure _
  | some x =>
    exact (floats_ext2ChangeAllocated _ _ _).bind fun _ => tracks_ite (tracks_pure _) (tracks_pure _)

theorem floats_ext2AllocateInode (fe : FileEnt) : Floats p (ext2AllocateInode fe) := by
  refine moves_getCtx fun _ => (floats_mostFreeGroup _ _ _ _ _).bind fun (_, _) =>
    tracks_ite (tracks_pure _) ((floats_ext2BgDescriptor _).bind fun _ =>
      (floats_scanBitmap _ _ _ _).bind fun (found, fe) => ?_)
  cases found with
  | none => exact tracks_ite (tracks_fault _) (tracks_pure _)
  | some x =>
    exact (floats_ext2WriteBuffer _ _ _).bind fun _ => (floats_ext2StoreBuffer _).bind fun (_, _) =>
      (floats_ext2WriteBgDescriptor _ _).bind fun _ => moves_getCtx fun _ => (moves_setCtx _).bind
        fun _ => floats_ext2FlushSuperblock.bind fun _ => tracks_pure _

theorem floats_forPointers (table : UInt32) {body : UInt32 → FileEnt → Drv FileEnt}
    (hbody : ∀ b fe, Floats p (body b fe)) (n : Nat) : ∀ i fe,
    Floats p (forPointers table body n i fe) := by
  induction n with
  | zero => exact fun i fe => tracks_pure _
  | succ n ih =>
    exact fun i fe => (floats_ext2ReadPointer _ _ _).bind fun (_, _) =>
      tracks_ite ((hbody _ _).bind fun _ => ih _ _) (tracks_pure _)

theorem floats_ext2Deallocate (isdir : Bool) (b : UInt32) (fe : FileEnt) :
    Floats p (ext2Deallocate isdir b fe) :=
  (floats_ext2ChangeAllocated _ _ _).bind fun _ => tracks_pure _

theorem floats_ext2TruncateDirect (isdir : Bool) (l : List (Fin 15)) : ∀ fe,
    Floats p (ext2TruncateDirect isdir l fe) := by
  induction l with
  | nil => exact fun fe => tracks_pure _
  | cons k rest ih =>
    exact fun fe => tracks_ite ((floats_ext2Deallocate _ _ _).bind fun _ => ih _) (ih _)

section

variable {free : UInt32 → FileEnt → Drv FileEnt} (hfree : ∀ b fe, Floats p (free b fe))
include hfree

theorem floats_ext2TruncateSingle (n : Nat) (fe : FileEnt) :
    Floats p (ext2TruncateSingle free n fe) :=
  tracks_ite ((floats_forPointers _ hfree _ _ _).bind fun _ => (hfree _ _).bind fun _ =>
    tracks_pure _) (tracks_pure _)

theorem floats_ext2TruncateDouble (n : Nat) (fe : FileEnt) :
    Floats p (ext2TruncateDouble free n fe) := by
  have htables : ∀ table i fe, Floats p (forPointers table (fun block fe => do
      let fe ← forPointers block free n 0 fe
      free block fe) n i fe) := fun table =>
    floats_forPointers table (fun _ _ => (floats_forPointers _ hfree _ _ _).bind fun _ => hfree _ _) n
  exact tracks_ite ((htables _ _ _).bind fun _ => (hfree _ _).bind fun _ => tracks_pure _)
    (tracks_pure _)

theorem floats_ext2TruncateTriple (n : Nat) (fe : FileEnt) :
    Floats p (ext2TruncateTriple free n fe) := by
  have htables : ∀ block table i fe, Floats p (forPointers table (fun block2 fe => do
      let fe ← forPointers block free n 0 fe
      free block2 fe) n i fe) := fun block table =>
    floats_forPointers table (fun _ _ => (floats_forPointers block hfree _ _ _).bind fun _ =>
      hfree _ _) n
  have houter : ∀ table i fe, Floats p (forPointers table (fun block fe => do
      let fe ← forPointers block (fun block2 fe => do
        let fe ← forPointers block free n 0 fe
        free block2 fe) n 0 fe
      free block fe) n i fe) := fun table =>
    floats_forPointers table (fun _ _ => (htables _ _ _ _).bind fun _ => hfree _ _) n
  exact tracks_ite ((houter _ _ _).bind fun _ => (hfree _ _).bind fun _ => tracks_pure _)
    (tracks_pure _)

end

theorem floats_ext2TruncateFile (fe : FileEnt) : Floats p (ext2TruncateFile fe) := by
  have hfree : ∀ isdir b fe, Floats p (ext2Deallocate isdir b fe) := floats_ext2Deallocate
  exact floats_ext2BlockSize.bind fun _ => (floats_ext2TruncateDirect _ _ _).bind fun _ =>
    (floats_ext2TruncateSingle (hfree _) _ _).bind fun _ =>
      (floats_ext2TruncateDouble (hfree _) _ _).bind fun _ =>
        (floats_ext2TruncateTriple (hfree _) _ _).bind fun _ => tracks_pure _

/-! ## Calls on a handle -/

theorem floats_ext2BlockFromOffset (fe : FileEnt) (offset : Nat) :
    Floats p (ext2BlockFromOffset fe offset) := by
  have hptr : ∀ {fe : FileEnt} {t : UInt32} {i : Nat}, Floats p (ext2ReadPointer fe t i) :=
    floats_ext2ReadPointer _ _ _
  refine floats_ext2BlockSize.bind fun _ => tracks_ite (tracks_pure _) (tracks_ite hptr
    (tracks_ite (hptr.bind fun (_, _) => hptr) (tracks_ite ?_ (tracks_pure _))))
  exact hptr.bind fun (_, _) => hptr.bind fun (_, _) => hptr

theorem floats_ext2SelectBuffer (fe : FileEnt) : Floats p (ext2SelectBuffer fe) := by
  refine floats_ext2BlockSize.bind fun _ => (floats_ext2BlockFromOffset _ _).bind fun (_, _) =>
    (floats_ext2BlockFromOffset _ _).bind fun (_, _) => tracks_ite
      ((floats_ext2LoadBuffer _ _ _).bind fun (_, _) => tracks_pure _) (tracks_ite ?_ (tracks_pure _))
  exact (floats_ext2AllocateBlock _ _).bind fun (_, _) => tracks_ite
    ((floats_ext2LoadBuffer _ _ _).bind fun (_, _) => tracks_pure _) (tracks_pure _)

theorem floats_fail {a : α} (e : Errno) : Floats p (do setErrno e; pure a) :=
  (floats_setErrno e).bind fun _ => tracks_pure _

theorem floats_ext2ReadLoop (fuel : Nat) : ∀ left acc fe,
    Floats p (ext2ReadLoop fuel left acc fe) := by
  induction fuel with
  | zero => exact fun left acc fe => tracks_ite (tracks_pure _) (tracks_fault _)
  | succ fuel ih =>
    intro left acc fe
    refine tracks_ite (tracks_pure _) (tracks_ite (tracks_pure _)
      ((floats_ext2SelectBuffer _).bind fun (_, _) => tracks_ite (floats_fail _) ?_))
    exact floats_ext2BlockSize.bind fun _ => (floats_ext2BufferSpace _).bind fun _ =>
      (floats_ext2ReadBuffer _ _ _).bind fun _ => ih _ _ _

theorem floats_ext2Read (fe : FileEnt) (count : Nat) : Floats p (ext2Read fe count) := by
  refine tracks_ite (floats_fail _) ((floats_ext2ReadLoop _ _ _ _).bind fun (r, fe) => ?_)
  cases r with
  | none => exact tracks_pure _
  | some bytes =>
    exact tracks_ite ((floats_ext2UpdateAtime _).bind fun _ => tracks_pure _) (tracks_pure _)

theorem floats_ext2Lseek (fe : FileEnt) (offset : Int) (whence : Whence) :
    Floats p (ext2Lseek fe offset whence) := by
  refine tracks_ite (floats_fail _) ?_
  cases whence with
  | set => exact tracks_ite (floats_fail _) (tracks_pure _)
  | cur => exact tracks_ite (floats_fail _) (tracks_ite (floats_fail _) (tracks_pure _))
  | «end» => exact tracks_ite (floats_fail _) (tracks_ite (floats_fail _) (tracks_pure _))
  | other => exact floats_fail _

theorem floats_ext2WriteLoop (fuel : Nat) : ∀ data done fe,
    Floats p (ext2WriteLoop fuel data done fe) := by
  induction fuel with
  | zero => exact fun data done fe => tracks_ite (tracks_pure _) (tracks_fault _)
  | succ fuel ih =>
    intro data done fe
    refine tracks_ite (tracks_pure _) ((floats_ext2SelectBuffer _).bind fun (_, _) =>
      tracks_ite (floats_fail _) ?_)
    exact floats_ext2BlockSize.bind fun _ => (floats_ext2BufferSpace _).bind fun _ =>
      (floats_ext2WriteBuffer _ _ _).bind fun _ => ih _ _ _

theorem floats_ext2WriteFrom (fe : FileEnt) (data : List UInt8) : Floats p (ext2WriteFrom fe data) := by
  refine (floats_ext2WriteLoop _ _ _ _).bind fun (r, fe) => ?_
  cases r with
  | none => exact tracks_pure _
  | some done =>
    exact tracks_ite ((floats_ext2UpdateMtime _).bind fun _ => tracks_pure _) (tracks_pure _)

theorem floats_ext2Write (fe : FileEnt) (data : List UInt8) : Floats p (ext2Write fe data) :=
  tracks_ite (floats_fail _) (tracks_ite (floats_fail _) (tracks_ite
    ((floats_ext2Lseek _ _ _).bind fun (_, _) => tracks_ite (tracks_pure _) (floats_ext2WriteFrom _ _))
    (floats_ext2WriteFrom _ _)))

theorem floats_ext2Fstat (fe : FileEnt) : Floats p (ext2Fstat fe) :=
  tracks_ite (floats_fail _) (floats_ext2BlockSize.bind fun _ => tracks_pure _)

theorem floats_ext2Isatty (fe : FileEnt) : Floats p (ext2Isatty fe) :=
  tracks_ite (floats_fail _) (floats_fail _)

theorem floats_ext2Readdir (fe : FileEnt) : Floats p (ext2Readdir fe) := by
  refine (floats_ext2Read _ _).bind fun (_, _, _) => tracks_ite (tracks_pure _)
    ((floats_ext2Read _ _).bind fun (_, _, _) => tracks_ite (tracks_pure _)
      ((floats_ext2Read _ _).bind fun (_, _, _) => tracks_ite (tracks_pure _)
        ((floats_ext2Read _ _).bind fun (_, _, _) => tracks_ite (tracks_pure _)
          (tracks_ite ?_ (tracks_pure _)))))
  exact (floats_ext2Read _ _).bind fun (_, name, fe) =>
    (floats_dName fun d => Window.patch (Window.patch d 0 name) _ [0]).bind fun _ =>
      (floats_ext2Lseek _ _ _).bind fun (_, fe) _ _ => rfl

theorem floats_ext2Close (fe : FileEnt) : Floats p (ext2Close fe) := by
  have hstored : Floats p (if fe.buffer.dirty then ext2StoreBuffer fe else pure (0, fe)) :=
    tracks_ite (floats_ext2StoreBuffer _) (tracks_pure _)
  have hflushed : ∀ fe : FileEnt,
      Floats p (if fe.flags.fsDirty then ext2FlushInode fe else pure (0, fe)) := fun fe =>
    tracks_ite (floats_ext2FlushInode _) (tracks_pure _)
  exact tracks_ite (floats_fail _) (hstored.bind fun (_, _) => tracks_ite (floats_fail _)
    ((hflushed _).bind fun (_, _) => tracks_ite (floats_fail _) (tracks_pure _)))

/-! ## Paths -/

theorem floats_findEntry (name : List UInt8) (fuel : Nat) : ∀ fe,
    Floats p (findEntry name fuel fe) := by
  induction fuel with
  | zero => exact fun fe => tracks_fault _
  | succ fuel ih =>
    intro fe
    refine (floats_ext2Readdir _).bind fun (de, fe) => ?_
    cases de with
    | none => exact tracks_pure _
    | some de => exact tracks_ite (tracks_pure _) (ih _)

theorem floats_lookupElements (l : List (List UInt8)) : ∀ ino fe,
    Floats p (lookupElements l ino fe) := by
  induction l with
  | nil => exact fun ino fe => tracks_pure _
  | cons name rest ih =>
    intro ino fe
    refine (floats_ext2OpenInode _ _).bind fun (_, _) => tracks_ite (floats_fail _)
      (floats_patience.bind fun _ => (floats_findEntry _ _ _).bind fun (found, fe) => ?_)
    cases found with
    | none => exact floats_fail _
    | some next => exact ih _ _

theorem floats_ext2LookupPath (fe : FileEnt) (path : List UInt8) : Floats p (ext2LookupPath fe path) :=
  (floats_lookupElements _ _ _).bind fun (_, _) => tracks_pure _

theorem floats_ext2OpenExisting (fe : FileEnt) (flags : OpenFlags) (mode : Nat) :
    Floats p (ext2OpenExisting fe flags mode) :=
  tracks_ite (floats_fail _) (tracks_ite (tracks_pure _) (moves_getCtx fun _ =>
    tracks_ite (floats_fail _) (tracks_ite (floats_fail _) (tracks_ite
      ((floats_ext2TruncateFile _).bind fun (_, _) => tracks_pure _) (tracks_pure _)))))

theorem floats_ext2Create {append : List UInt8 → UInt32 → List UInt8 → Drv Int}
    (happend : ∀ d i n, Floats p (append d i n)) (fe : FileEnt) (name : List UInt8) (mode : Nat) :
    Floats p (ext2Create append fe name mode) := by
  refine moves_getCtx fun _ => tracks_ite (floats_fail _) ((floats_ext2AllocateInode _).bind
    fun (_, _) => tracks_ite (floats_fail _) ?_)
  dsimp only
  split
  · exact floats_fail _
  · refine (happend _ _ _).bind fun _ => tracks_ite (tracks_pure _) ?_
    exact floats_getuid.bind fun _ => floats_getgid.bind fun _ => floats_timeNull.bind fun _ =>
      floats_timeNull.bind fun _ => floats_timeNull.bind fun _ =>
        (floats_ext2FlushInode _).bind fun (_, _) => tracks_pure _

theorem floats_ext2OpenWith {append : List UInt8 → UInt32 → List UInt8 → Drv Int}
    (happend : ∀ d i n, Floats p (append d i n)) (name : List UInt8) (flags : OpenFlags) (mode : Nat) :
    Floats p (ext2OpenWith append name flags mode) := by
  refine (floats_ext2LookupPath _ _).bind fun (_, _) => (floats_ext2OpenInode _ _).bind fun (_, _) =>
    floats_getErrno.bind fun _ => tracks_ite (tracks_ite (floats_fail _) (floats_ext2Create happend _ _ _))
      (tracks_ite (floats_ext2OpenExisting _ _ _) (tracks_pure _))

theorem floats_lastRecord (lastBlock : Int) (bs fuel : Nat) : ∀ this hdr fe,
    Floats p (lastRecord lastBlock bs fuel this hdr fe) := by
  induction fuel with
  | zero => exact fun this hdr fe => tracks_fault _
  | succ fuel ih =>
    exact fun this hdr fe => (floats_ext2Lseek _ _ _).bind fun (_, _) => tracks_ite (tracks_pure _)
      ((floats_ext2Read _ _).bind fun (_, _, _) => tracks_ite (tracks_pure _)
        (tracks_ite (ih _ _ _) (tracks_pure _)))

theorem floats_appendInSlack (fe : FileEnt) (lastBlock : Int) (bs this minOld : Nat)
    (hdr : Ext2DirHeader) (inode : UInt32) (filename : List UInt8) :
    Floats p (appendInSlack fe lastBlock bs this minOld hdr inode filename) :=
  (floats_ext2Lseek _ _ _).bind fun (_, _) => (floats_ext2Write _ _).bind fun (_, _) =>
    (floats_ext2Lseek _ _ _).bind fun (_, _) => (floats_ext2Write _ _).bind fun (_, _) =>
      (floats_ext2Write _ _).bind fun (_, _) => tracks_pure _

theorem floats_writeZeros (n : Nat) : ∀ fe, Floats p (writeZeros n fe) := by
  induction n with
  | zero => exact fun fe => tracks_pure _
  | succ n ih => exact fun fe => (floats_ext2Write _ _).bind fun (_, _) => ih _

theorem floats_appendInNewBlock (fe : FileEnt) (bs : Nat) (inode : UInt32) (filename : List UInt8) :
    Floats p (appendInNewBlock fe bs inode filename) :=
  (floats_ext2Lseek _ _ _).bind fun (_, _) => (floats_writeZeros _ _).bind fun _ =>
    (floats_ext2Lseek _ _ _).bind fun (_, _) => (floats_ext2Write _ _).bind fun (_, _) =>
      (floats_ext2Write _ _).bind fun (_, _) => tracks_pure _

theorem floats_appendRecord (fe : FileEnt) (lastBlock : Int) (bs this : Nat) (hdr : Ext2DirHeader)
    (inode : UInt32) (filename : List UInt8) :
    Floats p (appendRecord fe lastBlock bs this hdr inode filename) :=
  tracks_ite (floats_appendInSlack _ _ _ _ _ _ _ _) (floats_appendInNewBlock _ _ _ _)

theorem floats_ext2AppendToDirectory (directory : List UInt8) (inode : UInt32)
    (filename : List UInt8) : Floats p (ext2AppendToDirectory directory inode filename) := by
  have hopen : ∀ flags, Floats p (ext2OpenPlain directory flags 0o1777) := fun flags =>
    floats_ext2OpenWith (fun _ _ _ => tracks_fault _) _ _ _
  have hclose : ∀ (e : Errno) (fe : FileEnt),
      Floats p (do setErrno e; let _ ← ext2Close fe; pure (-1 : Int)) := fun e fe =>
    (floats_setErrno e).bind fun _ => (floats_ext2Close fe).bind fun _ => tracks_pure _
  have hlocal : ∀ fe : FileEnt, Floats p (ext2CloseLocal fe) := fun fe =>
    floats_getErrno.bind fun _ => (floats_ext2Close fe).bind fun _ => floats_setErrno _
  refine floats_ext2BlockSize.bind fun _ => (hopen _).bind fun fe => ?_
  cases fe with
  | none => exact tracks_pure _
  | some fe =>
    refine (floats_ext2Lseek _ _ _).bind fun (_, _) => tracks_ite (hclose _ _) (tracks_ite (hclose _ _)
      (floats_patience.bind fun _ => (floats_lastRecord _ _ _ _ _ _).bind fun (found, fe) => ?_))
    cases found with
    | none => exact (hlocal _).bind fun _ => tracks_pure _
    | some x =>
      exact (floats_appendRecord _ _ _ _ _ _ _).bind fun _ => (floats_ext2Close _).bind fun _ =>
        tracks_pure _

theorem floats_ext2Open (name : List UInt8) (flags : OpenFlags) (mode : Nat) :
    Floats p (ext2Open name flags mode) :=
  floats_ext2OpenWith (fun _ _ _ => floats_ext2AppendToDirectory _ _ _) _ _ _

/-! ## Runs -/

theorem floats_withHandle (files : Files) (fd : Nat) (null : Reply)
    {body : FileEnt → Drv (Reply × Option FileEnt)} (hbody : ∀ fe, Floats p (body fe)) :
    Floats p (withHandle files fd null body) := by
  unfold withHandle
  split
  · exact floats_fail _
  · exact tracks_fault _
  · exact (hbody _).bind fun (_, _) => tracks_pure _

theorem floats_execCall (call : Call) (files : Files) : Floats p (execCall call files) := by
  cases call with
  | «open» name flags mode =>
    refine (floats_ext2Open _ _ _).bind fun fe => ?_
    cases fe with
    | none => exact tracks_pure _
    | some fe => exact tracks_pure _
  | close fd =>
    exact floats_withHandle _ _ _ fun _ => (floats_ext2Close _).bind fun (_, _) => tracks_pure _
  | read fd count =>
    exact floats_withHandle _ _ _ fun _ => (floats_ext2Read _ _).bind fun (_, _, _) => tracks_pure _
  | write fd data =>
    exact floats_withHandle _ _ _ fun _ => (floats_ext2Write _ _).bind fun (_, _) => tracks_pure _
  | lseek fd offset whence =>
    exact floats_withHandle _ _ _ fun _ => (floats_ext2Lseek _ _ _).bind fun (_, _) => tracks_pure _
  | readdir fd =>
    exact floats_withHandle _ _ _ fun _ => (floats_ext2Readdir _).bind fun (_, _) => tracks_pure _
  | fstat fd =>
    exact floats_withHandle _ _ _ fun _ => (floats_ext2Fstat _).bind fun (_, _) => tracks_pure _
  | isatty fd =>
    exact floats_withHandle _ _ _ fun _ => (floats_ext2Isatty _).bind fun _ => tracks_pure _

/-! ## Programs -/

def Volume.moved (p : UInt32) (v : Volume) : Volume := ⟨v.ctx.moved p, v.files⟩

def Volumes.moved (p : UInt32) (vols : Volumes) : Volumes := vols.map (Option.map (Volume.moved p))

/-- The request that mounts the volume where it lies now. -/
def Request.moved (p : UInt32) : Request → Request
  | mount garbage partStart volumeSize => mount garbage (partStart + p) volumeSize
  | umount vol => umount vol
  | on vol call => on vol call

/-- The contents and the place of the superblock are all that a mount looks at. -/
theorem moves_ext2Mount (garbage : Sector) (partStart volumeSize : UInt32) :
    Moves p (ext2Mount garbage partStart volumeSize) (ext2Mount garbage (partStart + p) volumeSize) := by
  have hread : Moves p (blockRead (partStart + 2) garbage) (blockRead (partStart + p + 2) garbage) := by
    rw [UInt32.add_assoc, UInt32.add_comm p, ← UInt32.add_assoc]
    exact moves_blockRead _ garbage
  have hro : Floats p Embext.blockGetDeviceReadOnly := fun _ _ => rfl
  refine hread.bind fun (_, sysbuf) => tracks_ite (tracks_pure _) ((floats_shl _ _).bind fun _ =>
    tracks_ite (tracks_pure _) ?_)
  exact hro.bind fun readOnly => (floats_udiv _ _).bind fun _ => floats_timeNull.bind fun mtime =>
    (moves_setCtx (mountedContext readOnly partStart sysbuf mtime)).bind fun _ =>
      floats_ext2FlushSuperblock.bind fun _ => tracks_pure _

theorem floats_ext2Umount : Floats p ext2Umount :=
  moves_getCtx fun _ => (moves_setCtx _).bind fun _ => floats_ext2FlushSuperblock.bind fun _ =>
    tracks_pure _

theorem tracks_withVolume (vols : Volumes) (vol : Nat) {body : Files → Drv (Option Files)}
    (hbody : ∀ files, Floats p (body files)) :
    (withVolume vols vol body).Tracks (Machine.moved p) (Volumes.moved p)
      (withVolume (vols.moved p) vol body) := by
  have hget : (vols.moved p)[vol]? = vols[vol]?.map (Option.map (Volume.moved p)) := List.getElem?_map
  unfold withVolume
  rw [hget]
  rcases vols[vol]? with _ | _ | v
  · exact tracks_fault _
  · exact tracks_fault _
  · refine (moves_setCtx v.ctx).bind fun _ => (hbody v.files).bind fun files => ?_
    intro h m
    cases files <;> simp [Volumes.moved, getCtx, Volume.moved, Prog.bind_apply, Machine.moved, Except.map]

theorem tracks_execRequest (request : Request) (vols : Volumes) :
    (execRequest request vols).Tracks (Machine.moved p) (Volumes.moved p)
      (execRequest (request.moved p) (vols.moved p)) := by
  cases request with
  | mount garbage partStart volumeSize =>
    refine (moves_ext2Mount garbage partStart volumeSize).bind fun r => tracks_ite ?_ (tracks_pure _)
    intro h m
    simp [Volumes.moved, getCtx, Volume.moved, Prog.bind_apply, Machine.moved, Except.map]
  | umount vol =>
    have hbody : ∀ _ : Files, Floats p (do let _ ← ext2Umount; pure (none : Option Files)) := fun _ =>
      floats_ext2Umount.bind fun _ => tracks_pure _
    exact tracks_withVolume vols vol hbody
  | on vol call =>
    refine tracks_withVolume vols vol fun files => (floats_execCall call files).bind fun x => ?_
    obtain ⟨reply, files⟩ := x
    exact tracks_pure _

/-- **The place of a volume does not matter**: a program on a device whose sectors lie `p` further, with
    its volumes mounted `p` further, returns what it returns, or stops where it stops, on the device as
    it was, makes the same transfers `p` further and leaves the same device `p` further. -/
theorem runRequests_moved (p : UInt32) (requests : List Request) (vols : Volumes) (h : Host) (m : Machine) :
    runRequests (requests.map (Request.moved p)) (vols.moved p) h (m.moved p)
      = (runRequests requests vols h m).map fun x => (x.1.moved p, x.2.moved p) := by
  suffices hall : ∀ vols, (runRequests requests vols).Tracks (Machine.moved p) (Volumes.moved p)
      (runRequests (requests.map (Request.moved p)) (vols.moved p)) from hall vols h m
  induction requests with
  | nil => exact fun vols => tracks_pure vols
  | cons request rest ih =>
    exact fun vols => (tracks_execRequest request vols).bind fun vols => ih vols

end

end Embext
