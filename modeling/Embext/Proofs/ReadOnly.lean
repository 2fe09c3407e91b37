import Embext.Proofs.Mount
import Embext.Proofs.SmallVolume

set_option autoImplicit false

/-! # Calls that only read

A handle that is clean and not writable (`Reader`) never makes the driver write, whatever transfers
fail. Looking a path up goes through such a handle, and on a read-only volume `ext2_open` hands out
no other kind. `Quiet m₀` is the invariant: since `m₀` the device was only read. -/

namespace Embext

open Prog (Maintains maintains_pure maintains_fault maintains_modify maintains_ite maintains_ask
  maintains_get)

def Transfer.isRead : Transfer → Bool
  | .read _ _ => true
  | .write _ _ => false

/-- Every transfer issued between two states is a `block_read`. -/
def OnlyReads (m₀ m : Machine) : Prop := ∃ new, m.log = new ++ m₀.log ∧ ∀ t ∈ new, t.isRead = true

theorem OnlyReads.refl (m : Machine) : OnlyReads m m := ⟨[], rfl, by simp⟩

theorem OnlyReads.trans {m₁ m₂ m₃ : Machine} (h₁ : OnlyReads m₁ m₂) (h₂ : OnlyReads m₂ m₃) :
    OnlyReads m₁ m₃ := by
  obtain ⟨n₁, hn₁, hr₁⟩ := h₁
  obtain ⟨n₂, hn₂, hr₂⟩ := h₂
  refine ⟨n₂ ++ n₁, by rw [hn₂, hn₁, List.append_assoc], fun t ht => ?_⟩
  rcases List.mem_append.1 ht with ht | ht
  · exact hr₂ t ht
  · exact hr₁ t ht

/-- The same context up to `sysbuf`. -/
def Ext2Context.SameButSysbuf (c c' : Ext2Context) : Prop := c' = { c with sysbuf := c'.sysbuf }

theorem Ext2Context.SameButSysbuf.sameVolume {c c' : Ext2Context} (hc : c.SameButSysbuf c') :
    c.SameVolume c' := by
  unfold SameButSysbuf at hc
  rw [hc]
  rfl

theorem Ext2Context.SameButSysbuf.trans {c₁ c₂ c₃ : Ext2Context} (h₁ : c₁.SameButSysbuf c₂)
    (h₂ : c₂.SameButSysbuf c₃) : c₁.SameButSysbuf c₃ := by
  unfold SameButSysbuf at *
  rw [h₂, h₁]

/-- Since `m₀` the device was only read: the sectors are the same, no write was issued, and the
    context differs at most in `sysbuf`. -/
structure Quiet (m₀ m : Machine) : Prop where
  disk : m.disk = m₀.disk
  reads : OnlyReads m₀ m
  ctx : m₀.ctx.SameButSysbuf m.ctx

theorem Quiet.refl (m : Machine) : Quiet m m := ⟨rfl, .refl m, rfl⟩

theorem Quiet.trans {m₁ m₂ m₃ : Machine} (h₁ : Quiet m₁ m₂) (h₂ : Quiet m₂ m₃) : Quiet m₁ m₃ :=
  ⟨h₂.disk.trans h₁.disk, h₁.reads.trans h₂.reads, h₁.ctx.trans h₂.ctx⟩

/-- A handle with nothing to store, and flags with `F`. -/
structure FileEnt.Idle (F : FileFlags → Prop) (fe : FileEnt) : Prop where
  clean : fe.buffer.dirty = false
  flags : F fe.flags

/-- A handle through which nothing is written. -/
abbrev FileEnt.Reader : FileEnt → Prop := FileEnt.Idle fun f => f.write = false

theorem FileEnt.fresh_reader : FileEnt.fresh.Reader := ⟨rfl, rfl⟩

variable {h : Host} {m₀ : Machine} {F : FileFlags → Prop}

/-! ## Steps that keep quiet -/

theorem quiet_blockRead (sec : UInt32) (old : Sector) :
    (blockRead sec old).Maintains h (Quiet m₀) fun _ => True := by
  intro m a m' hm hrun
  refine ⟨hm.trans ?_, trivial⟩
  unfold blockRead at hrun
  split at hrun <;> cases hrun <;> exact ⟨rfl, ⟨[_], rfl, by simp [Transfer.isRead]⟩, rfl⟩

theorem quiet_getCtx :
    getCtx.Maintains h (Quiet m₀) fun c => m₀.ctx.SameButSysbuf c := by
  intro m a m' hm hrun
  cases hrun
  exact ⟨hm, hm.ctx⟩

theorem quiet_modify {f : Machine → Machine} (hf : ∀ m, Quiet m (f m)) :
    (Prog.modify f : Drv Unit).Maintains h (Quiet m₀) fun _ => True :=
  maintains_modify fun m hm => hm.trans (hf m)

theorem quiet_setErrno (e : Errno) : (setErrno e).Maintains h (Quiet m₀) fun _ => True :=
  quiet_modify fun m => ⟨rfl, .refl m, rfl⟩

theorem quiet_timeNull : timeNull.Maintains h (Quiet m₀) fun _ => True := by
  intro m a m' hm hrun
  cases hrun
  exact ⟨⟨hm.disk, hm.reads, hm.ctx⟩, trivial⟩

theorem quiet_readSysbuf (sec : UInt32) : (readSysbuf sec).Maintains h (Quiet m₀) fun _ => True := by
  unfold readSysbuf
  exact quiet_getCtx.bind fun ctx _ => (quiet_blockRead _ _).bind fun (_, s) _ =>
    quiet_modify fun m => ⟨rfl, .refl m, rfl⟩

theorem quiet_ext2BlockSize : ext2BlockSize.Maintains h (Quiet m₀) fun _ => True := by
  unfold ext2BlockSize
  exact quiet_getCtx.bind fun ctx _ => maintains_ite (fun _ => maintains_pure trivial) fun _ =>
    maintains_fault _

theorem quiet_shl (x n : UInt32) : (shl x n).Maintains h (Quiet m₀) fun _ => True :=
  maintains_ite (fun _ => maintains_pure trivial) fun _ => maintains_fault _

theorem quiet_udiv (x y : Nat) : (udiv x y).Maintains h (Quiet m₀) fun _ => True :=
  maintains_ite (fun _ => maintains_fault _) fun _ => maintains_pure trivial

theorem quiet_umod (x y : Nat) : (umod x y).Maintains h (Quiet m₀) fun _ => True :=
  maintains_ite (fun _ => maintains_fault _) fun _ => maintains_pure trivial

theorem quiet_ext2ReadBuffer (b : BufferObject) (off n : Nat) :
    (ext2ReadBuffer b off n).Maintains h (Quiet m₀) fun _ => True :=
  maintains_ite (fun _ => maintains_pure trivial) fun _ => maintains_fault _

/-- A clean buffer is filled without a store. -/
theorem quiet_ext2LoadBuffer {fe : FileEnt} (hfe : fe.Idle F) (b off : UInt32) :
    (ext2LoadBuffer fe b off).Maintains h (Quiet m₀) fun x => x.2.Idle F := by
  unfold ext2LoadBuffer ext2FillBuffer
  refine maintains_ite (fun hd => absurd hd (by rw [hfe.clean]; decide)) fun _ => ?_
  exact quiet_ext2BlockSize.bind fun bs _ => quiet_getCtx.bind fun ctx _ =>
    (quiet_blockRead _ _).bind fun (_, s) _ => maintains_pure ⟨hfe.clean, hfe.flags⟩

theorem quiet_ext2ReadPointer {fe : FileEnt} (hfe : fe.Idle F) (table : UInt32) (i : Nat) :
    (ext2ReadPointer fe table i).Maintains h (Quiet m₀) fun x => x.2.Idle F := by
  unfold ext2ReadPointer ext2ReadBufferU32
  exact (quiet_ext2LoadBuffer hfe _ _).bind fun (_, fe) hfe =>
    ((quiet_ext2ReadBuffer _ _ _).bind fun l _ => maintains_pure (P := fun _ => True) trivial).bind
      fun b _ => maintains_pure hfe

theorem quiet_ext2BlockFromOffset {fe : FileEnt} (hfe : fe.Idle F) (offset : Nat) :
    (ext2BlockFromOffset fe offset).Maintains h (Quiet m₀) fun x => x.2.Idle F := by
  unfold ext2BlockFromOffset
  refine quiet_ext2BlockSize.bind fun bs _ => maintains_ite (fun _ => maintains_pure hfe) fun _ =>
    maintains_ite (fun _ => quiet_ext2ReadPointer hfe _ _) fun _ => maintains_ite (fun _ => ?_)
      fun _ => maintains_ite (fun _ => ?_) fun _ => maintains_pure hfe
  · exact (quiet_ext2ReadPointer hfe _ _).bind fun (b, fe) hfe => quiet_ext2ReadPointer hfe _ _
  · exact (quiet_ext2ReadPointer hfe _ _).bind fun (b, fe) hfe =>
      (quiet_ext2ReadPointer hfe _ _).bind fun (b, fe) hfe => quiet_ext2ReadPointer hfe _ _

theorem quiet_ext2BgDescriptor (g : UInt32) :
    (ext2BgDescriptor g).Maintains h (Quiet m₀) fun _ => True := by
  unfold ext2BgDescriptor ext2GetBgDescriptor
  refine Prog.Maintains.bind (P := fun _ => True) (quiet_getCtx.bind fun ctx _ =>
    maintains_ite (fun _ => maintains_pure trivial) fun _ => ?_) fun bg _ => ?_
  · exact quiet_ext2BlockSize.bind fun bs _ => (quiet_readSysbuf _).bind fun _ _ =>
      quiet_getCtx.bind fun ctx _ => maintains_pure trivial
  · cases bg with
    | none => exact maintains_fault _
    | some bg => exact maintains_pure trivial

theorem quiet_mostFreeGroup (free : BlockGroupDescriptor → UInt16) (n : Nat) : ∀ i most g,
    (mostFreeGroup free n i most g).Maintains h (Quiet m₀) fun _ => True := by
  induction n with
  | zero => exact fun i most g => maintains_pure trivial
  | succ n ih =>
    intro i most g
    exact (quiet_ext2BgDescriptor _).bind fun bg _ =>
      maintains_ite (fun _ => ih _ _ _) fun _ => ih _ _ _

theorem quiet_scanBitmap (bitmap : UInt32) (n : Nat) : ∀ i fe, fe.Idle F →
    (scanBitmap bitmap n i fe).Maintains h (Quiet m₀) fun x => x.2.Idle F := by
  induction n with
  | zero => exact fun i fe hfe => maintains_pure hfe
  | succ n ih =>
    intro i fe hfe
    refine (quiet_ext2LoadBuffer hfe _ _).bind fun (_, fe) hfe =>
      (quiet_ext2ReadBuffer _ _ _).bind fun byte _ => ?_
    dsimp only
    split
    · exact maintains_pure hfe
    · exact ih _ _ hfe

theorem quiet_ext2SelectBuffer {fe : FileEnt} (hfe : fe.Reader) :
    (ext2SelectBuffer fe).Maintains h (Quiet m₀) fun x => x.2.Reader := by
  unfold ext2SelectBuffer
  refine quiet_ext2BlockSize.bind fun bs _ => (quiet_ext2BlockFromOffset hfe _).bind
    fun (block, fe) hfe => (quiet_ext2BlockFromOffset hfe _).bind fun (previous, fe) hfe => ?_
  refine maintains_ite (fun _ => ?_) fun _ => maintains_ite (fun hw => ?_) fun _ =>
    maintains_pure hfe
  · exact (quiet_ext2LoadBuffer hfe _ _).bind fun (_, fe) hfe => maintains_pure hfe
  · -- only a writable handle allocates
    exact absurd hw (by rw [hfe.flags]; decide)

theorem quiet_ext2ReadLoop (fuel : Nat) : ∀ (left : Nat) (acc : List UInt8) (fe : FileEnt),
    fe.Reader → (ext2ReadLoop fuel left acc fe).Maintains h (Quiet m₀) fun x => x.2.Reader := by
  induction fuel with
  | zero => exact fun left acc fe hfe => maintains_ite (fun _ => maintains_pure hfe) fun _ =>
      maintains_fault _
  | succ fuel ih =>
    intro left acc fe hfe
    refine maintains_ite (fun _ => maintains_pure hfe) fun _ =>
      maintains_ite (fun _ => maintains_pure hfe) fun _ => (quiet_ext2SelectBuffer hfe).bind
        fun (r, fe) hfe => maintains_ite (fun _ => (quiet_setErrno _).bind fun _ _ =>
          maintains_pure hfe) fun _ => ?_
    exact quiet_ext2BlockSize.bind fun bs _ => (quiet_ext2BlockSize.bind fun _ _ =>
      maintains_pure (P := fun _ => True) trivial).bind fun space _ =>
        (quiet_ext2ReadBuffer _ _ _).bind fun bytes _ => ih _ _ _ ⟨hfe.clean, hfe.flags⟩

theorem quiet_ext2Read {fe : FileEnt} (hfe : fe.Reader) (count : Nat) :
    (ext2Read fe count).Maintains h (Quiet m₀) fun x => x.2.2.Reader := by
  unfold ext2Read
  refine maintains_ite (fun _ => (quiet_setErrno _).bind fun _ _ => maintains_pure hfe) fun _ =>
    (quiet_ext2ReadLoop _ _ _ _ hfe).bind fun (r, fe) hfe => ?_
  cases r with
  | none => exact maintains_pure hfe
  | some bytes =>
    refine maintains_ite (fun _ => ?_) fun _ => maintains_pure hfe
    exact Prog.Maintains.bind (P := FileEnt.Reader)
      (quiet_timeNull.bind fun t _ => maintains_pure ⟨hfe.clean, hfe.flags⟩)
      fun fe hfe => maintains_pure hfe

theorem quiet_ext2Lseek {fe : FileEnt} (hfe : fe.Reader) (offset : Int) (whence : Whence) :
    (ext2Lseek fe offset whence).Maintains h (Quiet m₀) fun x => x.2.Reader := by
  rintro s ⟨r, fe'⟩ s' hs hrun
  obtain ⟨c, e, rfl, rfl⟩ := of_ext2Lseek_ok hrun
  exact ⟨hs.trans ⟨rfl, .refl s, rfl⟩, hfe.clean, hfe.flags⟩

theorem quiet_ext2Readdir {fe : FileEnt} (hfe : fe.Reader) :
    (ext2Readdir fe).Maintains h (Quiet m₀) fun x => x.2.Reader := by
  unfold ext2Readdir
  refine (quiet_ext2Read hfe _).bind fun (r, ino, fe) hfe => maintains_ite
    (fun _ => maintains_pure hfe) fun _ => (quiet_ext2Read hfe _).bind fun (r, recLen, fe) hfe =>
      maintains_ite (fun _ => maintains_pure hfe) fun _ => (quiet_ext2Read hfe _).bind
        fun (r, nameLen, fe) hfe => maintains_ite (fun _ => maintains_pure hfe) fun _ =>
          (quiet_ext2Read hfe _).bind fun (r, _, fe) hfe => maintains_ite
            (fun _ => maintains_pure hfe) fun _ => maintains_ite (fun _ => ?_) fun _ =>
              maintains_pure hfe
  refine (quiet_ext2Read hfe _).bind fun (_, name, fe) hfe => Prog.Maintains.bind
    (quiet_modify fun m => ⟨rfl, .refl m, rfl⟩) fun _ _ => ?_
  exact (quiet_ext2Lseek hfe _ _).bind fun (_, fe) hfe => maintains_get.bind fun m _ =>
    maintains_pure hfe

/-! ## Paths -/

theorem quiet_ext2OpenInode {fe : FileEnt} (hfe : fe.Reader) (ino : UInt32) :
    (ext2OpenInode fe ino).Maintains h (Quiet m₀) fun x => x.2.Reader := by
  unfold ext2OpenInode
  refine quiet_getCtx.bind fun ctx _ => (quiet_udiv _ _).bind fun g _ => (quiet_umod _ _).bind
    fun i _ => maintains_ite (fun _ => maintains_pure hfe) fun _ => (quiet_shl _ _).bind
      fun bgBlock _ => (quiet_readSysbuf _).bind fun _ _ => quiet_getCtx.bind fun ctx _ => ?_
  exact (quiet_shl _ _).bind fun inodeBlock _ => (quiet_udiv _ _).bind fun perSector _ =>
    (quiet_udiv _ _).bind fun skip _ => (quiet_readSysbuf _).bind fun _ _ =>
      quiet_getCtx.bind fun ctx _ => maintains_ite (fun _ => maintains_pure ⟨hfe.clean, rfl⟩)
        fun _ => maintains_fault _

theorem quiet_findEntry (name : List UInt8) (fuel : Nat) : ∀ fe : FileEnt, fe.Reader →
    (findEntry name fuel fe).Maintains h (Quiet m₀) fun x => x.2.Reader := by
  induction fuel with
  | zero => exact fun fe _ => maintains_fault _
  | succ fuel ih =>
    intro fe hfe
    refine (quiet_ext2Readdir hfe).bind fun (de, fe) hfe => ?_
    cases de with
    | none => exact maintains_pure hfe
    | some de => exact maintains_ite (fun _ => maintains_pure hfe) fun _ => ih _ hfe

theorem quiet_lookupElements (l : List (List UInt8)) : ∀ (ino : UInt32) (fe : FileEnt), fe.Reader →
    (lookupElements l ino fe).Maintains h (Quiet m₀) fun x => x.2.Reader := by
  induction l with
  | nil => exact fun ino fe hfe => maintains_pure hfe
  | cons name rest ih =>
    intro ino fe hfe
    refine (quiet_ext2OpenInode hfe _).bind fun (r, fe) hfe => maintains_ite
      (fun _ => (quiet_setErrno _).bind fun _ _ => maintains_pure hfe) fun _ => ?_
    refine Prog.Maintains.bind (P := fun _ => True) (maintains_ask trivial) fun bound _ =>
      (quiet_findEntry _ _ _ hfe).bind fun (found, fe) hfe => ?_
    cases found with
    | none => exact (quiet_setErrno _).bind fun _ _ => maintains_pure hfe
    | some next => exact ih _ _ hfe

/-- Looking a path up only reads. -/
theorem quiet_ext2LookupPath {fe : FileEnt} (hfe : fe.Reader) (path : List UInt8) :
    (ext2LookupPath fe path).Maintains h (Quiet m₀) fun x => x.2.Reader := by
  unfold ext2LookupPath
  exact (quiet_lookupElements _ _ _ hfe).bind fun (ino, fe) hfe => maintains_pure hfe

/-! ## Calls on a read-only volume -/

/-- What `ext2_open` returns on a read-only volume: NULL or a handle that only reads. -/
def OpensReader (fe : Option FileEnt) : Prop := ∀ f, fe = some f → f.Reader

theorem quiet_openFails (e : Errno) :
    (do setErrno e; pure none : Drv (Option FileEnt)).Maintains h (Quiet m₀) OpensReader :=
  (quiet_setErrno e).bind fun _ _ => maintains_pure fun _ hf => absurd hf (by simp)

theorem openedFlags_write (f : FileFlags) (flags : OpenFlags) (hf : f.write = false)
    (hw : ¬ flags.wronly = true) (hr : ¬ flags.rdwr = true) : (openedFlags f flags).write = false := by
  unfold openedFlags
  rw [if_neg hr, if_neg hw]
  split <;> exact hf

section volume

variable (hro : m₀.ctx.readOnly = true)
include hro

theorem quiet_ext2OpenExisting {fe : FileEnt} (hfe : fe.Reader) (flags : OpenFlags) (mode : Nat) :
    (ext2OpenExisting { fe with flags := openedFlags fe.flags flags } flags mode).Maintains h
      (Quiet m₀) OpensReader := by
  unfold ext2OpenExisting
  refine maintains_ite (fun _ => quiet_openFails _) fun _ => maintains_ite (fun hacc => ?_)
    fun _ => quiet_getCtx.bind fun ctx hctx => maintains_ite (fun _ => quiet_openFails _)
      fun hrw => ?_
  · refine maintains_pure fun f hf => ?_
    cases hf
    exact ⟨hfe.clean, openedFlags_write _ _ hfe.flags hacc.1 hacc.2⟩
  · refine absurd ?_ hrw
    rw [hctx]
    exact hro

theorem quiet_ext2Create (append : List UInt8 → UInt32 → List UInt8 → Drv Int) (fe : FileEnt)
    (name : List UInt8) (mode : Nat) :
    (ext2Create append fe name mode).Maintains h (Quiet m₀) OpensReader := by
  unfold ext2Create
  refine quiet_getCtx.bind fun ctx hctx => maintains_ite (fun _ => quiet_openFails _) fun hrw => ?_
  refine absurd ?_ hrw
  rw [hctx]
  exact hro

theorem quiet_ext2Open (name : List UInt8) (flags : OpenFlags) (mode : Nat) :
    (ext2Open name flags mode).Maintains h (Quiet m₀) OpensReader := by
  unfold ext2Open ext2OpenWith
  refine (quiet_ext2LookupPath FileEnt.fresh_reader _).bind fun (ino, fe) hfe =>
    (quiet_ext2OpenInode hfe _).bind fun (i, fe) hfe =>
      Prog.Maintains.bind (P := fun _ => True) (fun m e m' hm hrun => ?_) fun e _ =>
        maintains_ite (fun _ => maintains_ite (fun _ => quiet_openFails _) fun _ =>
          quiet_ext2Create hro _ _ _ _) fun _ => maintains_ite (fun _ =>
            quiet_ext2OpenExisting hro hfe _ _) fun _ => maintains_pure ?_
  · cases hrun
    exact ⟨hm, trivial⟩
  · exact fun _ hf => absurd hf (by simp)

omit hro in
/-- A write through a handle that only reads is refused. -/
theorem quiet_ext2Write {fe : FileEnt} (hfe : fe.Reader) (data : List UInt8) :
    (ext2Write fe data).Maintains h (Quiet m₀) fun x => x.2.Reader := by
  have hfail : (do setErrno .ebadf; pure (-1, fe) : Drv (Int × FileEnt)).Maintains h (Quiet m₀)
      fun x => x.2.Reader := (quiet_setErrno _).bind fun _ _ => maintains_pure hfe
  unfold ext2Write
  refine maintains_ite (fun _ => hfail) fun _ => maintains_ite (fun _ => hfail) fun hw => ?_
  exact absurd (by rw [hfe.flags]; rfl) hw

omit hro in
/-- On a volume without groups a handle with a changed inode cannot be closed: there is no
    descriptor to find its inode table with. -/
theorem quiet_ext2Close {fe : FileEnt} (hng : m₀.ctx.numBlockgroups = 0) (hfe : fe.Reader) :
    (ext2Close fe).Maintains h (Quiet m₀) fun x => x.2.Reader := by
  have hfail : ∀ fe : FileEnt, fe.Reader → (do setErrno fe.rerrno; pure (-1, fe) :
      Drv (Int × FileEnt)).Maintains h (Quiet m₀) fun x => x.2.Reader := fun fe hfe =>
    (quiet_setErrno _).bind fun _ _ => maintains_pure hfe
  have hbg : ∀ g, (ext2BgDescriptor g).Maintains h (Quiet m₀) fun _ => False := by
    intro g
    unfold ext2BgDescriptor ext2GetBgDescriptor
    refine Prog.Maintains.bind (P := fun bg => bg = none) (quiet_getCtx.bind fun ctx hctx =>
      maintains_ite (fun _ => maintains_pure rfl) fun hlt => ?_) fun bg hbg => ?_
    · refine absurd ?_ hlt
      rw [hctx]
      simp [hng]
    · rw [hbg]
      exact maintains_fault _
  unfold ext2Close
  refine maintains_ite (fun _ => (quiet_setErrno _).bind fun _ _ => maintains_pure hfe) fun _ => ?_
  refine Prog.Maintains.bind (P := fun x => x.2.Reader) (maintains_ite (fun hd => ?_) fun _ =>
    maintains_pure hfe) fun (r, fe) hfe => maintains_ite (fun _ => hfail _ hfe) fun _ => ?_
  · exact absurd hd (by rw [hfe.clean]; decide)
  refine Prog.Maintains.bind (P := fun x => x.2.Reader) (maintains_ite (fun _ => ?_) fun _ =>
    maintains_pure hfe) fun (r, fe) hfe => maintains_ite (fun _ => hfail _ hfe) fun _ =>
      maintains_pure ⟨hfe.clean, hfe.flags⟩
  unfold ext2FlushInode
  refine quiet_getCtx.bind fun ctx _ => (quiet_udiv _ _).bind fun g _ => (quiet_umod _ _).bind
    fun i _ => maintains_ite (fun _ => (hbg _).bind fun bg hf => hf.elim) fun _ =>
      maintains_pure hfe

end volume

/-! ## Runs on a read-only device -/

/-- The device was left alone: same sectors, and no `block_write` was issued. -/
structure Untouched (m m' : Machine) : Prop where
  disk : m'.disk = m.disk
  reads : OnlyReads m m'

theorem Untouched.trans {m₁ m₂ m₃ : Machine} (h₁ : Untouched m₁ m₂) (h₂ : Untouched m₂ m₃) :
    Untouched m₁ m₃ :=
  ⟨h₂.disk.trans h₁.disk, h₁.reads.trans h₂.reads⟩

/-- A mounted volume whose calls cannot write: read-only, without groups and superblock copies,
    and with handles that only read. -/
structure Volume.Sealed (v : Volume) : Prop where
  readOnly : v.ctx.readOnly = true
  groups : v.ctx.numBlockgroups = 0
  copies : v.ctx.superblockBlocks = []
  readers : ∀ fe, some fe ∈ v.files → fe.Reader

/-- What a request must meet to leave a read-only device alone: a superblock that `ext2_mount`
    accepts counts no blocks. -/
def SparesDevice (h : Host) (m : Machine) : Request → Prop
  | .mount garbage partStart volumeSize =>
    MountAccepts (mountSector h m garbage partStart).superblock volumeSize →
      (mountSector h m garbage partStart).superblock.sBlocksCount = 0
  | _ => True

/-- Every request of the run meets `SparesDevice` in the state it starts in. -/
def RunSpares (h : Host) : List Request → Volumes → Machine → Prop
  | [], _, _ => True
  | request :: rest, vols, m => SparesDevice h m request ∧
    ∀ vols' m', execRequest request vols h m = .ok (vols', m') → RunSpares h rest vols' m'

/-- With a copy to write, a flush issues a `block_write`. -/
theorem ext2FlushSuperblock_writes {m m' : Machine} {r : Int} (hne : m.ctx.superblockBlocks ≠ [])
    (hrun : ext2FlushSuperblock h m = .ok (r, m')) : ¬ OnlyReads m m' := by
  obtain ⟨b, rest, hcons⟩ := List.exists_cons_of_ne_nil hne
  obtain ⟨u, m₁, hset, hrun⟩ := Prog.of_bind_ok hrun
  cases hset
  obtain ⟨c, m₂, hget, hrun⟩ := Prog.of_bind_ok hrun
  cases hget
  obtain ⟨v, m₃, hcopies, hrun⟩ := Prog.of_bind_ok hrun
  cases hrun
  simp only [hcons, ext2FlushCopies] at hcopies
  obtain ⟨c, m₄, hget, hcopies⟩ := Prog.of_bind_ok hcopies
  cases hget
  obtain ⟨u, m₅, hset, hcopies⟩ := Prog.of_bind_ok hcopies
  cases hset
  obtain ⟨lba, m₆, hshl, hcopies⟩ := Prog.of_bind_ok hcopies
  obtain ⟨-, -, rfl⟩ := of_shl_ok hshl
  obtain ⟨w, m₇, hwrite, hcopies⟩ := Prog.of_bind_ok hcopies
  have hsteps : Steps True (ext2FlushCopies rest) := steps_ext2FlushCopies rest
  rintro ⟨new, hnew, hreads⟩
  have hlog : ∃ t, m₇.log = t :: m.log ∧ t.isRead = false := by
    unfold blockWrite at hwrite
    split at hwrite <;> cases hwrite <;> exact ⟨_, rfl, rfl⟩
  obtain ⟨t, ht, hwr⟩ := hlog
  obtain ⟨later, hlater⟩ := hsteps.suffix hcopies
  have hcat : new = later ++ [t] := by
    rw [← List.append_left_inj m.log, ← hnew, ← hlater, ht, List.append_assoc]
    rfl
  have := hreads t (by simp [hcat])
  rw [hwr] at this
  exact absurd this (by decide)

/-! ### One request -/

/-- A quiet call leaves its volume sealed. -/
theorem Volume.Sealed.quiet {v : Volume} (hv : v.Sealed) {m m' : Machine} (hctx : m.ctx = v.ctx)
    (hq : Quiet m m') {files : Files} (hfiles : ∀ fe, some fe ∈ files → fe.Reader) :
    (⟨m'.ctx, files⟩ : Volume).Sealed := by
  have hc := hq.ctx
  rw [hctx] at hc
  refine ⟨?_, ?_, ?_, hfiles⟩
  · rw [hc]
    exact hv.readOnly
  · rw [hc]
    exact hv.groups
  · rw [hc]
    exact hv.copies

theorem quiet_withHandle {files : Files} (hfiles : ∀ fe, some fe ∈ files → fe.Reader) (fd : Nat)
    (null : Reply) {body : FileEnt → Drv (Reply × Option FileEnt)}
    (hbody : ∀ fe, fe.Reader → (body fe).Maintains h (Quiet m₀) fun x => OpensReader x.2) :
    (withHandle files fd null body).Maintains h (Quiet m₀)
      fun x => ∀ fe, some fe ∈ x.2 → fe.Reader := by
  unfold withHandle
  split
  · exact (quiet_setErrno _).bind fun _ _ => maintains_pure hfiles
  · exact maintains_fault _
  · next fe hget =>
    refine (hbody fe (hfiles fe (List.mem_of_getElem? hget))).bind fun (reply, fe') hfe' =>
      maintains_pure fun f hf => ?_
    rcases List.mem_or_eq_of_mem_set hf with hf | hf
    · exact hfiles f hf
    · exact hfe' f hf.symm

theorem quiet_execCall (hro : m₀.ctx.readOnly = true) (hng : m₀.ctx.numBlockgroups = 0)
    {files : Files} (hfiles : ∀ fe, some fe ∈ files → fe.Reader) (call : Call) :
    (execCall call files).Maintains h (Quiet m₀) fun x => ∀ fe, some fe ∈ x.2 → fe.Reader := by
  have hsome : ∀ fe : FileEnt, fe.Reader → OpensReader (some fe) := fun fe hfe f hf => by
    cases hf
    exact hfe
  cases call with
  | «open» name flags mode =>
    refine (quiet_ext2Open hro _ _ _).bind fun fe hfe => ?_
    cases fe with
    | none => exact maintains_pure hfiles
    | some fe =>
      refine maintains_pure fun f hf => ?_
      rcases List.mem_append.1 hf with hf | hf
      · exact hfiles f hf
      · exact hfe f (List.mem_singleton.1 hf).symm
  | close fd =>
    refine quiet_withHandle hfiles _ _ fun fe hfe => (quiet_ext2Close hng hfe).bind
      fun (r, fe) hfe => maintains_pure ?_
    dsimp only
    split
    · exact fun f hf => absurd hf (by simp)
    · exact hsome _ hfe
  | read fd count =>
    exact quiet_withHandle hfiles _ _ fun fe hfe => (quiet_ext2Read hfe _).bind
      fun (r, bytes, fe) hfe => maintains_pure (hsome _ hfe)
  | write fd data =>
    exact quiet_withHandle hfiles _ _ fun fe hfe => (quiet_ext2Write hfe _).bind
      fun (r, fe) hfe => maintains_pure (hsome _ hfe)
  | lseek fd offset whence =>
    exact quiet_withHandle hfiles _ _ fun fe hfe => (quiet_ext2Lseek hfe _ _).bind
      fun (r, fe) hfe => maintains_pure (hsome _ hfe)
  | readdir fd =>
    exact quiet_withHandle hfiles _ _ fun fe hfe => (quiet_ext2Readdir hfe).bind
      fun (de, fe) hfe => maintains_pure (hsome _ hfe)
  | fstat fd =>
    refine quiet_withHandle hfiles _ _ fun fe hfe => Prog.Maintains.bind (P := fun _ => True) ?_
      fun x _ => maintains_pure (hsome _ hfe)
    exact maintains_ite (fun _ => (quiet_setErrno _).bind fun _ _ => maintains_pure trivial)
      fun _ => quiet_ext2BlockSize.bind fun bs _ => maintains_pure trivial
  | isatty fd =>
    refine quiet_withHandle hfiles _ _ fun fe hfe => Prog.Maintains.bind (P := fun _ => True) ?_
      fun x _ => maintains_pure (hsome _ hfe)
    exact maintains_ite (fun _ => (quiet_setErrno _).bind fun _ _ => maintains_pure trivial)
      fun _ => (quiet_setErrno _).bind fun _ _ => maintains_pure trivial

/-- What a request on a volume does: its context becomes the machine's, the body runs, and the
    volume takes the context and the files that are left. -/
theorem withVolume_cases {vols vols' : Volumes} {vol : Nat} {body : Files → Drv (Option Files)}
    {m m' : Machine} (hrun : withVolume vols vol body h m = .ok (vols', m')) :
    ∃ v files, some v ∈ vols ∧ body v.files h { m with ctx := v.ctx } = .ok (files, m') ∧
      vols' = vols.set vol (files.map fun files => ⟨m'.ctx, files⟩) := by
  unfold withVolume at hrun
  rcases hget : vols[vol]? with - | - | v
  · rw [hget] at hrun
    cases hrun
  · rw [hget] at hrun
    cases hrun
  · rw [hget] at hrun
    obtain ⟨u, m₁, hset, hrun⟩ := Prog.of_bind_ok hrun
    cases hset
    obtain ⟨files, m₂, hbody, hrun⟩ := Prog.of_bind_ok hrun
    obtain ⟨c, m₃, hget', hrun⟩ := Prog.of_bind_ok hrun
    cases hget'
    cases hrun
    exact ⟨v, files, List.mem_of_getElem? hget, hbody, rfl⟩

theorem sealed_set {vols : Volumes} (hvols : ∀ v, some v ∈ vols → v.Sealed) {vol : Nat}
    {new : Option Volume} (hnew : ∀ v, new = some v → v.Sealed) :
    ∀ v, some v ∈ vols.set vol new → v.Sealed := by
  intro v hv
  rcases List.mem_or_eq_of_mem_set hv with hv | hv
  · exact hvols v hv
  · exact hnew v hv.symm

/-- **One request.** On a read-only device, a request that meets its condition leaves the device
    alone and every volume sealed. -/
theorem execRequest_untouched (hro : h.readOnly = true) {request : Request} {vols vols' : Volumes}
    {m m' : Machine} (hspare : SparesDevice h m request) (hvols : ∀ v, some v ∈ vols → v.Sealed)
    (hrun : execRequest request vols h m = .ok (vols', m')) :
    Untouched m m' ∧ ∀ v, some v ∈ vols' → v.Sealed := by
  cases request with
  | mount garbage partStart volumeSize =>
    obtain ⟨r, m₁, hmount, hrun⟩ := Prog.of_bind_ok hrun
    rcases ext2Mount_cases hmount with ⟨-, rfl, rfl⟩ | ⟨hacc, rfl, hflush⟩
    · cases hrun
      exact ⟨⟨rfl, ⟨[_], rfl, by simp [Transfer.isRead]⟩⟩, hvols⟩
    · have hcount := hspare hacc
      have hnil : (mountingMachine h m garbage partStart).ctx.superblockBlocks = [] :=
        (superblockBlocks_eq_nil_iff _).2 hcount
      rw [ext2FlushSuperblock_none hnil] at hflush
      cases hflush
      cases hrun
      refine ⟨⟨rfl, ⟨[_], rfl, by simp [Transfer.isRead]⟩⟩, fun v hv => ?_⟩
      rcases List.mem_append.1 hv with hv | hv
      · exact hvols v hv
      · obtain rfl : v = _ := Option.some.inj (List.mem_singleton.1 hv)
        refine ⟨hro, ?_, hnil, by simp⟩
        change UInt32.ofNat (numBlockgroups _) = 0
        rw [numBlockgroups_zero hcount]
        rfl
  | umount vol =>
    simp only [execRequest] at hrun
    obtain ⟨v, files, hv, hbody, rfl⟩ := withVolume_cases hrun
    obtain ⟨r, m₁, humount, hbody⟩ := Prog.of_bind_ok hbody
    cases hbody
    obtain ⟨c, m₂, hget, humount⟩ := Prog.of_bind_ok humount
    cases hget
    obtain ⟨u, m₃, hset, humount⟩ := Prog.of_bind_ok humount
    cases hset
    obtain ⟨z, m₄, hflush, humount⟩ := Prog.of_bind_ok humount
    rw [ext2FlushSuperblock_none (hvols v hv).copies] at hflush
    cases hflush
    cases humount
    exact ⟨⟨rfl, .refl m⟩, sealed_set hvols fun v hv => absurd hv (by simp)⟩
  | on vol call =>
    simp only [execRequest] at hrun
    obtain ⟨v, files, hv, hbody, rfl⟩ := withVolume_cases hrun
    obtain ⟨⟨reply, files'⟩, m₁, hcall, hbody⟩ := Prog.of_bind_ok hbody
    cases hbody
    have hsealed := hvols v hv
    have hreadOnly : ({ m with ctx := v.ctx } : Machine).ctx.readOnly = true := hsealed.readOnly
    obtain ⟨hq, hfiles⟩ := quiet_execCall hreadOnly hsealed.groups hsealed.readers call _ _ _
      (.refl _) hcall
    refine ⟨⟨hq.disk, hq.reads⟩, sealed_set hvols fun v' hv' => ?_⟩
    cases hv'
    exact hsealed.quiet rfl hq hfiles

/-- A request that violates its condition writes to the device. -/
theorem execRequest_writes {request : Request} {vols vols' : Volumes} {m m' : Machine}
    (hspare : ¬ SparesDevice h m request) (hrun : execRequest request vols h m = .ok (vols', m')) :
    ¬ OnlyReads m m' := by
  cases request with
  | mount garbage partStart volumeSize =>
    obtain ⟨hacc, hcount⟩ := Classical.not_imp.1 hspare
    obtain ⟨r, m₁, hmount, hrun⟩ := Prog.of_bind_ok hrun
    rcases ext2Mount_cases hmount with ⟨hrej, -, -⟩ | ⟨-, rfl, hflush⟩
    · exact absurd hacc hrej
    · cases hrun
      have hne : (mountingMachine h m garbage partStart).ctx.superblockBlocks ≠ [] :=
        fun hnil => hcount ((superblockBlocks_eq_nil_iff _).1 hnil)
      rintro ⟨new, hnew, hreads⟩
      obtain ⟨later, hlater⟩ := (show Steps True _ from steps_ext2FlushSuperblock).suffix hflush
      refine ext2FlushSuperblock_writes hne hflush ⟨later, hlater.symm, fun t ht => hreads t ?_⟩
      have hcat : new = later ++ [.read (partStart + 2) !(h.fails m.log.length)] := by
        rw [← List.append_left_inj m.log, ← hnew, ← hlater, List.append_assoc]
        rfl
      rw [hcat]
      exact List.mem_append_left _ ht
  | umount vol => exact absurd trivial hspare
  | on vol call => exact absurd trivial hspare

/-! ### Runs -/

/-- Requests only append to the log. -/
theorem execRequest_suffix {request : Request} {vols vols' : Volumes} {m m' : Machine}
    (hrun : execRequest request vols h m = .ok (vols', m')) : m.log <:+ m'.log := by
  cases request with
  | mount garbage partStart volumeSize =>
    obtain ⟨r, m₁, hmount, hrun⟩ := Prog.of_bind_ok hrun
    rcases ext2Mount_cases hmount with ⟨-, rfl, rfl⟩ | ⟨-, rfl, hflush⟩
    · cases hrun
      exact List.suffix_cons _ _
    · cases hrun
      exact (List.suffix_cons _ _).trans
        ((show Steps True _ from steps_ext2FlushSuperblock).suffix hflush)
  | umount vol =>
    simp only [execRequest] at hrun
    obtain ⟨v, files, hv, hbody, rfl⟩ := withVolume_cases hrun
    obtain ⟨r, m₁, humount, hbody⟩ := Prog.of_bind_ok hbody
    cases hbody
    obtain ⟨c, m₂, hget, humount⟩ := Prog.of_bind_ok humount
    cases hget
    obtain ⟨u, m₃, hset, humount⟩ := Prog.of_bind_ok humount
    cases hset
    obtain ⟨z, m₄, hflush, humount⟩ := Prog.of_bind_ok humount
    cases humount
    have hsuffix := (show Steps True _ from steps_ext2FlushSuperblock).suffix hflush
    exact hsuffix
  | on vol call =>
    simp only [execRequest] at hrun
    obtain ⟨v, files, hv, hbody, rfl⟩ := withVolume_cases hrun
    obtain ⟨⟨reply, files'⟩, m₁, hcall, hbody⟩ := Prog.of_bind_ok hbody
    cases hbody
    have hsuffix := (steps_execCall call v.files).suffix hcall
    exact hsuffix

theorem runRequests_suffix (requests : List Request) : ∀ {vols vols' : Volumes} {m m' : Machine},
    runRequests requests vols h m = .ok (vols', m') → m.log <:+ m'.log := by
  induction requests with
  | nil =>
    intro vols vols' m m' hrun
    cases hrun
    exact List.suffix_rfl
  | cons request rest ih =>
    intro vols vols' m m' hrun
    obtain ⟨vols₁, m₁, hstep, hrun⟩ := Prog.of_bind_ok hrun
    exact (execRequest_suffix hstep).trans (ih hrun)

theorem OnlyReads.split {m₁ m₂ m₃ : Machine} (h₁ : m₁.log <:+ m₂.log) (h₂ : m₂.log <:+ m₃.log)
    (hr : OnlyReads m₁ m₃) : OnlyReads m₁ m₂ ∧ OnlyReads m₂ m₃ := by
  obtain ⟨n₁, hn₁⟩ := h₁
  obtain ⟨n₂, hn₂⟩ := h₂
  obtain ⟨new, hnew, hreads⟩ := hr
  have hcat : new = n₂ ++ n₁ := by
    rw [← List.append_left_inj m₁.log, ← hnew, ← hn₂, ← hn₁, List.append_assoc]
  rw [hcat] at hreads
  exact ⟨⟨n₁, hn₁.symm, fun t ht => hreads t (List.mem_append_right _ ht)⟩,
    ⟨n₂, hn₂.symm, fun t ht => hreads t (List.mem_append_left _ ht)⟩⟩

/-- From sealed volumes, a run leaves a read-only device alone exactly when every mount in it
    does. -/
theorem runRequests_untouched_iff (hro : h.readOnly = true) (requests : List Request) :
    ∀ {vols vols' : Volumes} {m m' : Machine}, (∀ v, some v ∈ vols → v.Sealed) →
      runRequests requests vols h m = .ok (vols', m') →
      (Untouched m m' ↔ RunSpares h requests vols m) := by
  induction requests with
  | nil =>
    intro vols vols' m m' _ hrun
    cases hrun
    exact ⟨fun _ => trivial, fun _ => ⟨rfl, .refl m⟩⟩
  | cons request rest ih =>
    intro vols vols' m m' hvols hrun
    obtain ⟨vols₁, m₁, hstep, hrun⟩ := Prog.of_bind_ok hrun
    have hsuffix := execRequest_suffix hstep
    constructor
    · intro hunt
      obtain ⟨hr₁, hr₂⟩ := hunt.reads.split hsuffix (runRequests_suffix rest hrun)
      have hspare : SparesDevice h m request := by
        by_contra hcon
        exact execRequest_writes hcon hstep hr₁
      obtain ⟨hunt₁, hvols₁⟩ := execRequest_untouched hro hspare hvols hstep
      refine ⟨hspare, fun vols₂ m₂ hstep₂ => ?_⟩
      rw [hstep] at hstep₂
      cases hstep₂
      exact (ih hvols₁ hrun).1 ⟨hunt.disk.trans hunt₁.disk.symm, hr₂⟩
    · rintro ⟨hspare, hrest⟩
      obtain ⟨hunt₁, hvols₁⟩ := execRequest_untouched hro hspare hvols hstep
      exact hunt₁.trans ((ih hvols₁ hrun).2 (hrest _ _ hstep))

namespace SmallVolume

/-- The small volume on a read-only device. -/
def readOnlyHost : Host := { host with readOnly := true }

/-- The small volume with a superblock that counts no blocks. -/
def uncountedMachine : Machine :=
  { machine with
    disk := Function.update disk 2
      (sectorOf [(0, Superblock.packed.bytes { superblock with sBlocksCount := 0 })]) }

/-- Mounting it, opening and reading `f` and unmounting. -/
def uncountedRequests : List Request :=
  [.mount (fun _ => 0) 0 128, .on 0 (.open pathF oRdonly 0), .on 0 (.read 0 16), .umount 0]

end SmallVolume

end Embext
