import Embext.Proofs.ReadSession

set_option autoImplicit false

/-! # The mark of a changed inode

`EXT2_FLAG_FS_DIRTY` marks a handle whose inode has to be written back by `ext2_close`. Every change
of the inode sets it, except that `ext2_truncate_file` does not. So the inode of an unmarked handle
is the one in its slot in every run that truncates only files with nothing to truncate. -/

namespace Embext

open Prog (ensures_ite ensures_pure)

variable {h : Host} {m m' : Machine} {fe fe' : FileEnt}

/-! ## An unmarked handle -/

/-- The handle is marked, or has nothing to store and the inode that is in its slot. -/
structure Synced (fe : FileEnt) (m : Machine) : Prop where
  numbered : m.ctx.Numbered
  inode : fe.flags.fsDirty = true ∨
    fe.buffer.dirty = false ∧ inodeAt m.disk m.ctx fe.inodeNumber = fe.inode

theorem Quiet.inodeAt (hq : Quiet m m') (ino : UInt32) :
    inodeAt m'.disk m'.ctx ino = Embext.inodeAt m.disk m.ctx ino := by
  have hctx := hq.ctx
  unfold Ext2Context.SameButSysbuf at hctx
  rw [hq.disk, hctx, inodeAt_sysbuf]

/-- Moving the cursor or setting the error code changes nothing of it. -/
theorem Synced.moved (hs : Synced fe m) (c : Int) (e : Errno) :
    Synced { fe with cursor := c } { m with rerrno := e } := ⟨hs.numbered, hs.inode⟩

/-- Nor does a selection that fails. -/
theorem Synced.failed (hs : Synced fe m) {r : Int} (hr : r ≠ 0)
    (hsel : ext2SelectBuffer fe h m = .ok ((r, fe'), m')) (e : Errno) :
    Synced fe' { m' with rerrno := e } := by
  have hsame : fe.SameFile fe' := (keeps_ext2SelectBuffer fe m _ _ trivial hsel).2 hr
  have hsteps : Steps True (ext2SelectBuffer fe) := steps_ext2SelectBuffer fe
  have hvol := hsteps.sameVolume hsel
  refine ⟨hs.numbered.of_sameVolume hvol, ?_⟩
  rcases hs.inode with hmark | ⟨hclean, hino⟩
  · refine .inl ?_
    rw [hsame]
    exact hmark
  · obtain ⟨hq, hidle⟩ := quiet_ext2SelectBuffer_failed hs.numbered (F := fun f => f = fe.flags)
      ⟨hclean, rfl⟩ m _ _ (.refl m) hsel hr
    refine .inr ⟨hidle.clean, ?_⟩
    rw [hsame]
    exact (hq.inodeAt _).trans hino

/-! ## The calls on a handle -/

theorem synced_ext2Read (hh : h.Reliable) (fe : FileEnt) (count : Nat) :
    (ext2Read fe count).Ensures h (Synced fe) fun a s => Synced a.2.2 s := by
  rintro s ⟨r, bytes, fe'⟩ s' hs hrun
  rcases ext2Read_outcome hh hrun with ⟨e, hle⟩ | ⟨hr, hsel, -⟩ | ⟨hn, hS, -, -⟩
  · exact hs.moved fe.cursor e
  · exact hs.failed hr hsel _
  · exact ⟨hs.numbered.of_sameVolume hS.volume, .inl rfl⟩

theorem synced_ext2Write (hh : h.Reliable) (fe : FileEnt) (data : List UInt8) :
    (ext2Write fe data).Ensures h (Synced fe) fun a s => Synced a.2 s := by
  rintro s ⟨r, fe'⟩ s' hs hrun
  rcases ext2Write_outcome hh hrun with ⟨c, e, hle⟩ | ⟨hr, hsel⟩ | ⟨hne, -, hS, -⟩
  · exact hs.moved c e
  · have hs' : Synced fe.writeStart s := by
      rw [writeStart_eq]
      exact hs.moved _ s.rerrno
    exact hs'.failed hr hsel _
  · exact ⟨hs.numbered.of_sameVolume hS.volume, .inl rfl⟩

theorem synced_ext2Lseek (fe : FileEnt) (offset : Int) (whence : Whence) :
    (ext2Lseek fe offset whence).Ensures h (Synced fe) fun a s => Synced a.2 s := by
  rintro s ⟨r, fe'⟩ s' hs hrun
  obtain ⟨c, e, rfl, rfl⟩ := of_ext2Lseek_ok hrun
  exact hs.moved c e

theorem synced_ext2Readdir (hh : h.Reliable) (fe : FileEnt) :
    (ext2Readdir fe).Ensures h (Synced fe) fun a s => Synced a.2 s := by
  refine ensures_ext2Readdir (synced_ext2Read hh) synced_ext2Lseek (fun fe f => ?_) fe
  rintro s ⟨⟩ s' hs hrun
  cases hrun
  exact ⟨hs.numbered, hs.inode⟩

theorem synced_ext2Fstat (fe : FileEnt) :
    (ext2Fstat fe).Ensures h (Synced fe) fun _ s => Synced fe s := by
  have hskip : ∀ e : Errno, (setErrno e : Drv Unit).Ensures h (Synced fe) fun _ => Synced fe := by
    rintro e s ⟨⟩ s' hs hrun
    cases hrun
    exact hs.moved fe.cursor e
  refine ensures_ite (fun _ => .bind (hskip _) fun _ => ensures_pure fun _ hs => hs) fun _ => ?_
  rintro s ⟨r, st⟩ s' hs hrun
  obtain ⟨bs, s₁, hbs, htail⟩ := Prog.of_bind_ok hrun
  obtain ⟨-, -, rfl⟩ := of_ext2BlockSize_ok hbs
  cases htail
  exact hs

theorem synced_ext2Isatty (fe : FileEnt) :
    (ext2Isatty fe).Ensures h (Synced fe) fun _ s => Synced fe s := by
  have hskip : ∀ e : Errno, (do setErrno e; pure 0 : Drv Int).Ensures h (Synced fe)
      fun _ => Synced fe := by
    rintro e s r s' hs hrun
    cases hrun
    exact hs.moved fe.cursor e
  exact ensures_ite (fun _ => hskip _) fun _ => hskip _

/-- A close that fails keeps the handle as it was. -/
theorem synced_ext2Close (hh : h.Reliable) (fe : FileEnt) : (ext2Close fe).Ensures h (Synced fe)
    fun a s => a.1 ≠ 0 → Synced a.2 s := by
  rintro s ⟨r, fe'⟩ s' hs hrun hr
  obtain ⟨rfl, e, rfl⟩ := of_ext2Close_ne hh hr hrun
  exact hs.moved fe'.cursor e

/-- One that succeeds leaves the handle's inode in the slot. -/
theorem Synced.close (hh : h.Reliable) (hslotted : m.ctx.Slotted) (hs : Synced fe m)
    (hslot : fe.flags.fsDirty = true → slotSector (view m fe) m.ctx fe.inodeNumber
      ≠ descriptorSector m.ctx (inodeGroup m.ctx fe.inodeNumber))
    (hrun : ext2Close fe h m = .ok ((0, fe'), m')) :
    inodeAt m'.disk m'.ctx fe.inodeNumber = fe.inode := by
  by_cases hmark : fe.flags.fsDirty = true
  · exact ext2Close_inodeAt hh hslotted hmark (hslot hmark) hrun
  · obtain ⟨hclean, hino⟩ := hs.inode.resolve_left hmark
    have hsteps : Steps True (ext2Close fe) := steps_ext2Close fe
    rw [inodeAt_sameVolume (hsteps.sameVolume hrun),
      ext2Close_idle hh hclean (by simpa using hmark) hrun]
    exact hino

/-! ## Opening -/

/-- An inode without a size and without blocks, which `ext2_truncate_file` leaves as it is. -/
structure Inode.Vacant (inode : Inode) : Prop where
  size : inode.iSize = 0
  blocks : inode.iBlocks = 0
  block : inode.iBlock = fun _ => 0

theorem FileEnt.setBlock_vacant (hv : fe.inode.Vacant) (k : Fin 15) : fe.setBlock k 0 = fe := by
  have hupd : Function.update fe.inode.iBlock k 0 = fe.inode.iBlock := by
    rw [hv.block]
    exact Function.update_eq_self k fun _ => (0 : UInt32)
  unfold FileEnt.setBlock
  rw [hupd]

theorem ext2TruncateDirect_vacant (hv : fe.inode.Vacant) (isdir : Bool) (ks : List (Fin 15)) :
    ext2TruncateDirect isdir ks fe h m = .ok (fe, m) := by
  induction ks with
  | nil => rfl
  | cons k rest ih =>
    unfold ext2TruncateDirect
    rw [if_neg (by rw [hv.block]; simp), fe.setBlock_vacant hv]
    exact ih

theorem of_ext2TruncateFile_vacant (hv : fe.inode.Vacant) {r : Int}
    (hrun : ext2TruncateFile fe h m = .ok ((r, fe'), m')) : fe' = fe ∧ m' = m := by
  obtain ⟨bs, m₁, hbs, htail⟩ := Prog.of_bind_ok hrun
  obtain ⟨-, -, rfl⟩ := of_ext2BlockSize_ok hbs
  have hzero : ∀ k, ¬ fe.inode.iBlock k ≠ 0 := by
    rw [hv.block]
    simp
  have hsingle : ∀ free n, ext2TruncateSingle free n fe h m₁ = .ok (fe, m₁) := fun free n => by
    unfold ext2TruncateSingle
    rw [if_neg (hzero 12)]
    rfl
  have hdouble : ∀ free n, ext2TruncateDouble free n fe h m₁ = .ok (fe, m₁) := fun free n => by
    unfold ext2TruncateDouble
    rw [if_neg (hzero 13)]
    rfl
  have htriple : ∀ free n, ext2TruncateTriple free n fe h m₁ = .ok (fe, m₁) := fun free n => by
    unfold ext2TruncateTriple
    rw [if_neg (hzero 14)]
    rfl
  dsimp only at htail
  rw [Prog.bind_ok (ext2TruncateDirect_vacant hv _ _), Prog.bind_ok (hsingle _ _),
    Prog.bind_ok (hdouble _ _), Prog.bind_ok (htriple _ _)] at htail
  cases htail
  exact ⟨congrArg₂ (fun a b => { fe with inode := { fe.inode with iSize := a, iBlocks := b } })
    hv.size.symm hv.blocks.symm, rfl⟩

/-- The path leads to inode `ino`. -/
def Finds (h : Host) (m : Machine) (name : List UInt8) (ino : UInt32) : Prop :=
  (∃ fe m', ext2LookupPath FileEnt.fresh name h m = .ok ((ino, fe), m')) ∧
    ino ≠ 0 ∧ ino.toNat ≤ m.ctx.superblock.sInodesCount.toNat

/-- Opening inode `ino` truncates it. -/
def Truncates (m : Machine) (flags : OpenFlags) (mode : Nat) (ino : UInt32) : Prop :=
  flags.trunc = true ∧ (flags.wronly = true ∨ flags.rdwr = true) ∧
    ¬ (flags.creat = true ∧ flags.excl = true) ∧ m.ctx.readOnly = false ∧
    ((inodeAt m.disk m.ctx ino).iMode &&& ext2SIfdir = 0 ∨ mode.testBit 9 = true)

/-- The part of a creating `ext2_open` before it stores the new inode. -/
def createsEntry (name : List UInt8) (flags : OpenFlags) : Drv (Option UInt32) := do
  let (ino, fe) ← ext2LookupPath FileEnt.fresh name
  let (i, fe) ← ext2OpenInode fe ino
  let e ← getErrno
  let ctx ← getCtx
  if i = -1 ∧ e = .enoent ∧ flags.creat = true ∧ ctx.readOnly = false then
    let (r, fe) ← ext2AllocateInode { fe with flags := openedFlags fe.flags flags }
    match splitLastSlash name with
    | none => pure none
    | some (localPath, localName) =>
      let r' ← ext2AppendToDirectory localPath fe.inodeNumber localName
      pure (if r = 0 ∧ r' = 0 then some fe.inodeNumber else none)
  else pure none

/-- The calls of `ext2_open` that leave an unmarked handle with the inode in its slot: no group
    number wraps, nothing is truncated that has anything to truncate, and a new inode is not stored
    over the descriptor of its group. -/
structure OpensSynced (h : Host) (m : Machine) (name : List UInt8) (flags : OpenFlags)
    (mode : Nat) : Prop where
  group : ∀ ino, Finds h m name ino → inodeGroup m.ctx ino < 2 ^ 27
  truncate : ∀ ino, Finds h m name ino → Truncates m flags mode ino →
    (inodeAt m.disk m.ctx ino).Vacant
  store : ∀ ino m₁, createsEntry name flags h m = .ok (some ino, m₁) →
    slotSector m₁.disk m₁.ctx ino ≠ descriptorSector m₁.ctx (inodeGroup m₁.ctx ino)

/-- A handle for a file that exists has the inode that was found, unless that was truncated. -/
theorem of_ext2OpenExisting_some {flags : OpenFlags} {mode : Nat}
    (hvacant : flags.trunc = true → (flags.wronly = true ∨ flags.rdwr = true) →
      ¬ (flags.creat = true ∧ flags.excl = true) → m.ctx.readOnly = false →
      (fe.inode.iMode &&& ext2SIfdir = 0 ∨ mode.testBit 9 = true) → fe.inode.Vacant)
    (hrun : ext2OpenExisting fe flags mode h m = .ok (some fe', m')) :
    m' = m ∧ ∃ c, fe' = { fe with cursor := c } := by
  unfold ext2OpenExisting at hrun
  rw [Prog.ite_apply] at hrun
  split at hrun
  · cases hrun
  next hexcl =>
  rw [Prog.ite_apply] at hrun
  split at hrun
  · cases hrun
    exact ⟨rfl, fe.cursor, rfl⟩
  next hwritable =>
  obtain ⟨ctx, m₁, hctx, hrun⟩ := Prog.of_bind_ok hrun
  cases hctx
  rw [Prog.ite_apply] at hrun
  split at hrun
  · cases hrun
  next hro =>
  rw [Prog.ite_apply] at hrun
  split at hrun
  · cases hrun
  next hdir =>
  rw [Prog.ite_apply] at hrun
  split at hrun
  · next htrunc =>
    obtain ⟨⟨r, fe₁⟩, m₂, ht, htail⟩ := Prog.of_bind_ok hrun
    have hv : fe.inode.Vacant := hvacant htrunc (by grind) hexcl (by simpa using hro) (by grind)
    obtain ⟨rfl, rfl⟩ := of_ext2TruncateFile_vacant hv ht
    cases htail
    exact ⟨rfl, 0, rfl⟩
  · cases hrun
    exact ⟨rfl, fe.cursor, rfl⟩

/-- A handle for a file that was created has stored its inode. -/
theorem of_ext2Create_some {append : List UInt8 → UInt32 → List UInt8 → Drv Int}
    {name : List UInt8} {mode : Nat}
    (hrun : ext2Create append fe name mode h m = .ok (some fe', m')) :
    m.ctx.readOnly = false ∧ ∃ fe₁ m₁ path leaf m₂ inode t r,
      ext2AllocateInode fe h m = .ok ((0, fe₁), m₁) ∧ splitLastSlash name = some (path, leaf) ∧
      append path fe₁.inodeNumber leaf h m₁ = .ok (0, m₂) ∧
      ext2FlushInode { fe₁ with
        inode := inode
        cursor := 0
        flags := { fe₁.flags with fsDirty := true } } h { m₂ with ticks := t }
          = .ok ((r, fe'), m') := by
  obtain ⟨ctx, m₁, hctx, hrun⟩ := Prog.of_bind_ok hrun
  cases hctx
  by_cases hro : m.ctx.readOnly = true
  · rw [if_pos hro] at hrun
    cases hrun
  rw [if_neg hro] at hrun
  obtain ⟨⟨r, fe₁⟩, m₂, halloc, hrun⟩ := Prog.of_bind_ok hrun
  by_cases hr : r ≠ 0
  · dsimp only at hrun
    rw [if_pos hr] at hrun
    cases hrun
  obtain rfl := not_not.1 hr
  dsimp only at hrun
  rw [if_neg hr] at hrun
  cases hsplit : splitLastSlash name with
  | none =>
    rw [hsplit] at hrun
    cases hrun
  | some split =>
    rw [hsplit] at hrun
    obtain ⟨r₁, m₃, happ, hrun⟩ := Prog.of_bind_ok hrun
    by_cases hr₁ : r₁ ≠ 0
    · rw [if_pos hr₁] at hrun
      cases hrun
    obtain rfl := not_not.1 hr₁
    rw [if_neg hr₁] at hrun
    obtain ⟨uid, m₄, huid, hrun⟩ := Prog.of_bind_ok hrun
    cases huid
    obtain ⟨gid, m₄, hgid, hrun⟩ := Prog.of_bind_ok hrun
    cases hgid
    obtain ⟨atime, m₄, hatime, hrun⟩ := Prog.of_bind_ok hrun
    cases hatime
    obtain ⟨ctime, m₄, hctime, hrun⟩ := Prog.of_bind_ok hrun
    cases hctime
    obtain ⟨mtime, m₄, hmtime, hrun⟩ := Prog.of_bind_ok hrun
    cases hmtime
    obtain ⟨⟨r₂, fe₂⟩, m₅, hflush, hrun⟩ := Prog.of_bind_ok hrun
    cases hrun
    exact ⟨by simpa using hro, fe₁, m₂, split.1, split.2, m₃, _, _, r₂, halloc, rfl, happ, hflush⟩

/-- The handle for the inode taken has a clean buffer: the bitmap was stored. -/
theorem ext2AllocateInode_clean (hh : h.Reliable)
    (hrun : ext2AllocateInode fe h m = .ok ((0, fe'), m')) : fe'.buffer.dirty = false := by
  obtain ⟨ctx, m₀, hctx, hrun⟩ := Prog.of_bind_ok hrun
  cases hctx
  obtain ⟨⟨most, g⟩, m₁, -, hrun⟩ := Prog.of_bind_ok hrun
  dsimp only at hrun
  by_cases hzero : most = 0
  · rw [if_pos hzero] at hrun
    cases hrun
  rw [if_neg hzero] at hrun
  obtain ⟨bg, m₂, -, hrun⟩ := Prog.of_bind_ok hrun
  obtain ⟨⟨found, fe₁⟩, m₃, -, hrun⟩ := Prog.of_bind_ok hrun
  cases found with
  | none =>
    dsimp only at hrun
    split at hrun <;> cases hrun
  | some x =>
    obtain ⟨buffer, m₄, -, hrun⟩ := Prog.of_bind_ok hrun
    obtain ⟨⟨r₁, fe₂⟩, m₅, hstore, hrun⟩ := Prog.of_bind_ok hrun
    rw [ext2StoreBuffer_ok hh] at hstore
    cases hstore
    obtain ⟨r₂, m₆, -, hrun⟩ := Prog.of_bind_ok hrun
    obtain ⟨ctx₆, m₇, -, hrun⟩ := Prog.of_bind_ok hrun
    obtain ⟨⟨⟩, m₈, -, hrun⟩ := Prog.of_bind_ok hrun
    obtain ⟨r₃, m₉, -, hrun⟩ := Prog.of_bind_ok hrun
    cases hrun
    rfl

theorem synced_ext2Open (hh : h.Reliable) (hslotted : m.ctx.Slotted) (hnum : m.ctx.Numbered)
    {name : List UInt8} {flags : OpenFlags} {mode : Nat} (ho : OpensSynced h m name flags mode)
    (hrun : ext2Open name flags mode h m = .ok (some fe, m')) : Synced fe m' := by
  have hsteps : Steps True (ext2Open name flags mode) := steps_ext2Open name flags mode
  have hnum' := hnum.of_sameVolume (hsteps.sameVolume hrun)
  obtain ⟨⟨ino, fe₁⟩, m₁, hlookup, hrun⟩ := Prog.of_bind_ok hrun
  obtain ⟨hq₁, hfe₁⟩ := quiet_ext2LookupPath FileEnt.fresh_reader name m _ m₁ (.refl m) hlookup
  obtain ⟨⟨i, fe₂⟩, m₂, hopen, hrun⟩ := Prog.of_bind_ok hrun
  obtain ⟨hq₂, hfe₂⟩ := quiet_ext2OpenInode hfe₁ ino m₁ _ m₂ hq₁ hopen
  obtain ⟨e, m₃, herr, hrun⟩ := Prog.of_bind_ok hrun
  cases herr
  by_cases hmissing : i = -1 ∧ m₂.rerrno = .enoent
  · rw [if_pos hmissing] at hrun
    by_cases hcreat : flags.creat = true
    swap
    · rw [if_pos hcreat] at hrun
      cases hrun
    rw [if_neg (not_not.2 hcreat)] at hrun
    obtain ⟨hro, fe₃, m₃, path, leaf, m₄, inode, t, r, halloc, hsplit, happ, hflush⟩ :=
      of_ext2Create_some hrun
    have hentry : createsEntry name flags h m = .ok (some fe₃.inodeNumber, m₄) := by
      unfold createsEntry
      rw [Prog.bind_ok hlookup]
      dsimp only
      rw [Prog.bind_ok hopen]
      dsimp only
      rw [Prog.bind_ok getErrno_apply, Prog.bind_ok getCtx_apply,
        if_pos ⟨hmissing.1, hmissing.2, hcreat, hro⟩, Prog.bind_ok halloc, hsplit]
      dsimp only
      rw [Prog.bind_ok happ]
      rfl
    have hvol : m.ctx.SameVolume m₄.ctx := by
      have h₃ : Steps True (ext2AllocateInode { fe₂ with flags := openedFlags fe₂.flags flags }) :=
        steps_ext2AllocateInode _
      have h₄ : Steps True (ext2AppendToDirectory path fe₃.inodeNumber leaf) :=
        steps_ext2AppendToDirectory _ _ _
      exact (hq₂.ctx.sameVolume.trans (h₃.sameVolume halloc)).trans (h₄.sameVolume happ)
    have hslotted' := hslotted.of_sameVolume hvol
    have hclean := ext2AllocateInode_clean hh halloc
    have hslot := ho.store _ _ hentry
    obtain ⟨⟨b, hb, hfe⟩, hino⟩ := ext2FlushInode_inodeAt hh (by exact hslotted') (by exact hclean)
      (by rfl) (by exact hslot) hflush
    refine ⟨hnum', .inr ?_⟩
    rw [hfe]
    exact ⟨hb, hino⟩
  · rw [if_neg hmissing] at hrun
    rcases of_ext2OpenInode_ok hh hopen with ⟨rfl, -, -, -⟩ | ⟨rfl, rfl, -, hle, hne⟩
    · rw [if_neg (by decide)] at hrun
      cases hrun
    · rw [if_pos rfl] at hrun
      have hfinds : Finds h m name ino := by
        refine ⟨⟨_, _, hlookup⟩, hne, ?_⟩
        rw [hq₁.ctx] at hle
        exact hle
      have hinode : openedInode m₁.disk m₁.ctx ino = inodeAt m.disk m.ctx ino := by
        rw [hq₁.disk, openedInode_sameButSysbuf hq₁.ctx,
          openedInode_eq hslotted (ho.group ino hfinds)]
      obtain ⟨hm', c, hfe⟩ := of_ext2OpenExisting_some (fun htrunc hw hexcl hro hdir => by
        refine hinode ▸ ho.truncate ino hfinds ⟨htrunc, hw, hexcl, ?_, ?_⟩
        · rw [hq₂.ctx] at hro
          exact hro
        · rw [← hinode]
          exact hdir) hrun
      refine ⟨hnum', .inr ?_⟩
      rw [hfe, hm', hq₂.inodeAt]
      exact ⟨hfe₂.clean, hinode.symm⟩

/-! ## Runs -/

/-- At most one handle is open, and it is in step with the disk. -/
def OneSynced (files : Files) (m : Machine) : Prop :=
  ∀ (fd : Nat) (fe : FileEnt), files[fd]? = some (some fe) →
    Synced fe m ∧ ∀ (k : Nat) (fe' : FileEnt), files[k]? = some (some fe') → k = fd

theorem oneSynced_withHandle {files : Files} {fd : Nat} {null : Reply}
    {body : FileEnt → Drv (Reply × Option FileEnt)}
    (hbody : ∀ fe, (body fe).Ensures h (Synced fe)
      fun a s => ∀ fe', a.2 = some fe' → Synced fe' s) :
    (withHandle files fd null body).Ensures h (OneSynced files) fun a s => OneSynced a.2 s := by
  rintro s ⟨reply, files'⟩ s' hs hrun
  rcases of_withHandle_ok hrun with ⟨-, rfl, rfl⟩ | ⟨fe, o, hfe, hb, rfl⟩
  · intro k fe hfe
    obtain ⟨hsync, hone⟩ := hs k fe hfe
    exact ⟨hsync.moved fe.cursor _, hone⟩
  · obtain ⟨hsync, hone⟩ := hs fd fe hfe
    have hset : ∀ (k : Nat) (fe' : FileEnt), (files.set fd o)[k]? = some (some fe') → k = fd := by
      intro k fe' hfe'
      by_contra hk
      rw [List.getElem?_set_ne (Ne.symm hk)] at hfe'
      exact hk (hone k fe' hfe')
    intro k fe' hfe'
    obtain rfl := hset k fe' hfe'
    refine ⟨hbody fe s _ s' hsync hb fe' ?_, hset⟩
    rw [List.getElem?_set_self (List.getElem?_eq_some_iff.1 hfe).1] at hfe'
    exact Option.some.inj hfe'

/-- Every call but `ext2_open` keeps the open handle in step. -/
theorem oneSynced_execCall (hh : h.Reliable) {call : Call} (files : Files)
    (hcall : ∀ name flags mode, call ≠ .open name flags mode) :
    (execCall call files).Ensures h (OneSynced files) fun a s => OneSynced a.2 s := by
  cases call with
  | «open» name flags mode => exact absurd rfl (hcall name flags mode)
  | close g =>
    refine oneSynced_withHandle fun fe => .bind (synced_ext2Close hh fe) fun (r, fe') =>
      ensures_pure fun s hs f hf => ?_
    dsimp only at hf
    split at hf
    · cases hf
    · next hr =>
      cases hf
      exact hs hr
  | read g count =>
    refine oneSynced_withHandle fun fe => .bind (synced_ext2Read hh fe count) fun (r, bytes, fe') =>
      ensures_pure fun s hs f hf => ?_
    cases hf
    exact hs
  | write g data =>
    refine oneSynced_withHandle fun fe => .bind (synced_ext2Write hh fe data) fun (r, fe') =>
      ensures_pure fun s hs f hf => ?_
    cases hf
    exact hs
  | lseek g offset whence =>
    refine oneSynced_withHandle fun fe => .bind (synced_ext2Lseek fe offset whence) fun (r, fe') =>
      ensures_pure fun s hs f hf => ?_
    cases hf
    exact hs
  | readdir g =>
    refine oneSynced_withHandle fun fe => .bind (synced_ext2Readdir hh fe) fun (de, fe') =>
      ensures_pure fun s hs f hf => ?_
    cases hf
    exact hs
  | fstat g =>
    refine oneSynced_withHandle fun fe => .bind (synced_ext2Fstat fe) fun (r, st) =>
      ensures_pure fun s hs f hf => ?_
    cases hf
    exact hs
  | isatty g =>
    refine oneSynced_withHandle fun fe => .bind (synced_ext2Isatty fe) fun r =>
      ensures_pure fun s hs f hf => ?_
    cases hf
    exact hs

/-- A call that keeps the open handle in step: one handle is open at a time, an open meets
    `OpensSynced`, and a marked handle is not closed over the descriptor of its group. -/
structure Executed.KeepsSynced (h : Host) (c : Executed) : Prop where
  alone : ∀ name flags mode, c.call = .open name flags mode →
    ∀ (fd : Nat) (fe : FileEnt), c.files[fd]? ≠ some (some fe)
  opens : ∀ name flags mode, c.call = .open name flags mode →
    OpensSynced h c.before name flags mode
  slot : ∀ (fd : Nat) (fe : FileEnt), c.call = .close fd → c.files[fd]? = some (some fe) →
    fe.flags.fsDirty = true → slotSector (view c.before fe) c.before.ctx fe.inodeNumber
      ≠ descriptorSector c.before.ctx (inodeGroup c.before.ctx fe.inodeNumber)

theorem oneSynced_step (hh : h.Reliable) {c : Executed} (hslotted : c.before.ctx.Slotted)
    (hnum : c.before.ctx.Numbered) (hc : c.KeepsSynced h) (hs : OneSynced c.files c.before)
    (exec : execCall c.call c.files h c.before = .ok ((c.reply, c.files'), c.after)) :
    OneSynced c.files' c.after := by
  rcases hcall : c.call with ⟨name, flags, mode⟩ | _ | _ | _ | _ | _ | _ | _
  · have hnone := hc.alone name flags mode hcall
    have ho := hc.opens name flags mode hcall
    rw [hcall] at exec
    obtain ⟨o, m₁, hopen, hrun⟩ := Prog.of_bind_ok exec
    cases o with
    | none =>
      simp only [Prog.pure_apply, Except.ok.injEq, Prod.mk.injEq] at hrun
      obtain ⟨⟨-, hfiles⟩, -⟩ := hrun
      rw [← hfiles]
      exact fun fd fe hfe => absurd hfe (hnone fd fe)
    | some fe =>
      simp only [Prog.pure_apply, Except.ok.injEq, Prod.mk.injEq] at hrun
      obtain ⟨⟨-, hfiles⟩, rfl⟩ := hrun
      rw [← hfiles]
      -- the new handle is the only one
      have hlast : ∀ (k : Nat) (fe' : FileEnt), (c.files ++ [some fe])[k]? = some (some fe') →
          k = c.files.length ∧ fe' = fe := by
        intro k fe' hfe'
        rcases lt_or_ge k c.files.length with hlt | hge
        · rw [List.getElem?_append_left hlt] at hfe'
          exact absurd hfe' (hnone k fe')
        · rw [List.getElem?_append_right hge, List.getElem?_singleton] at hfe'
          split at hfe'
          · next h0 =>
            cases hfe'
            exact ⟨by omega, rfl⟩
          · cases hfe'
      intro fd fe' hfe'
      obtain ⟨rfl, rfl⟩ := hlast fd fe' hfe'
      exact ⟨synced_ext2Open hh hslotted hnum ho hopen, fun k f hf => (hlast k f hf).1⟩
  all_goals
    exact oneSynced_execCall hh c.files (by rw [hcall]; simp) _ _ _ hs exec

/-- In the state after the call the inode of an unmarked handle is the one on disk, and so is the
    inode of a handle that was closed. -/
structure Executed.InodeOnDisk (c : Executed) : Prop where
  unmarked : ∀ (fd : Nat) (fe : FileEnt), c.files'[fd]? = some (some fe) →
    fe.flags.fsDirty = false → inodeAt c.after.disk c.after.ctx fe.inodeNumber = fe.inode
  closed : ∀ (fd : Nat) (fe : FileEnt), c.call = .close fd → c.files[fd]? = some (some fe) →
    c.reply = .ret 0 → inodeAt c.after.disk c.after.ctx fe.inodeNumber = fe.inode

theorem inodeOnDisk_step (hh : h.Reliable) {c : Executed} (hslotted : c.before.ctx.Slotted)
    (hnum : c.before.ctx.Numbered) (hc : c.KeepsSynced h) (hs : OneSynced c.files c.before)
    (exec : execCall c.call c.files h c.before = .ok ((c.reply, c.files'), c.after)) :
    c.InodeOnDisk where
  unmarked fd fe hfe hmark := by
    have hsync := (oneSynced_step hh hslotted hnum hc hs exec fd fe hfe).1
    exact (hsync.inode.resolve_left (by rw [hmark]; decide)).2
  closed fd fe hcall hfe hreply := by
    rw [hcall] at exec
    obtain ⟨o, hbody, -⟩ := of_withHandle_open hfe exec
    obtain ⟨⟨r, fe₁⟩, m₁, hclose, hbody⟩ := Prog.of_bind_ok hbody
    simp only [Prog.pure_apply, Except.ok.injEq, Prod.mk.injEq] at hbody
    obtain ⟨⟨hr, -⟩, rfl⟩ := hbody
    rw [hreply] at hr
    cases hr
    exact (hs fd fe hfe).1.close hh hslotted (hc.slot fd fe hcall hfe) hclose

theorem inodeOnDisk_of_synced (hh : h.Reliable) {files files' : Files} {run : List Executed}
    (hrun : Run h files m run files' m') (hslotted : m.ctx.Slotted) (hnum : m.ctx.Numbered)
    (hkeeps : ∀ c ∈ run, c.KeepsSynced h) (hs : OneSynced files m) :
    ∀ c ∈ run, c.InodeOnDisk := by
  induction hrun with
  | nil => simp
  | cons c exec rest ih =>
    have hc := hkeeps c List.mem_cons_self
    have hvol := (steps_execCall _ _).sameVolume exec
    intro d hd
    rcases List.mem_cons.1 hd with rfl | hd
    · exact inodeOnDisk_step hh hslotted hnum hc hs exec
    · exact ih (hslotted.of_sameVolume hvol) (hnum.of_sameVolume hvol)
        (fun d hd => hkeeps d (List.mem_cons_of_mem _ hd))
        (oneSynced_step hh hslotted hnum hc hs exec) d hd

namespace SmallVolume

/-- `O_RDWR | O_TRUNC` -/
def oRdwrTrunc : OpenFlags := { oRdwr with trunc := true }

theorem machine_slotted : machine.ctx.Slotted := machine_ctx_sane.slotted

/-- `f` is truncated and closed. -/
def truncatedCalls : List Call := [.open pathF oRdwrTrunc 0, .close 0]

/-- After both calls the size on disk is not the handle's, which is unmarked. -/
def sizeStays : List Executed → Bool
  | [o, c] => match o.files'[0]?.join, c.files[0]?.join, c.reply with
    | some fe, some fe', .ret 0 => !fe.flags.fsDirty &&
      (inodeAt o.after.disk o.after.ctx fe.inodeNumber).iSize != fe.inode.iSize &&
      (inodeAt c.after.disk c.after.ctx fe'.inodeNumber).iSize != fe'.inode.iSize
    | _, _, _ => false
  | _ => false

/-- `e`, which is empty, is truncated, written to and closed. -/
def rewrittenCalls : List Call := [.open pathE oRdwrTrunc 0, .write 0 [7], .close 0]

/-- Nothing is created, and the slot is apart from the descriptors when the handle is closed. -/
def staysApart : List Executed → Bool
  | [_, _, c] => match c.files[0]?.join with
    | some fe => slotSector (view c.before fe) c.before.ctx fe.inodeNumber
        != descriptorSector c.before.ctx (inodeGroup c.before.ctx fe.inodeNumber)
    | none => true
  | _ => false

/-- The path of `e` leads to inode 12, and nothing is created. -/
def leadsToE : Bool :=
  (match ext2LookupPath FileEnt.fresh pathE host machine with
    | .ok ((ino, _), _) => decide (ino = 12)
    | .error _ => true) &&
  match createsEntry pathE oRdwrTrunc host machine with
    | .ok (some _, _) => false
    | _ => true

theorem opensSynced_e : OpensSynced host machine pathE oRdwrTrunc 0 := by
  have hok : leadsToE = true := by decide +kernel
  unfold leadsToE at hok
  rw [Bool.and_eq_true] at hok
  refine ⟨fun ino hino => ?_, fun ino hino _ => ?_, fun ino m₁ hentry => ?_⟩
  · have hlt := machine_ctx_sane.covered ino hino.2.1 hino.2.2
    have hgroups := machine_ctx_sane.groups
    omega
  · obtain ⟨⟨fe, m₁, hlookup⟩, -, -⟩ := hino
    have hf := hok.1
    rw [hlookup] at hf
    obtain rfl : ino = 12 := of_decide_eq_true hf
    exact ⟨by decide +kernel, by decide +kernel, funext (by decide +kernel)⟩
  · have hf := hok.2
    rw [hentry] at hf
    cases hf

end SmallVolume

end Embext
