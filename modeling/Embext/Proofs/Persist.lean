import Embext.Proofs.Append
import Embext.Proofs.ArrayFile
import Embext.Proofs.Reopen

set_option autoImplicit false

/-! # What a sequence of writes leaves

Seeks and writes on one handle, and the close behind them, leave on the device the array that the same
calls make of the old contents, as long as no write leaves its sector or reaches a block that is
missing, other than the first one. -/

namespace Embext

variable {h : Host} {m m₀ m' : Machine} {fe fe₀ fe' : FileEnt} {v w : UInt32 → Sector}
  {c c' : Ext2Context} {ino : UInt32} {path data : List UInt8} {inode : Inode} {p : Nat}

/-! ## What the calls should leave -/

/-- The file of inode `ino`, which `path` leads to, is the array `a`: the path opens it, and every
    handle on it reads the whole array back. -/
structure Holds (h : Host) (m : Machine) (path : List UInt8) (ino : UInt32) (a : List UInt8) :
    Prop where
  size : (inodeAt m.disk m.ctx ino).iSize.toNat = a.length
  opens : ∃ fe m', ext2Open path oRdonly 0 h m = .ok (some fe, m') ∧ fe.inodeNumber = ino
  reads : ∀ name flags mode fe m', flags.creat = false → flags.trunc = false →
    ext2Open name flags mode h m = .ok (some fe, m') → fe.inodeNumber = ino →
    ∀ n, n ∣ 512 → ∃ m'', readAll n (a.length + 1) fe h m' = .ok (some a, m'')

/-- The calls return, and if all writes return their full counts the close stores what the calls make
    of the array. -/
def Persists (h : Host) (m : Machine) (fe : FileEnt) (path : List UInt8) (es : List Edit) : Prop :=
  ∃ full fe' m', runEdits es fe h m = .ok ((full, fe'), m') ∧ (full = true →
    ∃ fe'' m'', ext2Close fe' h m' = .ok ((0, fe''), m'') ∧
      Holds h m'' path fe.inodeNumber (applyEdits fe.flags.append es (arrayOf m fe)).bytes)

/-! ## When they do -/

/-- The device `w` is `v` but for the blocks of a file and the slot of its inode. -/
structure Edited (v : UInt32 → Sector) (c : Ext2Context) (ino : UInt32) (inode : Inode)
    (w : UInt32 → Sector) : Prop where
  other : ∀ s, s ≠ slotSector v c ino →
    (∀ p, Mapped v c inode p → s ≠ byteSector v c inode p) → w s = v s
  slot : ∀ k < 512, k < slotOffset c ino ∨ slotOffset c ino + 128 ≤ k →
    Window.item (w (slotSector v c ino)) k = Window.item (v (slotSector v c ino)) k

/-- The directories on the path lie apart from the file: whatever is written to its blocks and its
    inode, the path leads there. -/
def PathApart (v : UInt32 → Sector) (c : Ext2Context) (path : List UInt8) (ino : UInt32)
    (inode : Inode) : Prop := ∀ w, Edited v c ino inode w → Leads w c path ino

/-- The device after the allocator has marked block `b`. -/
def marked (m : Machine) (fe : FileEnt) (b : UInt32) : UInt32 → Sector :=
  (codePlace (view m fe) m.ctx b).put true (view m fe)

/-- The allocator hands out block `b`. -/
structure HandsOut (m : Machine) (fe : FileEnt) (b : UInt32) : Prop where
  takes : Takes m fe b
  ne : b ≠ 0
  clear : (codePlace (view m fe) m.ctx b).get (view m fe) = false

/-- Block `b` can become the first one of the file, which then lies apart and has the same bytes as
    before, zeros in a gap, outside the `n` bytes at the cursor. -/
structure Fresh (m : Machine) (fe : FileEnt) (path : List UInt8) (n : Nat) (b : UInt32) : Prop where
  apart : FileApart (marked m fe b) m.ctx fe.inodeNumber (fe.setBlock 0 b).inode
  path : PathApart (marked m fe b) m.ctx path fe.inodeNumber (fe.setBlock 0 b).inode
  bytes : ∀ q < max fe.inode.iSize.toNat fe.cursor.toNat,
    q < fe.cursor.toNat ∨ fe.cursor.toNat + n ≤ q →
    sparseByte (marked m fe b) m.ctx (fe.setBlock 0 b).inode q
      = (contents (view m fe) m.ctx fe.inode).getD q 0

/-- The byte under the cursor has a block: one that is mapped, with zeros between the end of the file
    and the cursor, or the one that the allocator hands out for the first one of the file. -/
inductive Lands (m : Machine) (fe : FileEnt) (path : List UInt8) (n : Nat) : Prop where
  | mapped (block : fileBlock (view m fe) m.ctx fe.inode (cursorIndex m fe) ≠ 0)
      (gap : ∀ q, fe.inode.iSize.toNat ≤ q → q < fe.cursor.toNat →
        sparseByte (view m fe) m.ctx fe.inode q = 0)
  | first (index : cursorIndex m fe = 0) (missing : fe.inode.iBlock 0 = 0)
      (group : ∀ b, Takes m fe b →
        b.toNat / m.ctx.superblock.sBlocksPerGroup.toNat < m.ctx.numBlockgroups.toNat)
      (fresh : ∀ b, HandsOut m fe b → Fresh m fe path n b)

/-- `n` bytes at the cursor lie in one sector, below the largest size, and have a block. -/
structure WriteFits (m : Machine) (fe : FileEnt) (path : List UInt8) (n : Nat) : Prop where
  inside : fe.cursor.toNat % 512 + n ≤ 512
  bounded : fe.cursor.toNat + n < 2 ^ 32
  lands : Lands m fe path n

/-- A seek from the end stays below the largest size or is refused; a write fits. -/
def EditFits (m : Machine) (fe : FileEnt) (path : List UInt8) : Edit → Prop
  | .seek offset whence => offset ≤ int64Max ∧ (whence = .end →
      fe.inode.iSize.toNat + offset < 2 ^ 32 ∨ int64Max < fe.inode.iSize.toNat + offset)
  | .write data => data = [] ∨ WriteFits m fe.writeStart path data.length

/-- Every call of the run fits where it is made, and the run leaves the file without a hole. -/
def EditsFit (h : Host) (path : List UInt8) : List Edit → FileEnt → Machine → Prop
  | [], fe, m => NoHole (view m fe) m.ctx fe.inode
  | e :: es, fe, m => EditFits m fe path e ∧ ∀ fe' m',
    execEdit e fe h m = .ok ((true, fe'), m') → EditsFit h path es fe' m'

/-! ## A handle in use -/

theorem PathApart.sameVolume (hp : PathApart v c path ino inode) (hvol : c.SameVolume c') :
    PathApart v c' path ino inode := by
  intro w hw
  have hlog : c'.superblock.sLogBlockSize = c.superblock.sLogBlockSize := by rw [hvol]
  have hps : c'.partStart = c.partStart := by rw [hvol]
  have hbs : c'.blockSize = c.blockSize := by
    rw [hvol]
    rfl
  have hmapped : Mapped v c' inode = Mapped v c inode := by
    funext p
    unfold Mapped
    rw [fileBlock_sysbuf v c inode _ hlog hps, hbs]
  have hsector : byteSector v c' inode = byteSector v c inode := by
    funext p
    unfold byteSector blockSector
    rw [fileBlock_sysbuf v c inode _ hlog hps, hbs, hps]
  have hslot : slotSector v c' ino = slotSector v c ino := by
    rw [hvol]
    rfl
  have hoffset : slotOffset c' ino = slotOffset c ino := by
    rw [hvol]
    rfl
  obtain ⟨hother, hbytes⟩ := hw
  rw [hmapped, hsector, hslot] at hother
  rw [hslot, hoffset] at hbytes
  exact (hp w ⟨hother, hbytes⟩).sameVolume hvol

section

variable {d : FileBytes} (ha : FileApart (view m₀ fe₀) m₀.ctx fe₀.inodeNumber fe₀.inode)
  (he : Editing m₀ fe₀ d m fe)
include ha he

theorem Editing.fileBlock_eq (k : Nat) : fileBlock (view m fe) m.ctx fe.inode k
    = fileBlock (view m₀ fe₀) m₀.ctx fe₀.inode k := by
  rw [he.ctx, he.inode]
  exact he.block ha k

theorem Editing.mapped_eq : Mapped (view m fe) m.ctx fe.inode
    = Mapped (view m₀ fe₀) m₀.ctx fe₀.inode := by
  funext p
  unfold Mapped
  rw [he.fileBlock_eq ha, he.ctx]

theorem Editing.byteSector_eq : byteSector (view m fe) m.ctx fe.inode
    = byteSector (view m₀ fe₀) m₀.ctx fe₀.inode := by
  funext p
  unfold byteSector
  rw [he.fileBlock_eq ha, he.ctx]

theorem Editing.slotSector_eq : slotSector (view m fe) m.ctx fe.inodeNumber
    = slotSector (view m₀ fe₀) m₀.ctx fe₀.inodeNumber := by
  rw [he.ctx, he.number]
  unfold slotSector descriptorAt
  rw [he.frame _ fun p hp => (ha.descriptor p hp).symm]

/-- A file that is written to stays apart. -/
theorem Editing.apart : FileApart (view m fe) m.ctx fe.inodeNumber fe.inode := by
  have hdesc : descriptorSector m.ctx (inodeGroup m.ctx fe.inodeNumber)
      = descriptorSector m₀.ctx (inodeGroup m₀.ctx fe₀.inodeNumber) := by
    rw [he.ctx, he.number]
  constructor
  · rw [he.mapped_eq ha, he.byteSector_eq ha]
    exact ha.once
  · intro w hw k
    rw [he.mapped_eq ha, he.byteSector_eq ha, he.slotSector_eq ha] at hw
    rw [he.fileBlock_eq ha, he.ctx, he.inode]
    exact ha.map w (fun s hne hs => (hw s hne hs).trans (he.frame s hs)) k
  · rw [he.mapped_eq ha, he.byteSector_eq ha, he.slotSector_eq ha]
    exact ha.slot
  · rw [he.mapped_eq ha, he.byteSector_eq ha, hdesc]
    exact ha.descriptor
  · rw [he.slotSector_eq ha, hdesc]
    exact ha.inode

/-- The path that leads to it is as little touched by what comes next. -/
theorem Editing.pathApart (hp : PathApart (view m₀ fe₀) m₀.ctx path fe₀.inodeNumber fe₀.inode) :
    PathApart (view m fe) m.ctx path fe.inodeNumber fe.inode := by
  intro w hw
  obtain ⟨hother, hbytes⟩ := hw
  have hslot := he.frame _ fun p hp => (ha.slot p hp).symm
  rw [he.slotSector_eq ha, he.mapped_eq ha, he.byteSector_eq ha] at hother
  rw [he.slotSector_eq ha, hslot, he.ctx, he.number] at hbytes
  rw [he.ctx, he.number]
  exact hp w ⟨fun s hne hs => (hother s hne hs).trans (he.frame s hs), hbytes⟩

theorem Editing.sparseByte_eq {q : Nat} (hq : q < 2 ^ 32) : sparseByte (view m fe) m.ctx fe.inode q
    = if fileBlock (view m₀ fe₀) m₀.ctx fe₀.inode (q / m₀.ctx.blockSize) = 0 then 0 else d.byte q := by
  unfold sparseByte
  rw [he.fileBlock_eq ha, he.ctx]
  by_cases hhole : fileBlock (view m₀ fe₀) m₀.ctx fe₀.inode (q / m₀.ctx.blockSize) = 0
  · rw [if_pos hhole, if_pos hhole]
  · rw [if_neg hhole, if_neg hhole, he.inode]
    exact he.bytes q ⟨hq, hhole⟩

end

/-- A handle open for writing on a file that lies apart, as does the path that leads there. Its inode is
    in the slot unless it is marked to be stored. -/
structure Editable (path : List UInt8) (m : Machine) (fe : FileEnt) : Prop where
  apart : FileApart (view m fe) m.ctx fe.inodeNumber fe.inode
  path : PathApart (view m fe) m.ctx path fe.inodeNumber fe.inode
  sane : m.ctx.Sane
  positive : fe.inodeNumber ≠ 0
  known : fe.inodeNumber.toNat ≤ m.ctx.superblock.sInodesCount.toNat
  magic : fe.magic = embextMagic
  write : fe.flags.write = true
  cursor : 0 ≤ fe.cursor
  stored : fe.flags.fsDirty = false →
    fe.buffer.dirty = false ∧ inodeAt m.disk m.ctx fe.inodeNumber = fe.inode

namespace Editable

theorem group (hfe : Editable path m fe) :
    inodeGroup m.ctx fe.inodeNumber < m.ctx.numBlockgroups.toNat :=
  hfe.sane.covered _ hfe.positive hfe.known

theorem moved (hfe : Editable path m fe) {x : Int} (hx : 0 ≤ x) (e : Errno) :
    Editable path { m with rerrno := e } { fe with cursor := x } :=
  ⟨hfe.apart, hfe.path, hfe.sane, hfe.positive, hfe.known, hfe.magic, hfe.write, hx, hfe.stored⟩

end Editable

/-- The calls on the device and on the array agree. -/
structure Follows (path : List UInt8) (m : Machine) (fe : FileEnt) (m' : Machine) (fe' : FileEnt)
    (a : ArrayFile) : Prop where
  editable : Editable path m' fe'
  number : fe'.inodeNumber = fe.inodeNumber
  append : fe'.flags.append = fe.flags.append
  array : arrayOf m' fe' = a

/-- A seek moves the cursor only. -/
theorem Editable.follows_seek (hfe : Editable path m fe) {offset : Int} {whence : Whence}
    (hfit : EditFits m fe path (.seek offset whence)) : ∃ fe' m',
    execEdit (.seek offset whence) fe h m = .ok ((true, fe'), m') ∧
      Follows path m fe m' fe' ((arrayOf m fe).seek offset whence) := by
  obtain ⟨hoffset, hend⟩ := hfit
  have hstay : ∀ e, ext2Lseek fe offset whence = seekFails fe e →
      (arrayOf m fe).seek offset whence = arrayOf m fe → ∃ fe' m',
      execEdit (.seek offset whence) fe h m = .ok ((true, fe'), m') ∧
        Follows path m fe m' fe' ((arrayOf m fe).seek offset whence) := fun e hrun harray => by
    refine ⟨fe, { m with rerrno := e }, ?_, hfe.moved hfe.cursor e, rfl, rfl, harray.symm⟩
    rw [execEdit, hrun]
    rfl
  have hbase := arrayOf_base m fe whence
  cases hb : whence.base fe with
  | none =>
    refine hstay .einval (ext2Lseek_other hfe.magic hb) ?_
    unfold ArrayFile.seek
    rw [hbase, hb]
  | some base =>
    have heq := ext2Lseek_eq hfe.magic hb hoffset
    have harray : (arrayOf m fe).seek offset whence
        = if int64Max < base + offset ∨ base + offset < 0 then arrayOf m fe
          else { arrayOf m fe with cursor := base + offset } := by
      unfold ArrayFile.seek
      rw [hbase, hb]
    by_cases hfar : int64Max < base + offset
    · exact hstay .eoverflow (by rw [heq, if_pos hfar]) (by rw [harray, if_pos (.inl hfar)])
    by_cases hneg : base + offset < 0
    · exact hstay .einval (by rw [heq, if_neg hfar, if_pos hneg]) (by rw [harray, if_pos (.inr hneg)])
    have hland : whence.landing (base + offset) = base + offset := by
      cases whence with
      | «end» =>
        cases hb
        have hlt := (hend rfl).resolve_right hfar
        exact Whence.landing_of_lt (Int.not_lt.1 hneg) hlt
      | set => rfl
      | cur => rfl
      | other => rfl
    refine ⟨{ fe with cursor := base + offset }, m, ?_, hfe.moved (Int.not_lt.1 hneg) m.rerrno, rfl, rfl,
      ?_⟩
    · rw [execEdit, heq, if_neg hfar, if_neg hneg, hland]
      rfl
    · rw [harray, if_neg fun hout => hout.elim hfar hneg]
      rfl

/-! ## Writes -/

/-- The state in which the block under the cursor is there: outside the `n` bytes to be written the file
    has the bytes of the array, and zeros up to the cursor. -/
structure Prepared (path : List UInt8) (m : Machine) (fe : FileEnt) (n : Nat) (m₀ : Machine)
    (fe₀ : FileEnt) : Prop where
  volume : m.ctx.SameVolume m₀.ctx
  number : fe₀.inodeNumber = fe.inodeNumber
  flags : fe₀.flags = fe.flags
  size : fe₀.inode.iSize = fe.inode.iSize
  apart : FileApart (view m₀ fe₀) m₀.ctx fe₀.inodeNumber fe₀.inode
  path : PathApart (view m₀ fe₀) m₀.ctx path fe₀.inodeNumber fe₀.inode
  mapped : Mapped (view m₀ fe₀) m₀.ctx fe₀.inode fe.cursor.toNat
  bytes : ∀ q < max fe.inode.iSize.toNat fe.cursor.toNat,
    q < fe.cursor.toNat ∨ fe.cursor.toNat + n ≤ q →
    sparseByte (view m₀ fe₀) m₀.ctx fe₀.inode q
      = (contents (view m fe) m.ctx fe.inode).getD q 0

/-- What a write leaves there is what it makes of the array. -/
theorem Prepared.follows (hfe : Editable path m fe) (hp : Prepared path m fe data.length m₀ fe₀)
    (hfit : WriteFits m fe path data.length)
    (he : Editing m₀ fe₀ ((fileBytes m₀ fe₀).write fe.cursor.toNat data) m' fe')
    (hcur : fe'.cursor = (fe.cursor.toNat + data.length : Nat)) (hdirty : fe'.flags.fsDirty = true) :
    Follows path m fe m' fe'
      ⟨overwrite (arrayOf m fe).bytes fe.cursor.toNat data, fe.cursor + data.length⟩ := by
  have hcursor := hfe.cursor
  have hinside := hfit.inside
  have hbounded := hfit.bounded
  have hnumber : fe'.inodeNumber = fe.inodeNumber := he.number.trans hp.number
  have hctx : m.ctx.SameVolume m'.ctx := by
    rw [he.ctx]
    exact hp.volume
  have hsize : fe'.inode.iSize.toNat = max fe.inode.iSize.toNat (fe.cursor.toNat + data.length) := by
    rw [he.size, ← hp.size]
    rfl
  have hflags : fe'.flags = { fe.flags with fsDirty := true } := by
    rw [he.mode, hp.flags, hdirty]
  constructor
  · refine ⟨he.apart hp.apart, he.pathApart hp.apart hp.path, hfe.sane.of_sameVolume hctx, ?_, ?_,
      he.magic, ?_, by omega, fun hclean => ?_⟩
    · rw [hnumber]
      exact hfe.positive
    · rw [hnumber, hctx]
      exact hfe.known
    · rw [hflags]
      exact hfe.write
    · rw [hdirty] at hclean
      cases hclean
  · exact hnumber
  · rw [hflags]
  · have hbytes : contents (view m' fe') m'.ctx fe'.inode
        = overwrite (contents (view m fe) m.ctx fe.inode) fe.cursor.toNat data := by
      refine contents_overwrite hsize fun q hq => ?_
      rw [he.sparseByte_eq hp.apart (by have := fe'.inode.iSize.toNat_lt; omega)]
      by_cases hin : fe.cursor.toNat ≤ q ∧ q < fe.cursor.toNat + data.length
      · -- the bytes written lie in the block under the cursor
        obtain ⟨k, rfl⟩ := Nat.exists_eq_add_of_le hin.1
        obtain ⟨hdiv, -, -⟩ := add_in_sector m₀.ctx (c := fe.cursor.toNat) (k := k) (by omega)
        rw [hdiv, if_neg hp.mapped.2, if_pos hin]
        exact if_pos hin
      · rw [if_neg hin, ← hp.bytes q (by omega) (by omega),
          FileBytes.byte_write_outside (by omega)]
        rfl
    unfold arrayOf
    rw [hbytes, hcur]
    congr 1
    omega

/-- A mapped block is there. -/
theorem Editable.prepared_mapped (hfe : Editable path m fe) {n : Nat}
    (hbounded : fe.cursor.toNat + n < 2 ^ 32)
    (block : fileBlock (view m fe) m.ctx fe.inode (cursorIndex m fe) ≠ 0)
    (gap : ∀ q, fe.inode.iSize.toNat ≤ q → q < fe.cursor.toNat →
      sparseByte (view m fe) m.ctx fe.inode q = 0) : Prepared path m fe n m fe := by
  refine ⟨.refl m.ctx, rfl, rfl, rfl, hfe.apart, hfe.path, ⟨by omega, block⟩, fun q hq hout => ?_⟩
  rw [getD_contents]
  by_cases hsize : q < fe.inode.iSize.toNat
  · rw [if_pos hsize]
  · rw [if_neg hsize]
    exact gap q (Nat.not_lt.1 hsize) (by omega)

/-- So is the block that the allocator has handed out for the first one. -/
theorem prepared_first {n : Nat} {b : UInt32} {m₂ : Machine}
    {fe₂ : FileEnt} (hbounded : fe.cursor.toNat + n < 2 ^ 32) (index : cursorIndex m fe = 0)
    (hb : b ≠ 0) (hfresh : Fresh m fe path n b) (hvol : m.ctx.SameVolume m₂.ctx)
    (ha : BlockAllocated m fe b m₂ fe₂) : Prepared path m fe n m₂ (fe₂.setBlock 0 b) := by
  have hview : view m₂ (fe₂.setBlock 0 b) = marked m fe b := by
    have hclean : (fe₂.setBlock 0 b).buffer.dirty = false := ha.clean
    rw [view, hclean]
    exact ha.disk
  have hnumber : (fe₂.setBlock 0 b).inodeNumber = fe.inodeNumber := by
    rw [ha.handle]
    rfl
  have hinode : (fe₂.setBlock 0 b).inode = (fe.setBlock 0 b).inode := by
    rw [ha.handle]
    rfl
  have hbs : m₂.ctx.blockSize = m.ctx.blockSize := by
    rw [hvol]
    rfl
  refine ⟨hvol, hnumber, by rw [ha.handle]; rfl, by rw [hinode]; rfl, ?_, ?_, ⟨by omega, ?_⟩, ?_⟩
  · rw [hview, hnumber, hinode]
    exact hfresh.apart.sameVolume hvol
  · rw [hview, hnumber, hinode]
    exact hfresh.path.sameVolume hvol
  · unfold cursorIndex at index
    rw [hbs, index, fileBlock_zero, hinode]
    show Function.update fe.inode.iBlock 0 b 0 ≠ 0
    rw [Function.update_self]
    exact hb
  · intro q hq hout
    rw [hview, hinode, sparseByte_sameVolume hvol]
    exact hfresh.bytes q hq hout

/-- A write that fits, from the loop on: it returns its full count after what the array says, or
    less. -/
theorem Editable.writeFrom (hh : h.Reliable) (hfe : Editable path m fe) (hne : data ≠ [])
    (hfit : WriteFits m fe path data.length) : ∃ r fe' m',
    ext2WriteFrom fe data h m = .ok ((r, fe'), m') ∧ (r = data.length → Follows path m fe m' fe'
      ⟨overwrite (arrayOf m fe).bytes fe.cursor.toNat data, fe.cursor + data.length⟩) := by
  have hcursor := hfe.cursor
  have hcur : fe.cursor = fe.cursor.toNat := (Int.toNat_of_nonneg hcursor).symm
  have hbs := hfe.sane.block
  cases hfit.lands with
  | mapped block gap =>
    have hp := hfe.prepared_mapped hfit.bounded block gap
    obtain ⟨m', fe', hrun, he, hend, hdirty⟩ := (Editing.refl hfe.magic).writeFrom hfe.apart hbs hcur
      hp.mapped hh hne hfit.bounded hfit.inside
    exact ⟨_, fe', m', hrun, fun _ => hp.follows hfe hfit he hend hdirty⟩
  | first index missing group fresh =>
    obtain ⟨b, fe₂, m₂, halloc, htakes⟩ := ext2AllocateBlock_takes fe hh hbs group 0xFFFFFFFF
    have hfirst := ext2SelectBuffer_first (h := h) hbs hcursor index missing hfe.write
    rw [Prog.bind_ok halloc] at hfirst
    dsimp only at hfirst
    by_cases hb : b = 0
    · rw [if_neg (not_not.2 hb)] at hfirst
      have hrun := ext2WriteFrom_failed (hfirst.trans rfl) (by decide : (-1 : Int) ≠ 0) hne
      exact ⟨-1, _, _, hrun, fun hr => absurd hr (by omega)⟩
    rw [if_pos hb] at hfirst
    obtain ⟨-, ha⟩ := of_ext2AllocateBlock_ok hh hbs (perGroup_of_ext2AllocateBlock halloc hb) halloc hb
    have hvol : m.ctx.SameVolume m₂.ctx :=
      (show Steps True _ from steps_ext2AllocateBlock fe 0xFFFFFFFF).sameVolume halloc
    have hbs₂ : m₂.ctx.SaneBlockSize := (hfe.sane.of_sameVolume hvol).block
    have hp := prepared_first hfit.bounded index hb
      (fresh b ⟨htakes hb, hb, ha.clear⟩) hvol ha
    -- the sector under the cursor is read from the new block
    have hsector : blockSector m₂.ctx b (UInt32.ofNat (fe.cursor % m.ctx.blockSize).toNat).toNat
        = byteSector (view m₂ (fe₂.setBlock 0 b)) m₂.ctx (fe₂.setBlock 0 b).inode
          fe.cursor.toNat := by
      have hbs₁ : m₂.ctx.blockSize = m.ctx.blockSize := by
        rw [hvol]
        rfl
      have hlt := Nat.mod_lt fe.cursor.toNat (show 0 < m.ctx.blockSize by have := blockSize_ge m.ctx; omega)
      have hle := blockSize_le hbs
      unfold cursorIndex at index
      unfold byteSector
      rw [hbs₁, index, fileBlock_zero, toNat_emod_blockSize _ hcursor,
        UInt32.toNat_ofNat_of_lt' (by show _ < 2 ^ 32; omega)]
      congr 1
    have hmagic : (fe₂.setBlock 0 b).magic = embextMagic := by
      rw [ha.handle]
      exact hfe.magic
    have hcur₂ : (fe₂.setBlock 0 b).cursor = fe.cursor.toNat := by
      rw [ha.handle, ← hcur]
      rfl
    rw [Prog.bind_ok (ext2LoadBuffer_ok hh hbs₂ _ _)] at hfirst
    have hrun := ext2WriteFrom_selected (hfirst.trans rfl) hne
    rw [if_pos (by have := hfit.inside; omega)] at hrun
    have hopen : Editing m₂ (fe₂.setBlock 0 b) (fileBytes m₂ (fe₂.setBlock 0 b)) m₂
        (fe₂.setBlock 0 b) := .refl hmagic
    obtain ⟨he, hend⟩ := hopen.wrote hp.apart hcur₂ hp.mapped
      (Loads.load b _) rfl hsector (congrArg _ hsector) hfit.bounded hfit.inside _ _
    exact ⟨_, _, _, hrun, fun _ => hp.follows hfe hfit he hend rfl⟩

/-- A write on the device follows the one on the array. -/
theorem Editable.follows_write (hh : h.Reliable) (hfe : Editable path m fe)
    (hfit : EditFits m fe path (.write data)) : ∃ full fe' m',
    execEdit (.write data) fe h m = .ok ((full, fe'), m') ∧
      (full = true → Follows path m fe m' fe' ((arrayOf m fe).write fe.flags.append data)) := by
  by_cases hseek : fe.flags.append = true → toInt32 (fe.inode.iSize.toNat : Int) ≠ -1
  swap
  · -- the seek of an append has returned -1
    obtain ⟨happ, hfail⟩ := Classical.not_imp.1 hseek
    obtain ⟨fe', hrun⟩ : ∃ fe', ext2Write fe data h m = .ok ((-1, fe'), m) := by
      unfold ext2Write
      rw [if_neg (not_not.2 hfe.magic), if_neg (by rw [hfe.write]; decide), if_pos happ,
        Prog.bind_ok (ext2Lseek_end hfe.magic le_rfl (Int.add_zero _))]
      exact ⟨_, (Prog.ite_apply _ _ _ _ _).trans (if_pos (not_not.1 hfail))⟩
    refine ⟨(-1 : Int) == data.length, fe', m, ?_, fun hfull => ?_⟩
    · rw [execEdit, Prog.bind_ok hrun]
      rfl
    · have := beq_iff_eq.1 hfull
      omega
  have haccepts : fe.Accepts := ⟨hfe.magic, hfe.write, hseek⟩
  have hstart : 0 ≤ fe.writeStart.cursor := by
    unfold FileEnt.writeStart
    split
    · exact Int.natCast_nonneg _
    · exact hfe.cursor
  have harray : (arrayOf m fe).write fe.flags.append data = ⟨if data = [] then (arrayOf m fe).bytes
      else overwrite (arrayOf m fe).bytes fe.writeStart.cursor.toNat data,
      fe.writeStart.cursor + data.length⟩ := by
    have hcursor : (if fe.flags.append = true then ((arrayOf m fe).bytes.length : Int)
        else (arrayOf m fe).cursor) = fe.writeStart.cursor := by
      unfold FileEnt.writeStart arrayOf
      rw [length_contents]
      split <;> rfl
    unfold ArrayFile.write
    rw [hcursor]
  have hcall : ext2Write fe data h m = ext2WriteFrom fe.writeStart data h m := haccepts.ext2Write_eq
  have heq := writeStart_eq fe
  change data = [] ∨ WriteFits m fe.writeStart path data.length at hfit
  rw [harray]
  clear harray
  generalize fe.writeStart = start at hcall heq hstart hfit ⊢
  have hed : Editable path m start := by
    rw [heq]
    exact hfe.moved hstart m.rerrno
  have hnumber : start.inodeNumber = fe.inodeNumber := by rw [heq]
  have happend : start.flags.append = fe.flags.append := by rw [heq]
  have hbytes : (arrayOf m start).bytes = (arrayOf m fe).bytes := by
    rw [heq]
    rfl
  by_cases hne : data = []
  · refine ⟨true, start, m, ?_, fun _ => ⟨hed, hnumber, happend, ?_⟩⟩
    · have hrun : ext2WriteFrom start [] h m = .ok ((0, start), m) := by
        rw [ext2WriteFrom, Prog.bind_ok (ext2WriteLoop_nil _ _ _)]
        rfl
      rw [hne] at hcall ⊢
      rw [execEdit, Prog.bind_ok (hcall.trans hrun)]
      rfl
    · rw [if_pos hne, hne, ← hbytes]
      simp [arrayOf]
  · obtain ⟨r, fe', m', hrun, hfollows⟩ := hed.writeFrom hh hne (hfit.resolve_left hne)
    refine ⟨r == data.length, fe', m', ?_, fun hfull => ?_⟩
    · rw [execEdit, Prog.bind_ok (hcall.trans hrun)]
      rfl
    · obtain ⟨hed', hnumber', happend', harray'⟩ := hfollows (beq_iff_eq.1 hfull)
      refine ⟨hed', hnumber'.trans hnumber, happend'.trans happend, ?_⟩
      rw [harray', if_neg hne, hbytes]

/-! ## Runs -/

/-- The run on the device follows the one on the array. -/
theorem runEdits_follows (hh : h.Reliable) (es : List Edit) : ∀ {m : Machine} {fe : FileEnt},
    Editable path m fe → EditsFit h path es fe m → ∃ full fe' m',
      runEdits es fe h m = .ok ((full, fe'), m') ∧ (full = true →
        Follows path m fe m' fe' (applyEdits fe.flags.append es (arrayOf m fe)) ∧
          NoHole (view m' fe') m'.ctx fe'.inode) := by
  induction es with
  | nil =>
    intro m fe hfe hfit
    exact ⟨true, fe, m, rfl, fun _ => ⟨⟨hfe, rfl, rfl, rfl⟩, hfit⟩⟩
  | cons e es ih =>
    intro m fe hfe hfit
    obtain ⟨hfits, hnext⟩ := hfit
    obtain ⟨full, fe₁, m₁, hrun, hfollows⟩ : ∃ full fe₁ m₁,
        execEdit e fe h m = .ok ((full, fe₁), m₁) ∧ (full = true →
          Follows path m fe m₁ fe₁ (e.apply fe.flags.append (arrayOf m fe))) := by
      cases e with
      | seek offset whence =>
        obtain ⟨fe₁, m₁, hrun, hfollows⟩ := hfe.follows_seek (h := h) hfits
        exact ⟨true, fe₁, m₁, hrun, fun _ => hfollows⟩
      | write data => exact hfe.follows_write hh hfits
    rw [runEdits, Prog.bind_ok hrun]
    cases full with
    | false => exact ⟨false, fe₁, m₁, rfl, fun hfull => absurd hfull (by decide)⟩
    | true =>
      obtain ⟨hed, hnumber, happend, harray⟩ := hfollows rfl
      obtain ⟨full, fe₂, m₂, hrun₂, hrest⟩ := ih hed (hnext _ _ hrun)
      refine ⟨full, fe₂, m₂, hrun₂, fun hfull => ?_⟩
      obtain ⟨⟨hed₂, hnumber₂, happend₂, harray₂⟩, hhole⟩ := hrest hfull
      refine ⟨⟨hed₂, hnumber₂.trans hnumber, happend₂.trans happend, ?_⟩, hhole⟩
      rw [harray₂, happend, harray]
      rfl

/-! ## The close, and the file read back -/

/-- What a close leaves on the device: the bytes as the handle sees them, and its inode in the slot. -/
structure AfterClose (m : Machine) (fe : FileEnt) (m' : Machine) : Prop where
  ctx : m.ctx.SameButSysbuf m'.ctx
  inode : inodeAt m'.disk m'.ctx fe.inodeNumber = fe.inode
  other : ∀ s, s ≠ slotSector (view m fe) m.ctx fe.inodeNumber → m'.disk s = view m fe s
  slot : ∀ k < 512, k < slotOffset m.ctx fe.inodeNumber ∨ slotOffset m.ctx fe.inodeNumber + 128 ≤ k →
    Window.item (m'.disk (slotSector (view m fe) m.ctx fe.inodeNumber)) k
      = Window.item (view m fe (slotSector (view m fe) m.ctx fe.inodeNumber)) k

theorem Editable.close (hh : h.Reliable) (hfe : Editable path m fe) : ∃ fe' m',
    ext2Close fe h m = .ok ((0, fe'), m') ∧ AfterClose m fe m' := by
  have hslotted := hfe.sane.slotted
  cases hdirty : fe.flags.fsDirty with
  | true =>
    obtain ⟨m', fe', hrun, ⟨s, hctx⟩, hdisk⟩ := ext2Close_ok hh hslotted hfe.magic hdirty hfe.group
    refine ⟨fe', m', hrun, ?_, ?_, fun s hs => ?_, fun k hk hout => ?_⟩
    · unfold Ext2Context.SameButSysbuf
      rw [hctx]
    · rw [hctx, inodeAt_sysbuf, hdisk]
      exact inodeAt_putInode_self hslotted hfe.apart.inode
    · rw [hdisk]
      exact Function.update_of_ne hs _ _
    · rw [hdisk, putInode, Function.update_self]
      have hlen : (Inode.packed.bytes fe.inode).length = 128 := Packed.length_bytes _ _
      exact Window.item_patch_outside _ hk (by rw [hlen]; omega)
  | false =>
    obtain ⟨hclean, hinode⟩ := hfe.stored hdirty
    have hview : view m fe = m.disk := by simp [view, hclean]
    refine ⟨{ fe with magic := 0 }, m, ?_, rfl, hinode, fun s _ => by rw [hview],
      fun k _ _ => by rw [hview]⟩
    have hstore : (if fe.buffer.dirty then ext2StoreBuffer fe else pure (0, fe) :
        Drv (Int × FileEnt)) h m = .ok ((0, fe), m) := by
      rw [hclean]
      rfl
    have hflush : (if fe.flags.fsDirty then ext2FlushInode fe else pure (0, fe) :
        Drv (Int × FileEnt)) h m = .ok ((0, fe), m) := by
      rw [hdirty]
      rfl
    unfold ext2Close
    rw [if_neg (not_not.2 hfe.magic), Prog.bind_ok hstore]
    dsimp only
    rw [if_neg (not_not.2 rfl), Prog.bind_ok hflush]
    rfl

namespace AfterClose

variable (hst : AfterClose m fe m') (hfe : Editable path m fe)
include hst hfe

theorem fileBlock_eq (k : Nat) : fileBlock m'.disk m'.ctx fe.inode k
    = fileBlock (view m fe) m.ctx fe.inode k := by
  rw [fileBlock_sysbuf m'.disk m.ctx fe.inode k (by rw [hst.ctx]) (by rw [hst.ctx])]
  exact hfe.apart.map m'.disk (fun s hs _ => hst.other s hs) k

theorem fileByte_eq {q : Nat} (hq : Mapped (view m fe) m.ctx fe.inode q) :
    fileByte m'.disk m'.ctx fe.inode q = fileByte (view m fe) m.ctx fe.inode q := by
  have hblock := hfe.apart.map m'.disk (fun s hs _ => hst.other s hs)
  rw [fileByte_sysbuf m'.disk m.ctx fe.inode (by rw [hst.ctx]) (by rw [hst.ctx]),
    Embext.fileByte_eq (hblock _), hst.other _ (hfe.apart.slot q hq)]
  exact (Embext.fileByte_eq rfl).symm

/-- The path still leads to the file. -/
theorem leads : Leads m'.disk m'.ctx path fe.inodeNumber :=
  (hfe.path m'.disk ⟨fun s hs _ => hst.other s hs, hst.slot⟩).sameVolume hst.ctx.sameVolume

/-- The file reads back as it was behind the handle. -/
theorem holds (hh : h.Reliable) (hpat : 2 ^ 29 ≤ h.patience)
    (hhole : NoHole (view m fe) m.ctx fe.inode) :
    Holds h m' path fe.inodeNumber (arrayOf m fe).bytes := by
  have hvol := hst.ctx.sameVolume
  have hsane : m'.ctx.Sane := hfe.sane.of_sameVolume hvol
  have hcount : m'.ctx.superblock.sInodesCount = m.ctx.superblock.sInodesCount := by rw [hvol]
  have hbs : m'.ctx.blockSize = m.ctx.blockSize := by
    rw [hvol]
    rfl
  have hlen : (arrayOf m fe).bytes.length = fe.inode.iSize.toNat := length_contents _
  constructor
  · rw [hst.inode, hlen]
  · exact (hst.leads hfe).opens hh hsane hpat hfe.positive (by rw [hcount]; exact hfe.known)
  · intro name flags mode fe₂ m₂ hcreat htrunc hrun hnumber n hn
    have ho := of_ext2OpenWith hh hsane hcreat htrunc hrun
    have hinode : fe₂.inode = fe.inode := by
      rw [ho.inode, hnumber]
      exact hst.inode
    have hview : view m₂ fe₂ = m'.disk := ho.view_eq
    have hlog : m₂.ctx.superblock.sLogBlockSize = m'.ctx.superblock.sLogBlockSize := by rw [ho.ctx]
    have hps : m₂.ctx.partStart = m'.ctx.partStart := by rw [ho.ctx]
    have hread : Readable m₂ fe₂ := by
      refine ⟨by rw [ho.ctx]; exact hsane.block, ho.magic, fun q hq => ?_⟩
      rw [hinode] at hq ⊢
      have hbs₂ : m₂.ctx.blockSize = m.ctx.blockSize := by
        rw [← hbs, ho.ctx]
        rfl
      rw [hview, fileBlock_sysbuf m'.disk m'.ctx _ _ hlog hps, hst.fileBlock_eq hfe, hbs₂]
      exact hhole q hq
    obtain ⟨m₃, hall⟩ := readAll_slice hn hh ((arrayOf m fe).bytes.length + 1) hread ho.cursor
      (.inl (Nat.dvd_zero n)) (by rw [hlen, hinode]; omega)
    refine ⟨m₃, hall.trans ?_⟩
    have hbytes : (fileBytes m₂ fe₂).slice 0 (fe₂.inode.iSize.toNat - 0) = (arrayOf m fe).bytes := by
      rw [hinode, Nat.sub_zero]
      refine List.map_congr_left fun q hq => ?_
      have hlt := List.mem_range.1 hq
      have hmapped : Mapped (view m fe) m.ctx fe.inode q :=
        ⟨by have := fe.inode.iSize.toNat_lt; omega, hhole q hlt⟩
      show fileByte (view m₂ fe₂) m₂.ctx fe₂.inode (0 + q) = sparseByte (view m fe) m.ctx fe.inode q
      rw [Nat.zero_add, hview, hinode, fileByte_sysbuf m'.disk m'.ctx _ hlog hps,
        hst.fileByte_eq hfe hmapped]
      exact (if_neg hmapped.2).symm
    rw [hbytes]

end AfterClose

/-- Calls that fit persist. -/
theorem Editable.persists (hh : h.Reliable) (hpat : 2 ^ 29 ≤ h.patience) (hfe : Editable path m fe)
    (es : List Edit) (hfit : EditsFit h path es fe m) : Persists h m fe path es := by
  obtain ⟨full, fe', m', hrun, hfollows⟩ := runEdits_follows hh es hfe hfit
  refine ⟨full, fe', m', hrun, fun hfull => ?_⟩
  obtain ⟨⟨hed, hnumber, -, harray⟩, hhole⟩ := hfollows hfull
  obtain ⟨fe'', m'', hclose, hst⟩ := hed.close hh
  refine ⟨fe'', m'', hclose, ?_⟩
  rw [← harray, ← hnumber]
  exact hst.holds hed hh hpat hhole

/-- **Write persistence.** Seeks and writes on a handle that `ext2_open` returns for an existing file
    leave, after a close, what the same calls make of the old contents, if every call fits where it is
    made. -/
theorem persists_of_fits (hh : h.Reliable) (hpat : 2 ^ 29 ≤ h.patience) (hs : m₀.ctx.Sane)
    (hpos : ino ≠ 0) (hknown : ino.toNat ≤ m₀.ctx.superblock.sInodesCount.toNat)
    (hapart : FileApart m₀.disk m₀.ctx ino (inodeAt m₀.disk m₀.ctx ino))
    (hpath : PathApart m₀.disk m₀.ctx path ino (inodeAt m₀.disk m₀.ctx ino))
    {flags : OpenFlags} {mode : Nat} (htrunc : flags.trunc = false)
    (hopen : ext2Open path flags mode h m₀ = .ok (some fe, m)) (hwrite : fe.flags.write = true)
    (es : List Edit) (hfit : EditsFit h path es fe m) : Persists h m fe path es := by
  have hleads : Leads m₀.disk m₀.ctx path ino :=
    hpath m₀.disk ⟨fun _ _ _ => rfl, fun _ _ _ => rfl⟩
  obtain ⟨ho, hnumber⟩ := hleads.opened hh hs hpat hpos hknown htrunc hopen
  have hview : view m fe = m₀.disk := ho.view_eq
  have hvol := ho.ctx.sameVolume
  have hinode : fe.inode = inodeAt m₀.disk m₀.ctx ino := by rw [ho.inode, hnumber]
  refine Editable.persists hh hpat ⟨?_, ?_, hs.of_sameVolume hvol, ho.positive, ?_, ho.magic, hwrite, ?_,
    fun _ => ⟨ho.clean, ?_⟩⟩ es hfit
  · rw [hview, hnumber, hinode]
    exact hapart.sameVolume hvol
  · rw [hview, hnumber, hinode]
    exact hpath.sameVolume hvol
  · rw [ho.ctx]
    exact ho.known
  · rw [ho.cursor]
  · rw [hinode, hnumber, ho.disk, ho.ctx]
    rfl

namespace SmallVolume

set_option maxRecDepth 4000

variable {b : UInt32}

/-- The device has the sectors of the root directory: descriptor, slot and data. -/
structure HasRoot (w : UInt32 → Sector) : Prop where
  descriptor : w 4 = machine.disk 4
  slot : w 10 = machine.disk 10
  data : ∀ q < 1024, w (UInt32.ofNat (14 + q / 512)) = machine.disk (UInt32.ofNat (14 + q / 512))

theorem HasRoot.directory (hw : HasRoot w) : Directory w machine.ctx 2 (rootRecords machine) := by
  have hbs : machine.ctx.blockSize = 1024 := by decide
  have hroot : inodeAt w machine.ctx 2 = rootInode := root_inode_of hw.descriptor hw.slot
  have hmapped : ∀ q < 1024, Mapped machine.disk machine.ctx rootInode q := by
    intro q hq
    refine ⟨by omega, ?_⟩
    rw [fileBlock_single (b := 7) rfl, hbs, if_pos (by omega)]
    decide
  have hrecords := root_directory.records
  rw [root_inode] at hrecords
  constructor
  · decide
  · decide
  · rw [hroot]
    decide
  · rw [hroot]
    intro q hq
    have hlt : q < 1024 := hq
    rw [fileBlock_single (b := 7) rfl, hbs, if_pos (Nat.div_eq_of_lt hlt)]
    decide
  · rw [hroot]
    refine hrecords.congr rfl fun q hq => ?_
    obtain ⟨-, -, hsec⟩ := byteSector_single (b := 7) rfl (hmapped q hq)
    have hsame : fileBlock w machine.ctx rootInode (q / machine.ctx.blockSize)
        = fileBlock machine.disk machine.ctx rootInode (q / machine.ctx.blockSize) := by
      rw [fileBlock_single (b := 7) rfl, fileBlock_single (b := 7) rfl]
    show fileByte w machine.ctx rootInode q = fileByte machine.disk machine.ctx rootInode q
    rw [fileByte_eq hsame, fileByte_eq rfl, hsec]
    exact congrArg (fun s => Window.item s (q % 512)) (hw.data q hq)
  · exact root_directory.distinct

/-- The entry at `p` names inode `n`. -/
theorem HasRoot.leads (hw : HasRoot w) {name : List UInt8} {r : DirRecord}
    (helements : pathElements path = [name]) (hsearch : Searchable name (rootRecords machine))
    (hr : r ∈ rootRecords machine) (hname : r.name = name) : Leads w machine.ctx path r.hdr.inode := by
  constructor
  · rw [helements]
    exact .directory hw.directory hsearch fun r _ _ _ => .done _
  · rw [helements, ← hname]
    exact .entry hw.directory hr (rootRecords_plain r hr).live (.here _)

theorem root_leads_f (hw : HasRoot w) : Leads w machine.ctx pathF 11 := by
  have hplain := rootRecords_plain
  have hino : ((fileBytes machine handleRoot).record 24).hdr.inode = 11 := by decide
  rw [← hino]
  refine hw.leads (by decide : pathElements pathF = [[102]]) ?_ (by simp [rootRecords]) (by decide)
  exact .passed (hplain _ (by simp [rootRecords])) (by decide)
    (.passed (hplain _ (by simp [rootRecords])) (by decide)
      (.found (hplain _ (by simp [rootRecords])) (by decide)))

theorem root_leads_e (hw : HasRoot w) : Leads w machine.ctx pathE 12 := by
  have hplain := rootRecords_plain
  have hino : ((fileBytes machine handleRoot).record 36).hdr.inode = 12 := by decide
  rw [← hino]
  refine hw.leads (by decide : pathElements pathE = [[101]]) ?_ (by simp [rootRecords]) (by decide)
  exact .passed (hplain _ (by simp [rootRecords])) (by decide)
    (.passed (hplain _ (by simp [rootRecords])) (by decide)
      (.passed (hplain _ (by simp [rootRecords])) (by decide)
        (.found (hplain _ (by simp [rootRecords])) (by decide))))

/-- A file of one block, behind those of the root directory, lies apart from it. -/
theorem pathApart_single (hblocks : inode.iBlock = fun k => if k = 0 then b else 0)
    (hb : 2 * b.toNat + 1 < 2 ^ 32) (hbehind : b ≠ 0 → 8 ≤ b.toNat)
    (hslot : slotSector v machine.ctx ino = 12) (hv : HasRoot v)
    (hleads : ∀ {w}, HasRoot w → Leads w machine.ctx path ino) :
    PathApart v machine.ctx path ino inode := by
  intro w hw
  have hsame : ∀ s : UInt32, s.toNat < 16 → s ≠ 12 → w s = v s := by
    intro s hlt hs
    refine hw.other s (by rw [hslot]; exact hs) fun p hp heq => ?_
    obtain ⟨hp, hb0, hsec⟩ := byteSector_single hblocks hp
    rw [heq, hsec, UInt32.toNat_ofNat_of_lt' (by show _ < 2 ^ 32; omega)] at hlt
    have := hbehind hb0
    omega
  refine hleads ⟨(hsame 4 (by decide) (by decide)).trans hv.descriptor,
    (hsame 10 (by decide) (by decide)).trans hv.slot, fun q hq => ?_⟩
  have hq2 : q / 512 < 2 := by omega
  refine (hsame _ ?_ ?_).trans (hv.data q hq)
  · rw [UInt32.toNat_ofNat_of_lt' (by show _ < 2 ^ 32; omega)]
    omega
  · intro heq
    have := congrArg UInt32.toNat heq
    rw [UInt32.toNat_ofNat_of_lt' (by show _ < 2 ^ 32; omega)] at this
    have h12 : (12 : UInt32).toNat = 12 := rfl
    omega

theorem machine_hasRoot : HasRoot machine.disk := ⟨rfl, rfl, fun _ _ => rfl⟩

theorem f_blocks : (inodeAt machine.disk machine.ctx 11).iBlock = fun k => if k = 0 then 8 else 0 := by
  funext k
  revert k
  decide

theorem e_blocks : (inodeAt machine.disk machine.ctx 12).iBlock = fun k => if k = 0 then 0 else 0 := by
  funext k
  revert k
  decide

theorem f_apart : FileApart machine.disk machine.ctx 11 (inodeAt machine.disk machine.ctx 11) :=
  apart_single f_blocks (by decide) (show slotSector machine.disk machine.ctx 11 = 12 by decide)
    (by decide) (by decide) (by decide)

theorem f_pathApart : PathApart machine.disk machine.ctx pathF 11 (inodeAt machine.disk machine.ctx 11) :=
  pathApart_single f_blocks (by decide) (by decide) (by decide) machine_hasRoot root_leads_f

/-- Whether the path opens for reading and writing with a handle and a machine that pass the test. -/
def opensRdwr (path : List UInt8) (test : FileEnt → Machine → Bool) : Bool :=
  match ext2Open path oRdwr 0 patientHost machine with
  | .ok (some fe, m) => test fe m
  | _ => false

theorem of_opensRdwr {test : FileEnt → Machine → Bool} (hok : opensRdwr path test = true) : ∃ fe m,
    ext2Open path oRdwr 0 patientHost machine = .ok (some fe, m) ∧ test fe m = true := by
  unfold opensRdwr at hok
  split at hok
  · next fe m hrun => exact ⟨fe, m, hrun, hok⟩
  · cases hok

/-- Whether all writes return their full counts and the close 0, and the path then opens for reading, but
    not all of the file can be read back. -/
def losesBytes (es : List Edit) (fe : FileEnt) (m : Machine) : Bool :=
  match runEdits es fe patientHost m with
  | .ok ((full, fe'), m') => full && match ext2Close fe' patientHost m' with
    | .ok (_, m₂) => match ext2Open pathF oRdonly 0 patientHost m₂ with
      | .ok (some fe₃, m₃) => fe₃.inodeNumber == fe.inodeNumber &&
        match readAll 512 ((inodeAt m₂.disk m₂.ctx fe.inodeNumber).iSize.toNat + 1) fe₃ patientHost m₃ with
        | .ok (some _, _) => false
        | _ => true
      | _ => false
    | _ => false
  | _ => false

theorem of_losesBytes {es : List Edit} (hok : losesBytes es fe m = true) :
    ¬ Persists patientHost m fe pathF es := by
  rintro ⟨full, fe', m', hrun, hclose⟩
  unfold losesBytes at hok
  rw [hrun] at hok
  dsimp only at hok
  obtain ⟨hfull, hok⟩ := Bool.and_eq_true_iff.1 hok
  obtain ⟨fe₂, m₂, hclose, hsize, -, hreads⟩ := hclose hfull
  rw [hclose] at hok
  dsimp only at hok
  split at hok
  · next fe₃ m₃ hopen =>
    obtain ⟨hnumber, hok⟩ := Bool.and_eq_true_iff.1 hok
    obtain ⟨m₄, hread⟩ := hreads _ _ _ _ _ rfl rfl hopen (beq_iff_eq.1 hnumber) 512 (Nat.dvd_refl _)
    rw [← hsize] at hread
    rw [hread] at hok
    cases hok
  · cases hok

/-- A byte behind the block of `f` goes to a new one, which replaces the old one. -/
theorem persists_fails : ∃ fe m, ext2Open pathF oRdwr 0 patientHost machine = .ok (some fe, m) ∧
    patientHost.Reliable ∧ machine.ctx.Sane ∧ NoHole machine.disk machine.ctx fInode ∧
    FileApart machine.disk machine.ctx 11 (inodeAt machine.disk machine.ctx 11) ∧
    PathApart machine.disk machine.ctx pathF 11 (inodeAt machine.disk machine.ctx 11) ∧
    fe.inodeNumber = 11 ∧ fe.flags.write = true ∧
    ¬ Persists patientHost m fe pathF [.seek 1024 .set, .write [1]] := by
  have hok : opensRdwr pathF (fun fe m => fe.inodeNumber == 11 && (fe.flags.write &&
      losesBytes [.seek 1024 .set, .write [1]] fe m)) = true := by decide +kernel
  obtain ⟨fe, m, hopen, htest⟩ := of_opensRdwr hok
  rw [Bool.and_eq_true_iff, Bool.and_eq_true_iff, beq_iff_eq] at htest
  obtain ⟨hnumber, hwrite, hlost⟩ := htest
  refine ⟨fe, m, hopen, fun _ => rfl, machine_ctx_sane, ?_, f_apart, f_pathApart, hnumber, hwrite,
    of_losesBytes hlost⟩
  intro p hp
  have hlt : p < 1000 := hp
  have hbs : machine.ctx.blockSize = 1024 := by decide
  rw [fileBlock_single (b := 8) rfl, hbs, if_pos (by omega)]
  decide

end SmallVolume

section

variable {flags : OpenFlags} {b : UInt32} (ho : Opened m₀ flags m fe)
include ho

/-- Opening a file frees and takes nothing. -/
theorem Opened.takes (htakes : Takes m fe b) : Takes m₀ FileEnt.fresh b := by
  unfold Takes takenBitmap takenBlock at htakes
  rw [ho.view_eq, ho.disk, ho.ctx] at htakes
  exact htakes

theorem Opened.marked_eq (b : UInt32) : marked m fe b = marked m₀ FileEnt.fresh b := by
  unfold marked
  rw [ho.view_eq, ho.ctx]
  rfl

end

namespace SmallVolume

set_option maxRecDepth 4000

variable {b : UInt32}

/-- Block 9 is the first free one. -/
theorem takes_nine (htakes : Takes machine FileEnt.fresh b) : b = 9 := by
  obtain ⟨-, k, -, hb, hclear, hfull⟩ := htakes
  have hused : ∀ j < 8, bitmapBit machine.disk machine.ctx (takenBitmap machine) j = true := by
    decide
  have hfree : bitmapBit machine.disk machine.ctx (takenBitmap machine) 8 = false := by decide
  have hview : view machine FileEnt.fresh = machine.disk := rfl
  rw [hview] at hclear hfull
  have hk : k = 8 := by
    rcases Nat.lt_trichotomy k 8 with hlt | heq | hgt
    · rw [hused k hlt] at hclear
      cases hclear
    · exact heq
    · have h8 := hfull 8 hgt
      rw [hfree] at h8
      cases h8
  have hnine : takenBlock machine 8 = 9 := by decide
  rw [hb, hk, hnine]

/-- The device with the mark for it. -/
def nineMarked : UInt32 → Sector := marked machine FileEnt.fresh 9

theorem nineMarked_eq {s : UInt32} (hs : s ≠ 3) : nineMarked s = machine.disk s := by
  have hsector : (codePlace (view machine FileEnt.fresh) machine.ctx 9).sector = 3 := by decide
  unfold nineMarked marked
  rw [BitPlace.put_other (by rw [hsector]; exact hs)]
  rfl

theorem nineMarked_hasRoot : HasRoot nineMarked := by
  refine ⟨nineMarked_eq (by decide), nineMarked_eq (by decide), fun q hq => nineMarked_eq fun heq => ?_⟩
  have hlt : 14 + q / 512 < 2 ^ 32 := by omega
  have := congrArg UInt32.toNat heq
  rw [UInt32.toNat_ofNat_of_lt' hlt] at this
  have h3 : (3 : UInt32).toNat = 3 := rfl
  omega

/-- Block 9 becomes the first block of `e`. -/
theorem fresh_nine {flags : OpenFlags} (ho : Opened machine flags m fe)
    (hnumber : fe.inodeNumber = 12) (n : Nat) : Fresh m fe pathE n 9 := by
  have hvol := ho.ctx.sameVolume
  have hinode : fe.inode = inodeAt machine.disk machine.ctx 12 := by rw [ho.inode, hnumber]
  have hblocks : (fe.setBlock 0 9).inode.iBlock = fun k => if k = 0 then 9 else 0 := by
    show Function.update fe.inode.iBlock 0 9 = _
    rw [hinode, e_blocks]
    funext k
    by_cases hk : k = 0
    · rw [hk, Function.update_self, if_pos rfl]
    · rw [Function.update_of_ne hk, if_neg hk, if_neg hk]
  have hslot : slotSector nineMarked machine.ctx 12 = 12 := by
    unfold slotSector descriptorAt
    rw [nineMarked_eq (by decide)]
    decide
  constructor
  · rw [ho.marked_eq, hnumber]
    exact (apart_single hblocks (by decide) hslot (by decide) (by decide) (by decide)).sameVolume hvol
  · rw [ho.marked_eq, hnumber]
    exact (pathApart_single hblocks (by decide) (by decide) hslot nineMarked_hasRoot
      root_leads_e).sameVolume hvol
  · intro q hq
    rw [ho.cursor, hinode] at hq
    have hsize : (inodeAt machine.disk machine.ctx 12).iSize.toNat = 0 := by decide
    omega

/-- Whether the handle can be written to, and after a write of `"hi"` holds a file of two bytes with a
    first block. -/
def holdsHi (fe : FileEnt) (m : Machine) : Bool :=
  fe.flags.write && match execEdit (.write [104, 105]) fe patientHost m with
  | .ok ((_, fe'), _) => fe'.inode.iSize == 2 && fe'.inode.iBlock 0 != 0
  | _ => true

theorem of_holdsHi (hok : holdsHi fe m = true) : fe.flags.write = true ∧
    ∀ full fe' m', execEdit (.write [104, 105]) fe patientHost m = .ok ((full, fe'), m') →
      NoHole (view m' fe') m'.ctx fe'.inode := by
  obtain ⟨hwrite, hok⟩ := Bool.and_eq_true_iff.1 hok
  refine ⟨hwrite, fun full fe' m' hrun p hp => ?_⟩
  rw [hrun] at hok
  obtain ⟨hsize, hblock⟩ := Bool.and_eq_true_iff.1 hok
  rw [beq_iff_eq.1 hsize] at hp
  have hlt : p < 2 := hp
  have hge := blockSize_ge m'.ctx
  rw [Nat.div_eq_of_lt (by omega), fileBlock_zero]
  exact bne_iff_ne.1 hblock

/-- `"hi"` arrives in the empty file. -/
theorem persists_hi : ∃ fe m, ext2Open pathE oRdwr 0 patientHost machine = .ok (some fe, m) ∧
    Persists patientHost m fe pathE [.write [104, 105]] := by
  have hok : opensRdwr pathE holdsHi = true := by decide +kernel
  obtain ⟨fe, m, hopen, htest⟩ := of_opensRdwr hok
  obtain ⟨hwrite, hhole⟩ := of_holdsHi htest
  obtain ⟨ho, hnumber⟩ := (root_leads_e machine_hasRoot).opened (fun _ => rfl) machine_ctx_sane
    (Nat.le_refl _) (by decide) (by decide) rfl hopen
  have hinode : fe.inode = inodeAt machine.disk machine.ctx 12 := by rw [ho.inode, hnumber]
  have hstart : fe.writeStart = fe := if_neg (by rw [ho.mode]; decide)
  have hfits : WriteFits m fe pathE 2 := by
    refine ⟨by rw [ho.cursor]; decide, by rw [ho.cursor]; decide, .first ?_ ?_ ?_ ?_⟩
    · rw [cursorIndex, ho.cursor]
      exact Nat.zero_div _
    · rw [hinode, e_blocks]
      rfl
    · intro b hb
      have hgroup : (9 : UInt32).toNat / machine.ctx.superblock.sBlocksPerGroup.toNat
          < machine.ctx.numBlockgroups.toNat := by decide
      rw [takes_nine (ho.takes hb), ho.ctx]
      exact hgroup
    · intro b hb
      rw [takes_nine (ho.takes hb.takes)]
      exact fresh_nine ho hnumber 2
  refine ⟨fe, m, hopen, persists_of_fits (fun _ => rfl) (Nat.le_refl _) machine_ctx_sane (by decide)
    (by decide) (apart_single e_blocks (by decide)
      (show slotSector machine.disk machine.ctx 12 = 12 by decide) (by decide)
      (by decide) (by decide))
    (pathApart_single e_blocks (by decide) (by decide) (by decide) machine_hasRoot root_leads_e)
    rfl hopen hwrite _ ⟨.inr ?_, fun fe' m' hrun => hhole _ _ _ hrun⟩⟩
  rw [hstart]
  exact hfits

end SmallVolume

end Embext
