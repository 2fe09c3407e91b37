import Embext.Proofs.Directory
import Embext.Proofs.ReadSession

set_option autoImplicit false

/-! # Writing inside the blocks of a file

A write that starts in a mapped block and stays inside one sector replaces those bytes of the file
and nothing else, as long as the blocks of the file are apart from each other, from the tables that
map them and from the inode's slot. A close then leaves the file on the device. -/

namespace Embext

open Prog (maintains_pure maintains_fault maintains_ite maintains_skip)

variable {h : Host} {m₀ m m' : Machine} {fe₀ fe fe' : FileEnt} {d : FileBytes} {p : Nat}
  {data : List UInt8}

/-! ## Opening a file -/

theorem magic_ext2Read (hh : h.Reliable) (fe : FileEnt) (n : Nat) :
    (ext2Read fe n).Maintains h (fun _ => True) fun x => x.2.2.magic = fe.magic := by
  intro m x m' _ hrun
  obtain ⟨r, bytes, fe'⟩ := x
  refine ⟨trivial, ?_⟩
  cases ext2Read_outcome hh hrun with
  | nothing => rfl
  | failed hr hsel =>
    have hsame : fe.SameFile fe' := (keeps_ext2SelectBuffer fe _ _ _ trivial hsel).2 hr
    show fe'.magic = fe.magic
    rw [hsame]
  | delivered hn hsel =>
    show (FileEnt.advanced _ _ _).magic = fe.magic
    unfold FileEnt.advanced
    rw [hsel.handle]

theorem magic_ext2Lseek (fe : FileEnt) (offset : Int) (whence : Whence) :
    (ext2Lseek fe offset whence).Maintains h (fun _ => True) fun x => x.2.magic = fe.magic := by
  rintro s ⟨r, fe'⟩ s' - hrun
  obtain ⟨c, e, rfl, rfl⟩ := of_ext2Lseek_ok hrun
  exact ⟨trivial, rfl⟩

theorem magic_ext2Readdir (hh : h.Reliable) (fe : FileEnt) :
    (ext2Readdir fe).Maintains h (fun _ => True) fun x => x.2.magic = fe.magic := by
  unfold ext2Readdir
  refine (magic_ext2Read hh fe _).bind fun (r, ino, fe₁) h₁ => maintains_ite
    (fun _ => maintains_pure h₁) fun _ => (magic_ext2Read hh fe₁ _).bind fun (r, recLen, fe₂) h₂ =>
      maintains_ite (fun _ => maintains_pure (h₂.trans h₁)) fun _ => (magic_ext2Read hh fe₂ _).bind
        fun (r, nameLen, fe₃) h₃ => maintains_ite
          (fun _ => maintains_pure (h₃.trans (h₂.trans h₁))) fun _ =>
            (magic_ext2Read hh fe₃ _).bind fun (r, _, fe₄) h₄ => ?_
  have hmagic := h₄.trans (h₃.trans (h₂.trans h₁))
  refine maintains_ite (fun _ => maintains_pure hmagic) fun _ => maintains_ite (fun _ => ?_) fun _ =>
    maintains_pure hmagic
  exact (magic_ext2Read hh fe₄ _).bind fun (_, name, fe₅) h₅ => maintains_skip fun _ =>
    (magic_ext2Lseek fe₅ _ _).bind fun (_, fe₆) h₆ => maintains_skip fun m =>
      maintains_pure (h₆.trans (h₅.trans hmagic))

theorem magic_findEntry (hh : h.Reliable) (name : List UInt8) (fuel : Nat) : ∀ fe : FileEnt,
    (findEntry name fuel fe).Maintains h (fun _ => True) fun x => x.2.magic = fe.magic := by
  induction fuel with
  | zero => exact fun fe => maintains_fault _
  | succ fuel ih =>
    intro fe
    refine (magic_ext2Readdir hh fe).bind fun (de, fe₁) h₁ => ?_
    cases de with
    | none => exact maintains_pure h₁
    | some de => exact maintains_ite (fun _ => maintains_pure h₁) fun _ =>
        (ih fe₁).mono fun _ h₂ => h₂.trans h₁

theorem magic_ext2OpenInode (hh : h.Reliable) (fe : FileEnt) (ino : UInt32) :
    (ext2OpenInode fe ino).Maintains h (fun _ => True) fun x => x.2.magic = fe.magic := by
  intro m x m' _ hrun
  rcases of_ext2OpenInode_ok hh hrun with ⟨-, hfe, -⟩ | ⟨-, hfe, -⟩
  · exact ⟨trivial, congrArg FileEnt.magic hfe⟩
  · exact ⟨trivial, (congrArg FileEnt.magic hfe).trans rfl⟩

theorem magic_lookupElements (hh : h.Reliable) (l : List (List UInt8)) : ∀ (ino : UInt32) (fe : FileEnt),
    (lookupElements l ino fe).Maintains h (fun _ => True) fun x => x.2.magic = fe.magic := by
  induction l with
  | nil => exact fun ino fe => maintains_pure rfl
  | cons name rest ih =>
    intro ino fe
    refine (magic_ext2OpenInode hh fe _).bind fun (r, fe₁) h₁ => maintains_ite
      (fun _ => maintains_skip fun _ => maintains_pure h₁) fun _ => maintains_skip fun bound =>
        (magic_findEntry hh _ _ fe₁).bind fun (found, fe₂) h₂ => ?_
    cases found with
    | none => exact maintains_skip fun _ => maintains_pure (h₂.trans h₁)
    | some next => exact (ih next fe₂).mono fun _ h₃ => h₃.trans (h₂.trans h₁)

/-- A handle just opened on a file of the volume. -/
structure Opened (m : Machine) (flags : OpenFlags) (m' : Machine) (fe : FileEnt) : Prop where
  disk : m'.disk = m.disk
  ctx : m.ctx.SameButSysbuf m'.ctx
  magic : fe.magic = embextMagic
  clean : fe.buffer.dirty = false
  mode : fe.flags = openedFlags ⟨true, false, false, false⟩ flags
  inode : fe.inode = inodeAt m.disk m.ctx fe.inodeNumber
  cursor : fe.cursor = 0
  positive : fe.inodeNumber ≠ 0
  known : fe.inodeNumber.toNat ≤ m.ctx.superblock.sInodesCount.toNat

theorem Opened.view_eq {flags : OpenFlags} (ho : Opened m flags m' fe) : view m' fe = m.disk := by
  rw [view, ho.clean, ho.disk]
  rfl

/-- Unless it truncates, opening a file that exists only checks. -/
theorem of_ext2OpenExisting_kept {flags : OpenFlags} {mode : Nat} (htrunc : flags.trunc = false)
    (hrun : ext2OpenExisting fe flags mode h m = .ok (some fe', m')) : fe' = fe ∧ m' = m := by
  unfold ext2OpenExisting at hrun
  rw [htrunc] at hrun
  by_cases hexcl : flags.creat = true ∧ flags.excl = true
  · rw [if_pos hexcl] at hrun
    cases hrun
  rw [if_neg hexcl] at hrun
  by_cases hreader : ¬ flags.wronly = true ∧ ¬ flags.rdwr = true
  · rw [if_pos hreader] at hrun
    cases hrun
    exact ⟨rfl, rfl⟩
  rw [if_neg hreader, Prog.bind_ok getCtx_apply] at hrun
  by_cases hro : m.ctx.readOnly = true
  · rw [if_pos hro] at hrun
    cases hrun
  rw [if_neg hro] at hrun
  by_cases hdir : (fe.inode.iMode &&& ext2SIfdir ≠ 0) ∧ ¬ mode.testBit 9
  · rw [if_pos hdir] at hrun
    cases hrun
  · rw [if_neg hdir, if_neg (by decide)] at hrun
    cases hrun
    exact ⟨rfl, rfl⟩

/-- Opening without `O_CREAT` and `O_TRUNC` changes nothing on the device. -/
theorem of_ext2OpenWith (hh : h.Reliable) (hs : m.ctx.Sane)
    {append : List UInt8 → UInt32 → List UInt8 → Drv Int} {name : List UInt8} {flags : OpenFlags}
    {mode : Nat} (hcreat : flags.creat = false) (htrunc : flags.trunc = false)
    (hrun : ext2OpenWith append name flags mode h m = .ok (some fe, m')) : Opened m flags m' fe := by
  obtain ⟨⟨ino, fe₁⟩, m₁, hlookup, hrun⟩ := Prog.of_bind_ok hrun
  obtain ⟨hq₁, hr₁⟩ := quiet_ext2LookupPath FileEnt.fresh_reader name m _ m₁ (.refl m) hlookup
  have hmagic : fe₁.magic = embextMagic := by
    have hkept : (ext2LookupPath FileEnt.fresh name).Maintains h (fun _ => True)
        fun x => x.2.magic = FileEnt.fresh.magic := by
      unfold ext2LookupPath
      exact (magic_lookupElements hh _ _ _).bind fun (ino, fe) hfe => maintains_pure hfe
    exact (hkept m _ m₁ trivial hlookup).2
  obtain ⟨⟨i, fe₂⟩, m₂, hopen, hrun⟩ := Prog.of_bind_ok hrun
  obtain ⟨hq₂, hr₂⟩ := quiet_ext2OpenInode hr₁ ino m₁ _ m₂ hq₁ hopen
  dsimp only at hrun
  rw [Prog.bind_ok getErrno_apply] at hrun
  rcases of_ext2OpenInode_ok hh hopen with ⟨rfl, -, -, -⟩ | ⟨rfl, hfe₂, -, hknown, hpos⟩
  · -- nothing was found, and nothing is created
    by_cases he : m₂.rerrno = .enoent
    · rw [if_pos ⟨rfl, he⟩, if_pos (by rw [hcreat]; decide)] at hrun
      cases hrun
    · rw [if_neg (fun hboth => he hboth.2), if_neg (by decide)] at hrun
      cases hrun
  rw [if_neg (fun hboth => absurd hboth.1 (by decide)), if_pos rfl] at hrun
  -- the handle is on what was in the slot
  have hcount : m₁.ctx.superblock = m.ctx.superblock := by rw [hq₁.ctx]
  rw [hcount] at hknown
  have hgroup := hs.covered ino hpos hknown
  have hgroups := hs.groups
  have hinode : openedInode m₁.disk m₁.ctx ino = inodeAt m.disk m.ctx ino := by
    rw [hq₁.disk, openedInode_sameButSysbuf hq₁.ctx]
    exact openedInode_eq hs.slotted (by omega) _
  rw [hinode] at hfe₂
  obtain ⟨rfl, rfl⟩ := of_ext2OpenExisting_kept htrunc hrun
  have hclean := hr₂.clean
  rw [hfe₂] at hclean ⊢
  exact ⟨hq₂.disk, hq₂.ctx, hmagic, hclean, rfl, rfl, rfl, hpos, hknown⟩

theorem of_ext2OpenPlain_rdwr (hh : h.Reliable) (hs : m.ctx.Sane) {name : List UInt8} {mode : Nat}
    (hrun : ext2OpenPlain name oRdwr mode h m = .ok (some fe, m')) : Opened m oRdwr m' fe :=
  of_ext2OpenWith hh hs rfl rfl hrun

/-! ## Bytes -/

namespace FileBytes

variable {d : FileBytes} {p q n : Nat} {data : List UInt8}

/-- The bytes with `data` put at `p`. -/
def write (d : FileBytes) (p : Nat) (data : List UInt8) : FileBytes where
  size := max d.size (p + data.length)
  byte q := if p ≤ q ∧ q < p + data.length then data.getD (q - p) 0 else d.byte q

theorem byte_write_outside (hq : q < p ∨ p + data.length ≤ q) :
    (d.write p data).byte q = d.byte q := by
  refine if_neg ?_
  omega

theorem byte_write_inside (hp : p ≤ q) (hq : q - p < data.length) :
    (d.write p data).byte q = data[q - p] := by
  refine (if_pos ⟨hp, by omega⟩).trans ?_
  rw [List.getD_eq_getElem?_getD, List.getElem?_eq_getElem hq, Option.getD_some]

theorem slice_congr {d d' : FileBytes} (hbytes : ∀ q, p ≤ q → q < p + n → d'.byte q = d.byte q) :
    d'.slice p n = d.slice p n := by
  refine List.map_congr_left fun k hk => ?_
  have hlt := List.mem_range.1 hk
  exact hbytes _ (by omega) (by omega)

theorem slice_write_self : (d.write p data).slice p data.length = data := by
  apply List.ext_getElem
  · exact length_slice _ _ _
  · intro k hk hk'
    have hrange : ((d.write p data).slice p data.length)[k] = (d.write p data).byte (p + k) := by
      simp [slice]
    rw [hrange, byte_write_inside (by omega) (by omega)]
    congr 1
    omega

end FileBytes

/-! ## The blocks of a file -/

/-- Byte `p` lies in a block of the file. -/
def Mapped (v : UInt32 → Sector) (c : Ext2Context) (inode : Inode) (p : Nat) : Prop :=
  p < 2 ^ 32 ∧ fileBlock v c inode (p / c.blockSize) ≠ 0

/-- The sector of byte `p`. -/
def byteSector (v : UInt32 → Sector) (c : Ext2Context) (inode : Inode) (p : Nat) : UInt32 :=
  blockSector c (fileBlock v c inode (p / c.blockSize)) (p % c.blockSize)

/-- The blocks of a file are apart: no two share a sector, and none shares one with the tables that
    map them, the slot of the inode or its group's descriptor. -/
structure FileApart (v : UInt32 → Sector) (c : Ext2Context) (ino : UInt32) (inode : Inode) : Prop where
  once : ∀ p q, Mapped v c inode p → Mapped v c inode q →
    byteSector v c inode p = byteSector v c inode q → p / 512 = q / 512
  map : ∀ w : UInt32 → Sector, (∀ s, s ≠ slotSector v c ino →
    (∀ p, Mapped v c inode p → s ≠ byteSector v c inode p) → w s = v s) →
    ∀ k, fileBlock w c inode k = fileBlock v c inode k
  slot : ∀ p, Mapped v c inode p → byteSector v c inode p ≠ slotSector v c ino
  descriptor : ∀ p, Mapped v c inode p →
    byteSector v c inode p ≠ descriptorSector c (inodeGroup c ino)
  inode : slotSector v c ino ≠ descriptorSector c (inodeGroup c ino)

/-- Where a file lies depends on the volume alone. -/
theorem FileApart.sameVolume {v : UInt32 → Sector} {c : Ext2Context} {ino : UInt32} {i : Inode}
    (ha : FileApart v c ino i) {c' : Ext2Context} (hc : c.SameVolume c') : FileApart v c' ino i := by
  have hmap : ∀ w, fileBlock w c' i = fileBlock w c i := fun w => by
    funext k
    exact fileBlock_sysbuf w c i k (by rw [hc]) (by rw [hc])
  have hbs : c'.blockSize = c.blockSize := by
    rw [hc]
    rfl
  have hmapped : Mapped v c' i = Mapped v c i := by
    unfold Mapped
    rw [hmap, hbs]
  have hsector : byteSector v c' i = byteSector v c i := by
    unfold byteSector blockSector
    rw [hmap, hbs, hc]
  have hslot : slotSector v c' ino = slotSector v c ino := by
    rw [hc]
    rfl
  have hdesc : descriptorSector c' (inodeGroup c' ino) = descriptorSector c (inodeGroup c ino) := by
    rw [hc]
    rfl
  constructor
  · rw [hmapped, hsector]
    exact ha.once
  · intro w
    rw [hmapped, hsector, hslot, hmap, hmap]
    exact ha.map w
  · rw [hmapped, hsector, hslot]
    exact ha.slot
  · rw [hmapped, hsector, hdesc]
    exact ha.descriptor
  · rw [hslot, hdesc]
    exact ha.inode

theorem fileBlock_withSysbuf (v : UInt32 → Sector) (c : Ext2Context) (s : Sector) (inode : Inode)
    (k : Nat) : fileBlock v { c with sysbuf := s } inode k = fileBlock v c inode k :=
  fileBlock_sysbuf v c inode k rfl rfl

theorem fileByte_withSysbuf (v : UInt32 → Sector) (c : Ext2Context) (s : Sector) (inode : Inode) :
    fileByte v { c with sysbuf := s } inode = fileByte v c inode :=
  fileByte_sysbuf v c inode rfl rfl

theorem mapped_sysbuf (v : UInt32 → Sector) (c : Ext2Context) (s : Sector) (inode : Inode) :
    Mapped v { c with sysbuf := s } inode = Mapped v c inode := by
  funext p
  unfold Mapped
  rw [fileBlock_withSysbuf]
  rfl

theorem byteSector_sysbuf (v : UInt32 → Sector) (c : Ext2Context) (s : Sector) (inode : Inode) :
    byteSector v { c with sysbuf := s } inode = byteSector v c inode := by
  funext p
  unfold byteSector
  rw [fileBlock_withSysbuf]
  rfl

theorem byteSector_in_sector {v : UInt32 → Sector} {c : Ext2Context} {inode : Inode} {k : Nat}
    (hk : p % 512 + k < 512) : byteSector v c inode (p + k) = byteSector v c inode p := by
  obtain ⟨hdiv, -, -⟩ := add_in_sector c hk
  unfold byteSector
  rw [hdiv, blockSector_in_sector c _ hk]

theorem fileByte_eq {v w : UInt32 → Sector} {c : Ext2Context} {inode : Inode}
    (hblock : fileBlock w c inode (p / c.blockSize) = fileBlock v c inode (p / c.blockSize)) :
    fileByte w c inode p = Window.item (w (byteSector v c inode p)) (p % 512) := by
  unfold fileByte blockByte byteSector
  rw [hblock, mod_blockSize_mod]

/-! ## A handle being written to -/

/-- The handle `fe₀` after some calls: its file has become `d`, and only sectors of its blocks are
    different. -/
structure Editing (m₀ : Machine) (fe₀ : FileEnt) (d : FileBytes) (m : Machine) (fe : FileEnt) :
    Prop where
  ctx : m.ctx = m₀.ctx
  magic : fe.magic = embextMagic
  number : fe.inodeNumber = fe₀.inodeNumber
  mode : fe.flags = { fe₀.flags with fsDirty := fe.flags.fsDirty }
  inode : fe.inode = { fe₀.inode with
    iSize := fe.inode.iSize, iAtime := fe.inode.iAtime, iMtime := fe.inode.iMtime }
  frame : ∀ s, (∀ p, Mapped (view m₀ fe₀) m₀.ctx fe₀.inode p →
    s ≠ byteSector (view m₀ fe₀) m₀.ctx fe₀.inode p) → view m fe s = view m₀ fe₀ s
  size : fe.inode.iSize.toNat = d.size
  bytes : ∀ p, Mapped (view m₀ fe₀) m₀.ctx fe₀.inode p →
    fileByte (view m fe) m₀.ctx fe₀.inode p = d.byte p

theorem Editing.refl (hmagic : fe₀.magic = embextMagic) :
    Editing m₀ fe₀ (fileBytes m₀ fe₀) m₀ fe₀ :=
  ⟨rfl, hmagic, rfl, rfl, rfl, fun _ _ => rfl, rfl, fun _ _ => rfl⟩

theorem Editing.seek (he : Editing m₀ fe₀ d m fe) (c : Int) :
    Editing m₀ fe₀ d m { fe with cursor := c } :=
  ⟨he.ctx, he.magic, he.number, he.mode, he.inode, he.frame, he.size, he.bytes⟩

theorem Editing.read (he : Editing m₀ fe₀ d m fe) (hr : Reading m fe m' fe') :
    Editing m₀ fe₀ d m' fe' := by
  refine ⟨hr.ctx.trans he.ctx, hr.magic.trans he.magic, hr.number.trans he.number, ?_, ?_, ?_, ?_, ?_⟩
  · rw [hr.mode, he.mode]
  · rw [hr.inode, he.inode]
  · rw [hr.view]
    exact he.frame
  · rw [hr.inode]
    exact he.size
  · rw [hr.view]
    exact he.bytes

/-- The block map stays. -/
theorem Editing.block (ha : FileApart (view m₀ fe₀) m₀.ctx fe₀.inodeNumber fe₀.inode)
    (he : Editing m₀ fe₀ d m fe) (k : Nat) :
    fileBlock (view m fe) m₀.ctx fe₀.inode k = fileBlock (view m₀ fe₀) m₀.ctx fe₀.inode k :=
  ha.map _ (fun s _ hs => he.frame s hs) k

/-! ## A write in one sector -/

/-- On a mapped block a write copies all the data to the sector under the cursor, or leaves the
    buffer. -/
theorem ext2WriteFrom_mapped (hh : h.Reliable) (hs : m.ctx.SaneBlockSize)
    (hb : cursorBlock m fe ≠ 0) (hne : data ≠ []) : ∃ m₁ fe₁, Loads m fe m₁ fe₁ ∧
    m₁.disk = view m fe ∧ fe₁.buffer.lbaBlock + m.ctx.partStart = cursorSector m fe ∧
    fe₁.buffer.buffer = view m fe (cursorSector m fe) ∧
    ext2WriteFrom fe data h m = if (fe.cursor % 512).toNat + data.length ≤ 512
      then .ok ((data.length, fe₁.wrote data (h.clock m₁.ticks)), { m₁ with ticks := m₁.ticks + 1 })
      else .error .outOfBounds := by
  obtain ⟨m₁, fe₁, hsel, hl, hdisk, -, hsector, hbuf, -⟩ := ext2SelectBuffer_mapped hh hs hb
  refine ⟨m₁, fe₁, hl, hdisk, hsector, hbuf, ?_⟩
  exact ext2WriteFrom_selected hsel hne

/-- A handle that is not in append mode writes at its cursor. -/
theorem ext2Write_plain (hmagic : fe.magic = embextMagic) (hwrite : fe.flags.write = true)
    (happend : fe.flags.append = false) : ext2Write fe data h m = ext2WriteFrom fe data h m := by
  unfold ext2Write
  rw [if_neg (not_not.2 hmagic), if_neg (by rw [hwrite]; decide), if_neg (by rw [happend]; decide)]

/-! ## What a write does to the file -/

section

variable (ha : FileApart (view m₀ fe₀) m₀.ctx fe₀.inodeNumber fe₀.inode) (hs : m₀.ctx.SaneBlockSize)
  (hmode : fe₀.flags.write = true ∧ fe₀.flags.append = false) (he : Editing m₀ fe₀ d m fe)
  (hcur : fe.cursor = p) (hmap : Mapped (view m₀ fe₀) m₀.ctx fe₀.inode p)
include ha he hcur hmap

/-- The sector under the cursor. -/
theorem Editing.sector_eq : cursorBlock m fe ≠ 0 ∧
    cursorSector m fe = byteSector (view m₀ fe₀) m₀.ctx fe₀.inode p := by
  obtain ⟨hlt, hne⟩ := hmap
  have hp : fe.cursor.toNat = p := by omega
  have hblock : fileBlock (view m fe) m.ctx fe.inode (p / m.ctx.blockSize)
      = fileBlock (view m₀ fe₀) m₀.ctx fe₀.inode (p / m₀.ctx.blockSize) := by
    rw [he.ctx, he.inode]
    exact he.block ha _
  have hcode : cursorBlock m fe = fileBlock (view m fe) m.ctx fe.inode (p / m.ctx.blockSize) := by
    rw [← hp]
    refine cursorBlock_eq (by omega) (by omega) ?_
    rw [hp, hblock]
    exact hne
  rw [hcode, hblock]
  refine ⟨hne, ?_⟩
  unfold cursorSector byteSector
  rw [hcode, hblock, toNat_emod_blockSize _ (by omega), hp, he.ctx]

/-- What is copied into the sector of byte `p` is written at `p`. -/
theorem Editing.wrote {m₁ : Machine} {fe₁ : FileEnt} (hl : Loads m fe m₁ fe₁)
    (hdisk : m₁.disk = view m fe)
    (hlba : fe₁.buffer.lbaBlock + m.ctx.partStart = byteSector (view m₀ fe₀) m₀.ctx fe₀.inode p)
    (hbuf : fe₁.buffer.buffer = view m fe (byteSector (view m₀ fe₀) m₀.ctx fe₀.inode p))
    (hlt : p + data.length < 2 ^ 32) (hfit : p % 512 + data.length ≤ 512) (t : UInt32) (ticks : Nat) :
    Editing m₀ fe₀ (d.write p data) { m₁ with ticks := ticks } (fe₁.wrote data t) ∧
      (fe₁.wrote data t).cursor = (p + data.length : Nat) := by
  have hp : (fe.cursor % 512).toNat = p % 512 := by omega
  have hcur₁ : fe₁.cursor = p := by rw [hl.handle, ← hcur]
  -- the bytes on the device, seen through the dirty buffer
  have hview : view { m₁ with ticks := ticks } (fe₁.wrote data t)
      = Function.update (view m fe) (byteSector (view m₀ fe₀) m₀.ctx fe₀.inode p)
        (Window.patch (view m fe (byteSector (view m₀ fe₀) m₀.ctx fe₀.inode p)) (p % 512) data) := by
    have hdirty : (fe₁.wrote data t).buffer.dirty = true := rfl
    have hlba₁ : (fe₁.wrote data t).buffer.lbaBlock + m₁.ctx.partStart
        = byteSector (view m₀ fe₀) m₀.ctx fe₀.inode p := by
      rw [hl.ctx_eq]
      exact hlba
    have hbuf₁ : (fe₁.wrote data t).buffer.buffer
        = Window.patch (view m fe (byteSector (view m₀ fe₀) m₀.ctx fe₀.inode p)) (p % 512) data := by
      have hcur' : fe₁.cursor = fe.cursor := by rw [hl.handle]
      rw [← hbuf, ← hp, ← hcur']
      rfl
    rw [view, if_pos hdirty, ← hbuf₁, ← hlba₁]
    simp only [hdisk]
  have hinode : (fe₁.wrote data t).inode = { fe.inode with
      iSize := sizeAfter fe.inode (p + data.length), iMtime := t } := by
    unfold FileEnt.wrote
    rw [hcur₁, hl.handle]
  have hsize : (sizeAfter fe.inode (p + data.length)).toNat = max d.size (p + data.length) := by
    have hd := he.size
    have hcast : (((p : Int) + data.length) % 2 ^ 32).toNat = p + data.length := by omega
    unfold sizeAfter
    rw [hcast]
    split
    · rw [UInt32.toNat_ofNat_of_lt' hlt]
      omega
    · omega
  have hframe : ∀ s, (∀ p, Mapped (view m₀ fe₀) m₀.ctx fe₀.inode p →
      s ≠ byteSector (view m₀ fe₀) m₀.ctx fe₀.inode p) →
      view { m₁ with ticks := ticks } (fe₁.wrote data t) s = view m₀ fe₀ s := by
    intro s hs
    rw [hview, Function.update_of_ne (hs p hmap)]
    exact he.frame s hs
  constructor
  · refine ⟨hl.ctx_eq.trans he.ctx, ?_, ?_, ?_, ?_, fun s hs => ?_, ?_, fun q hq => ?_⟩
    · have hmagic : fe₁.magic = fe.magic := by rw [hl.handle]
      exact hmagic.trans he.magic
    · have hnumber : fe₁.inodeNumber = fe.inodeNumber := by rw [hl.handle]
      exact hnumber.trans he.number
    · have hflags : fe₁.flags = fe.flags := by rw [hl.handle]
      have hmode' : (fe₁.wrote data t).flags = { fe.flags with fsDirty := true } := by
        rw [← hflags]
        rfl
      rw [hmode', he.mode]
    · rw [hinode, he.inode]
    · exact hframe s hs
    · rw [hinode]
      exact hsize
    · rw [fileByte_eq (ha.map _ (fun s _ hs => hframe s hs) _), hview]
      have hold := he.bytes q hq
      rw [fileByte_eq (he.block ha _)] at hold
      by_cases hsame : byteSector (view m₀ fe₀) m₀.ctx fe₀.inode q
          = byteSector (view m₀ fe₀) m₀.ctx fe₀.inode p
      · -- in the sector that was written
        have hdiv := ha.once q p hq hmap hsame
        rw [hsame, Function.update_self]
        rw [hsame] at hold
        by_cases hin : p ≤ q ∧ q < p + data.length
        · have hget := FileBytes.byte_write_inside (d := d) hin.1 (show q - p < data.length by omega)
          rw [hget, Window.item_patch_inside _ (by omega) (by omega) (by omega)]
          congr 1
          omega
        · rw [FileBytes.byte_write_outside (by omega), Window.item_patch_outside _ (by omega) (by omega)]
          exact hold
      · -- in another sector
        have hout : q < p ∨ p + data.length ≤ q := by
          by_contra hin
          obtain ⟨k, rfl⟩ := Nat.exists_eq_add_of_le (show p ≤ q by omega)
          exact hsame (byteSector_in_sector (by omega))
        rw [FileBytes.byte_write_outside hout, Function.update_of_ne hsame]
        exact hold
  · have hend : (fe₁.wrote data t).cursor = fe₁.cursor + data.length := rfl
    rw [hend, hcur₁, Nat.cast_add]

include hs

/-- A write on a mapped block, from the loop on. -/
theorem Editing.writeFrom (hh : h.Reliable) (hne : data ≠ []) (hlt : p + data.length < 2 ^ 32)
    (hfit : p % 512 + data.length ≤ 512) : ∃ m' fe',
    ext2WriteFrom fe data h m = .ok ((data.length, fe'), m') ∧
      Editing m₀ fe₀ (d.write p data) m' fe' ∧ fe'.cursor = (p + data.length : Nat) ∧
      fe'.flags.fsDirty = true := by
  obtain ⟨hb, hsector⟩ := he.sector_eq ha hcur hmap
  obtain ⟨m₁, fe₁, hl, hdisk, hlba, hbuf, hrun⟩ := ext2WriteFrom_mapped hh
    (by rw [he.ctx]; exact hs) hb hne
  rw [if_pos (by omega)] at hrun
  rw [hsector] at hlba hbuf
  obtain ⟨he', hend⟩ := he.wrote ha hcur hmap hl hdisk hlba hbuf hlt hfit (h.clock m₁.ticks)
    (m₁.ticks + 1)
  exact ⟨_, _, hrun, he', hend, rfl⟩

include hmode

omit ha hs hcur hmap in
theorem Editing.write_plain : ext2Write fe data h m = ext2WriteFrom fe data h m := by
  refine ext2Write_plain he.magic ?_ ?_
  · rw [he.mode]
    exact hmode.1
  · rw [he.mode]
    exact hmode.2

theorem Editing.write_cross (hh : h.Reliable) (hne : data ≠ []) (hcross : 512 < p % 512 + data.length) :
    ext2Write fe data h m = .error .outOfBounds := by
  obtain ⟨m₁, fe₁, -, -, -, -, hrun⟩ := ext2WriteFrom_mapped hh (by rw [he.ctx]; exact hs)
    (he.sector_eq ha hcur hmap).1 hne
  rw [he.write_plain hmode, hrun, if_neg (by omega)]

theorem Editing.write (hh : h.Reliable) (hne : data ≠ []) (hlt : p + data.length < 2 ^ 32)
    (hfit : p % 512 + data.length ≤ 512) : ∃ m' fe',
    ext2Write fe data h m = .ok ((data.length, fe'), m') ∧
      Editing m₀ fe₀ (d.write p data) m' fe' ∧ fe'.cursor = (p + data.length : Nat) ∧
      fe'.flags.fsDirty = true := by
  rw [he.write_plain hmode]
  exact he.writeFrom ha hs hcur hmap hh hne hlt hfit

end

/-! ## Closing the handle -/

/-- A close of a marked handle stores the view and puts the inode in its slot. -/
theorem ext2Close_ok (hh : h.Reliable) (hs : m.ctx.Slotted) (hmagic : fe.magic = embextMagic)
    (hdirty : fe.flags.fsDirty = true)
    (hgroup : inodeGroup m.ctx fe.inodeNumber < m.ctx.numBlockgroups.toNat) : ∃ m' fe',
    ext2Close fe h m = .ok ((0, fe'), m') ∧ (∃ s, m'.ctx = { m.ctx with sysbuf := s }) ∧
      m'.disk = putInode (view m fe) m.ctx fe.inodeNumber fe.inode := by
  obtain ⟨fe₁, m₁, hstore⟩ : ∃ fe₁ m₁, (if fe.buffer.dirty then ext2StoreBuffer fe else pure (0, fe) :
      Drv (Int × FileEnt)) h m = .ok ((0, fe₁), m₁) := by
    by_cases hd : fe.buffer.dirty = true
    · rw [if_pos hd]
      exact ⟨_, _, ext2StoreBuffer_ok hh⟩
    · rw [if_neg hd]
      exact ⟨fe, m, rfl⟩
  obtain ⟨hfe₁, hclean, hm₁, -⟩ := of_closeStore hstore
  have hctx : m₁.ctx = m.ctx := by rw [hm₁]
  have hdisk : m₁.disk = view m fe := by rw [hm₁]
  have hnumber : fe₁.inodeNumber = fe.inodeNumber := by rw [hfe₁]
  have hinode : fe₁.inode = fe.inode := by rw [hfe₁]
  have hflags : fe₁.flags = fe.flags := by rw [hfe₁]
  rw [← hctx] at hs hgroup
  rw [← hnumber] at hgroup
  obtain ⟨m₂, fe₂, hflush, hst, -⟩ := ext2FlushInode_ok hh hs hclean (by rw [hflags]; exact hdirty) hgroup
  obtain ⟨s, l, hm₂⟩ := hst.machine
  refine ⟨m₂, { fe₂ with flags := { fe₁.flags with fsDirty := false }, magic := 0 }, ?_,
    ⟨s, by rw [hm₂, hctx]⟩, ?_⟩
  · unfold ext2Close
    rw [if_neg (not_not.2 hmagic), Prog.bind_ok hstore]
    dsimp only
    rw [if_neg (not_not.2 rfl), if_pos (by rw [hflags]; exact hdirty), Prog.bind_ok hflush]
    rfl
  · rw [hm₂, ← hdisk, ← hctx, ← hnumber, ← hinode]

/-- What a close leaves on the device: the inode in its slot, with the block map as it was and the
    bytes `d`. -/
structure Saved (m₀ : Machine) (fe₀ : FileEnt) (d : FileBytes) (inode : Inode) (m' : Machine) :
    Prop where
  ctx : ∃ s, m'.ctx = { m₀.ctx with sysbuf := s }
  slot : inodeAt m'.disk m'.ctx fe₀.inodeNumber = inode
  size : inode.iSize.toNat = d.size
  block : ∀ k, fileBlock m'.disk m'.ctx inode k = fileBlock (view m₀ fe₀) m₀.ctx fe₀.inode k
  bytes : ∀ p, Mapped (view m₀ fe₀) m₀.ctx fe₀.inode p → fileByte m'.disk m'.ctx inode p = d.byte p

theorem Editing.close (hh : h.Reliable)
    (ha : FileApart (view m₀ fe₀) m₀.ctx fe₀.inodeNumber fe₀.inode) (hs : m₀.ctx.Slotted)
    (hgroup : inodeGroup m₀.ctx fe₀.inodeNumber < m₀.ctx.numBlockgroups.toNat)
    (he : Editing m₀ fe₀ d m fe) (hdirty : fe.flags.fsDirty = true) : ∃ m' fe',
    ext2Close fe h m = .ok ((0, fe'), m') ∧ Saved m₀ fe₀ d fe.inode m' := by
  obtain ⟨m', fe', hrun, ⟨s, hctx⟩, hdisk⟩ := ext2Close_ok hh (by rw [he.ctx]; exact hs) he.magic
    hdirty (by rw [he.ctx, he.number]; exact hgroup)
  rw [he.ctx] at hctx
  rw [he.ctx, he.number] at hdisk
  -- the slot is where it was
  have hslot : slotSector (view m fe) m₀.ctx fe₀.inodeNumber
      = slotSector (view m₀ fe₀) m₀.ctx fe₀.inodeNumber := by
    have hdesc := he.frame (descriptorSector m₀.ctx (inodeGroup m₀.ctx fe₀.inodeNumber))
      fun p hp => (ha.descriptor p hp).symm
    unfold slotSector descriptorAt
    rw [hdesc]
  have hput : ∀ s, s ≠ slotSector (view m₀ fe₀) m₀.ctx fe₀.inodeNumber → m'.disk s = view m fe s := by
    intro s hs
    rw [hdisk, putInode, hslot, Function.update_of_ne hs]
  have hblock : ∀ k, fileBlock m'.disk m₀.ctx fe₀.inode k
      = fileBlock (view m₀ fe₀) m₀.ctx fe₀.inode k :=
    ha.map _ fun s hne hs => (hput s hne).trans (he.frame s hs)
  refine ⟨m', fe', hrun, ⟨s, hctx⟩, ?_, he.size, fun k => ?_, fun p hp => ?_⟩
  · rw [hctx, inodeAt_sysbuf, hdisk]
    refine inodeAt_putInode_self hs ?_
    rw [hslot]
    exact ha.inode
  · rw [fileBlock_sysbuf m'.disk m₀.ctx fe.inode k (by rw [hctx]) (by rw [hctx]), he.inode]
    exact hblock k
  · have hbyte := he.bytes p hp
    rw [fileByte_eq (he.block ha _)] at hbyte
    rw [fileByte_sysbuf m'.disk m₀.ctx fe.inode (by rw [hctx]) (by rw [hctx]), he.inode]
    refine (fileByte_eq (hblock _)).trans ?_
    rw [hput _ (ha.slot p hp)]
    exact hbyte

end Embext
