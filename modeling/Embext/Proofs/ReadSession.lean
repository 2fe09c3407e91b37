import Embext.Proofs.ReadOnly
import Embext.Proofs.Superblock
import Embext.Proofs.TwoHandles

set_option autoImplicit false

/-! # A session that only reads

A handle opened with `O_RDONLY` stays clean, and of its inode only the access time changes. What
`ext2_close` writes is therefore the inode that `ext2_open` read with a new access time. The two
functions find the inode through its group's descriptor, `ext2_open_inode` with a product that wraps
at 32 bits. -/

namespace Embext

open Prog (maintains_pure maintains_fault maintains_ite maintains_skip maintains_ask)

variable {h : Host} {m m' m₀ : Machine} {fe fe' : FileEnt} {c : Ext2Context}
  {v : UInt32 → Sector}

/-! ## The four bytes -/

/-- The access time is in bytes 8 to 11 of an inode. -/
theorem Inode.put_atime (inode : Inode) (t : UInt32) {k : Nat} (hk : ¬ (8 ≤ k ∧ k < 12)) :
    Inode.packed.put { inode with iAtime := t } k = Inode.packed.put inode k := by
  rcases Nat.lt_or_ge k 8 with hlt | hge
  · interval_cases k <;> rfl
  · obtain ⟨j, rfl⟩ : ∃ j, k = Packed.u16.size + (Packed.u16.size + (Packed.u32.size
        + (Packed.u32.size + j))) := ⟨k - 12, by change k = 2 + (2 + (4 + (4 + (k - 12)))); omega⟩
    unfold Inode.packed Packed.record
    simp only [Packed.pair_put_right]
    rfl

/-- Two devices that differ at most in the access time of inode `ino`. -/
def SameButAtime (c : Ext2Context) (ino : UInt32) (v v' : UInt32 → Sector) : Prop :=
  ∀ (x : UInt32) (k : Nat), k < 512 →
    ¬ (x = slotSector v c ino ∧ slotOffset c ino + 8 ≤ k ∧ k < slotOffset c ino + 12) →
    Window.item (v' x) k = Window.item (v x) k

theorem SameButAtime.refl (c : Ext2Context) (ino : UInt32) (v : UInt32 → Sector) :
    SameButAtime c ino v v := fun _ _ _ _ => rfl

/-- Writing an inode back with another access time. -/
theorem putInode_atime (hs : c.Slotted) (v : UInt32 → Sector) (ino t : UInt32) :
    SameButAtime c ino v (putInode v c ino { inodeAt v c ino with iAtime := t }) := by
  intro x k hk hout
  by_cases hx : x = slotSector v c ino
  swap
  · rw [putInode, Function.update_of_ne hx]
  subst hx
  have hfit := slotOffset_le hs ino
  have hlen : (Inode.packed.bytes { inodeAt v c ino with iAtime := t }).length = 128 :=
    Inode.packed.length_bytes _
  rw [putInode, Function.update_self]
  by_cases hin : slotOffset c ino ≤ k ∧ k < slotOffset c ino + 128
  · obtain ⟨hlo, hhi⟩ := hin
    obtain ⟨j, rfl⟩ := Nat.exists_eq_add_of_le hlo
    rw [Window.item_patch_inside _ (by omega) hlo (by omega), Packed.getElem_bytes,
      Nat.add_sub_cancel_left, Inode.put_atime _ _ fun hj => hout ⟨rfl, by omega⟩]
    exact Inode.packed.put_get _ j (by rw [Inode.packed_size]; omega)
  · exact Window.item_patch_outside _ hk (by omega)

/-! ## The handle of the session -/

/-- A later state of a handle that only reads: of its inode at most the access time is new. -/
structure FileEnt.ReadOn (fe fe' : FileEnt) : Prop where
  number : fe'.inodeNumber = fe.inodeNumber
  inode : ∃ t, fe'.inode = { fe.inode with iAtime := t }
  write : fe'.flags.write = false

namespace FileEnt.ReadOn

theorem refl (hw : fe.flags.write = false) : fe.ReadOn fe := ⟨rfl, ⟨fe.inode.iAtime, rfl⟩, hw⟩

theorem trans {fe₁ fe₂ fe₃ : FileEnt} (h₁ : fe₁.ReadOn fe₂) (h₂ : fe₂.ReadOn fe₃) :
    fe₁.ReadOn fe₃ := by
  obtain ⟨t₁, hino₁⟩ := h₁.inode
  obtain ⟨t₂, hino₂⟩ := h₂.inode
  exact ⟨h₂.number.trans h₁.number, ⟨t₂, by rw [hino₂, hino₁]⟩, h₂.write⟩

theorem of_sameFile (hw : fe.flags.write = false) (hfe : fe.SameFile fe') : fe.ReadOn fe' := by
  unfold FileEnt.SameFile at hfe
  rw [hfe]
  exact ⟨rfl, ⟨fe.inode.iAtime, rfl⟩, hw⟩

end FileEnt.ReadOn

/-- Nothing is put into the block map of a handle that is not writable. -/
theorem readOn_ext2SelectBuffer (hw : fe.flags.write = false) :
    (ext2SelectBuffer fe).Maintains h (fun _ => True) fun x => fe.ReadOn x.2 := by
  unfold ext2SelectBuffer
  refine maintains_skip fun bs => Prog.Maintains.bind (keeps_ext2BlockFromOffset fe _)
    fun (block, fe₁) h₁ => Prog.Maintains.bind (keeps_ext2BlockFromOffset fe₁ _)
      fun (previous, fe₂) h₂ => ?_
  have h₂ : fe.SameFile fe₂ := FileEnt.SameFile.trans h₁ h₂
  refine maintains_ite (fun _ => ?_) fun _ => maintains_ite (fun hw₂ => ?_) fun _ =>
    maintains_pure (.of_sameFile hw h₂)
  · exact Prog.Maintains.bind (keeps_ext2LoadBuffer fe₂ _ _) fun (_, fe₃) h₃ =>
      maintains_pure (.of_sameFile hw (h₂.trans h₃))
  · have hflags : fe₂.flags = fe.flags := by
      unfold FileEnt.SameFile at h₂
      rw [h₂]
    rw [hflags, hw] at hw₂
    cases hw₂

theorem readOn_ext2ReadLoop (fuel : Nat) : ∀ (left : Nat) (acc : List UInt8) {fe : FileEnt},
    fe.flags.write = false → (ext2ReadLoop fuel left acc fe).Maintains h (fun _ => True)
      fun x => fe.ReadOn x.2 := by
  induction fuel with
  | zero =>
    exact fun left acc fe hw => maintains_ite (fun _ => maintains_pure (.refl hw)) fun _ =>
      maintains_fault _
  | succ fuel ih =>
    intro left acc fe hw
    refine maintains_ite (fun _ => maintains_pure (.refl hw)) fun _ =>
      maintains_ite (fun _ => maintains_pure (.refl hw)) fun _ =>
        Prog.Maintains.bind (readOn_ext2SelectBuffer hw) fun (r, fe₁) h₁ =>
          maintains_ite (fun _ => maintains_skip fun _ => maintains_pure h₁) fun _ => ?_
    refine maintains_skip fun bs => maintains_skip fun space => maintains_skip fun bytes => ?_
    refine Prog.Maintains.mono (ih _ _ ?_) fun x h₂ => h₁.trans ⟨h₂.number, h₂.inode, h₂.write⟩
    exact h₁.write

theorem readOn_ext2Read (hw : fe.flags.write = false) (count : Nat) :
    (ext2Read fe count).Maintains h (fun _ => True) fun x => fe.ReadOn x.2.2 := by
  unfold ext2Read
  refine maintains_ite (fun _ => maintains_skip fun _ => maintains_pure (.refl hw)) fun _ =>
    Prog.Maintains.bind (readOn_ext2ReadLoop _ _ _ hw) fun (r, fe₁) h₁ => ?_
  cases r with
  | none => exact maintains_pure h₁
  | some bytes =>
    refine maintains_ite (fun _ => ?_) fun _ => maintains_pure h₁
    refine Prog.Maintains.bind (P := fun fe₂ => fe.ReadOn fe₂) (maintains_skip fun t => ?_)
      fun fe₂ h₂ => maintains_pure h₂
    exact maintains_pure (h₁.trans ⟨rfl, ⟨t, rfl⟩, h₁.write⟩)

theorem readOn_ext2Lseek (hw : fe.flags.write = false) (offset : Int) (whence : Whence) :
    (ext2Lseek fe offset whence).Maintains h (fun _ => True) fun x => fe.ReadOn x.2 := by
  rintro s ⟨r, fe'⟩ s' - hrun
  obtain ⟨k, e, rfl, -⟩ := of_ext2Lseek_ok hrun
  exact ⟨trivial, rfl, ⟨fe.inode.iAtime, rfl⟩, hw⟩

theorem readOn_ext2Readdir (hw : fe.flags.write = false) :
    (ext2Readdir fe).Maintains h (fun _ => True) fun x => fe.ReadOn x.2 := by
  have hread : ∀ {fe₁ : FileEnt} (count : Nat), fe.ReadOn fe₁ →
      (ext2Read fe₁ count).Maintains h (fun _ => True) fun x => fe.ReadOn x.2.2 :=
    fun count h₁ => (readOn_ext2Read h₁.write count).mono fun _ h₂ => h₁.trans h₂
  unfold ext2Readdir
  refine Prog.Maintains.bind (hread 4 (.refl hw)) fun (r, ino, fe₁) h₁ => maintains_ite
    (fun _ => maintains_pure h₁) fun _ => Prog.Maintains.bind (hread 2 h₁) fun (r, recLen, fe₂) h₂ =>
      maintains_ite (fun _ => maintains_pure h₂) fun _ => Prog.Maintains.bind (hread 1 h₂)
        fun (r, nameLen, fe₃) h₃ => maintains_ite (fun _ => maintains_pure h₃) fun _ =>
          Prog.Maintains.bind (hread 1 h₃) fun (r, _, fe₄) h₄ => maintains_ite
            (fun _ => maintains_pure h₄) fun _ => maintains_ite (fun _ => ?_) fun _ =>
              maintains_pure h₄
  refine Prog.Maintains.bind (hread _ h₄) fun (_, name, fe₅) h₅ => maintains_skip fun _ =>
    Prog.Maintains.bind (readOn_ext2Lseek h₅.write _ _) fun (_, fe₆) h₆ => maintains_skip fun _ =>
      maintains_pure (FileEnt.ReadOn.trans h₅ h₆)

/-- A write through a handle that is not writable is refused. -/
theorem readOn_ext2Write (hw : fe.flags.write = false) (data : List UInt8) :
    (ext2Write fe data).Maintains h (fun _ => True) fun x => fe.ReadOn x.2 := by
  unfold ext2Write
  refine maintains_ite (fun _ => maintains_skip fun _ => maintains_pure (.refl hw)) fun _ =>
    maintains_ite (fun _ => maintains_skip fun _ => maintains_pure (.refl hw)) fun hw' => ?_
  rw [hw] at hw'
  exact absurd rfl hw'

/-! ## The calls of the session -/

/-- A call a session makes between opening handle `fd` and closing it. -/
def Call.InSession (fd : Nat) : Call → Prop
  | .read g _ | .write g _ | .lseek g _ _ | .readdir g | .fstat g | .isatty g => g = fd
  | .open _ _ _ | .close _ => False

/-- What a call leaves of the handle `fe`. -/
def LeavesReader (fe : FileEnt) (x : Reply × Option FileEnt) : Prop :=
  ∃ fe', x.2 = some fe' ∧ fe'.Reader ∧ fe.ReadOn fe'

theorem session_step {fd : Nat} {files files' : Files} {call : Call} {reply : Reply}
    (hfe : files[fd]? = some (some fe)) (hr : fe.Reader) (hcall : call.InSession fd)
    (hrun : execCall call files h m = .ok ((reply, files'), m')) :
    Quiet m m' ∧ ∃ fe', files'[fd]? = some (some fe') ∧ fe'.Reader ∧ fe.ReadOn fe' := by
  have hlt : fd < files.length := (List.getElem?_eq_some_iff.1 hfe).1
  have hput : ∀ {null : Reply} {body : FileEnt → Drv (Reply × Option FileEnt)},
      (body fe).Maintains h (Quiet m) (LeavesReader fe) →
      withHandle files fd null body h m = .ok ((reply, files'), m') →
      Quiet m m' ∧ ∃ fe', files'[fd]? = some (some fe') ∧ fe'.Reader ∧ fe.ReadOn fe' := by
    intro null body hbody hrun
    obtain ⟨o, hok, rfl⟩ := of_withHandle_open hfe hrun
    obtain ⟨hq, fe', ho, hfe'⟩ := hbody m _ m' (.refl m) hok
    cases ho
    exact ⟨hq, fe', List.getElem?_set_self hlt, hfe'⟩
  cases call with
  | «open» name flags mode => exact hcall.elim
  | close g => exact hcall.elim
  | read g count =>
    obtain rfl : g = fd := hcall
    refine hput ?_ hrun
    exact ((quiet_ext2Read hr count).and (readOn_ext2Read hr.flags count)).bind
      fun (r, bytes, fe₁) h₁ => maintains_pure ⟨fe₁, rfl, h₁⟩
  | write g data =>
    obtain rfl : g = fd := hcall
    refine hput ?_ hrun
    exact ((quiet_ext2Write hr data).and (readOn_ext2Write hr.flags data)).bind
      fun (r, fe₁) h₁ => maintains_pure ⟨fe₁, rfl, h₁⟩
  | lseek g offset whence =>
    obtain rfl : g = fd := hcall
    refine hput ?_ hrun
    exact ((quiet_ext2Lseek hr offset whence).and (readOn_ext2Lseek hr.flags offset whence)).bind
      fun (r, fe₁) h₁ => maintains_pure ⟨fe₁, rfl, h₁⟩
  | readdir g =>
    obtain rfl : g = fd := hcall
    refine hput ?_ hrun
    exact ((quiet_ext2Readdir hr).and (readOn_ext2Readdir hr.flags)).bind
      fun (de, fe₁) h₁ => maintains_pure ⟨fe₁, rfl, h₁⟩
  | fstat g =>
    obtain rfl : g = fd := hcall
    refine hput ?_ hrun
    refine Prog.Maintains.bind (P := fun _ => True) ?_ fun x _ =>
      maintains_pure ⟨fe, rfl, hr, .refl hr.flags⟩
    exact maintains_ite (fun _ => (quiet_setErrno _).bind fun _ _ => maintains_pure trivial)
      fun _ => quiet_ext2BlockSize.bind fun bs _ => maintains_pure trivial
  | isatty g =>
    obtain rfl : g = fd := hcall
    refine hput ?_ hrun
    refine Prog.Maintains.bind (P := fun _ => True) ?_ fun x _ =>
      maintains_pure ⟨fe, rfl, hr, .refl hr.flags⟩
    exact maintains_ite (fun _ => (quiet_setErrno _).bind fun _ _ => maintains_pure trivial)
      fun _ => (quiet_setErrno _).bind fun _ _ => maintains_pure trivial

theorem session_run {fd : Nat} (calls : List Call) : ∀ {files files' : Files} {fe : FileEnt}
    {m m' : Machine} {replies : List Reply}, files[fd]? = some (some fe) → fe.Reader →
    (∀ call ∈ calls, call.InSession fd) → runCalls calls files h m = .ok ((replies, files'), m') →
    Quiet m m' ∧ ∃ fe', files'[fd]? = some (some fe') ∧ fe'.Reader ∧ fe.ReadOn fe' := by
  induction calls with
  | nil =>
    intro files files' fe m m' replies hfe hr _ hrun
    cases hrun
    exact ⟨.refl m, fe, hfe, hr, .refl hr.flags⟩
  | cons call rest ih =>
    intro files files' fe m m' replies hfe hr hcalls hrun
    obtain ⟨⟨reply, files₁⟩, m₁, hstep, hrun⟩ := Prog.of_bind_ok hrun
    obtain ⟨⟨replies', files₂⟩, m₂, hrest, hrun⟩ := Prog.of_bind_ok hrun
    cases hrun
    obtain ⟨hq₁, fe₁, hfe₁, hr₁, hon₁⟩ := session_step hfe hr (hcalls call List.mem_cons_self) hstep
    obtain ⟨hq₂, fe₂, hfe₂, hr₂, hon₂⟩ := ih hfe₁ hr₁
      (fun call' hcall' => hcalls call' (List.mem_cons_of_mem _ hcall')) hrest
    exact ⟨hq₁.trans hq₂, fe₂, hfe₂, hr₂, hon₁.trans hon₂⟩

/-! ## Opening and closing -/

/-- `O_RDONLY`, without `O_CREAT`. -/
def OpenFlags.ReadsOnly (flags : OpenFlags) : Prop :=
  flags.wronly = false ∧ flags.rdwr = false ∧ flags.creat = false

theorem openedInode_sameButSysbuf {c' : Ext2Context} (hc : c.SameButSysbuf c') (ino : UInt32) :
    openedInode v c' ino = openedInode v c ino := by
  unfold Ext2Context.SameButSysbuf at hc
  rw [hc]
  rfl

/-- Opening with `O_RDONLY` hands out a handle that only reads, on the inode that was found. -/
theorem of_ext2Open_readsOnly (hh : h.Reliable) {name : List UInt8} {flags : OpenFlags} {mode : Nat}
    (hflags : flags.ReadsOnly) (hrun : ext2Open name flags mode h m = .ok (some fe, m')) :
    Quiet m m' ∧ fe.Reader ∧ fe.inode = openedInode m.disk m.ctx fe.inodeNumber := by
  obtain ⟨hwronly, hrdwr, hcreat⟩ := hflags
  obtain ⟨⟨ino, fe₁⟩, m₁, hlookup, hrun⟩ := Prog.of_bind_ok hrun
  obtain ⟨hq₁, hr₁⟩ := quiet_ext2LookupPath FileEnt.fresh_reader name m _ m₁ (.refl m) hlookup
  obtain ⟨⟨i, fe₂⟩, m₂, hopen, hrun⟩ := Prog.of_bind_ok hrun
  obtain ⟨hq₂, hr₂⟩ := quiet_ext2OpenInode hr₁ ino m₁ _ m₂ hq₁ hopen
  dsimp only at hrun
  rw [Prog.bind_ok getErrno_apply] at hrun
  rcases of_ext2OpenInode_ok hh hopen with ⟨rfl, -, -, -⟩ | ⟨rfl, rfl, -, -, -⟩
  · -- nothing was found, and nothing is created
    by_cases he : m₂.rerrno = .enoent
    · rw [if_pos ⟨rfl, he⟩, if_pos (by rw [hcreat]; decide)] at hrun
      cases hrun
    · rw [if_neg (fun hboth => he hboth.2), if_neg (by decide)] at hrun
      cases hrun
  · rw [if_neg (fun hboth => absurd hboth.1 (by decide)), if_pos rfl] at hrun
    unfold ext2OpenExisting at hrun
    rw [if_neg (by rw [hcreat]; simp), if_pos (by rw [hwronly, hrdwr]; simp)] at hrun
    cases hrun
    refine ⟨hq₂, ⟨hr₂.clean, ?_⟩, ?_⟩
    · exact openedFlags_write _ _ hr₂.flags (by rw [hwronly]; decide) (by rw [hrdwr]; decide)
    · change openedInode m₁.disk m₁.ctx ino = openedInode m.disk m.ctx ino
      rw [hq₁.disk, openedInode_sameButSysbuf hq₁.ctx]

/-- Closing a handle whose inode is the one in its slot with another access time. -/
theorem ext2Close_atime (hh : h.Reliable) {r : Int} {t : UInt32}
    (hsize : m.ctx.superblock.sInodeSize = 128 ∨ m.ctx.superblock.sInodeSize = 256 ∨
      m.ctx.superblock.sInodeSize = 512)
    (hg : inodeGroup m.ctx fe.inodeNumber < 2 ^ 27) (hclean : fe.buffer.dirty = false)
    (hinode : fe.inode = { openedInode m.disk m.ctx fe.inodeNumber with iAtime := t })
    (hrun : ext2Close fe h m = .ok ((r, fe'), m')) :
    SameButAtime m.ctx fe.inodeNumber m.disk m'.disk := by
  by_cases hflush : fe.flags.fsDirty = true
  swap
  · rw [ext2Close_idle hh hclean (by simpa using hflush) hrun]
    exact .refl _ _ _
  by_cases hr : r = 0
  swap
  · obtain ⟨-, e, rfl⟩ := of_ext2Close_ne hh hr hrun
    exact .refl _ _ _
  subst hr
  obtain ⟨fe₁, m₁, hstore, hfl, -⟩ := of_ext2Close_ok hrun
  -- there is nothing to store
  rw [if_neg (by rw [hclean]; decide)] at hstore
  cases hstore
  obtain ⟨r, fe₂, hrun₂⟩ := hfl hflush
  obtain ⟨hblock, hper, hgroup⟩ := of_ext2FlushInode_ok hrun₂ hflush
  have hs : m.ctx.Slotted := ⟨hblock, hsize, hper⟩
  obtain ⟨m₃, fe₃, hrun₃, hst, -⟩ := ext2FlushInode_ok hh hs hclean hflush hgroup
  rw [hrun₃] at hrun₂
  cases hrun₂
  obtain ⟨s, l, hm'⟩ := hst.machine
  rw [hm', hinode, openedInode_eq hs hg]
  exact putInode_atime hs _ _ _

theorem sameButAtime_sameButSysbuf {c' : Ext2Context} (hc : c.SameButSysbuf c') (ino : UInt32) :
    SameButAtime c' ino v = SameButAtime c ino v := by
  unfold Ext2Context.SameButSysbuf at hc
  rw [hc]
  rfl

/-- **A read-only session.** Opening a file with `O_RDONLY`, any calls on the handle except closing
    it, and closing it leave the device alone until the close, which changes at most the access time
    in the inode's slot: when the number of the inode's group is below `2 ^ 27`. -/
theorem readSession_touchesAtime (hh : h.Reliable)
    (hsize : m.ctx.superblock.sInodeSize = 128 ∨ m.ctx.superblock.sInodeSize = 256 ∨
      m.ctx.superblock.sInodeSize = 512)
    {name : List UInt8} {flags : OpenFlags} {mode : Nat} (hflags : flags.ReadsOnly) {m₁ m₂ m₃ : Machine}
    (hopen : ext2Open name flags mode h m = .ok (some fe, m₁))
    (hgroup : inodeGroup m.ctx fe.inodeNumber < 2 ^ 27) {files files₂ files₃ : Files}
    {calls : List Call} (hcalls : ∀ call ∈ calls, call.InSession files.length) {replies : List Reply}
    (hrun : runCalls calls (files ++ [some fe]) h m₁ = .ok ((replies, files₂), m₂)) {reply : Reply}
    (hclose : execCall (.close files.length) files₂ h m₂ = .ok ((reply, files₃), m₃)) :
    m₁.disk = m.disk ∧ m₂.disk = m.disk ∧ SameButAtime m.ctx fe.inodeNumber m.disk m₃.disk := by
  obtain ⟨hq₁, hr, hinode⟩ := of_ext2Open_readsOnly hh hflags hopen
  have hfd : (files ++ [some fe])[files.length]? = some (some fe) := by simp
  obtain ⟨hq₂, fe₂, hfe₂, hr₂, hon⟩ := session_run calls hfd hr hcalls hrun
  have hq := hq₁.trans hq₂
  refine ⟨hq₁.disk, hq.disk, ?_⟩
  obtain ⟨o, hbody, -⟩ := of_withHandle_open hfe₂ hclose
  obtain ⟨⟨r, fe₃⟩, m₄, hclosed, hbody⟩ := Prog.of_bind_ok hbody
  cases hbody
  obtain ⟨t, ht⟩ := hon.inode
  have hctx := hq.ctx
  rw [← sameButAtime_sameButSysbuf hctx, ← hq.disk, ← hon.number]
  unfold Ext2Context.SameButSysbuf at hctx
  refine ext2Close_atime hh (t := t) ?_ ?_ hr₂.clean ?_ hclosed
  · rw [hctx]
    exact hsize
  · rw [hctx, hon.number]
    exact hgroup
  · rw [ht, hinode, openedInode_sameButSysbuf hq.ctx, hq.disk, hon.number]

/-- Opening a file, reading one byte and closing it, with a test on the handle that was opened and
    the machine at the end. -/
def readsOneByte (h : Host) (m : Machine) (name : List UInt8) (test : FileEnt → Machine → Bool) :
    Bool :=
  match ext2Open name oRdonly 0 h m with
  | .ok (some fe, m₁) =>
    match runCalls [.read 0 1] [some fe] h m₁ with
    | .ok ((_, files), m₂) =>
      match execCall (.close 0) files h m₂ with
      | .ok (_, m₃) => test fe m₃
      | .error _ => false
    | .error _ => false
  | _ => false

theorem of_readsOneByte {name : List UInt8} {test : FileEnt → Machine → Bool}
    (hok : readsOneByte h m name test = true) : ∃ fe m₁ replies files₂ m₂ reply files₃ m₃,
    ext2Open name oRdonly 0 h m = .ok (some fe, m₁) ∧
    runCalls [.read 0 1] [some fe] h m₁ = .ok ((replies, files₂), m₂) ∧
    execCall (.close 0) files₂ h m₂ = .ok ((reply, files₃), m₃) ∧ test fe m₃ = true := by
  unfold readsOneByte at hok
  split at hok
  · next fe m₁ hopen =>
    split at hok
    · next replies files₂ m₂ hrun =>
      split at hok
      · next reply m₃ hclose =>
        exact ⟨fe, m₁, replies, files₂, m₂, reply.1, reply.2, m₃, hopen, hrun, hclose, hok⟩
      · cases hok
    · cases hok
  · cases hok

namespace SmallVolume

theorem oRdonly_readsOnly : oRdonly.ReadsOnly := ⟨rfl, rfl, rfl⟩

/-- Opening `f` on the small volume, reading a byte and closing it. -/
theorem readSession_touchesAtime_f : ∃ fe m₁ replies files₂ m₂ reply files₃ m₃,
    ext2Open pathF oRdonly 0 host machine = .ok (some fe, m₁) ∧
    runCalls [.read 0 1] [some fe] host m₁ = .ok ((replies, files₂), m₂) ∧
    execCall (.close 0) files₂ host m₂ = .ok ((reply, files₃), m₃) ∧
    SameButAtime machine.ctx fe.inodeNumber machine.disk m₃.disk := by
  have hok : readsOneByte host machine pathF (fun fe _ =>
      decide (inodeGroup machine.ctx fe.inodeNumber < 2 ^ 27)) = true := by decide +kernel
  obtain ⟨fe, m₁, replies, files₂, m₂, reply, files₃, m₃, hopen, hrun, hclose, hgroup⟩ :=
    of_readsOneByte hok
  have hcalls : ∀ call ∈ [Call.read 0 1], call.InSession ([] : Files).length := by
    simp [Call.InSession]
  exact ⟨fe, m₁, replies, files₂, m₂, reply, files₃, m₃, hopen, hrun, hclose,
    (readSession_touchesAtime host_reliable (.inl (by decide +kernel)) oRdonly_readsOnly hopen
      (of_decide_eq_true hgroup) hcalls hrun hclose).2.2⟩

/-- A volume of `2 ^ 27 + 8` groups of one inode each. -/
def wideSuperblock : Superblock :=
  { superblock with
    sInodesCount := 0x8000008
    sBlocksCount := 0x40000040
    sBlocksPerGroup := 8
    sInodesPerGroup := 1 }

/-- Its root directory holds `f`, inode `2 ^ 27 + 3` of group `2 ^ 27 + 2`. The descriptor of that
    group is in sector `0x800004`, that of group 2 in sector 4. -/
def wideDisk (s : UInt32) : Sector :=
  let table (b : UInt32) : List UInt8 :=
    BlockGroupDescriptor.packed.bytes { descriptor with bgInodeTable := b }
  if s = 2 then wideSuperblock.sector
  else if s = 4 then sectorOf [(32, table 5), (64, table 6)]
  else if s = 0x800004 then sectorOf [(64, table 10)]
  else if s = 10 then sectorOf [(0, Inode.packed.bytes rootInode)]
  else if s = 12 then sectorOf [(0, Inode.packed.bytes fInode)]
  else if s = 14 then sectorOf [(0, dirRecord 2 12 [46]), (12, dirRecord 0x8000003 1012 [102])]
  else if s = 20 then sectorOf [(0, Inode.packed.bytes { fInode with iSize := 5 })]
  else fun _ => 0

def wideMachine : Machine :=
  { machine with disk := wideDisk, ctx := mountedContext false 0 (wideDisk 2) 1000 }

/-- The session writes the inode of group 2 over that of group `2 ^ 27 + 2`. -/
theorem readSession_touchesAtime_fails : MountAccepts wideSuperblock 0x40000040 ∧
    wideMachine.ctx.superblock.sInodeSize = 128 ∧ ∃ fe m₁ replies files₂ m₂ reply files₃ m₃,
    ext2Open pathF oRdonly 0 host wideMachine = .ok (some fe, m₁) ∧
    fe.inodeNumber.toNat ≤ wideMachine.ctx.superblock.sInodesCount.toNat ∧
    inodeGroup wideMachine.ctx fe.inodeNumber < wideMachine.ctx.numBlockgroups.toNat ∧
    runCalls [.read 0 1] [some fe] host m₁ = .ok ((replies, files₂), m₂) ∧
    execCall (.close 0) files₂ host m₂ = .ok ((reply, files₃), m₃) ∧
    ¬ SameButAtime wideMachine.ctx fe.inodeNumber wideMachine.disk m₃.disk := by
  have hok : readsOneByte host wideMachine pathF (fun fe m₃ => fe.inodeNumber = 0x8000003 &&
      decide (Window.item (m₃.disk 20) 4 ≠ Window.item (wideMachine.disk 20) 4)) = true := by
    decide +kernel
  obtain ⟨fe, m₁, replies, files₂, m₂, reply, files₃, m₃, hopen, hrun, hclose, htest⟩ :=
    of_readsOneByte hok
  rw [Bool.and_eq_true, decide_eq_true_eq, decide_eq_true_eq] at htest
  obtain ⟨hino, hbyte⟩ := htest
  refine ⟨⟨by decide +kernel, by decide +kernel⟩, by decide +kernel, fe, m₁, replies, files₂, m₂,
    reply, files₃, m₃, hopen, ?_, ?_, hrun, hclose, fun hsame => hbyte (hsame 20 4 (by decide) ?_)⟩
  · rw [hino]
    decide +kernel
  · rw [hino]
    decide +kernel
  · rw [hino]
    decide +kernel

end SmallVolume

end Embext
