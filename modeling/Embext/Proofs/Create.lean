import Embext.Proofs.Bitmap
import Embext.Proofs.BlockMap
import Embext.Proofs.ReadOnly

set_option autoImplicit false

/-! # Creating a file that then fails

`ext2_open` takes an inode, and flushes the superblock, before it looks at the path's separator or
at the parent directory. Nothing gives the inode back: a call that returns NULL has left the volume
as it was exactly when it did not get as far as taking one. -/

namespace Embext

open Prog (maintains_pure maintains_ite)

/-! ## What a failed create must leave alone -/

/-- An inode of the volume that is a directory. -/
def IsDirectory (m : Machine) (ino : UInt32) : Prop :=
  (inodeAt m.disk m.ctx ino).iMode &&& ext2SIfdir ≠ 0

/-- The free counters, the group descriptors, both bitmaps of every group and the contents of every
    directory are the same in both states. -/
structure SameMetadata (m m' : Machine) : Prop where
  freeBlocks : m'.ctx.superblock.sFreeBlocksCount = m.ctx.superblock.sFreeBlocksCount
  freeInodes : m'.ctx.superblock.sFreeInodesCount = m.ctx.superblock.sFreeInodesCount
  descriptors : ∀ g < m.ctx.numBlockgroups.toNat,
    descriptorAt m'.disk m'.ctx g = descriptorAt m.disk m.ctx g
  blockBitmaps : ∀ g < m.ctx.numBlockgroups.toNat, ∀ k < m.ctx.superblock.sBlocksPerGroup.toNat,
    bitmapBit m'.disk m'.ctx (descriptorAt m.disk m.ctx g).bgBlockBitmap k
      = bitmapBit m.disk m.ctx (descriptorAt m.disk m.ctx g).bgBlockBitmap k
  inodeBitmaps : ∀ g < m.ctx.numBlockgroups.toNat, ∀ k < m.ctx.superblock.sInodesPerGroup.toNat,
    bitmapBit m'.disk m'.ctx (descriptorAt m.disk m.ctx g).bgInodeBitmap k
      = bitmapBit m.disk m.ctx (descriptorAt m.disk m.ctx g).bgInodeBitmap k
  directories : ∀ ino, IsDirectory m ino →
    (inodeAt m'.disk m'.ctx ino).iSize = (inodeAt m.disk m.ctx ino).iSize ∧
      ∀ p < (inodeAt m.disk m.ctx ino).iSize.toNat,
        fileByte m'.disk m'.ctx (inodeAt m'.disk m'.ctx ino) p
          = fileByte m.disk m.ctx (inodeAt m.disk m.ctx ino) p

variable {h : Host} {m m' : Machine} {fe fe' : FileEnt}

theorem fileByte_sameButSysbuf {v : UInt32 → Sector} {c c' : Ext2Context}
    (hctx : c.SameButSysbuf c') (inode : Inode) (p : Nat) :
    fileByte v c' inode p = fileByte v c inode p := by
  unfold Ext2Context.SameButSysbuf at hctx
  rw [fileByte_sysbuf v c inode (by rw [hctx]) (by rw [hctx])]

/-- Reading the device changes none of it. -/
theorem Quiet.sameMetadata (hq : Quiet m m') : SameMetadata m m' := by
  have hctx := hq.ctx
  unfold Ext2Context.SameButSysbuf at hctx
  constructor
  · rw [hctx]
  · rw [hctx]
  · intro g _
    rw [hq.disk, hctx]
    rfl
  · intro g _ k _
    rw [hq.disk, hctx]
    rfl
  · intro g _ k _
    rw [hq.disk, hctx]
    rfl
  · intro ino _
    have hino : inodeAt m'.disk m'.ctx ino = inodeAt m.disk m.ctx ino := by
      rw [hq.disk, hctx]
      rfl
    rw [hino, hq.disk]
    exact ⟨rfl, fun p _ => fileByte_sameButSysbuf hq.ctx _ p⟩

/-! ## Taking an inode -/

/-- The search of `ext2_allocate_inode`, which only reads: is there a group whose descriptor records
    a free inode, and a clear bit in the bitmap of the first with the most? -/
def findsInode (fe : FileEnt) : Drv Bool := do
  let ctx ← getCtx
  let (most, group) ← mostFreeGroup (·.bgFreeInodesCount) ctx.numBlockgroups.toNat 0 0 0
  if most = 0 then pure false
  else
    let bg ← ext2BgDescriptor group
    let (found, _) ← scanBitmap bg.bgInodeBitmap (ctx.superblock.sInodesPerGroup.toNat / 8) 0 fe
    pure found.isSome

/-- The search succeeds in a state. -/
def FindsInode (h : Host) (fe : FileEnt) (m : Machine) : Prop :=
  ∃ m', findsInode fe h m = .ok (true, m')

theorem idle_of_clean (hclean : fe.buffer.dirty = false) : fe.Idle fun _ => True :=
  ⟨hclean, trivial⟩

/-- `ext2_allocate_inode` takes an inode exactly when its search finds one, and has only read
    otherwise. -/
theorem ext2AllocateInode_cases (hclean : fe.buffer.dirty = false) {r : Int}
    (hrun : ext2AllocateInode fe h m = .ok ((r, fe'), m')) :
    (r ≠ 0 ∧ ¬ FindsInode h fe m ∧ Quiet m m') ∨
    (r = 0 ∧ FindsInode h fe m ∧
      m'.ctx.superblock.sFreeInodesCount = m.ctx.superblock.sFreeInodesCount - 1) := by
  unfold ext2AllocateInode at hrun
  obtain ⟨ctx, m₀, hctx, hrun⟩ := Prog.of_bind_ok hrun
  cases hctx
  obtain ⟨⟨most, g⟩, m₁, hmost, hrun⟩ := Prog.of_bind_ok hrun
  have hq₁ := (quiet_mostFreeGroup _ _ _ _ _ m _ m₁ (.refl m) hmost).1
  by_cases hzero : most = 0
  · subst hzero
    cases hrun
    refine .inl ⟨by decide, ?_, hq₁⟩
    rintro ⟨m₂, hfind⟩
    unfold findsInode at hfind
    rw [Prog.bind_ok getCtx_apply, Prog.bind_ok hmost] at hfind
    cases hfind
  dsimp only at hrun
  rw [if_neg hzero] at hrun
  obtain ⟨bg, m₂, hbg, hrun⟩ := Prog.of_bind_ok hrun
  have hq₂ := (quiet_ext2BgDescriptor _ m₁ _ m₂ hq₁ hbg).1
  obtain ⟨⟨found, fe₁⟩, m₃, hscan, hrun⟩ := Prog.of_bind_ok hrun
  have hq₃ := (quiet_scanBitmap _ _ _ _ (idle_of_clean hclean) m₂ _ m₃ hq₂ hscan).1
  have hfinds : findsInode fe h m = .ok (found.isSome, m₃) := by
    unfold findsInode
    rw [Prog.bind_ok getCtx_apply, Prog.bind_ok hmost]
    dsimp only
    rw [if_neg hzero, Prog.bind_ok hbg, Prog.bind_ok hscan]
    rfl
  cases found with
  | none =>
    refine .inl ?_
    have hnot : ¬ FindsInode h fe m := by
      rintro ⟨m₄, hfind⟩
      rw [hfinds] at hfind
      cases hfind
    dsimp only at hrun
    split at hrun
    · cases hrun
    · cases hrun
      exact ⟨by decide, hnot, hq₃⟩
  | some x =>
    obtain ⟨i, b, j⟩ := x
    obtain ⟨buffer, m₄, hwrite, hrun⟩ := Prog.of_bind_ok hrun
    obtain ⟨⟨r₁, fe₂⟩, m₅, hstore, hrun⟩ := Prog.of_bind_ok hrun
    obtain ⟨r₂, m₆, hbgw, hrun⟩ := Prog.of_bind_ok hrun
    -- only the decrement changes the count
    have hsame : m₆.ctx.superblock.sFreeInodesCount = m.ctx.superblock.sFreeInodesCount := by
      have hsteps₄ : Steps False (ext2WriteBuffer fe₁.buffer [setBit b j] i) :=
        steps_ext2WriteBuffer _ _ _
      have hsteps₅ : ∀ f, Steps False (ext2StoreBuffer f) := fun f => steps_ext2StoreBuffer f
      have hsteps₆ : ∀ bg, Steps False (ext2WriteBgDescriptor bg g) := fun bg =>
        steps_ext2WriteBgDescriptor bg g
      rw [(hsteps₆ _).freeInodes hbgw, (hsteps₅ _).freeInodes hstore, hsteps₄.freeInodes hwrite,
        hq₃.ctx]
    obtain ⟨ctx₆, m₇, hctx, hrun⟩ := Prog.of_bind_ok hrun
    cases hctx
    obtain ⟨⟨⟩, m₈, hset, hrun⟩ := Prog.of_bind_ok hrun
    cases hset
    obtain ⟨r₃, m₉, hflush, hrun⟩ := Prog.of_bind_ok hrun
    cases hrun
    have hsteps₇ : Steps False ext2FlushSuperblock := steps_ext2FlushSuperblock
    refine .inr ⟨rfl, ⟨m₃, hfinds⟩, ?_⟩
    rw [hsteps₇.freeInodes hflush, ← hsame]

/-! ## Opening -/

/-- Does `ext2_open` get as far as taking an inode? The path must not be found (with `ENOENT`), the
    volume must be writable, and the search must find a free inode. All of this only reads. -/
def takesInode (name : List UInt8) (flags : OpenFlags) : Drv Bool := do
  let (ino, fe) ← ext2LookupPath FileEnt.fresh name
  let (i, fe) ← ext2OpenInode fe ino
  let e ← getErrno
  let ctx ← getCtx
  if i = -1 ∧ e = .enoent ∧ ctx.readOnly = false then
    findsInode { fe with flags := openedFlags fe.flags flags }
  else pure false

/-- The call takes an inode in a state. -/
def TakesInode (h : Host) (m : Machine) (name : List UInt8) (flags : OpenFlags) : Prop :=
  ∃ m', takesInode name flags h m = .ok (true, m')

/-- NULL for a file that exists comes before anything is written. -/
theorem ext2OpenExisting_null {flags : OpenFlags} {mode : Nat}
    (hrun : ext2OpenExisting fe flags mode h m = .ok (none, m')) : Quiet m m' := by
  have hfail : ∀ e : Errno, (do setErrno e; pure none : Drv (Option FileEnt)) h m = .ok (none, m') →
      Quiet m m' := by
    intro e hrun
    cases hrun
    exact ⟨rfl, .refl m, rfl⟩
  unfold ext2OpenExisting at hrun
  rw [Prog.ite_apply, Prog.ite_apply] at hrun
  split at hrun
  · exact hfail _ hrun
  split at hrun
  · cases hrun
  obtain ⟨ctx, m₁, hctx, hrun⟩ := Prog.of_bind_ok hrun
  cases hctx
  rw [Prog.ite_apply, Prog.ite_apply, Prog.ite_apply] at hrun
  split at hrun
  · exact hfail _ hrun
  split at hrun
  · exact hfail _ hrun
  split at hrun
  · obtain ⟨t, m₂, -, hrun⟩ := Prog.of_bind_ok hrun
    cases hrun
  · cases hrun

/-- Creating returns NULL before it takes an inode, or keeps what it took. -/
theorem ext2Create_null {name : List UInt8} {mode : Nat} (hclean : fe.buffer.dirty = false)
    (hrun : ext2Create ext2AppendToDirectory fe name mode h m = .ok (none, m')) :
    (m.ctx.readOnly = true ∧ Quiet m m') ∨
    (m.ctx.readOnly = false ∧ ¬ FindsInode h fe m ∧ Quiet m m') ∨
    (m.ctx.readOnly = false ∧ FindsInode h fe m ∧
      m'.ctx.superblock.sFreeInodesCount = m.ctx.superblock.sFreeInodesCount - 1) := by
  unfold ext2Create at hrun
  obtain ⟨ctx, m₁, hctx, hrun⟩ := Prog.of_bind_ok hrun
  cases hctx
  by_cases hro : m.ctx.readOnly = true
  · rw [if_pos hro] at hrun
    cases hrun
    exact .inl ⟨hro, rfl, .refl m, rfl⟩
  rw [if_neg hro] at hrun
  have hro' : m.ctx.readOnly = false := by simpa using hro
  obtain ⟨⟨r, fe₁⟩, m₂, halloc, hrun⟩ := Prog.of_bind_ok hrun
  rcases ext2AllocateInode_cases hclean halloc with ⟨hr, hnot, hq⟩ | ⟨rfl, hfinds, hcount⟩
  · dsimp only at hrun
    rw [if_pos hr] at hrun
    cases hrun
    exact .inr (.inl ⟨hro', hnot, hq.trans ⟨rfl, .refl m₂, rfl⟩⟩)
  · refine .inr (.inr ⟨hro', hfinds, ?_⟩)
    dsimp only at hrun
    rw [if_neg (by decide)] at hrun
    cases hsplit : splitLastSlash name with
    | none =>
      rw [hsplit] at hrun
      cases hrun
      exact hcount
    | some split =>
      rw [hsplit] at hrun
      obtain ⟨r, m₃, happ, hrun⟩ := Prog.of_bind_ok hrun
      have hsteps : Steps False (ext2AppendToDirectory split.1 fe₁.inodeNumber split.2) :=
        steps_ext2AppendToDirectory _ _ _
      by_cases hr : r ≠ 0
      · rw [if_pos hr] at hrun
        cases hrun
        rw [hsteps.freeInodes happ]
        exact hcount
      · -- once the entry is in the directory the call does not fail
        rw [if_neg hr] at hrun
        obtain ⟨_, _, -, hrun⟩ := Prog.of_bind_ok hrun
        obtain ⟨_, _, -, hrun⟩ := Prog.of_bind_ok hrun
        obtain ⟨_, _, -, hrun⟩ := Prog.of_bind_ok hrun
        obtain ⟨_, _, -, hrun⟩ := Prog.of_bind_ok hrun
        obtain ⟨_, _, -, hrun⟩ := Prog.of_bind_ok hrun
        obtain ⟨_, _, -, hrun⟩ := Prog.of_bind_ok hrun
        cases hrun

/-- **Create is atomic on failure** exactly when it fails before it takes an inode: whatever made
    `ext2_open` with `O_CREAT` return NULL, whatever transfers fail. -/
theorem ext2Open_atomic_iff {name : List UInt8} {flags : OpenFlags} {mode : Nat}
    (hcreat : flags.creat = true) (hrun : ext2Open name flags mode h m = .ok (none, m')) :
    SameMetadata m m' ↔ ¬ TakesInode h m name flags := by
  -- the path is looked up, and its inode opened, by reads alone
  obtain ⟨⟨ino, fe₁⟩, m₁, hlookup, hrun⟩ := Prog.of_bind_ok hrun
  obtain ⟨hq₁, hfe₁⟩ := quiet_ext2LookupPath FileEnt.fresh_reader name m _ m₁ (.refl m) hlookup
  obtain ⟨⟨i, fe₂⟩, m₂, hopen, hrun⟩ := Prog.of_bind_ok hrun
  obtain ⟨hq₂, hfe₂⟩ := quiet_ext2OpenInode hfe₁ ino m₁ _ m₂ hq₁ hopen
  obtain ⟨e, m₂', herr, hrun⟩ := Prog.of_bind_ok hrun
  cases herr
  obtain ⟨fe₃, hfe₃⟩ : ∃ f, f = { fe₂ with flags := openedFlags fe₂.flags flags } := ⟨_, rfl⟩
  have hclean : fe₃.buffer.dirty = false := by
    rw [hfe₃]
    exact hfe₂.clean
  have htake : takesInode name flags h m = (if i = -1 ∧ m₂.rerrno = .enoent ∧
      m₂.ctx.readOnly = false then findsInode fe₃ else pure false : Drv Bool) h m₂ := by
    unfold takesInode
    rw [Prog.bind_ok hlookup]
    dsimp only
    rw [Prog.bind_ok hopen]
    dsimp only
    rw [Prog.bind_ok getErrno_apply, Prog.bind_ok getCtx_apply, hfe₃]
  -- a call that has only read keeps everything and takes nothing
  have hquiet : Quiet m₂ m' → ¬ TakesInode h m name flags →
      (SameMetadata m m' ↔ ¬ TakesInode h m name flags) := fun hq hnot =>
    ⟨fun _ => hnot, fun _ => (hq₂.trans hq).sameMetadata⟩
  have hskip : ¬ (i = -1 ∧ m₂.rerrno = .enoent ∧ m₂.ctx.readOnly = false) →
      ¬ TakesInode h m name flags := by
    rintro hno ⟨m₄, htaken⟩
    rw [htake, if_neg hno] at htaken
    cases htaken
  rw [← hfe₃] at hrun
  by_cases hmissing : i = -1 ∧ m₂.rerrno = .enoent
  · rw [if_pos hmissing, hcreat, if_neg (by simp)] at hrun
    rcases ext2Create_null hclean hrun with ⟨hro, hq⟩ | ⟨hro, hnot, hq⟩ | ⟨hro, hfinds, hcount⟩
    · refine hquiet hq (hskip fun hall => ?_)
      rw [hro] at hall
      exact absurd hall.2.2 (by decide)
    · refine hquiet hq ?_
      rintro ⟨m₄, htaken⟩
      rw [htake, if_pos ⟨hmissing.1, hmissing.2, hro⟩] at htaken
      exact hnot ⟨m₄, htaken⟩
    · refine ⟨fun hsame => ?_, fun hnot => ?_⟩
      · -- the count of free inodes has gone down for good
        have heq := hsame.freeInodes
        rw [hcount, hq₂.ctx] at heq
        exact absurd heq (by grind)
      · obtain ⟨m₄, hfind⟩ := hfinds
        refine absurd ⟨m₄, ?_⟩ hnot
        rw [htake, if_pos ⟨hmissing.1, hmissing.2, hro⟩]
        exact hfind
  · have hno : ¬ (i = -1 ∧ m₂.rerrno = .enoent ∧ m₂.ctx.readOnly = false) := fun hall =>
      hmissing ⟨hall.1, hall.2.1⟩
    rw [if_neg hmissing] at hrun
    by_cases hi : i = 0
    · rw [if_pos hi] at hrun
      exact hquiet (ext2OpenExisting_null hrun) (hskip hno)
    · rw [if_neg hi] at hrun
      cases hrun
      exact hquiet (.refl _) (hskip hno)

namespace SmallVolume

/-- `O_RDWR | O_CREAT` -/
def oCreat : OpenFlags := { oRdwr with creat := true }

/-- `O_RDWR | O_CREAT | O_EXCL` -/
def oCreatExcl : OpenFlags := { oCreat with excl := true }

/-- `"n"`, a path without a separator. -/
def pathN : List UInt8 := [110]

/-- An open of the small volume returns NULL with a machine that passes the test. -/
def opensNull (name : List UInt8) (flags : OpenFlags) (mode : Nat) (test : Machine → Bool) : Bool :=
  match ext2Open name flags mode host machine with
  | .ok (none, m') => test m'
  | _ => false

theorem of_opensNull {name : List UInt8} {flags : OpenFlags} {mode : Nat} {test : Machine → Bool}
    (hok : opensNull name flags mode test = true) :
    ∃ m', ext2Open name flags mode host machine = .ok (none, m') ∧ test m' = true := by
  unfold opensNull at hok
  split at hok
  · next m' hrun => exact ⟨m', hrun, hok⟩
  · cases hok

/-- Creating `"n"` returns NULL and has taken an inode. -/
theorem ext2Open_atomic_fails : ∃ m', ext2Open pathN oCreat 0o644 host machine = .ok (none, m') ∧
    ¬ SameMetadata machine m' := by
  have hok : opensNull pathN oCreat 0o644
      (fun m' => m'.ctx.superblock.sFreeInodesCount == 3) = true := by decide +kernel
  obtain ⟨m', hrun, hcount⟩ := of_opensNull hok
  refine ⟨m', hrun, fun hsame => ?_⟩
  have hfree := hsame.freeInodes
  rw [beq_iff_eq.1 hcount] at hfree
  exact absurd hfree (by decide +kernel)

/-- The call takes no inode of the small volume. -/
def takesNone (name : List UInt8) (flags : OpenFlags) : Bool :=
  match takesInode name flags host machine with
  | .ok (taken, _) => !taken
  | .error _ => true

theorem not_takesInode_of_takesNone {name : List UInt8} {flags : OpenFlags}
    (hnone : takesNone name flags = true) : ¬ TakesInode host machine name flags := by
  rintro ⟨m', htaken⟩
  unfold takesNone at hnone
  rw [htaken] at hnone
  cases hnone

/-- Creating `"/f"`, which exists, with `O_EXCL` returns NULL and keeps the volume. -/
theorem ext2Open_atomic_excl : ∃ m', ext2Open pathF oCreatExcl 0 host machine = .ok (none, m') ∧
    SameMetadata machine m' := by
  have hok : opensNull pathF oCreatExcl 0 (fun _ => takesNone pathF oCreatExcl) = true := by
    decide +kernel
  obtain ⟨m', hrun, hnone⟩ := of_opensNull hok
  exact ⟨m', hrun, (ext2Open_atomic_iff rfl hrun).2 (not_takesInode_of_takesNone hnone)⟩

end SmallVolume

end Embext
