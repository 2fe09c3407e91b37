import Embext.Proofs.Bitmap
import Embext.Proofs.Layout
import Embext.Proofs.Superblock

set_option autoImplicit false

/-! # Taking an inode

`ext2_allocate_inode` sets the first clear bit of the bitmap of the group whose descriptor records
the most free inodes, counts the superblock down and flushes it. The descriptors on the device stay
as they are. -/

namespace Embext

variable {h : Host} {m m' : Machine} {fe fe' : FileEnt} {c : Ext2Context} {v v' : UInt32 → Sector}

/-! ## One call -/

/-- The group `ext2_allocate_inode` chooses, with its recorded free count. -/
def mostFreeInodes (v : UInt32 → Sector) (c : Ext2Context) : UInt16 × UInt32 :=
  mostFree (fun g => (descriptorAt v c g).bgFreeInodesCount) c.numBlockgroups.toNat 0 0 0

/-- The place of inode `k` of group `g` in the inode bitmaps. -/
def inodePlace (v : UInt32 → Sector) (c : Ext2Context) (g k : Nat) : BitPlace :=
  bitmapPlace c (descriptorAt v c g).bgInodeBitmap k

theorem inodePlace_valid (v : UInt32 → Sector) (c : Ext2Context) (g k : Nat) :
    (inodePlace v c g k).Valid := bitmapPlace_valid _ _ _

/-- The bit there. -/
def inodeBit (v : UInt32 → Sector) (c : Ext2Context) (g k : Nat) : Bool :=
  (inodePlace v c g k).get v

/-- No target of a flush. -/
def OffCopies (c : Ext2Context) (x : UInt32) : Prop :=
  ∀ b ∈ c.superblockBlocks, copySector c b ≠ x

instance (c : Ext2Context) (x : UInt32) : Decidable (OffCopies c x) :=
  List.decidableBAll (fun b => copySector c b ≠ x) c.superblockBlocks

/-- The outcomes of a call on a handle with a clean buffer: no descriptor records a free inode, the
    chosen group has none in spite of its record, or its first free one is taken. -/
inductive InodeOutcome (m : Machine) (fe : FileEnt) : Int → FileEnt → Machine → Prop where
  | none {m' : Machine} (records : (mostFreeInodes m.disk m.ctx).1 = 0) (looks : m.Browsed m') :
      InodeOutcome m fe (-1) { fe with rerrno := .enospc } m'
  | stale {fe' : FileEnt} {m' : Machine} (records : (mostFreeInodes m.disk m.ctx).1 ≠ 0)
      (full : ∀ k < m.ctx.superblock.sInodesPerGroup.toNat,
        inodeBit m.disk m.ctx (mostFreeInodes m.disk m.ctx).2.toNat k = true)
      (looks : m.Browsed m') : InodeOutcome m fe (-1) fe' m'
  | taken {k : Nat} {fe' : FileEnt} {m' : Machine}
      (records : (mostFreeInodes m.disk m.ctx).1 ≠ 0)
      (index : k < m.ctx.superblock.sInodesPerGroup.toNat)
      (clear : inodeBit m.disk m.ctx (mostFreeInodes m.disk m.ctx).2.toNat k = false)
      (number : fe'.inodeNumber = UInt32.ofNat (m.ctx.superblock.sInodesPerGroup.toNat
        * (mostFreeInodes m.disk m.ctx).2.toNat + k + 1))
      (disk : ∀ x, OffCopies m.ctx x → m'.disk x
        = (inodePlace m.disk m.ctx (mostFreeInodes m.disk m.ctx).2.toNat k).put true m.disk x)
      (volume : m.ctx.SameVolume m'.ctx)
      (free : m'.ctx.superblock.sFreeInodesCount = m.ctx.superblock.sFreeInodesCount - 1) :
      InodeOutcome m fe 0 fe' m'

theorem Loads.browsed (hl : Loads m fe m' fe') (hclean : fe.buffer.dirty = false) :
    m.Browsed m' := by
  refine ⟨m'.ctx.sysbuf, m'.log, ?_⟩
  rw [hl.ctx_eq]
  conv_lhs => rw [hl.machine, (hl.clean hclean).2]

/-- The steps of a call that finds a free inode. -/
theorem ext2AllocateInode_found {m₀ m₁ m₂ m₃ m₄ m₅ : Machine} {fe₂ fe₃ : FileEnt} {most : UInt16}
    {g : UInt32} {bg : BlockGroupDescriptor} {p j : Nat} {b : UInt8} {r w z : Int}
    (hmost : mostFreeGroup (·.bgFreeInodesCount) m.ctx.numBlockgroups.toNat 0 0 0 h m
      = .ok ((most, g), m₀)) (hne : most ≠ 0) (hbg : ext2BgDescriptor g h m₀ = .ok (bg, m₁))
    (hscan : scanBitmap bg.bgInodeBitmap (m.ctx.superblock.sInodesPerGroup.toNat / 8) 0 fe h m₁
      = .ok ((some (p, b, j), fe₂), m₂))
    (hstore : ext2StoreBuffer { fe₂ with
        inodeNumber := UInt32.ofNat
          (m.ctx.superblock.sInodesPerGroup.toNat * g.toNat + p * 8 + j + 1)
        buffer := { fe₂.buffer with
          buffer := Window.patch fe₂.buffer.buffer (p % 512) [setBit b j], dirty := true } } h m₂
      = .ok ((r, fe₃), m₃))
    (hwrite : ext2WriteBgDescriptor { bg with bgFreeInodesCount := bg.bgFreeInodesCount - 1 } g h m₃
      = .ok (w, m₄))
    (hflush : ext2FlushSuperblock h { m₄ with ctx := { m₄.ctx with superblock :=
        { m₄.ctx.superblock with sFreeInodesCount := m₄.ctx.superblock.sFreeInodesCount - 1 } } }
      = .ok (z, m₅)) : ext2AllocateInode fe h m = .ok ((0, fe₃), m₅) := by
  have hbyte : p % 512 + [setBit b j].length ≤ 512 := by
    have := Nat.mod_lt p (show 0 < 512 by decide)
    rw [List.length_singleton]
    omega
  unfold ext2AllocateInode
  rw [Prog.bind_ok getCtx_apply]
  refine (Prog.bind_ok hmost).trans ?_
  refine ((Prog.ite_apply _ _ _ _ _).trans (if_neg hne)).trans ?_
  refine (Prog.bind_ok hbg).trans ((Prog.bind_ok hscan).trans ?_)
  refine (Prog.bind_ok (ext2WriteBuffer_ok hbyte)).trans ((Prog.bind_ok hstore).trans ?_)
  refine (Prog.bind_ok hwrite).trans ((Prog.bind_ok getCtx_apply).trans ?_)
  exact (Prog.bind_ok (setCtx_apply _)).trans (Prog.bind_ok hflush)

theorem OffCopies.congr {x : UInt32} (hx : OffCopies c x) {c' : Ext2Context}
    (hvol : c.SameVolume c') : OffCopies c' x := by
  unfold Ext2Context.SameVolume at hvol
  rw [hvol]
  exact hx

/-- The bit that was found, set in the buffer, is the device with the bit put. -/
theorem put_found {bitmap : UInt32} {p j : Nat} (hj : j < 8) (v : UInt32 → Sector) :
    Function.update v (blockSector c bitmap p) (Window.patch (v (blockSector c bitmap p)) (p % 512)
      [setBit (blockByte v c bitmap p) j]) = (bitmapPlace c bitmap (8 * p + j)).put true v := by
  have hbyte : (8 * p + j) / 8 = p := by omega
  have hbit : (8 * p + j) % 8 = j := by omega
  unfold BitPlace.put bitmapPlace blockByte
  simp only [hbyte, hbit, if_true]

/-- What the flush at the end of a successful call leaves. -/
theorem flushed_taken {m₂ m₃ m₄ : Machine} (hb : m.Browsed m₂) {w : UInt32 → Sector}
    {l : List Transfer} (hb₃ : Machine.Browsed { m₂ with disk := w, log := l } m₃)
    (hm₄ : m₄ = { m₃ with ctx := { m₃.ctx with superblock := { m₃.ctx.superblock with
      sFreeInodesCount := m₃.ctx.superblock.sFreeInodesCount - 1 } } }) :
    (∀ x, OffCopies m.ctx x → (flushed m₄).disk x = w x) ∧ m.ctx.SameVolume (flushed m₄).ctx ∧
      (flushed m₄).ctx.superblock.sFreeInodesCount = m.ctx.superblock.sFreeInodesCount - 1 := by
  obtain ⟨s, l, rfl⟩ := hb
  obtain ⟨s', l', rfl⟩ := hb₃
  have hvol : m.ctx.SameVolume m₄.ctx := by
    rw [hm₄]
    rfl
  have hdisk : m₄.disk = w := by rw [hm₄]
  refine ⟨fun x hx => ?_, hvol.trans (flushed_sameVolume m₄), ?_⟩
  · rw [flushed_other (hx.congr hvol), hdisk]
  · obtain ⟨g, hg⟩ := flushed_superblock m₄
    rw [hg, hm₄]

theorem ext2AllocateInode_ok (fe : FileEnt) (hh : h.Reliable) (hs : m.ctx.SaneBlockSize)
    (hclean : fe.buffer.dirty = false) (hpos : 0 < m.ctx.superblock.sInodesPerGroup.toNat)
    (hwhole : 8 ∣ m.ctx.superblock.sInodesPerGroup.toNat) : ∃ r fe' m',
    ext2AllocateInode fe h m = .ok ((r, fe'), m') ∧ InodeOutcome m fe r fe' m' := by
  have hN := m.ctx.numBlockgroups.toNat_lt
  have hipg := m.ctx.superblock.sInodesPerGroup.toNat_lt
  obtain ⟨m₀, hmost, hb₀⟩ := mostFreeGroup_ok hh (·.bgFreeInodesCount)
    m.ctx.numBlockgroups.toNat 0 0 0 hs (by omega)
  by_cases hrec : (mostFreeInodes m.disk m.ctx).1 = 0
  · refine ⟨_, _, m₀, ?_, .none hrec hb₀⟩
    unfold ext2AllocateInode
    rw [Prog.bind_ok getCtx_apply]
    refine (Prog.bind_ok hmost).trans ?_
    exact (Prog.ite_apply _ _ _ _ _).trans (if_pos hrec)
  obtain ⟨hlt, -⟩ := mostFree_lt _ hN hrec
  obtain ⟨m₁, hbg, hb₁⟩ := ext2BgDescriptor_browsed hh (hb₀.sane hs)
    (g := (mostFreeInodes m.disk m.ctx).2) (by rw [hb₀.groups]; exact hlt)
  obtain ⟨bg, hdesc⟩ : ∃ bg, descriptorAt m.disk m.ctx (mostFreeInodes m.disk m.ctx).2.toNat = bg :=
    ⟨_, rfl⟩
  have hplace : ∀ k, inodePlace m.disk m.ctx (mostFreeInodes m.disk m.ctx).2.toNat k
      = bitmapPlace m.ctx bg.bgInodeBitmap k := fun k => by rw [inodePlace, hdesc]
  rw [hb₀.descriptorAt, hdesc] at hbg
  have hb₁ := hb₀.trans hb₁
  have hs₁ := hb₁.sane hs
  obtain ⟨s₁, l₁, rfl⟩ := hb₁
  obtain ⟨found, m₂, fe₂, hscan, hl, hfinds⟩ := scanBitmap_ok hh bg.bgInodeBitmap
    (m.ctx.superblock.sInodesPerGroup.toNat / 8) fe 0 hs₁ (by omega)
  have hb₂ : m.Browsed m₂ := Machine.Browsed.trans ⟨s₁, l₁, rfl⟩ (hl.browsed hclean)
  have hview : view { m with log := l₁, ctx := { m.ctx with sysbuf := s₁ } } fe = m.disk := by
    rw [view, if_neg (by rw [hclean]; decide)]
  rw [hview] at hfinds
  cases hfinds with
  | none full =>
    refine ⟨-1, { fe₂ with rerrno := .eio }, m₂, ?_, .stale hrec (fun k hk => ?_) hb₂⟩
    · unfold ext2AllocateInode
      rw [Prog.bind_ok getCtx_apply]
      refine (Prog.bind_ok hmost).trans ?_
      refine ((Prog.ite_apply _ _ _ _ _).trans (if_neg hrec)).trans ?_
      refine (Prog.bind_ok hbg).trans ((Prog.bind_ok hscan).trans ?_)
      exact (Prog.ite_apply _ _ _ _ _).trans (if_neg (by omega))
    · rw [inodeBit, hplace]
      exact full k (by omega) (by omega)
  | @some p j lo hi bit clear first buffer =>
    obtain ⟨x, hx⟩ : ∃ x, blockSector m.ctx bg.bgInodeBitmap p = x := ⟨_, rfl⟩
    have hbuf : fe₂.buffer.buffer = m.disk x := by
      rw [buffer, ← hx]
      rfl
    -- the buffer goes back to the sector it was loaded from
    have hsec : fe₂.buffer.lbaBlock + m₂.ctx.partStart = x := by
      rw [buffer, hl.ctx_eq, ← hx]
      rfl
    have hput : Function.update m₂.disk x (Window.patch fe₂.buffer.buffer (p % 512)
        [setBit (blockByte m.disk m.ctx bg.bgInodeBitmap p) j])
        = (bitmapPlace m.ctx bg.bgInodeBitmap (8 * p + j)).put true m.disk := by
      rw [hbuf, hb₂.disk, ← hx, put_found bit]
    have hstore : ext2StoreBuffer { fe₂ with
        inodeNumber := UInt32.ofNat (m.ctx.superblock.sInodesPerGroup.toNat
          * (mostFreeInodes m.disk m.ctx).2.toNat + p * 8 + j + 1)
        buffer := { fe₂.buffer with
          buffer := Window.patch fe₂.buffer.buffer (p % 512)
            [setBit (blockByte m.disk m.ctx bg.bgInodeBitmap p) j]
          dirty := true } } h m₂ = _ := ext2StoreBuffer_at hh hsec
    dsimp only at hstore
    rw [hput] at hstore
    generalize hw : (bitmapPlace m.ctx bg.bgInodeBitmap (8 * p + j)).put true m.disk = w at hstore
    obtain ⟨m₃, hwrite, hb₃⟩ := ext2WriteBgDescriptor_ok hh
      (m := { m₂ with disk := w, log := .write x true :: m₂.log }) (hb₂.sane hs)
      { bg with bgFreeInodesCount := bg.bgFreeInodesCount - 1 }
      (g := (mostFreeInodes m.disk m.ctx).2) (by
        change _ < m₂.ctx.numBlockgroups.toNat
        rw [hb₂.groups]
        exact hlt)
    have hflush := ext2FlushSuperblock_ok hh (m := { m₃ with ctx := { m₃.ctx with
      superblock := { m₃.ctx.superblock with
        sFreeInodesCount := m₃.ctx.superblock.sFreeInodesCount - 1 } } })
      (log_succ_lt (hb₃.sane (hb₂.sane hs)))
    obtain ⟨hdisk, hvol, hfree⟩ := flushed_taken hb₂ hb₃ rfl
    have hrun := ext2AllocateInode_found hmost hrec hbg hscan hstore hwrite hflush
    rw [← hw] at hdisk
    refine ⟨_, _, _, hrun, .taken hrec (k := 8 * p + j) (by omega) ?_ ?_ ?_ hvol hfree⟩
    · rw [inodeBit, hplace]
      exact clear
    · rw [Nat.mul_comm p 8, Nat.add_assoc _ (8 * p) j]
    · rw [hplace]
      exact hdisk

end Embext
