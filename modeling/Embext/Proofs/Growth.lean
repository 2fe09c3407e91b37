import Embext.Proofs.AllocateBlock
import Embext.Proofs.Frame

set_option autoImplicit false

/-! # Growing a file

`ext2_select_buffer` on a hole takes a block and stores it in `i_block[0]`, whichever file block is
missing. So only the first block of a file is ever added to its map, and adding any other one loses
the first. -/

namespace Embext

variable {h : Host} {m m' : Machine} {fe fe' : FileEnt} {c : Ext2Context} {v : UInt32 → Sector}

/-! ## The map and `i_block[0]` -/

theorem fileBlock_zero (v : UInt32 → Sector) (c : Ext2Context) (inode : Inode) :
    fileBlock v c inode 0 = inode.iBlock 0 := rfl

/-- Slot 0 is on the way to file block 0 only. -/
theorem filePos_slot_ne {ie k : Nat} (hk : k ≠ 0) {p : PtrPos} (hp : filePos ie k = some p) :
    p.slot ≠ 0 := by
  unfold filePos at hp
  by_cases h0 : k < 12
  · rw [if_pos h0] at hp
    cases hp
    intro hslot
    have hval := congrArg Fin.val hslot
    simp only [Fin.ofNat, Fin.val_zero] at hval
    omega
  simp only [if_neg h0] at hp
  split at hp
  · cases hp
    show (12 : Fin 15) ≠ 0
    decide
  split at hp
  · cases hp
    show (13 : Fin 15) ≠ 0
    decide
  split at hp
  · cases hp
    show (14 : Fin 15) ≠ 0
    decide
  · cases hp

/-- A new `i_block[0]` leaves the other file blocks. -/
theorem fileBlock_setBlock (v : UInt32 → Sector) (c : Ext2Context) (b : UInt32) {k : Nat}
    (hk : k ≠ 0) : fileBlock v c (fe.setBlock 0 b).inode k = fileBlock v c fe.inode k := by
  unfold fileBlock
  cases hp : filePos (c.blockSize / 4) k with
  | none => rfl
  | some p =>
    have hslot : (fe.setBlock 0 b).inode.iBlock p.slot = fe.inode.iBlock p.slot :=
      Function.update_of_ne (filePos_slot_ne hk hp) _ _
    simp only [treePtr, hslot]

/-! ## Growth -/

/-- No bit that `ext2_change_allocated` can set takes part in the file's block map. -/
def MapApart (v : UInt32 → Sector) (c : Ext2Context) (inode : Inode) : Prop :=
  ∀ b : UInt32, b.toNat / c.superblock.sBlocksPerGroup.toNat < c.numBlockgroups.toNat →
    ∀ k, fileBlock ((codePlace v c b).put true v) c inode k = fileBlock v c inode k

/-- The file block under the cursor. -/
def cursorIndex (m : Machine) (fe : FileEnt) : Nat := fe.cursor.toNat / m.ctx.blockSize

/-- The call has taken a block, and the map of the file sends the block under the cursor there and
    all others where it sent them before. -/
def GrowsMap (h : Host) (m : Machine) (fe : FileEnt) (m' : Machine) (fe' : FileEnt) : Prop :=
  ∃ b m₁ fe₁ previous m₂ fe₂, b ≠ 0 ∧ Loads m fe m₁ fe₁ ∧
    ext2AllocateBlock fe₁ previous h m₁ = .ok ((b, fe₂), m₂) ∧
    fileBlock (view m' fe') m'.ctx fe'.inode (cursorIndex m fe) = b ∧
    ∀ k, k ≠ cursorIndex m fe →
      fileBlock (view m' fe') m'.ctx fe'.inode k = fileBlock (view m fe) m.ctx fe.inode k

/-- A selection that succeeds over a hole has taken a block, put it in `i_block[0]` and loaded from
    it. -/
theorem of_ext2SelectBuffer_hole (hh : h.Reliable) (hs : m.ctx.SaneBlockSize)
    (hb : cursorBlock m fe = 0) (hrun : ext2SelectBuffer fe h m = .ok ((0, fe'), m')) :
    ∃ b m₁ fe₁ previous m₂ fe₂, b ≠ 0 ∧ Loads m fe m₁ fe₁ ∧
      ext2AllocateBlock fe₁ previous h m₁ = .ok ((b, fe₂), m₂) ∧ BlockAllocated m₁ fe₁ b m₂ fe₂ ∧
      m.ctx.SameVolume m₂.ctx ∧ m'.ctx = m₂.ctx ∧
      fe'.buffer.lbaBlock + m₂.ctx.partStart
        = blockSector m₂.ctx b (UInt32.ofNat (fe.cursor % m.ctx.blockSize).toNat).toNat ∧
      Loads m₂ (fe₂.setBlock 0 b) m' fe' := by
  obtain ⟨m₁, fe₁, previous, hl, hwalk⟩ := ext2SelectBuffer_walk fe hh hs
  have hs₁ : m₁.ctx.SaneBlockSize := by
    rw [hl.ctx_eq]
    exact hs
  rw [hwalk, if_neg (not_not.2 hb)] at hrun
  by_cases hw : fe.flags.write = true
  swap
  · rw [if_neg hw] at hrun
    cases hrun
  rw [if_pos hw] at hrun
  obtain ⟨⟨b, fe₂⟩, m₂, halloc, hrun⟩ := Prog.of_bind_ok hrun
  dsimp only at hrun
  by_cases hne : b = 0
  · rw [if_neg (not_not.2 hne)] at hrun
    cases hrun
  rw [if_pos hne] at hrun
  obtain ⟨-, ha⟩ := of_ext2AllocateBlock_ok hh hs₁ (perGroup_of_ext2AllocateBlock halloc hne) halloc hne
  have hvol : m.ctx.SameVolume m₂.ctx := by
    rw [← hl.ctx_eq]
    exact (show Steps True _ from steps_ext2AllocateBlock fe₁ previous).sameVolume halloc
  have hs₂ : m₂.ctx.SaneBlockSize := by
    have hlog : m₂.ctx.superblock.sLogBlockSize = m.ctx.superblock.sLogBlockSize := by rw [hvol]
    unfold Ext2Context.SaneBlockSize
    rw [hlog]
    exact hs
  rw [Prog.bind_ok (ext2LoadBuffer_ok hh hs₂ _ _)] at hrun
  simp only [Prog.pure_apply, Except.ok.injEq, Prod.mk.injEq, true_and] at hrun
  obtain ⟨rfl, rfl⟩ := hrun
  exact ⟨b, m₁, fe₁, previous, m₂, fe₂, hne, hl, halloc, ha, hvol, rfl, rfl, .load b _⟩

/-- The index before the first block, cut to 32 bits, is past the tables of every block size. -/
theorem codePos_last : ∀ s < 21, codePos (1024 * 2 ^ s / 4) (2 ^ 32 - 1) = none := by
  decide

/-- Over a missing first block the call goes straight to the allocator. -/
theorem ext2SelectBuffer_first (hs : m.ctx.SaneBlockSize) (h0 : 0 ≤ fe.cursor)
    (hfirst : cursorIndex m fe = 0) (hmissing : fe.inode.iBlock 0 = 0)
    (hw : fe.flags.write = true) : ext2SelectBuffer fe h m = (do
      let (newBlock, fe') ← ext2AllocateBlock fe 0xFFFFFFFF
      if newBlock ≠ 0 then
        let (_, fe) ← ext2LoadBuffer (fe'.setBlock 0 newBlock) newBlock
          (UInt32.ofNat (fe.cursor % m.ctx.blockSize).toNat)
        pure (0, fe)
      else pure (-1, fe') : Drv (Int × FileEnt)) h m := by
  have hbs := blockSize_ge m.ctx
  have hle := blockSize_le hs
  have hlt : fe.cursor.toNat < m.ctx.blockSize := by
    unfold cursorIndex at hfirst
    exact Nat.lt_of_div_eq_zero (by omega) hfirst
  -- the block before it has the index 2^32 - 1
  have hbefore : ((fe.cursor / m.ctx.blockSize - 1) * m.ctx.blockSize % 2 ^ 64).toNat
      / m.ctx.blockSize % 2 ^ 32 = 2 ^ 32 - 1 := by
    have hzero : fe.cursor / m.ctx.blockSize = 0 := Int.ediv_eq_zero_of_lt h0 (by omega)
    have hoffset : ((fe.cursor / m.ctx.blockSize - 1) * m.ctx.blockSize % 2 ^ 64).toNat
        = 2 ^ 64 - m.ctx.blockSize := by
      rw [hzero]
      omega
    obtain ⟨q, hq⟩ : m.ctx.blockSize ∣ 2 ^ 32 := blockSize_dvd_pow hs (by decide)
    rw [hoffset]
    have hq64 : 2 ^ 64 - m.ctx.blockSize = m.ctx.blockSize * (2 ^ 32 * q - 1) := by
      rw [Nat.mul_sub, Nat.mul_one, Nat.mul_left_comm, ← hq, ← Nat.pow_add]
    have hpos : 0 < q := Nat.pos_of_ne_zero (by rintro rfl; simp at hq)
    rw [hq64, Nat.mul_div_cancel_left _ (by omega)]
    omega
  have hnone : codePos (m.ctx.blockSize / 4) (2 ^ 32 - 1) = none :=
    codePos_last _ (Nat.lt_succ_of_le hs)
  have hindex : (fe.cursor % 2 ^ 64).toNat / m.ctx.blockSize % 2 ^ 32 = 0 := by
    rw [Int.emod_eq_of_lt h0 (by omega), Nat.div_eq_of_lt hlt, Nat.zero_mod]
  have hblock : codeBlock (view m fe) m.ctx fe.inode 0 = 0 := hmissing
  have hprevious : codeBlock (view m fe) m.ctx fe.inode (2 ^ 32 - 1) = 0xFFFFFFFF := by
    unfold codeBlock
    rw [hnone]
  unfold ext2SelectBuffer
  rw [Prog.bind_ok (ext2BlockSize_ok hs),
    Prog.bind_ok (ext2BlockFromOffset_resident fe hs hindex (.inl (by decide)))]
  dsimp only
  rw [Prog.bind_ok (ext2BlockFromOffset_resident fe hs hbefore (.inr hnone)), hprevious, hblock]
  dsimp only
  rw [if_neg (not_not.2 rfl), if_pos hw]

/-- What a successful selection over a hole has done: nothing that the map shows, when the code has
    followed a missing table to a pointer, or it has put a new block in `i_block[0]`. -/
theorem ext2SelectBuffer_grown (hh : h.Reliable) (hs : m.ctx.SaneBlockSize)
    (hapart : MapApart (view m fe) m.ctx fe.inode)
    (hrun : ext2SelectBuffer fe h m = .ok ((0, fe'), m')) :
    (cursorBlock m fe ≠ 0 ∧ ∀ k, fileBlock (view m' fe') m'.ctx fe'.inode k
        = fileBlock (view m fe) m.ctx fe.inode k) ∨
    ∃ b m₁ fe₁ previous m₂ fe₂, b ≠ 0 ∧ Loads m fe m₁ fe₁ ∧
      ext2AllocateBlock fe₁ previous h m₁ = .ok ((b, fe₂), m₂) ∧
      fileBlock (view m' fe') m'.ctx fe'.inode 0 = b ∧
      ∀ k, k ≠ 0 → fileBlock (view m' fe') m'.ctx fe'.inode k
        = fileBlock (view m fe) m.ctx fe.inode k := by
  by_cases hb : cursorBlock m fe ≠ 0
  · left
    obtain ⟨m₁, fe₁, hrun₁, hl, -⟩ := ext2SelectBuffer_mapped hh hs hb
    rw [hrun] at hrun₁
    simp only [Except.ok.injEq, Prod.mk.injEq, true_and] at hrun₁
    obtain ⟨rfl, rfl⟩ := hrun₁
    refine ⟨hb, fun k => ?_⟩
    rw [hl.view_eq, hl.ctx_eq, hl.handle]
  right
  obtain ⟨b, m₁, fe₁, previous, m₂, fe₂, hne, hl, halloc, ha, hvol, -, -, hload⟩ :=
    of_ext2SelectBuffer_hole hh hs (not_not.1 hb) hrun
  have hlog : m₂.ctx.superblock.sLogBlockSize = m.ctx.superblock.sLogBlockSize := by rw [hvol]
  have hps : m₂.ctx.partStart = m.ctx.partStart := by rw [hvol]
  have hclean : (fe₂.setBlock 0 b).buffer.dirty = false := ha.clean
  have hview : view m₂ (fe₂.setBlock 0 b) = (codePlace (view m fe) m.ctx b).put true (view m fe) := by
    simp only [view, hclean, Bool.false_eq_true, if_false]
    rw [ha.disk, hl.view_eq, hl.ctx_eq]
    rfl
  have hinode : fe₂.inode = fe.inode := by rw [ha.handle, hl.handle]
  have hinode' : fe'.inode = (fe₂.setBlock 0 b).inode := by rw [hload.handle]
  refine ⟨b, m₁, fe₁, previous, m₂, fe₂, hne, hl, halloc, ?_, fun k hk => ?_⟩
  · rw [fileBlock_zero, hinode']
    exact Function.update_self (0 : Fin 15) b fe₂.inode.iBlock
  · rw [hload.view_eq, hview, hload.ctx_eq, hinode', fileBlock_sysbuf _ m.ctx _ _ hlog hps]
    have hgroup := ha.group
    rw [hl.ctx_eq] at hgroup
    refine (fileBlock_setBlock _ _ _ hk).trans ?_
    rw [hinode]
    exact hapart b hgroup k

/-- A file only grows by its first block. -/
theorem GrowsMap.first (hh : h.Reliable) (hs : m.ctx.SaneBlockSize)
    (hhole : fileBlock (view m fe) m.ctx fe.inode (cursorIndex m fe) = 0)
    (hapart : MapApart (view m fe) m.ctx fe.inode)
    (hrun : ext2SelectBuffer fe h m = .ok ((0, fe'), m')) (hgrows : GrowsMap h m fe m' fe') :
    cursorIndex m fe = 0 := by
  obtain ⟨b, -, -, -, -, -, hne, -, -, hmap, -⟩ := hgrows
  by_contra hk
  have hkept : fileBlock (view m' fe') m'.ctx fe'.inode (cursorIndex m fe)
      = fileBlock (view m fe) m.ctx fe.inode (cursorIndex m fe) := by
    rcases ext2SelectBuffer_grown hh hs hapart hrun with
      ⟨-, hsame⟩ | ⟨-, -, -, -, -, -, -, -, -, -, hsame⟩
    · exact hsame _
    · exact hsame _ hk
  rw [hkept, hhole] at hmap
  exact hne hmap.symm

/-- A file without pointer tables has a map that no mark reaches. -/
theorem MapApart.of_direct {inode : Inode} (h12 : inode.iBlock 12 = 0) (h13 : inode.iBlock 13 = 0)
    (h14 : inode.iBlock 14 = 0) : MapApart v c inode := fun _ _ k => by
  rw [fileBlock_direct h12 h13 h14, fileBlock_direct h12 h13 h14]

namespace SmallVolume

set_option maxRecDepth 4000

/-- `/f` open for writing behind its only block. -/
def handleFGrowing : FileEnt :=
  { handleF with flags := ⟨true, true, false, false⟩, cursor := 1024 }

/-- `/e`, empty, open for writing. -/
def handleE : FileEnt :=
  { FileEnt.fresh with
    flags := ⟨true, true, false, false⟩
    inodeNumber := 12
    inode := eInode }

/-- Whether a selection returns 0. -/
def selects (fe : FileEnt) : Bool :=
  match ext2SelectBuffer fe host machine with
  | .ok ((0, _), _) => true
  | _ => false

theorem of_selects (fe : FileEnt) (hsel : selects fe = true) :
    ∃ fe' m', ext2SelectBuffer fe host machine = .ok ((0, fe'), m') := by
  unfold selects at hsel
  split at hsel
  · next fe' m' hrun => exact ⟨fe', m', hrun⟩
  · cases hsel

end SmallVolume

end Embext
