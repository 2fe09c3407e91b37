import Embext.Proofs.Growth

set_option autoImplicit false

/-! # The sector that is selected

`ext2_select_buffer` guards none of the steps of its walk: the quotient is cut to 32 bits, a zero
table is read from block 0, and the all-ones answer for an offset past the tables is taken for a
block. A selection stays inside the file exactly when the walk meets none of the three, or meets a
hole all the same. -/

namespace Embext

variable {h : Host} {m m' : Machine} {fe fe' : FileEnt}

/-! ## The blocks of a file -/

/-- The tables below a slot of `i_block`. -/
def PtrPos.depth (p : PtrPos) : Nat := p.slot.val - 11

/-- A position of the tree with `ie` entries in a table: that of a data block or of a table. -/
def PtrPos.Within (ie : Nat) (p : PtrPos) : Prop := p.path.length ≤ p.depth ∧ ∀ i ∈ p.path, i < ie

/-- A block, data or table, that the inode's tree reaches. -/
def InTree (v : UInt32 → Sector) (c : Ext2Context) (inode : Inode) (b : UInt32) : Prop :=
  b ≠ 0 ∧ ∃ p : PtrPos, p.Within (c.blockSize / 4) ∧ treePtr v c inode p = b

/-- Sector `s` is part of block `b`. -/
def SectorOf (c : Ext2Context) (b s : UInt32) : Prop := ∃ off < c.blockSize, s = blockSector c b off

/-- Sector `s` is part of a block that the tree of the handle's inode reaches. -/
def TreeSector (m : Machine) (fe : FileEnt) (s : UInt32) : Prop :=
  ∃ b, InTree (view m fe) m.ctx fe.inode b ∧ SectorOf m.ctx b s

/-- Sector `s` is part of a block that the call ending in `m'` has taken. -/
def TakenSector (h : Host) (m : Machine) (fe : FileEnt) (m' : Machine) (s : UInt32) : Prop :=
  ∃ b m₁ fe₁ previous m₂ fe₂, b ≠ 0 ∧ Loads m fe m₁ fe₁ ∧
    ext2AllocateBlock fe₁ previous h m₁ = .ok ((b, fe₂), m₂) ∧ m'.ctx = m₂.ctx ∧
    SectorOf m.ctx b s

/-- A selection that returns 0: the cursor is not past the largest mappable offset, and the buffer
    holds a sector of the file, on a mapped block, or of a block that has just been taken. -/
structure SelectsOwn (h : Host) (m : Machine) (fe : FileEnt) (m' : Machine) (fe' : FileEnt) :
    Prop where
  mappable : filePos (m.ctx.blockSize / 4) (cursorIndex m fe) ≠ none
  own : fileBlock (view m fe) m.ctx fe.inode (cursorIndex m fe) ≠ 0 ∧
      TreeSector m fe (fe'.buffer.lbaBlock + m.ctx.partStart) ∨
    TakenSector h m fe m' (fe'.buffer.lbaBlock + m.ctx.partStart)

/-- Where the index of the block under the cursor leads once it is cut to 32 bits. -/
def cursorPos (m : Machine) (fe : FileEnt) : Option PtrPos :=
  codePos (m.ctx.blockSize / 4) (cursorIndex m fe % 2 ^ 32)

/-- The walk to the block under the cursor stays inside the tree. -/
inductive OnMap (m : Machine) (fe : FileEnt) : Prop where
  /-- The cut index leads to the block's place, and no pointer on the way is zero. -/
  | mapped (place : cursorPos m fe = filePos (m.ctx.blockSize / 4) (cursorIndex m fe))
      (pointer : fileBlock (view m fe) m.ctx fe.inode (cursorIndex m fe) ≠ 0)
  /-- The cursor is mappable and the walk, zero tables read from block 0, ends in a zero. -/
  | hole (mappable : filePos (m.ctx.blockSize / 4) (cursorIndex m fe) ≠ none) {p : PtrPos}
      (place : cursorPos m fe = some p)
      (zero : followRaw (view m fe) m.ctx (fe.inode.iBlock p.slot) p.path = 0)
  /-- The block is mapped, and the cut index leads elsewhere, but to another sector of the file. -/
  | other (place : cursorPos m fe ≠ filePos (m.ctx.blockSize / 4) (cursorIndex m fe))
      (pointer : fileBlock (view m fe) m.ctx fe.inode (cursorIndex m fe) ≠ 0)
      (sector : TreeSector m fe (cursorSector m fe))

/-! ## Positions -/

/-- The tree holds the pointer of every file block. -/
theorem filePos_within {ie k : Nat} {p : PtrPos} (hp : filePos ie k = some p) : p.Within ie := by
  unfold filePos at hp
  by_cases h0 : k < 12
  · rw [if_pos h0] at hp
    cases hp
    exact ⟨Nat.zero_le _, by simp⟩
  simp only [if_neg h0] at hp
  by_cases h1 : k - 12 < ie
  · rw [if_pos h1] at hp
    cases hp
    exact ⟨Nat.le_refl _, by simpa using h1⟩
  rw [if_neg h1] at hp
  generalize k - 12 - ie = j at hp
  by_cases h2 : j < ie * ie
  · rw [if_pos h2] at hp
    cases hp
    have hie : 0 < ie := Nat.pos_of_mul_pos_right (Nat.zero_lt_of_lt h2)
    exact ⟨Nat.le_refl _, by simpa using ⟨Nat.div_lt_of_lt_mul h2, Nat.mod_lt j hie⟩⟩
  rw [if_neg h2] at hp
  generalize j - ie * ie = i at hp
  by_cases h3 : i < ie * ie * ie
  · rw [if_pos h3] at hp
    cases hp
    have hie : 0 < ie := Nat.pos_of_mul_pos_left (Nat.zero_lt_of_lt h3)
    exact ⟨Nat.le_refl _, by
      simpa using ⟨Nat.div_lt_of_lt_mul h3, Nat.mod_lt (i / ie) hie, Nat.mod_lt i hie⟩⟩
  · rw [if_neg h3] at hp
    cases hp

theorem InTree.fileBlock {v : UInt32 → Sector} {c : Ext2Context} {inode : Inode} {k : Nat}
    (hmap : fileBlock v c inode k ≠ 0) : InTree v c inode (fileBlock v c inode k) := by
  refine ⟨hmap, ?_⟩
  unfold Embext.fileBlock at hmap ⊢
  cases hp : filePos (c.blockSize / 4) k with
  | none =>
    rw [hp] at hmap
    exact absurd rfl hmap
  | some p => exact ⟨p, filePos_within hp, rfl⟩

theorem mappable_of_fileBlock {v : UInt32 → Sector} {c : Ext2Context} {inode : Inode} {k : Nat}
    (hmap : fileBlock v c inode k ≠ 0) : filePos (c.blockSize / 4) k ≠ none := by
  intro hnone
  unfold fileBlock at hmap
  rw [hnone] at hmap
  exact hmap rfl

section

variable (h0 : 0 ≤ fe.cursor) (hmax : fe.cursor ≤ int64Max)
include h0 hmax

/-- The index of `ext2_select_buffer` is that of the block under the cursor, cut to 32 bits. -/
theorem cursorBlock_eq_codeBlock : cursorBlock m fe
    = codeBlock (view m fe) m.ctx fe.inode (cursorIndex m fe % 2 ^ 32) := by
  unfold int64Max at hmax
  have hcursor : (fe.cursor % 2 ^ 64).toNat = fe.cursor.toNat := by omega
  unfold cursorBlock cursorIndex
  rw [hcursor]

/-- The place found for the index decides the block. -/
theorem cursorBlock_of_place {p : PtrPos} (hp : cursorPos m fe = some p) :
    cursorBlock m fe = followRaw (view m fe) m.ctx (fe.inode.iBlock p.slot) p.path := by
  unfold cursorPos at hp
  rw [cursorBlock_eq_codeBlock h0 hmax, codeBlock, hp]

theorem exists_place (hb : cursorBlock m fe = 0) : ∃ p, cursorPos m fe = some p := by
  rw [cursorBlock_eq_codeBlock h0 hmax, codeBlock] at hb
  unfold cursorPos
  cases hp : codePos (m.ctx.blockSize / 4) (cursorIndex m fe % 2 ^ 32) with
  | none =>
    rw [hp] at hb
    exact absurd (show (0xFFFFFFFF : UInt32) = 0 from hb) (by decide)
  | some p => exact ⟨p, rfl⟩

/-- At its own place a mapped block is found. -/
theorem cursorBlock_of_mapped
    (hplace : cursorPos m fe = filePos (m.ctx.blockSize / 4) (cursorIndex m fe))
    (hmap : fileBlock (view m fe) m.ctx fe.inode (cursorIndex m fe) ≠ 0) :
    cursorBlock m fe = fileBlock (view m fe) m.ctx fe.inode (cursorIndex m fe) := by
  unfold fileBlock at hmap ⊢
  cases hp : filePos (m.ctx.blockSize / 4) (cursorIndex m fe) with
  | none =>
    rw [hp] at hmap
    exact absurd rfl hmap
  | some p =>
    simp only [hp] at hmap ⊢
    rw [cursorBlock_of_place h0 hmax (hplace.trans hp)]
    exact followRaw_eq_followTree hmap

end

/-- Below `2 ^ 32` the index leads to the block's own place. -/
theorem cursorPos_eq_filePos (hlt : fe.cursor < 2 ^ 32) :
    cursorPos m fe = filePos (m.ctx.blockSize / 4) (cursorIndex m fe) := by
  have hmul := Nat.div_mul_le_self fe.cursor.toNat m.ctx.blockSize
  have hindex : cursorIndex m fe ≤ fe.cursor.toNat := Nat.div_le_self _ _
  unfold cursorPos
  rw [Nat.mod_eq_of_lt (by omega)]
  refine codePos_eq_filePos _ m.ctx.superblock.sLogBlockSize.toNat rfl ?_
  unfold cursorIndex
  omega

/-! ## What is selected -/

theorem cursor_mod_lt (c : Ext2Context) (x : Int) : (x % c.blockSize).toNat < c.blockSize := by
  have hbs := blockSize_ge c
  have hlt := Int.emod_lt_of_pos x (show (0 : Int) < c.blockSize by omega)
  omega

/-- A block that has been taken is paid for. -/
theorem TakenSector.counted (hh : h.Reliable) (hs : m.ctx.SaneBlockSize) {s : UInt32}
    (htaken : TakenSector h m fe m' s) :
    m'.ctx.superblock.sFreeBlocksCount = m.ctx.superblock.sFreeBlocksCount - 1 := by
  obtain ⟨b, m₁, fe₁, previous, m₂, fe₂, hne, hl, halloc, hctx, -⟩ := htaken
  have hs₁ : m₁.ctx.SaneBlockSize := by
    rw [hl.ctx_eq]
    exact hs
  obtain ⟨-, ha⟩ := of_ext2AllocateBlock_ok hh hs₁ (perGroup_of_ext2AllocateBlock halloc hne) halloc hne
  rw [hctx, ha.counted, hl.ctx_eq]

/-- Over a missing block the selection that returns 0 has taken one. -/
theorem takenSector_of_hole (hh : h.Reliable) (hs : m.ctx.SaneBlockSize) (hb : cursorBlock m fe = 0)
    (hrun : ext2SelectBuffer fe h m = .ok ((0, fe'), m')) :
    TakenSector h m fe m' (fe'.buffer.lbaBlock + m.ctx.partStart) := by
  obtain ⟨b, m₁, fe₁, previous, m₂, fe₂, hne, hl, halloc, -, hvol, hctx, hlba, -⟩ :=
    of_ext2SelectBuffer_hole hh hs hb hrun
  refine ⟨b, m₁, fe₁, previous, m₂, fe₂, hne, hl, halloc, hctx,
    (fe.cursor % m.ctx.blockSize).toNat, cursor_mod_lt _ _, ?_⟩
  have hlt := cursor_mod_lt m.ctx fe.cursor
  have hle := blockSize_le hs
  have hoff : (UInt32.ofNat (fe.cursor % m.ctx.blockSize).toNat).toNat
      = (fe.cursor % m.ctx.blockSize).toNat := by
    apply UInt32.toNat_ofNat_of_lt'
    change _ < 2 ^ 32
    omega
  rw [hoff] at hlba
  have hps : m₂.ctx.partStart = m.ctx.partStart := by rw [hvol]
  have hbs : m₂.ctx.blockSize = m.ctx.blockSize := by
    unfold Ext2Context.blockSize
    rw [hvol]
  rw [← hps, hlba]
  unfold blockSector
  rw [hbs, hps]

/-- A walk that ends in a block takes none, so it has to end in the file. -/
theorem SelectsOwn.sector (hh : h.Reliable) (hs : m.ctx.SaneBlockSize) (hb : cursorBlock m fe ≠ 0)
    (hrun : ext2SelectBuffer fe h m = .ok ((0, fe'), m')) (hown : SelectsOwn h m fe m' fe') :
    fileBlock (view m fe) m.ctx fe.inode (cursorIndex m fe) ≠ 0 ∧
      TreeSector m fe (cursorSector m fe) := by
  obtain ⟨m₁, fe₁, hrun₁, hl, -, -, hlba, -⟩ := ext2SelectBuffer_mapped hh hs hb
  rw [hrun] at hrun₁
  simp only [Except.ok.injEq, Prod.mk.injEq, true_and] at hrun₁
  obtain ⟨rfl, rfl⟩ := hrun₁
  rw [← hlba]
  refine hown.own.resolve_right fun htaken => ?_
  have hcount := htaken.counted hh hs
  rw [hl.ctx_eq] at hcount
  grind

/-- **What is selected.** For every inode and cursor, a selection that succeeds stays inside the
    file if and only if the walk to the block under the cursor does. -/
theorem selectsOwn_iff (hh : h.Reliable) (hs : m.ctx.SaneBlockSize) (h0 : 0 ≤ fe.cursor)
    (hmax : fe.cursor ≤ int64Max) (hrun : ext2SelectBuffer fe h m = .ok ((0, fe'), m')) :
    SelectsOwn h m fe m' fe' ↔ OnMap m fe := by
  by_cases hb : cursorBlock m fe = 0
  · obtain ⟨p, hp⟩ := exists_place h0 hmax hb
    have hzero := cursorBlock_of_place h0 hmax hp
    rw [hb] at hzero
    constructor
    · rintro ⟨hmappable, -⟩
      exact .hole hmappable hp hzero.symm
    · intro hon
      have hmappable : filePos (m.ctx.blockSize / 4) (cursorIndex m fe) ≠ none := by
        cases hon with
        | mapped _ pointer => exact mappable_of_fileBlock pointer
        | hole mappable => exact mappable
        | other _ pointer => exact mappable_of_fileBlock pointer
      exact ⟨hmappable, .inr (takenSector_of_hole hh hs hb hrun)⟩
  · constructor
    · intro hown
      obtain ⟨hpointer, hsector⟩ := hown.sector hh hs hb hrun
      by_cases hplace : cursorPos m fe = filePos (m.ctx.blockSize / 4) (cursorIndex m fe)
      · exact .mapped hplace hpointer
      · exact .other hplace hpointer hsector
    · intro hon
      obtain ⟨m₁, fe₁, hrun₁, -, -, -, hlba, -⟩ := ext2SelectBuffer_mapped hh hs hb
      rw [hrun] at hrun₁
      simp only [Except.ok.injEq, Prod.mk.injEq, true_and] at hrun₁
      obtain ⟨rfl, rfl⟩ := hrun₁
      have hfile : fileBlock (view m fe) m.ctx fe.inode (cursorIndex m fe) ≠ 0 ∧
          TreeSector m fe (cursorSector m fe) := by
        cases hon with
        | mapped place pointer =>
          refine ⟨pointer, _, .fileBlock pointer, (fe.cursor % m.ctx.blockSize).toNat,
            cursor_mod_lt _ _, ?_⟩
          rw [← cursorBlock_of_mapped h0 hmax place pointer]
          rfl
        | hole _ place zero =>
          rw [cursorBlock_of_place h0 hmax place] at hb
          exact absurd zero hb
        | other _ pointer sector => exact ⟨pointer, sector⟩
      refine ⟨mappable_of_fileBlock hfile.1, .inl ?_⟩
      rw [hlba]
      exact hfile

namespace SmallVolume

/-- `/f` with a size that needs a pointer table but without one, before a read past its direct
    blocks. -/
def handleNoTable : FileEnt :=
  { handleF with inode := { fInode with iSize := 13312 }, cursor := 12288 }

/-- The volume with a first word of 7 in block 0, which the file system leaves to the boot loader. -/
def bootMachine : Machine :=
  { machine with disk := Function.update machine.disk 0 (sectorOf [(0, [7])]) }

theorem bootMachine_block : cursorBlock bootMachine handleNoTable = 7 := by decide +kernel

/-- A read of `/f` is given the root directory. -/
theorem selectsOwn_fails : host.Reliable ∧ bootMachine.ctx.SaneBlockSize ∧
    0 ≤ handleNoTable.cursor ∧ handleNoTable.cursor ≤ int64Max ∧ ∃ m' fe',
      ext2SelectBuffer handleNoTable host bootMachine = .ok ((0, fe'), m') ∧
      ¬ SelectsOwn host bootMachine handleNoTable m' fe' := by
  have hb : cursorBlock bootMachine handleNoTable ≠ 0 := by
    rw [bootMachine_block]
    decide
  have hs : bootMachine.ctx.SaneBlockSize := machine_sane
  obtain ⟨m', fe', hrun, -⟩ := ext2SelectBuffer_mapped (h := host) host_reliable hs hb
  refine ⟨host_reliable, hs, by decide, by decide, m', fe', hrun, fun hown => ?_⟩
  have hhole : fileBlock (view bootMachine handleNoTable) bootMachine.ctx handleNoTable.inode
      (cursorIndex bootMachine handleNoTable) = 0 := by decide +kernel
  exact (hown.sector host_reliable hs hb hrun).1 hhole

/-- On its block `/f` is given its own sector. -/
theorem selectsOwn_f : ∃ m' fe', ext2SelectBuffer handleF host machine = .ok ((0, fe'), m') ∧
    SelectsOwn host machine handleF m' fe' := by
  obtain ⟨fe', m', hrun⟩ := of_selects handleF (by decide +kernel)
  refine ⟨m', fe', hrun, (selectsOwn_iff host_reliable machine_sane (by decide) (by decide) hrun).2 ?_⟩
  exact .mapped (cursorPos_eq_filePos (by decide)) (by decide +kernel)

end SmallVolume

end Embext
