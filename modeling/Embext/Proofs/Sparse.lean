import Embext.Proofs.Calls
import Embext.Proofs.Growth

set_option autoImplicit false

/-! # Reading sparse files

A hole of the block map reads as zeros, in a file's own terms. `ext2_read` shares
`ext2_select_buffer` with `ext2_write`, which on a missing block takes a new one when the handle may
write and fails when it may not: a read delivers what it should, and leaves what is allocated alone,
exactly when it does not start on a missing block. -/

namespace Embext

variable {h : Host} {m m' : Machine} {fe fe' : FileEnt}

/-! ## What a read should do -/

/-- Byte `p` of the file, zero in a hole. -/
def sparseByte (v : UInt32 → Sector) (c : Ext2Context) (inode : Inode) (p : Nat) : UInt8 :=
  if fileBlock v c inode (p / c.blockSize) = 0 then 0 else fileByte v c inode p

/-- Bytes `cursor` to `cursor + n` of the file behind a handle. -/
def sparseAhead (m : Machine) (fe : FileEnt) (n : Nat) : List UInt8 :=
  (List.range n).map fun k => sparseByte (view m fe) m.ctx fe.inode (fe.cursor.toNat + k)

/-- Nothing that records an allocation has changed: block bitmaps, descriptors, free counters and
    the inode's pointers. -/
structure AllocationKept (m : Machine) (fe : FileEnt) (m' : Machine) (fe' : FileEnt) : Prop where
  bitmaps : ∀ g k, bitmapBit (view m' fe') m'.ctx (descriptorAt (view m fe) m.ctx g).bgBlockBitmap k
    = bitmapBit (view m fe) m.ctx (descriptorAt (view m fe) m.ctx g).bgBlockBitmap k
  descriptors : ∀ g, descriptorAt (view m' fe') m'.ctx g = descriptorAt (view m fe) m.ctx g
  freeBlocks : m'.ctx.superblock.sFreeBlocksCount = m.ctx.superblock.sFreeBlocksCount
  freeInodes : m'.ctx.superblock.sFreeInodesCount = m.ctx.superblock.sFreeInodesCount
  pointers : fe'.inode.iBlock = fe.inode.iBlock

/-- The read delivers the `min(count, max(0, i_size - cursor))` bytes of the file, zeros for its
    holes, and allocates nothing. -/
def ReadsSparse (h : Host) (m : Machine) (fe : FileEnt) (count : Nat) : Prop :=
  ∃ m' fe', ext2Read fe count h m
      = .ok ((readLength fe count, sparseAhead m fe (readLength fe count), fe'), m') ∧
    AllocationKept m fe m' fe'

/-- The handle as `O_RDWR` or `O_RDONLY` opens it. -/
def FileEnt.withWrite (fe : FileEnt) (w : Bool) : FileEnt :=
  { fe with flags := { fe.flags with read := true, write := w } }

/-- In both modes the read delivers the same bytes and allocates nothing. -/
def ReadsAlike (h : Host) (m : Machine) (fe : FileEnt) (count : Nat) : Prop :=
  ∀ w, ReadsSparse h m (fe.withWrite w) count

/-- There is nothing to deliver, or all of it lies in the sector under the cursor, whose block is
    mapped, or is missing with one of its tables and the block the walk then ends at holds zeros
    there. -/
def StartsMapped (m : Machine) (fe : FileEnt) (n : Nat) : Prop :=
  n = 0 ∨ fe.cursor.toNat % 512 + n ≤ 512 ∧
    (fileBlock (view m fe) m.ctx fe.inode (cursorIndex m fe) ≠ 0 ∨
      cursorBlock m fe ≠ 0 ∧ sectorBytes m fe n = List.replicate n 0)

/-! ## The bytes in one sector -/

/-- On a mapped block nothing reads as a hole. -/
theorem sparseAhead_mapped {n : Nat} (hfit : fe.cursor.toNat % 512 + n ≤ 512)
    (hmap : fileBlock (view m fe) m.ctx fe.inode (cursorIndex m fe) ≠ 0) :
    sparseAhead m fe n = bytesAhead m fe n := by
  apply List.map_congr_left
  intro k hk
  rw [List.mem_range] at hk
  obtain ⟨hdiv, -, -⟩ := add_in_sector m.ctx (c := fe.cursor.toNat) (k := k) (by omega)
  unfold sparseByte
  rw [hdiv]
  exact if_neg hmap

/-- On a missing block everything does. -/
theorem sparseAhead_hole {n : Nat} (hfit : fe.cursor.toNat % 512 + n ≤ 512)
    (hhole : fileBlock (view m fe) m.ctx fe.inode (cursorIndex m fe) = 0) :
    sparseAhead m fe n = List.replicate n 0 := by
  rw [List.eq_replicate_iff]
  refine ⟨by simp [sparseAhead], fun b hb => ?_⟩
  obtain ⟨k, hk, rfl⟩ := List.mem_map.1 hb
  rw [List.mem_range] at hk
  obtain ⟨hdiv, -, -⟩ := add_in_sector m.ctx (c := fe.cursor.toNat) (k := k) (by omega)
  unfold sparseByte
  rw [hdiv]
  exact if_pos hhole

/-! ## What a read does -/

/-- A selection over a missing block has taken a block. -/
theorem ext2SelectBuffer_counted (hh : h.Reliable) (hs : m.ctx.SaneBlockSize)
    (hb : cursorBlock m fe = 0) (hrun : ext2SelectBuffer fe h m = .ok ((0, fe'), m')) :
    m'.ctx.superblock.sFreeBlocksCount = m.ctx.superblock.sFreeBlocksCount - 1 := by
  obtain ⟨b, m₁, fe₁, previous, m₂, fe₂, -, hl, -, ha, -, hctx, -⟩ :=
    of_ext2SelectBuffer_hole hh hs hb hrun
  rw [hctx, ha.counted, hl.ctx_eq]

/-- A read that delivers something has selected the buffer once. -/
theorem ext2Read_selects {count : Nat} {r : Int} {bytes : List UInt8}
    (hrun : ext2Read fe count h m = .ok ((r, bytes, fe'), m')) (hr : 0 < r) :
    ∃ fe₁ m₁, ext2SelectBuffer fe h m = .ok ((0, fe₁), m₁) ∧ m'.ctx = m₁.ctx := by
  cases ext2Read_return hrun with
  | refused => exact absurd hr (by decide)
  | nothing => exact absurd hr (by decide)
  | failed => exact absurd hr (by decide)
  | delivered hn hle hsel => exact ⟨_, _, hsel, rfl⟩

/-- Loads allocate nothing. -/
theorem Loads.allocationKept (hl : Loads m fe m' fe') (n : Nat) (t : UInt32) (k : Nat) :
    AllocationKept m fe { m' with ticks := k } (fe'.advanced n t) := by
  have hview : view { m' with ticks := k } (fe'.advanced n t) = view m fe := hl.view_eq
  have hctx : ({ m' with ticks := k } : Machine).ctx = m.ctx := hl.ctx_eq
  refine ⟨fun g i => by rw [hview, hctx], fun g => by rw [hview, hctx], by rw [hctx], by rw [hctx], ?_⟩
  rw [hl.handle]
  rfl

/-- **Reading sparse files.** In either mode a read delivers the bytes of the file, zeros for its
    holes, and allocates nothing if and only if it starts on a mapped block and stays in the
    sector. -/
theorem readsSparse_iff (hh : h.Reliable) (hs : m.ctx.SaneBlockSize)
    (hmagic : fe.magic = embextMagic) (h0 : 0 ≤ fe.cursor) (count : Nat) :
    ReadsSparse h m fe count ↔ StartsMapped m fe (readLength fe count) := by
  rcases Nat.eq_zero_or_pos (readLength fe count) with hz | hpos
  · refine ⟨fun _ => .inl hz, fun _ => ⟨m, fe, ?_, ?_⟩⟩
    · rw [ext2Read_zero hmagic hz, hz]
      rfl
    · exact ⟨fun _ _ => rfl, fun _ => rfl, rfl, rfl, rfl⟩
  have hlt : fe.cursor < 2 ^ 32 := by
    have := fe.inode.iSize.toNat_lt
    unfold readLength at hpos
    omega
  constructor
  · rintro ⟨m', fe', hrun, hkept⟩
    right
    have hb : cursorBlock m fe ≠ 0 := by
      intro hb
      obtain ⟨fe₁, m₁, hsel, hctx⟩ := ext2Read_selects hrun (by omega)
      have hcount := ext2SelectBuffer_counted hh hs hb hsel
      rw [← hctx, hkept.freeBlocks] at hcount
      grind
    have hfit : fe.cursor.toNat % 512 + readLength fe count ≤ 512 := by
      by_contra hcross
      rw [ext2Read_cross hh hs hmagic h0 hb (Nat.not_le.1 hcross)] at hrun
      cases hrun
    refine ⟨hfit, ?_⟩
    by_cases hmap : fileBlock (view m fe) m.ctx fe.inode (cursorIndex m fe) = 0
    · obtain ⟨m₁, fe₁, hrun₁, -⟩ := ext2Read_inside hh hs hmagic h0 hpos hb hfit
      rw [hrun, sparseAhead_hole hfit hmap] at hrun₁
      simp only [Except.ok.injEq, Prod.mk.injEq, true_and] at hrun₁
      exact .inr ⟨hb, hrun₁.1.1.symm⟩
    · exact .inl hmap
  · rintro (hz | ⟨hfit, hmapped⟩)
    · omega
    have hread : cursorBlock m fe ≠ 0 ∧
        sectorBytes m fe (readLength fe count) = sparseAhead m fe (readLength fe count) := by
      by_cases hmap : fileBlock (view m fe) m.ctx fe.inode (cursorIndex m fe) = 0
      · obtain ⟨hb, hzero⟩ := hmapped.resolve_left (not_not.2 hmap)
        exact ⟨hb, by rw [sparseAhead_hole hfit hmap, hzero]⟩
      · refine ⟨by rw [cursorBlock_eq h0 hlt hmap]; exact hmap, ?_⟩
        rw [sectorBytes_eq h0 hlt hmap hfit, sparseAhead_mapped hfit hmap]
    obtain ⟨m₁, fe₁, hrun, hl, -⟩ := ext2Read_inside hh hs hmagic h0 hpos hread.1 hfit
    rw [hread.2] at hrun
    exact ⟨_, _, hrun, hl.allocationKept _ _ _⟩

/-- **Reading sparse files in both modes.** The access mode makes no difference to when a read is
    right. -/
theorem readsAlike_iff (hh : h.Reliable) (hs : m.ctx.SaneBlockSize)
    (hmagic : fe.magic = embextMagic) (h0 : 0 ≤ fe.cursor) (count : Nat) :
    ReadsAlike h m fe count ↔ StartsMapped m fe (readLength fe count) := by
  have hmode : ∀ w, ReadsSparse h m (fe.withWrite w) count
      ↔ StartsMapped m fe (readLength fe count) := fun w =>
    readsSparse_iff hh hs (show (fe.withWrite w).magic = embextMagic from hmagic) h0 count
  exact ⟨fun hall => (hmode true).1 (hall true), fun hstart w => (hmode w).2 hstart⟩

namespace SmallVolume

/-- `/f` with a size of two blocks, the second of them missing, before a read there. -/
def handleHole : FileEnt :=
  { handleF with inode := { fInode with iSize := 2048 }, cursor := 1024 }

/-- Four bytes of the missing block. -/
theorem readsAlike_fails : host.Reliable ∧ machine.ctx.SaneBlockSize ∧
    handleHole.magic = embextMagic ∧ 0 ≤ handleHole.cursor ∧
    ¬ ReadsAlike host machine handleHole 4 := by
  refine ⟨host_reliable, machine_sane, rfl, by decide, fun halike => ?_⟩
  obtain ⟨m', fe', hrun, -⟩ := halike false
  have hfails : ((ext2Read (handleHole.withWrite false) 4 host machine).map fun r => r.1.1)
      = .ok (-1) := by decide +kernel
  rw [hrun] at hfails
  simp only [Except.map, Except.ok.injEq] at hfails
  omega

/-- Four bytes before it. -/
theorem readsAlike_mapped : ReadsAlike host machine { handleHole with cursor := 1000 } 4 :=
  (readsAlike_iff host_reliable machine_sane rfl (by decide) 4).2
    (.inr ⟨by decide +kernel, .inl (by decide +kernel)⟩)

end SmallVolume

end Embext
