import Embext.Proofs.Bitmap

set_option autoImplicit false

/-! # The group descriptor tables

A table of group descriptors follows every copy of the superblock. `ext2_write_bg_descriptor` goes
through the copies, reads each sector into `sysbuf` and patches the descriptor there, but issues no
`block_write`: the device stays as it was, and what was to be written is on it exactly when it was
there before. -/

namespace Embext

/-! ## The copies of the table -/

/-- The sector with slot `g` of the table behind the superblock copy in block `b`. -/
def tableSector (c : Ext2Context) (b : UInt32) (g : Nat) : UInt32 :=
  UInt32.ofNat ((b.toNat + 1) * (c.blockSize / 512) + g / 16) + c.partStart

/-- The descriptor in slot `g` of that table. -/
def tableDescriptor (v : UInt32 → Sector) (c : Ext2Context) (b : UInt32) (g : Nat) :
    BlockGroupDescriptor :=
  BlockGroupDescriptor.packed.get fun k => Window.item (v (tableSector c b g)) (32 * (g % 16) + k)

/-- The driver reads the table behind the superblock it mounted. -/
theorem descriptorAt_eq_table (v : UInt32 → Sector) (c : Ext2Context) (g : Nat) :
    descriptorAt v c g = tableDescriptor v c c.superblockBlock g := rfl

/-! ## Reading a descriptor -/

variable {h : Host} {m m' : Machine} {g : UInt32} {bg : BlockGroupDescriptor}

theorem ext2GetBgDescriptor_ok (hh : h.Reliable) (hs : m.ctx.SaneBlockSize)
    (hg : g.toNat < m.ctx.numBlockgroups.toNat) : ∃ m₁,
    ext2GetBgDescriptor g h m = .ok (some (descriptorAt m.disk m.ctx g.toNat), m₁) := by
  refine ⟨{ m with
    ctx := { m.ctx with sysbuf := m.disk (descriptorSector m.ctx g.toNat) }
    log := .read (descriptorSector m.ctx g.toNat) true :: m.log }, ?_⟩
  unfold ext2GetBgDescriptor
  simp only [Prog.bind_apply, getCtx_apply, Nat.not_le.2 hg, if_false, ext2BlockSize_ok hs,
    readSysbuf_ok hh]
  rfl

/-- A group past the last one is refused. -/
theorem ext2GetBgDescriptor_none (hg : m.ctx.numBlockgroups.toNat ≤ g.toNat) :
    ext2GetBgDescriptor g h m = .ok (none, m) := by
  unfold ext2GetBgDescriptor
  rw [Prog.bind_ok getCtx_apply, if_pos hg]
  rfl

/-- A descriptor is found through the block size. -/
theorem of_ext2GetBgDescriptor_ok (hg : g.toNat < m.ctx.numBlockgroups.toNat)
    {o : Option BlockGroupDescriptor} (hrun : ext2GetBgDescriptor g h m = .ok (o, m')) :
    m.ctx.SaneBlockSize := by
  unfold ext2GetBgDescriptor at hrun
  rw [Prog.bind_ok getCtx_apply, if_neg (Nat.not_le.2 hg)] at hrun
  obtain ⟨bs, m₁, hbs, -⟩ := Prog.of_bind_ok hrun
  exact (of_ext2BlockSize_ok hbs).1

/-! ## Writing one -/

/-- The loop over the copies only looks at the device. -/
theorem of_ext2WriteBgCopies_ok (hh : h.Reliable) (l : List UInt32) : ∀ {m : Machine},
    ext2WriteBgCopies bg g l h m = .ok ((), m') → Machine.Browsed m m' := by
  induction l with
  | nil =>
    intro m hrun
    cases hrun
    exact .refl _
  | cons b rest ih =>
    intro m hrun
    unfold ext2WriteBgCopies at hrun
    rw [Prog.bind_ok getCtx_apply] at hrun
    obtain ⟨bs, m₁, hbs, hrun⟩ := Prog.of_bind_ok hrun
    obtain ⟨-, -, rfl⟩ := of_ext2BlockSize_ok hbs
    rw [Prog.bind_ok (readSysbuf_ok hh _), Prog.bind_ok getCtx_apply,
      Prog.bind_ok (setSysbuf_apply _)] at hrun
    have hrest := ih hrun
    exact .trans ⟨_, _, rfl⟩ hrest

theorem of_ext2WriteBgDescriptor_ok (hh : h.Reliable) {r : Int}
    (hrun : ext2WriteBgDescriptor bg g h m = .ok (r, m')) : m.Browsed m' := by
  unfold ext2WriteBgDescriptor at hrun
  rw [Prog.bind_ok getCtx_apply] at hrun
  by_cases hg : m.ctx.numBlockgroups.toNat ≤ g.toNat
  · rw [if_pos hg] at hrun
    cases hrun
    exact .refl m
  · rw [if_neg hg] at hrun
    obtain ⟨_, m₁, hcopies, hrun⟩ := Prog.of_bind_ok hrun
    cases hrun
    exact of_ext2WriteBgCopies_ok hh _ hcopies

/-- A state that has only looked at the device reads every descriptor as before. -/
theorem Machine.Browsed.getBgDescriptor (hb : m.Browsed m') (hh : h.Reliable) (g : UInt32) :
    (ext2GetBgDescriptor g h m').map Prod.fst = (ext2GetBgDescriptor g h m).map Prod.fst := by
  by_cases hg : m.ctx.numBlockgroups.toNat ≤ g.toNat
  · rw [ext2GetBgDescriptor_none hg, ext2GetBgDescriptor_none (by rw [hb.groups]; exact hg)]
    rfl
  have hlt := Nat.not_le.1 hg
  by_cases hs : m.ctx.SaneBlockSize
  · obtain ⟨m₁, hrun⟩ := ext2GetBgDescriptor_ok hh hs hlt
    obtain ⟨m₂, hrun'⟩ := ext2GetBgDescriptor_ok hh (hb.sane hs) (by rw [hb.groups]; exact hlt)
    rw [hrun, hrun', hb.descriptorAt]
    rfl
  · -- without a block size both stop at the same shift
    obtain ⟨s, l, rfl⟩ := hb
    have hlog : ¬ m.ctx.superblock.sLogBlockSize.toNat ≤ 20 := hs
    unfold ext2GetBgDescriptor ext2BlockSize
    simp only [Prog.bind_apply, getCtx_apply, if_neg hg, if_neg hlog, Prog.fault_apply]

/-! ## The round trip -/

/-- After the write of `bg` to group `g` the group reads as `bg`, slot `g` behind every superblock
    copy holds `bg`, the other groups read as before and no other sector has changed. -/
structure RoundTrips (h : Host) (bg : BlockGroupDescriptor) (g : UInt32) (m m' : Machine) :
    Prop where
  primary : ∃ m₁, ext2GetBgDescriptor g h m' = .ok (some bg, m₁)
  copies : ∀ b ∈ m.ctx.superblockBlocks, tableDescriptor m'.disk m.ctx b g.toNat = bg
  others : ∀ g', g' ≠ g →
    (ext2GetBgDescriptor g' h m').map Prod.fst = (ext2GetBgDescriptor g' h m).map Prod.fst
  frame : ∀ s, (∀ b ∈ m.ctx.superblockBlocks, s ≠ tableSector m.ctx b g.toNat) →
    m'.disk s = m.disk s

/-- Slot `g` holds `bg` in the table the driver reads and behind every superblock copy, blocks being
    of a size an `int` can hold. -/
structure HoldsDescriptor (m : Machine) (bg : BlockGroupDescriptor) (g : UInt32) : Prop where
  block : m.ctx.SaneBlockSize
  primary : descriptorAt m.disk m.ctx g.toNat = bg
  copies : ∀ b ∈ m.ctx.superblockBlocks, tableDescriptor m.disk m.ctx b g.toNat = bg

/-- **Round trip of a descriptor.** A write of `bg` that returns 0 has the effect of one if and only
    if every copy of the table held `bg` before. -/
theorem roundTrips_iff (hh : h.Reliable) (hg : g.toNat < m.ctx.numBlockgroups.toNat)
    (hrun : ext2WriteBgDescriptor bg g h m = .ok (0, m')) :
    RoundTrips h bg g m m' ↔ HoldsDescriptor m bg g := by
  have hb := of_ext2WriteBgDescriptor_ok hh hrun
  have hg' : g.toNat < m'.ctx.numBlockgroups.toNat := by
    rw [hb.groups]
    exact hg
  constructor
  · rintro ⟨⟨m₁, hget⟩, hcopies, -, -⟩
    have hs' := of_ext2GetBgDescriptor_ok hg' hget
    have hs : m.ctx.SaneBlockSize := by
      obtain ⟨s, l, rfl⟩ := hb
      exact hs'
    obtain ⟨m₂, hread⟩ := ext2GetBgDescriptor_ok hh hs' hg'
    rw [hget, hb.descriptorAt] at hread
    simp only [Except.ok.injEq, Prod.mk.injEq, Option.some.injEq] at hread
    rw [hb.disk] at hcopies
    exact ⟨hs, hread.1.symm, hcopies⟩
  · intro hold
    obtain ⟨m₁, hread⟩ := ext2GetBgDescriptor_ok hh (hb.sane hold.block) hg'
    rw [hb.descriptorAt, hold.primary] at hread
    refine ⟨⟨m₁, hread⟩, ?_, fun g' _ => hb.getBgDescriptor hh g', fun s _ => by rw [hb.disk]⟩
    rw [hb.disk]
    exact hold.copies

namespace SmallVolume

set_option maxRecDepth 4000

/-- The descriptor with one block fewer. -/
def spentDescriptor : BlockGroupDescriptor := { descriptor with bgFreeBlocksCount := 54 }

/-- Whether the write of a descriptor to group 0 returns 0. -/
def writesDescriptor (bg : BlockGroupDescriptor) : Bool :=
  match ext2WriteBgDescriptor bg 0 host machine with
  | .ok (0, _) => true
  | _ => false

theorem of_writesDescriptor (bg : BlockGroupDescriptor) (hw : writesDescriptor bg = true) :
    ∃ m', ext2WriteBgDescriptor bg 0 host machine = .ok (0, m') := by
  unfold writesDescriptor at hw
  split at hw
  · next m' hrun => exact ⟨m', hrun⟩
  · cases hw

theorem tableDescriptor_one : tableDescriptor machine.disk machine.ctx 1 0 = descriptor := by
  have hsec : tableSector machine.ctx 1 0 = 4 := by decide
  unfold tableDescriptor
  rw [hsec]
  exact Packed.get_patch BlockGroupDescriptor.packed (fun _ => 0) descriptor
    (show 0 + BlockGroupDescriptor.packed.size ≤ 512 by decide)

/-- A new count of free blocks never reaches the device. -/
theorem roundTrips_fails : host.Reliable ∧ (0 : UInt32).toNat < machine.ctx.numBlockgroups.toNat ∧
    ∃ m', ext2WriteBgDescriptor spentDescriptor 0 host machine = .ok (0, m') ∧
      ¬ RoundTrips host spentDescriptor 0 machine m' := by
  obtain ⟨m', hrun⟩ := of_writesDescriptor spentDescriptor (by decide)
  have hb := of_ext2WriteBgDescriptor_ok host_reliable hrun
  refine ⟨host_reliable, by decide, m', hrun, fun hrt => ?_⟩
  have hcopy := hrt.copies 1 (by decide)
  rw [hb.disk] at hcopy
  have hcount := congrArg BlockGroupDescriptor.bgFreeBlocksCount (hcopy.symm.trans tableDescriptor_one)
  exact absurd hcount (by decide)

/-- The descriptor that is there is written back. -/
theorem roundTrips_same : ∃ m', ext2WriteBgDescriptor descriptor 0 host machine = .ok (0, m') ∧
    RoundTrips host descriptor 0 machine m' := by
  obtain ⟨m', hrun⟩ := of_writesDescriptor descriptor (by decide)
  have hprimary : machine.ctx.superblockBlock = 1 := by decide
  have hone : machine.ctx.superblockBlocks = [1] := by decide
  refine ⟨m', hrun, (roundTrips_iff host_reliable (by decide) hrun).2
    ⟨machine_sane, ?_, fun b hb => ?_⟩⟩
  · rw [descriptorAt_eq_table, hprimary]
    exact tableDescriptor_one
  · rw [hone, List.mem_singleton] at hb
    rw [hb]
    exact tableDescriptor_one

end SmallVolume

end Embext
