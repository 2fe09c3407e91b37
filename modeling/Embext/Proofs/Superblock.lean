import Embext.Proofs.Mount
import Embext.Proofs.SmallVolume
import Mathlib.Data.Nat.Prime.Basic
import Mathlib.Tactic.NormNum.Prime

set_option autoImplicit false

/-! # The superblock over a session

`ext2_mount` reads the superblock from a fixed sector of the partition, `ext2_flush_superblock`
computes the sectors it writes from `superblock_blocks` and the block size. The two agree for
1 KiB blocks only. -/

namespace Embext

/-! ## One flush -/

/-- The superblock a flush writes for the copy in block `b`. -/
def Superblock.copyAt (sb : Superblock) (b : UInt32) : Superblock :=
  { sb with sBlockGroupNr := UInt16.ofNat b.toNat }

theorem Superblock.copyAt_sMagic (sb : Superblock) (b : UInt32) :
    (sb.copyAt b).sMagic = sb.sMagic := rfl

/-- A sector holding a superblock and zeros. -/
def Superblock.sector (sb : Superblock) : Sector :=
  Window.patch (fun _ => 0) 0 (Superblock.packed.bytes sb)

/-- The sector a flush writes for the copy in block `b`. -/
def copySector (ctx : Ext2Context) (b : UInt32) : UInt32 :=
  UInt32.ofNat (b.toNat * 2 ^ (ctx.superblock.sLogBlockSize + 1).toNat) + ctx.partStart

/-- One round of the loop of `ext2_flush_superblock`. -/
def flushCopy (m : Machine) (b : UInt32) : Machine :=
  { m with
    disk := Function.update m.disk (copySector m.ctx b) (m.ctx.superblock.copyAt b).sector
    log := .write (copySector m.ctx b) true :: m.log
    ctx := { m.ctx with
      superblock := m.ctx.superblock.copyAt b
      sysbuf := (m.ctx.superblock.copyAt b).sector } }

/-- The machine after a flush. -/
def flushed (m : Machine) : Machine :=
  m.ctx.superblockBlocks.foldl flushCopy { m with ctx := { m.ctx with sysbuf := fun _ => 0 } }

/-- The superblock in a sector is the one that was put there. -/
theorem Superblock.sector_superblock (sb : Superblock) : sb.sector.superblock = sb := by
  apply Superblock.packed.get_of_put
  intro k hk
  have hk' : k < 264 := hk
  have hlen : k - 0 < (Superblock.packed.bytes sb).length := by
    rw [Packed.length_bytes]
    exact hk
  rw [Superblock.sector, Window.item_patch_inside _ _ (Nat.zero_le k) hlen, Packed.getElem_bytes]
  · rfl
  · rw [Packed.length_bytes, Superblock.packed_size]
    decide

variable {h : Host} {m m' : Machine}

/-- The loop of a flush, started with nothing else in `sysbuf`. -/
theorem ext2FlushCopies_ok (hh : h.Reliable) (l : List UInt32) : ∀ {m : Machine},
    (m.ctx.superblock.sLogBlockSize + 1).toNat < 32 →
    (∀ sb, Window.patch m.ctx.sysbuf 0 (Superblock.packed.bytes sb) = sb.sector) →
    ext2FlushCopies l h m = .ok ((), l.foldl flushCopy m) := by
  induction l with
  | nil => exact fun _ _ => rfl
  | cons b rest ih =>
    intro m hshift hbuf
    have hstep : ext2FlushCopies (b :: rest) h m = ext2FlushCopies rest h (flushCopy m b) := by
      simp only [ext2FlushCopies, Prog.bind_apply, getCtx_apply, setCtx_apply]
      rw [shl_ok b hshift]
      simp only [blockWrite_ok hh, Machine.logged, flushCopy, copySector, Superblock.copyAt, hbuf]
    rw [hstep, List.foldl_cons]
    refine ih hshift fun sb => ?_
    exact Window.patch_patch _ _ (by rw [Packed.length_bytes, Packed.length_bytes])

theorem ext2FlushSuperblock_ok (hh : h.Reliable)
    (hshift : (m.ctx.superblock.sLogBlockSize + 1).toNat < 32) :
    ext2FlushSuperblock h m = .ok (0, flushed m) := by
  have hcopies := ext2FlushCopies_ok hh m.ctx.superblockBlocks
    (m := { m with ctx := { m.ctx with sysbuf := fun _ => 0 } }) hshift fun sb => rfl
  unfold ext2FlushSuperblock
  simp only [Prog.bind_apply, setSysbuf_apply, getCtx_apply, hcopies, Prog.pure_apply,
    flushed]

theorem of_ext2FlushSuperblock_ok (hh : h.Reliable) {r : Int}
    (hrun : ext2FlushSuperblock h m = .ok (r, m')) : r = 0 ∧ m' = flushed m := by
  rcases shift_of_ext2FlushSuperblock_ok hrun with hnil | hshift
  · rw [ext2FlushSuperblock_none hnil] at hrun
    cases hrun
    exact ⟨rfl, by unfold flushed; rw [hnil, List.foldl_nil]⟩
  · rw [ext2FlushSuperblock_ok hh hshift] at hrun
    cases hrun
    exact ⟨rfl, rfl⟩

/-! ## What a flush leaves -/

/-- A flush changes of the context only `sysbuf` and `s_block_group_nr`. -/
theorem foldl_flushCopy_ctx (l : List UInt32) : ∀ m : Machine, ∃ g s,
    (l.foldl flushCopy m).ctx = { m.ctx with
      superblock := { m.ctx.superblock with sBlockGroupNr := g }, sysbuf := s } := by
  induction l with
  | nil => exact fun m => ⟨_, _, rfl⟩
  | cons b rest ih =>
    intro m
    obtain ⟨g, s, hctx⟩ := ih (flushCopy m b)
    exact ⟨g, s, hctx⟩

/-- A sector that is no target of a flush keeps its bytes. -/
theorem foldl_flushCopy_disk_other (l : List UInt32) {x : UInt32} : ∀ {m : Machine},
    (∀ b ∈ l, copySector m.ctx b ≠ x) → (l.foldl flushCopy m).disk x = m.disk x := by
  induction l with
  | nil => exact fun _ => rfl
  | cons b rest ih =>
    intro m hne
    rw [List.foldl_cons, ih (m := flushCopy m b) fun b' hb' => ?_]
    · exact Function.update_of_ne (hne b List.mem_cons_self).symm _ _
    · exact hne b' (List.mem_cons_of_mem _ hb')

/-- A target of a flush holds the session's superblock, with some `s_block_group_nr`. -/
theorem foldl_flushCopy_disk_target (l : List UInt32) {x : UInt32} : ∀ {m : Machine},
    (∃ b ∈ l, copySector m.ctx b = x) →
    ∃ b, (l.foldl flushCopy m).disk x = (m.ctx.superblock.copyAt b).sector := by
  induction l with
  | nil => exact fun ⟨_, hb, _⟩ => absurd hb (by simp)
  | cons b rest ih =>
    rintro m ⟨b₁, hb₁, hx⟩
    by_cases hlater : ∃ b' ∈ rest, copySector m.ctx b' = x
    · obtain ⟨b₂, hb₂⟩ := ih (m := flushCopy m b) hlater
      exact ⟨b₂, hb₂⟩
    · -- the last write to `x` is this one
      have hb : copySector m.ctx b = x := by
        rcases List.mem_cons.1 hb₁ with rfl | hmem
        · exact hx
        · exact absurd ⟨b₁, hmem, hx⟩ hlater
      refine ⟨b, ?_⟩
      rw [List.foldl_cons, foldl_flushCopy_disk_other (m := flushCopy m b) rest
        fun b' hb' heq => hlater ⟨b', hb', heq⟩]
      simp only [flushCopy, hb, Function.update_self]

/-! ## Mount and umount -/

/-- The machine when `ext2_umount` starts its flush. -/
def unmounting (m : Machine) : Machine :=
  { m with ctx := { m.ctx with superblock := { m.ctx.superblock with sState := ext2ValidFs } } }

theorem ext2Umount_ok (hh : h.Reliable)
    (hshift : (m.ctx.superblock.sLogBlockSize + 1).toNat < 32) :
    ext2Umount h m = .ok (0, flushed (unmounting m)) := by
  have hflush := ext2FlushSuperblock_ok hh (m := unmounting m) hshift
  change (do let _ ← ext2FlushSuperblock; pure 0 : Drv Int) h (unmounting m) = _
  rw [Prog.bind_ok hflush, Prog.pure_apply]

theorem mountSector_reliable (hh : h.Reliable) (m : Machine) (garbage : Sector)
    (partStart : UInt32) : mountSector h m garbage partStart = m.disk (partStart + 2) := by
  unfold mountSector
  rw [hh m.log.length]
  rfl

/-- A superblock `ext2_mount` accepts, with a shift the flush can make. -/
structure Mountable (sb : Superblock) (volumeSize : UInt32) : Prop where
  accepts : MountAccepts sb volumeSize
  groups : sb.sBlocksPerGroup ≠ 0
  shift : sb.sLogBlockSize.toNat < 31

theorem Mountable.shift_succ {sb : Superblock} {volumeSize : UInt32}
    (hsb : Mountable sb volumeSize) : (sb.sLogBlockSize + 1).toNat < 32 := by
  have := hsb.shift
  rw [UInt32.toNat_add]
  have h1 : (1 : UInt32).toNat = 1 := rfl
  omega

theorem ext2Mount_ok (hh : h.Reliable) {garbage : Sector} {partStart volumeSize : UInt32}
    (hsb : Mountable (m.disk (partStart + 2)).superblock volumeSize) :
    ext2Mount garbage partStart volumeSize h m
      = .ok (0, flushed (mountingMachine h m garbage partStart)) := by
  have hsec := mountSector_reliable hh m garbage partStart
  rw [← hsec] at hsb
  have hfit : ¬ volumeSize.toNat < (UInt32.ofNat ((mountSector h m garbage
      partStart).superblock.sBlocksCount.toNat * 2 ^ (mountSector h m garbage
        partStart).superblock.sLogBlockSize.toNat)).toNat := Nat.not_lt.2 hsb.accepts.2
  have hlog : (mountSector h m garbage partStart).superblock.sLogBlockSize.toNat < 32 :=
    Nat.lt_succ_of_lt hsb.shift
  have hbpg : (mountSector h m garbage partStart).superblock.sBlocksPerGroup.toNat ≠ 0 :=
    fun h0 => hsb.groups (UInt32.toNat_inj.1 h0)
  have hflush := ext2FlushSuperblock_ok hh (m := mountingMachine h m garbage partStart)
    hsb.shift_succ
  rw [ext2Mount_read]
  dsimp only
  rw [if_neg (not_not.2 hsb.accepts.1), Prog.bind_ok (shl_ok _ hlog), if_neg hfit,
    Prog.bind_ok (show blockGetDeviceReadOnly h _ = .ok (h.readOnly, _) from rfl),
    Prog.bind_ok (udiv_ok _ hbpg), Prog.bind_ok timeNull_apply, Prog.bind_ok (setCtx_apply _)]
  change (do let _ ← ext2FlushSuperblock; pure 0 : Drv Int) h
    (mountingMachine h m garbage partStart) = _
  rw [Prog.bind_ok hflush, Prog.pure_apply]

/-! ## Where the copies are -/

/-- The groups that hold a copy of the superblock: all of them, or with `sparse_super` 0, 1 and the
    powers of 3, 5 and 7. -/
def HoldsCopy (sb : Superblock) (g : Nat) : Prop :=
  isSparse sb = false ∨ g = 0 ∨ g = 1 ∨ ∃ k, g = 3 ^ k ∨ g = 5 ^ k ∨ g = 7 ^ k

/-- The two sectors of a superblock copy: the primary starts at byte 1024 of the partition, the copy
    of a later group at its first block, which is a block of the volume. -/
def IsCopySector (sb : Superblock) (partStart x : UInt32) : Prop :=
  ∃ g half, HoldsCopy sb g ∧ half < 2 ∧
    (g = 0 ∧ x = partStart + UInt32.ofNat (2 + half) ∨
      0 < g ∧ g * sb.sBlocksPerGroup.toNat + (superblockBlock sb).toNat < sb.sBlocksCount.toNat ∧
        x = partStart + UInt32.ofNat ((g * sb.sBlocksPerGroup.toNat + (superblockBlock sb).toNat)
          * 2 ^ (sb.sLogBlockSize.toNat + 1) + half))

theorem holdsCopy_of_carries {sb : Superblock} {g : Nat}
    (hg : (!isSparse sb || carriesSuperblock g) = true) : HoldsCopy sb g := by
  rcases Bool.or_eq_true _ _ ▸ hg with hns | hcarry
  · exact .inl (by simpa using hns)
  · have hpow : ∀ p, p.Prime → isPower p g = true → g = 1 ∨ g = p ^ 1 := by
      intro p hp hpw
      rw [Nat.pow_one]
      rcases isPower_dvd hp.pos hpw with h1 | hdvd
      · exact absurd h1 hp.one_lt.ne'
      · exact (Nat.dvd_prime hp).1 hdvd
    unfold carriesSuperblock at hcarry
    simp only [Bool.or_eq_true, decide_eq_true_eq] at hcarry
    refine .inr ?_
    rcases hcarry with (((h0 | h1) | h3) | h5) | h7
    · exact .inl h0
    · exact .inr (.inl h1)
    · exact .inr ((hpow 3 Nat.prime_three h3).imp id fun h => ⟨1, .inl h⟩)
    · exact .inr ((hpow 5 Nat.prime_five h5).imp id fun h => ⟨1, .inr (.inl h)⟩)
    · exact .inr ((hpow 7 (by norm_num) h7).imp id fun h => ⟨1, .inr (.inr h)⟩)

/-! ## A session -/

/-- What the superblock seen by the next mount owes to a session: its state and the values `held` in
    memory at unmount, the mount count being one more than the `old` one. -/
structure CarriesSession (seen old held : Superblock) : Prop where
  state : seen.sState = ext2ValidFs
  mntCount : seen.sMntCount = held.sMntCount
  counted : held.sMntCount = old.sMntCount + 1
  mtime : seen.sMtime = held.sMtime
  freeBlocks : seen.sFreeBlocksCount = held.sFreeBlocksCount
  freeInodes : seen.sFreeInodesCount = held.sFreeInodesCount

/-- Superblock persistence on the device of `m`: the volume is mounted and unmounted, after every
    session of calls the next mount sees the session's superblock, and a session without calls
    changes nothing but copies. -/
structure PersistsSuperblock (h : Host) (m : Machine) (garbage : Sector)
    (partStart volumeSize : UInt32) : Prop where
  returns : ∃ m₁ m₂, ext2Mount garbage partStart volumeSize h m = .ok (0, m₁) ∧
    ext2Umount h m₁ = .ok (0, m₂)
  seen : ∀ calls m₁ replies files m₂ m₃, ext2Mount garbage partStart volumeSize h m = .ok (0, m₁) →
    runCalls calls [] h m₁ = .ok ((replies, files), m₂) → ext2Umount h m₂ = .ok (0, m₃) →
    CarriesSession (mountSector h m₃ garbage partStart).superblock
      (mountSector h m garbage partStart).superblock m₃.ctx.superblock
  frame : ∀ m₁ m₂, ext2Mount garbage partStart volumeSize h m = .ok (0, m₁) →
    ext2Umount h m₁ = .ok (0, m₂) → ∀ x, m₂.disk x ≠ m.disk x →
    IsCopySector (mountSector h m garbage partStart).superblock partStart x

/-- The superblocks for which the writer and the reader agree: 1 KiB blocks, at least one block, and
    no listed group whose copy would start at the end of the volume. -/
structure FlushesPrimary (sb : Superblock) : Prop where
  log : sb.sLogBlockSize = 0
  counts : sb.sBlocksCount ≠ 0
  inside : ∀ g ∈ superblockGroups sb, 0 < g →
    g * sb.sBlocksPerGroup.toNat + 1 < sb.sBlocksCount.toNat

/-! ## The sectors of a session -/

theorem superblockBlock_one {sb : Superblock} (h0 : sb.sLogBlockSize = 0) :
    (superblockBlock sb).toNat = 1 := by
  unfold superblockBlock
  rw [if_pos h0]
  rfl

/-- A context of the session mounted from `sb` at `partStart`. -/
structure SessionOf (sb : Superblock) (partStart : UInt32) (c : Ext2Context) : Prop where
  partStart : c.partStart = partStart
  blocks : c.superblockBlocks = superblockBlocks sb
  log : c.superblock.sLogBlockSize = sb.sLogBlockSize
  counted : c.superblock.sMntCount = sb.sMntCount + 1
  magic : c.superblock.sMagic = sb.sMagic

variable {sb : Superblock} {partStart : UInt32} {c c' : Ext2Context}

theorem SessionOf.mounting (h : Host) (m : Machine) (garbage : Sector) (partStart : UInt32) :
    SessionOf (mountSector h m garbage partStart).superblock partStart
      (mountingMachine h m garbage partStart).ctx :=
  ⟨rfl, rfl, rfl, rfl, rfl⟩

theorem SessionOf.sameVolume (hc : SessionOf sb partStart c) (hcc : c.SameVolume c') :
    SessionOf sb partStart c' := by
  refine ⟨?_, ?_, ?_, ?_, ?_⟩
  · rw [hcc]
    exact hc.partStart
  · rw [hcc]
    exact hc.blocks
  · rw [hcc]
    exact hc.log
  · rw [hcc]
    exact hc.counted
  · rw [hcc]
    exact hc.magic

theorem SessionOf.unmounting (hc : SessionOf sb partStart m.ctx) :
    SessionOf sb partStart (unmounting m).ctx :=
  ⟨hc.partStart, hc.blocks, hc.log, hc.counted, hc.magic⟩

/-- With 1 KiB blocks the copy of group `g` goes to the second sector pair of its first block. -/
theorem SessionOf.copySector_eq (hc : SessionOf sb partStart c) (h0 : sb.sLogBlockSize = 0) {g : Nat}
    (hg : g ∈ superblockGroups sb) :
    copySector c (UInt32.ofNat (g * sb.sBlocksPerGroup.toNat + (superblockBlock sb).toNat))
      = partStart + UInt32.ofNat (2 * (g * sb.sBlocksPerGroup.toNat + 1)) := by
  have hlt := mul_lt_of_mem_superblockGroups hg
  have hcount := sb.sBlocksCount.toNat_lt
  have hone := superblockBlock_one h0
  unfold copySector
  rw [hc.log, h0, hone, hc.partStart, UInt32.toNat_ofNat_of_lt' (by show _ < 2 ^ 32; omega),
    UInt32.add_comm, Nat.mul_comm]
  rfl

/-- With larger blocks no copy goes to the sector the mount reads: they start at multiples of four
    sectors. -/
theorem SessionOf.copySector_ne (hc : SessionOf sb partStart c) (hlog : sb.sLogBlockSize ≠ 0)
    (hshift : sb.sLogBlockSize.toNat < 32) (b : UInt32) : copySector c b ≠ partStart + 2 := by
  unfold copySector
  rw [hc.log, hc.partStart]
  have hpos : sb.sLogBlockSize.toNat ≠ 0 := fun h0 => hlog (UInt32.toNat_inj.1 h0)
  have hsucc : (sb.sLogBlockSize + 1).toNat = (sb.sLogBlockSize.toNat - 1) + 2 := by
    rw [UInt32.toNat_add]
    have h1 : (1 : UInt32).toNat = 1 := rfl
    omega
  rw [hsucc, Nat.pow_add, ← Nat.mul_assoc]
  generalize b.toNat * 2 ^ (sb.sLogBlockSize.toNat - 1) = n
  intro heq
  have heq := congrArg UInt32.toNat heq
  rw [UInt32.toNat_add, UInt32.toNat_add, UInt32.toNat_ofNat'] at heq
  have h2 : (2 : UInt32).toNat = 2 := rfl
  have hps := partStart.toNat_lt
  omega

/-- The context in which a flush after `ext2_mount` works. -/
theorem flushed_sameVolume (m : Machine) : m.ctx.SameVolume (flushed m).ctx := by
  obtain ⟨g, s, hctx⟩ := foldl_flushCopy_ctx m.ctx.superblockBlocks
    { m with ctx := { m.ctx with sysbuf := fun _ => 0 } }
  unfold flushed
  rw [hctx]
  rfl

theorem flushed_superblock (m : Machine) : ∃ g, (flushed m).ctx.superblock
    = { m.ctx.superblock with sBlockGroupNr := g } := by
  obtain ⟨g, s, hctx⟩ := foldl_flushCopy_ctx m.ctx.superblockBlocks
    { m with ctx := { m.ctx with sysbuf := fun _ => 0 } }
  exact ⟨g, by unfold flushed; rw [hctx]⟩

/-- A flush that reaches sector `x` leaves the session's superblock there. -/
theorem flushed_target {x : UInt32}
    (hx : ∃ b ∈ m.ctx.superblockBlocks, copySector m.ctx b = x) :
    ∃ b, ((flushed m).disk x).superblock = m.ctx.superblock.copyAt b := by
  obtain ⟨b, hb⟩ := foldl_flushCopy_disk_target m.ctx.superblockBlocks
    (m := { m with ctx := { m.ctx with sysbuf := fun _ => 0 } }) hx
  refine ⟨b, ?_⟩
  unfold flushed
  rw [hb]
  exact Superblock.sector_superblock _

theorem flushed_other {x : UInt32} (hx : ∀ b ∈ m.ctx.superblockBlocks, copySector m.ctx b ≠ x) :
    (flushed m).disk x = m.disk x :=
  foldl_flushCopy_disk_other m.ctx.superblockBlocks
    (m := { m with ctx := { m.ctx with sysbuf := fun _ => 0 } }) hx

section session

variable {garbage : Sector} {volumeSize : UInt32} (hh : h.Reliable)
include hh

theorem of_ext2Mount_ok {m₁ : Machine}
    (hrun : ext2Mount garbage partStart volumeSize h m = .ok (0, m₁)) :
    m₁ = flushed (mountingMachine h m garbage partStart) := by
  rcases ext2Mount_cases hrun with ⟨-, h0, -⟩ | ⟨-, -, hflush⟩
  · exact absurd h0 (by decide)
  · exact (of_ext2FlushSuperblock_ok hh hflush).2

theorem of_ext2Umount_ok {m₁ : Machine} {r : Int} (hrun : ext2Umount h m = .ok (r, m₁)) :
    m₁ = flushed (unmounting m) := by
  obtain ⟨c, m₂, hget, hrun⟩ := Prog.of_bind_ok hrun
  cases hget
  obtain ⟨u, m₃, hset, hrun⟩ := Prog.of_bind_ok hrun
  cases hset
  obtain ⟨z, m₄, hflush, hrun⟩ := Prog.of_bind_ok hrun
  cases hrun
  exact (of_ext2FlushSuperblock_ok hh hflush).2

omit hh in
/-- The context of a session after the mount's flush. -/
theorem SessionOf.mounted (h : Host) (m : Machine) (garbage : Sector) (partStart : UInt32) :
    SessionOf (mountSector h m garbage partStart).superblock partStart
      (flushed (mountingMachine h m garbage partStart)).ctx :=
  (SessionOf.mounting h m garbage partStart).sameVolume (flushed_sameVolume _)

/-- A session without calls changes only sectors its flushes go to. -/
theorem session_changes {m₁ m₂ : Machine} {x : UInt32}
    (hmount : ext2Mount garbage partStart volumeSize h m = .ok (0, m₁))
    (humount : ext2Umount h m₁ = .ok (0, m₂)) (hx : m₂.disk x ≠ m.disk x) :
    ∃ c, SessionOf (m.disk (partStart + 2)).superblock partStart c ∧
      ∃ b ∈ c.superblockBlocks, copySector c b = x := by
  obtain rfl := of_ext2Mount_ok hh hmount
  obtain rfl := of_ext2Umount_ok hh humount
  rw [← mountSector_reliable hh m garbage]
  by_contra hno
  have hsecond := flushed_other
    (m := unmounting (flushed (mountingMachine h m garbage partStart))) (x := x)
    fun b hb heq => hno ⟨_, (SessionOf.mounted h m garbage partStart).unmounting, b, hb, heq⟩
  have hfirst := flushed_other (m := mountingMachine h m garbage partStart) (x := x)
    fun b hb heq => hno ⟨_, SessionOf.mounting h m garbage partStart, b, hb, heq⟩
  exact hx (hsecond.trans hfirst)

/-! ## When the superblock persists -/

/-- With 1 KiB blocks the flush of a session reaches the sector the next mount reads, and otherwise
    only copies. -/
theorem FlushesPrimary.persists (hacc : MountAccepts (m.disk (partStart + 2)).superblock volumeSize)
    (hbpg : (m.disk (partStart + 2)).superblock.sBlocksPerGroup ≠ 0)
    (hfl : FlushesPrimary (m.disk (partStart + 2)).superblock) :
    PersistsSuperblock h m garbage partStart volumeSize := by
  have hsec := mountSector_reliable hh m garbage partStart
  have hmounted := SessionOf.mounted h m garbage partStart
  rw [hsec] at hmounted
  refine ⟨⟨_, _, ext2Mount_ok hh ⟨hacc, hbpg, ?_⟩, ext2Umount_ok hh ?_⟩, ?_, ?_⟩
  · rw [hfl.log]
    decide
  · rw [hmounted.log, hfl.log]
    decide
  · intro calls m₁ replies files m₂ m₃ hmount hcalls humount
    obtain rfl := of_ext2Mount_ok hh hmount
    obtain rfl := of_ext2Umount_ok hh humount
    have hm₂ := hmounted.sameVolume ((steps_runCalls calls []).sameVolume hcalls)
    have hctx := hm₂.unmounting
    obtain ⟨b, hb⟩ := flushed_target (m := unmounting m₂) (x := partStart + 2)
      ⟨_, by
        rw [hctx.blocks]
        exact List.mem_map_of_mem (zero_mem_superblockGroups hfl.counts), by
        rw [hctx.copySector_eq hfl.log (zero_mem_superblockGroups hfl.counts), Nat.zero_mul]
        rfl⟩
    obtain ⟨g, hg⟩ := flushed_superblock (unmounting m₂)
    rw [mountSector_reliable hh, mountSector_reliable hh, hb, hg]
    exact ⟨rfl, rfl, hm₂.counted, rfl, rfl, rfl⟩
  · intro m₁ m₂ hmount humount x hx
    obtain ⟨c, hc, b, hb, rfl⟩ := session_changes hh hmount humount hx
    rw [hc.blocks] at hb
    obtain ⟨g, hg, rfl⟩ := List.mem_map.1 hb
    rw [hc.copySector_eq hfl.log hg, hsec]
    refine ⟨g, 0, holdsCopy_of_carries (List.mem_filter.1 hg).2, by decide, ?_⟩
    have hone := superblockBlock_one hfl.log
    rcases Nat.eq_zero_or_pos g with rfl | hpos
    · exact .inl ⟨rfl, by rw [Nat.zero_mul]⟩
    · refine .inr ⟨hpos, ?_, ?_⟩
      · rw [hone]
        exact hfl.inside g hg hpos
      · rw [hone, hfl.log, Nat.mul_comm 2]
        rfl

/-- When no flush reaches the sector the mount reads, the next mount misses the mount count. -/
theorem not_persists_of_missed (hmiss : ∀ c,
    SessionOf (m.disk (partStart + 2)).superblock partStart c →
    ∀ b ∈ c.superblockBlocks, copySector c b ≠ partStart + 2) :
    ¬ PersistsSuperblock h m garbage partStart volumeSize := by
  intro hp
  obtain ⟨m₁, m₂, hmount, humount⟩ := hp.returns
  have hcarries := hp.seen [] m₁ [] [] m₁ m₂ hmount rfl humount
  have hsame : m₂.disk (partStart + 2) = m.disk (partStart + 2) := by
    by_contra hx
    obtain ⟨c, hc, b, hb, heq⟩ := session_changes hh hmount humount hx
    exact hmiss c hc b hb heq
  have hcount := hcarries.mntCount.trans hcarries.counted
  rw [mountSector_reliable hh, mountSector_reliable hh, hsame] at hcount
  have hcount := congrArg UInt16.toNat hcount
  rw [UInt16.toNat_add] at hcount
  have h1 : (1 : UInt16).toNat = 1 := rfl
  have hlt := (m.disk (partStart + 2)).superblock.sMntCount.toNat_lt
  omega

/-- A copy that starts at the end of the volume is written over whatever is there. -/
theorem not_persists_of_outside {g : Nat}
    (h0 : (m.disk (partStart + 2)).superblock.sLogBlockSize = 0)
    (hg : g ∈ superblockGroups (m.disk (partStart + 2)).superblock) (hpos : 0 < g)
    (hout : (m.disk (partStart + 2)).superblock.sBlocksCount.toNat
      ≤ g * (m.disk (partStart + 2)).superblock.sBlocksPerGroup.toNat + 1)
    (hfits : partStart.toNat + 2 * (m.disk (partStart + 2)).superblock.sBlocksCount.toNat ≤ 2 ^ 32)
    (hbpg : (m.disk (partStart + 2)).superblock.sBlocksPerGroup ≠ 0)
    (hzero : m.disk (partStart + UInt32.ofNat
      (2 * (g * (m.disk (partStart + 2)).superblock.sBlocksPerGroup.toNat + 1))) = fun _ => 0) :
    ¬ PersistsSuperblock h m garbage partStart volumeSize := by
  intro hp
  obtain ⟨m₁, m₂, hmount, humount⟩ := hp.returns
  have hframe := hp.frame m₁ m₂ hmount humount
  have hmagic : (m.disk (partStart + 2)).superblock.sMagic = ext2SuperMagic := by
    rcases ext2Mount_cases hmount with ⟨-, hr, -⟩ | ⟨hacc, -, -⟩
    · exact absurd hr (by decide)
    · rw [mountSector_reliable hh] at hacc
      exact hacc.1
  obtain rfl := of_ext2Mount_ok hh hmount
  obtain rfl := of_ext2Umount_ok hh humount
  have hctx := (SessionOf.mounted h m garbage partStart).unmounting
  rw [mountSector_reliable hh] at hctx hframe
  generalize unmounting (flushed (mountingMachine h m garbage partStart)) = m₂ at *
  generalize (m.disk (partStart + 2)).superblock = sb at *
  -- the sector gets a superblock
  obtain ⟨b, hb⟩ := flushed_target (m := m₂)
    ⟨_, by rw [hctx.blocks]; exact List.mem_map_of_mem hg, hctx.copySector_eq h0 hg⟩
  have hcopy := hframe _ fun heq => by
    rw [heq, hzero] at hb
    have hm := congrArg Superblock.sMagic hb
    rw [Superblock.copyAt_sMagic, hctx.magic, hmagic] at hm
    exact absurd hm (by decide)
  -- no copy is there
  have hlt := mul_lt_of_mem_superblockGroups hg
  have hone := superblockBlock_one h0
  have hps := partStart.toNat_lt
  have hbpg' : 0 < sb.sBlocksPerGroup.toNat :=
    Nat.pos_of_ne_zero fun hz => hbpg (UInt32.toNat_inj.1 hz)
  have hge : sb.sBlocksPerGroup.toNat ≤ g * sb.sBlocksPerGroup.toNat :=
    Nat.le_mul_of_pos_left _ hpos
  obtain ⟨g', half, -, hhalf, ⟨-, heq⟩ | ⟨-, hin, heq⟩⟩ := hcopy
  · have heq := congrArg UInt32.toNat heq
    rw [UInt32.toNat_add, UInt32.toNat_add, UInt32.toNat_ofNat', UInt32.toNat_ofNat'] at heq
    omega
  · rw [hone, h0] at heq
    rw [hone] at hin
    have heq := congrArg UInt32.toNat heq
    rw [UInt32.toNat_add, UInt32.toNat_add, UInt32.toNat_ofNat', UInt32.toNat_ofNat'] at heq
    have hp1 : 2 ^ ((0 : UInt32).toNat + 1) = 2 := rfl
    rw [hp1] at heq
    generalize g * sb.sBlocksPerGroup.toNat = n at *
    generalize g' * sb.sBlocksPerGroup.toNat = n' at *
    omega

end session

/-- A device with a superblock and nothing else. -/
def carrier (sb : Superblock) (partStart : UInt32) : Machine where
  disk := Function.update (fun _ _ => 0) (partStart + 2) sb.sector
  log := []
  ticks := 0
  ctx := mountedContext false partStart (fun _ => 0) 0
  rerrno := .other 0
  dName := fun _ => 0

theorem carrier_superblock (sb : Superblock) (partStart : UInt32) :
    ((carrier sb partStart).disk (partStart + 2)).superblock = sb := by
  have hdisk : (carrier sb partStart).disk
      = Function.update (fun _ _ => 0) (partStart + 2) sb.sector := rfl
  rw [hdisk, Function.update_self]
  exact Superblock.sector_superblock sb

/-- **Superblock persistence.** For a superblock that `ext2_mount` accepts, on a volume that ends
    within the 32-bit sector numbers: every session on every device that carries it persists its
    superblock if and only if blocks have 1 KiB, there is one, and no listed group's copy would start
    at the end of the volume. -/
theorem persistsSuperblock_iff {sb : Superblock} {partStart volumeSize : UInt32}
    (hacc : MountAccepts sb volumeSize) (hbpg : sb.sBlocksPerGroup ≠ 0)
    (hfits : partStart.toNat + sb.sBlocksCount.toNat * 2 ^ (sb.sLogBlockSize.toNat + 1) ≤ 2 ^ 32) :
    (∀ (h : Host) (m : Machine) (garbage : Sector), h.Reliable →
      (m.disk (partStart + 2)).superblock = sb →
      PersistsSuperblock h m garbage partStart volumeSize) ↔ FlushesPrimary sb := by
  constructor
  · intro hall
    have hcar := carrier_superblock sb partStart
    have hp : PersistsSuperblock SmallVolume.host (carrier sb partStart) (fun _ => 0) partStart
        volumeSize := hall _ _ _ SmallVolume.host_reliable hcar
    have hrel := SmallVolume.host_reliable
    have hlog : sb.sLogBlockSize = 0 := by
      by_contra hne
      refine not_persists_of_missed hrel (fun c hc b hb => ?_) hp
      rw [hcar] at hc
      refine hc.copySector_ne hne ?_ b
      have hcount : 0 < sb.sBlocksCount.toNat := Nat.pos_of_ne_zero fun h0 => by
        rw [hc.blocks, (superblockBlocks_eq_nil_iff sb).2 (UInt32.toNat_inj.1 h0)] at hb
        exact absurd hb (by simp)
      have hpow : 2 ^ (sb.sLogBlockSize.toNat + 1) ≤ 2 ^ 32 :=
        le_trans (Nat.le_mul_of_pos_left _ hcount) (le_trans (Nat.le_add_left _ _) hfits)
      have := (Nat.pow_le_pow_iff_right (by decide)).1 hpow
      omega
    refine ⟨hlog, fun hcount => ?_, fun g hg hpos => ?_⟩
    · refine not_persists_of_missed hrel (fun c hc b hb => ?_) hp
      rw [hcar] at hc
      rw [hc.blocks, (superblockBlocks_eq_nil_iff sb).2 hcount] at hb
      exact absurd hb (by simp)
    · by_contra hout
      rw [hlog] at hfits
      have hp1 : 2 ^ ((0 : UInt32).toNat + 1) = 2 := rfl
      rw [hp1] at hfits
      have hlt := mul_lt_of_mem_superblockGroups hg
      refine not_persists_of_outside hrel (g := g) ?_ ?_ hpos ?_ ?_ ?_ ?_ hp
      all_goals rw [hcar]
      · exact hlog
      · exact hg
      · omega
      · omega
      · exact hbpg
      · have hbpg' : 0 < sb.sBlocksPerGroup.toNat :=
          Nat.pos_of_ne_zero fun hz => hbpg (UInt32.toNat_inj.1 hz)
        have hge : sb.sBlocksPerGroup.toNat ≤ g * sb.sBlocksPerGroup.toNat :=
          Nat.le_mul_of_pos_left _ hpos
        have hne : partStart + UInt32.ofNat (2 * (g * sb.sBlocksPerGroup.toNat + 1))
            ≠ partStart + 2 := by
          intro heq
          have hps := partStart.toNat_lt
          have heq := congrArg UInt32.toNat heq
          rw [UInt32.toNat_add, UInt32.toNat_add, UInt32.toNat_ofNat'] at heq
          have h2 : (2 : UInt32).toNat = 2 := rfl
          generalize g * sb.sBlocksPerGroup.toNat = n at *
          omega
        exact Function.update_of_ne hne sb.sector fun _ _ => 0
  · intro hfl h m garbage hh hsb
    rw [← hsb] at hacc hbpg hfl
    exact hfl.persists hh hacc hbpg

namespace SmallVolume

/-- A superblock of a volume of 16 blocks of 4 KiB. -/
def largeBlocks : Superblock := { superblock with sLogBlockSize := 2, sBlocksCount := 16 }

/-- With 4 KiB blocks the next mount does not see the session. -/
theorem persistsSuperblock_fails : MountAccepts largeBlocks 128 ∧ largeBlocks.sBlocksPerGroup ≠ 0 ∧
    host.Reliable ∧ ((carrier largeBlocks 0).disk 2).superblock = largeBlocks ∧
    ¬ PersistsSuperblock host (carrier largeBlocks 0) (fun _ => 0) 0 128 := by
  have hcar := carrier_superblock largeBlocks 0
  refine ⟨⟨by decide +kernel, by decide +kernel⟩, by decide +kernel, host_reliable, hcar, ?_⟩
  refine not_persists_of_missed host_reliable fun c hc b _ => ?_
  rw [hcar] at hc
  exact hc.copySector_ne (by decide +kernel) (by decide +kernel) b

/-- With 1 KiB blocks it does. -/
theorem persistsSuperblock_oneKiB :
    PersistsSuperblock host (carrier superblock 0) (fun _ => 0) 0 128 :=
  (persistsSuperblock_iff ⟨by decide +kernel, by decide +kernel⟩ (by decide +kernel)
    (by decide +kernel)).2 ⟨by decide +kernel, by decide +kernel, by decide +kernel⟩ host _ _
    host_reliable (carrier_superblock superblock 0)

end SmallVolume

end Embext
