import Embext.Proofs.Buffer
import Embext.Proofs.Frame

set_option autoImplicit false

/-! # Mounting, and what a flush of the superblock writes

`ext2_mount` either rejects the superblock it finds or goes on to flush every copy;
`ext2_flush_superblock` writes one sector for each entry of `superblock_blocks`. -/

namespace Embext

/-! ## What a mount finds -/

/-- The sector `ext2_mount` takes its superblock from: after a failed read, what `malloc`
    returned. -/
def mountSector (h : Host) (m : Machine) (garbage : Sector) (partStart : UInt32) : Sector :=
  if h.fails m.log.length then garbage else m.disk (partStart + 2)

/-- The two checks of `ext2_mount`; the shifted size wraps at 32 bits. -/
def MountAccepts (sb : Superblock) (volumeSize : UInt32) : Prop :=
  sb.sMagic = ext2SuperMagic ∧
    (UInt32.ofNat (sb.sBlocksCount.toNat * 2 ^ sb.sLogBlockSize.toNat)).toNat ≤ volumeSize.toNat

/-- The machine when `ext2_mount` starts its flush. -/
def mountingMachine (h : Host) (m : Machine) (garbage : Sector) (partStart : UInt32) : Machine :=
  { m.logged (.read (partStart + 2) !(h.fails m.log.length)) with
    ticks := m.ticks + 1
    ctx := mountedContext h.readOnly partStart (mountSector h m garbage partStart)
      (h.clock m.ticks) }

variable {h : Host} {m m' : Machine} {garbage : Sector} {partStart volumeSize : UInt32} {r : Int}

theorem blockRead_apply (sec : UInt32) (old : Sector) : blockRead sec old h m
    = .ok ((if h.fails m.log.length then -1 else 0,
        if h.fails m.log.length then old else m.disk sec),
        m.logged (.read sec !(h.fails m.log.length))) := by
  unfold blockRead
  split
  · next hf => simp [hf]
  · next hf => simp [hf]

theorem ext2FlushSuperblock_ret (hrun : ext2FlushSuperblock h m = .ok (r, m')) : r = 0 := by
  obtain ⟨u, m₁, -, hrun⟩ := Prog.of_bind_ok hrun
  obtain ⟨c, m₂, -, hrun⟩ := Prog.of_bind_ok hrun
  obtain ⟨v, m₃, -, hrun⟩ := Prog.of_bind_ok hrun
  cases hrun
  rfl

theorem ext2FlushSuperblock_none {m : Machine} (hnil : m.ctx.superblockBlocks = []) :
    ext2FlushSuperblock h m = .ok (0, { m with ctx := { m.ctx with sysbuf := fun _ => 0 } }) := by
  unfold ext2FlushSuperblock
  simp only [Prog.bind_apply, setSysbuf_apply, getCtx_apply, hnil, ext2FlushCopies, Prog.pure_apply]

/-- `ext2_mount` after its `block_read`. -/
theorem ext2Mount_read : ext2Mount garbage partStart volumeSize h m = (do
    let sb := (mountSector h m garbage partStart).superblock
    if sb.sMagic ≠ ext2SuperMagic then pure (-1)
    else
      let scaled ← shl sb.sBlocksCount sb.sLogBlockSize
      if volumeSize.toNat < scaled.toNat then pure (-1)
      else
        let readOnly ← blockGetDeviceReadOnly
        let _ ← udiv sb.sBlocksCount.toNat sb.sBlocksPerGroup.toNat
        let mtime ← timeNull
        setCtx (mountedContext readOnly partStart (mountSector h m garbage partStart) mtime)
        let _ ← ext2FlushSuperblock
        pure 0 : Drv Int) h (m.logged (.read (partStart + 2) !(h.fails m.log.length))) := by
  unfold ext2Mount
  rw [Prog.bind_ok (blockRead_apply _ _)]
  rfl

/-- A mount that returns has rejected the superblock, or accepted it and flushed the copies. -/
theorem ext2Mount_cases (hrun : ext2Mount garbage partStart volumeSize h m = .ok (r, m')) :
    (¬ MountAccepts (mountSector h m garbage partStart).superblock volumeSize ∧ r = -1 ∧
      m' = m.logged (.read (partStart + 2) !(h.fails m.log.length))) ∨
    (MountAccepts (mountSector h m garbage partStart).superblock volumeSize ∧ r = 0 ∧
      ext2FlushSuperblock h (mountingMachine h m garbage partStart) = .ok (0, m')) := by
  rw [ext2Mount_read] at hrun
  unfold mountingMachine
  generalize mountSector h m garbage partStart = s at hrun ⊢
  by_cases hmagic : s.superblock.sMagic = ext2SuperMagic
  swap
  · rw [if_pos hmagic] at hrun
    cases hrun
    exact .inl ⟨fun hacc => hmagic hacc.1, rfl, rfl⟩
  rw [if_neg (not_not.2 hmagic)] at hrun
  obtain ⟨scaled, m₁, hshl, hrun⟩ := Prog.of_bind_ok hrun
  obtain ⟨-, rfl, rfl⟩ := of_shl_ok hshl
  by_cases hfit : volumeSize.toNat < (UInt32.ofNat
      (s.superblock.sBlocksCount.toNat * 2 ^ s.superblock.sLogBlockSize.toNat)).toNat
  · rw [if_pos hfit] at hrun
    cases hrun
    exact .inl ⟨fun hacc => absurd hacc.2 (by omega), rfl, rfl⟩
  rw [if_neg hfit] at hrun
  obtain ⟨ro, m₂, hask, hrun⟩ := Prog.of_bind_ok hrun
  cases hask
  obtain ⟨n, m₃, hdiv, hrun⟩ := Prog.of_bind_ok hrun
  obtain ⟨-, -, rfl⟩ := of_udiv_ok hdiv
  obtain ⟨t, m₄, htime, hrun⟩ := Prog.of_bind_ok hrun
  cases htime
  obtain ⟨u, m₅, hset, hrun⟩ := Prog.of_bind_ok hrun
  cases hset
  obtain ⟨z, m₆, hflush, hrun⟩ := Prog.of_bind_ok hrun
  cases hrun
  obtain rfl : z = 0 := ext2FlushSuperblock_ret hflush
  exact .inr ⟨⟨hmagic, by omega⟩, rfl, hflush⟩

/-! ## Runs of a mount -/

/-- The flush returns whatever the transfers do, when its shift is defined. -/
theorem ext2FlushCopies_returns (l : List UInt32) : ∀ {m : Machine},
    (m.ctx.superblock.sLogBlockSize + 1).toNat < 32 → ∃ m', ext2FlushCopies l h m = .ok ((), m') := by
  induction l with
  | nil => exact fun {m} _ => ⟨m, rfl⟩
  | cons b rest ih =>
    intro m hshift
    unfold ext2FlushCopies
    rw [Prog.bind_ok getCtx_apply]
    dsimp only
    rw [Prog.bind_ok (setCtx_apply _), Prog.bind_ok (shl_ok _ hshift)]
    have hwrite : ∀ (sec : UInt32) (d : Sector) (m : Machine),
        ∃ r m', blockWrite sec d h m = .ok (r, m') ∧ m'.ctx = m.ctx := by
      intro sec d m
      unfold blockWrite
      split
      · exact ⟨_, _, rfl, rfl⟩
      · exact ⟨_, _, rfl, rfl⟩
    obtain ⟨r, m₁, hw, hctx⟩ := hwrite _ _ _
    rw [Prog.bind_ok hw]
    exact ih (by rw [hctx]; exact hshift)

theorem ext2FlushSuperblock_returns
    (hshift : m.ctx.superblockBlocks = [] ∨ (m.ctx.superblock.sLogBlockSize + 1).toNat < 32) :
    ∃ m', ext2FlushSuperblock h m = .ok (0, m') := by
  rcases hshift with hnil | hshift
  · exact ⟨_, ext2FlushSuperblock_none hnil⟩
  · obtain ⟨m', hcopies⟩ := ext2FlushCopies_returns (h := h) m.ctx.superblockBlocks
      (m := { m with ctx := { m.ctx with sysbuf := fun _ => 0 } }) hshift
    refine ⟨m', ?_⟩
    unfold ext2FlushSuperblock
    rw [Prog.bind_ok (setSysbuf_apply _), Prog.bind_ok getCtx_apply, Prog.bind_ok hcopies]
    rfl

/-- A flush that returns has made every shift it needs. -/
theorem shift_of_ext2FlushSuperblock_ok (hrun : ext2FlushSuperblock h m = .ok (r, m')) :
    m.ctx.superblockBlocks = [] ∨ (m.ctx.superblock.sLogBlockSize + 1).toNat < 32 := by
  rcases hl : m.ctx.superblockBlocks with _ | ⟨b, rest⟩
  · exact .inl rfl
  · right
    obtain ⟨u, m₁, hset, hrun⟩ := Prog.of_bind_ok hrun
    cases hset
    obtain ⟨c, m₂, hget, hrun⟩ := Prog.of_bind_ok hrun
    cases hget
    obtain ⟨v, m₃, hcopies, -⟩ := Prog.of_bind_ok hrun
    simp only [hl, ext2FlushCopies] at hcopies
    obtain ⟨c, m₄, hget, hcopies⟩ := Prog.of_bind_ok hcopies
    cases hget
    obtain ⟨u, m₅, hset, hcopies⟩ := Prog.of_bind_ok hcopies
    cases hset
    obtain ⟨lba, m₆, hshl, -⟩ := Prog.of_bind_ok hcopies
    exact (of_shl_ok hshl).1

/-- The two ways a mount turns a superblock down. -/
def MountRejects (sb : Superblock) (volumeSize : UInt32) : Prop :=
  sb.sMagic ≠ ext2SuperMagic ∨ sb.sLogBlockSize.toNat < 32 ∧ volumeSize.toNat <
    (UInt32.ofNat (sb.sBlocksCount.toNat * 2 ^ sb.sLogBlockSize.toNat)).toNat

/-- A mount returns -1 exactly for the superblocks its checks turn down. -/
theorem ext2Mount_rejects_iff : (∃ m', ext2Mount garbage partStart volumeSize h m = .ok (-1, m')) ↔
    MountRejects (mountSector h m garbage partStart).superblock volumeSize := by
  constructor
  · rintro ⟨m', hrun⟩
    rcases ext2Mount_cases hrun with ⟨hno, -, -⟩ | ⟨-, hr, -⟩
    swap
    · exact absurd hr (by decide)
    by_cases hmagic : (mountSector h m garbage partStart).superblock.sMagic = ext2SuperMagic
    · rw [ext2Mount_read] at hrun
      dsimp only at hrun
      rw [if_neg (not_not.2 hmagic)] at hrun
      obtain ⟨scaled, m₁, hshl, -⟩ := Prog.of_bind_ok hrun
      refine .inr ⟨(of_shl_ok hshl).1, ?_⟩
      by_contra hfit
      exact hno ⟨hmagic, Nat.not_lt.1 hfit⟩
    · exact .inl hmagic
  · intro hrej
    refine ⟨m.logged (.read (partStart + 2) !(h.fails m.log.length)), ?_⟩
    rw [ext2Mount_read]
    dsimp only
    by_cases hmagic : (mountSector h m garbage partStart).superblock.sMagic = ext2SuperMagic
    · obtain ⟨hlog, hfit⟩ := hrej.resolve_left (not_not.2 hmagic)
      rw [if_neg (not_not.2 hmagic), Prog.bind_ok (shl_ok _ hlog), if_pos hfit]
      rfl
    · rw [if_pos hmagic]
      rfl

/-- A superblock that passes the checks is mounted when the divisions and shifts of the mount are
    defined. -/
theorem ext2Mount_returns {sb : Superblock} (hsb : sb = (mountSector h m garbage partStart).superblock)
    (hacc : MountAccepts sb volumeSize) (hper : sb.sBlocksPerGroup.toNat ≠ 0)
    (hlog : sb.sLogBlockSize.toNat < 31) :
    ∃ m', ext2Mount garbage partStart volumeSize h m = .ok (0, m') := by
  have hshift : (sb.sLogBlockSize + 1).toNat < 32 := by
    have h1 : (1 : UInt32).toNat = 1 := rfl
    rw [UInt32.toNat_add]
    omega
  subst hsb
  obtain ⟨m', hflush⟩ := ext2FlushSuperblock_returns (h := h)
    (m := mountingMachine h m garbage partStart) (.inr hshift)
  refine ⟨m', ?_⟩
  rw [ext2Mount_read]
  dsimp only
  rw [if_neg (not_not.2 hacc.1), Prog.bind_ok (shl_ok _ (by omega)), if_neg (Nat.not_lt.2 hacc.2)]
  rw [Prog.bind_ok (show blockGetDeviceReadOnly h _ = .ok (h.readOnly, _) from rfl),
    Prog.bind_ok (udiv_ok _ hper), Prog.bind_ok timeNull_apply, Prog.bind_ok (setCtx_apply _)]
  exact (Prog.bind_ok hflush).trans rfl

/-- The mounted context, up to what a flush touches, comes from the superblock that was read. -/
theorem ext2Mount_sameVolume (hrun : ext2Mount garbage partStart volumeSize h m = .ok (0, m')) :
    (mountedContext h.readOnly partStart (mountSector h m garbage partStart)
      (h.clock m.ticks)).SameVolume m'.ctx := by
  rcases ext2Mount_cases hrun with ⟨-, hr, -⟩ | ⟨-, -, hflush⟩
  · exact absurd hr (by decide)
  · exact (show Steps True _ from steps_ext2FlushSuperblock).sameVolume hflush

/-! ## Groups and copies -/

theorem numBlockgroups_zero {sb : Superblock} (hb : sb.sBlocksCount = 0) : numBlockgroups sb = 0 := by
  simp [numBlockgroups, hb]

/-- Group 0 always carries a copy. -/
theorem zero_mem_superblockGroups {sb : Superblock} (hb : sb.sBlocksCount ≠ 0) :
    0 ∈ superblockGroups sb := by
  have hpos : 0 < sb.sBlocksCount.toNat := Nat.pos_of_ne_zero fun h0 => hb (UInt32.toNat_inj.1 h0)
  have hgroups : 0 < numBlockgroups sb := by
    unfold numBlockgroups
    by_cases hmod : sb.sBlocksCount.toNat % sb.sBlocksPerGroup.toNat = 0
    · have hdvd := Nat.dvd_of_mod_eq_zero hmod
      exact Nat.add_pos_left (Nat.div_pos (Nat.le_of_dvd hpos hdvd)
        (Nat.pos_of_dvd_of_pos hdvd hpos)) _
    · rw [if_pos hmod]
      exact Nat.succ_pos _
  simp [superblockGroups, carriesSuperblock, hgroups]

theorem superblockBlocks_eq_nil_iff (sb : Superblock) :
    superblockBlocks sb = [] ↔ sb.sBlocksCount = 0 := by
  constructor
  · intro hnil
    by_contra hb
    have hmem := zero_mem_superblockGroups hb
    have : superblockGroups sb = [] := by simpa [superblockBlocks] using hnil
    rw [this] at hmem
    exact absurd hmem (by simp)
  · intro hb
    simp [superblockBlocks, superblockGroups, numBlockgroups_zero hb]

/-- A mount divides by `s_blocks_per_group`, and shifts by `s_log_block_size + 1` for every copy. -/
theorem checks_of_ext2Mount_ok (hrun : ext2Mount garbage partStart volumeSize h m = .ok (0, m')) :
    MountAccepts (mountSector h m garbage partStart).superblock volumeSize ∧
      (mountSector h m garbage partStart).superblock.sBlocksPerGroup.toNat ≠ 0 ∧
      ((mountSector h m garbage partStart).superblock.sBlocksCount.toNat ≠ 0 →
        (mountSector h m garbage partStart).superblock.sLogBlockSize.toNat < 31) := by
  rcases ext2Mount_cases hrun with ⟨-, hr, -⟩ | ⟨hacc, -, hflush⟩
  · exact absurd hr (by decide)
  rw [ext2Mount_read] at hrun
  dsimp only at hrun
  rw [if_neg (not_not.2 hacc.1)] at hrun
  obtain ⟨scaled, m₁, hshl, hrun⟩ := Prog.of_bind_ok hrun
  obtain ⟨hlog, rfl, -⟩ := of_shl_ok hshl
  rw [if_neg (Nat.not_lt.2 hacc.2)] at hrun
  obtain ⟨ro, m₂, -, hrun⟩ := Prog.of_bind_ok hrun
  obtain ⟨n, m₃, hdiv, -⟩ := Prog.of_bind_ok hrun
  refine ⟨hacc, (of_udiv_ok hdiv).1, fun hcount => ?_⟩
  rcases shift_of_ext2FlushSuperblock_ok hflush with hnil | hshift
  · have h0 := (superblockBlocks_eq_nil_iff _).1 hnil
    exact absurd (congrArg UInt32.toNat h0) hcount
  · have hshift : ((mountSector h m garbage partStart).superblock.sLogBlockSize + 1).toNat < 32 :=
      hshift
    have h1 : (1 : UInt32).toNat = 1 := rfl
    rw [UInt32.toNat_add] at hshift
    omega

/-- Every group starts inside the volume. -/
theorem mul_lt_of_mem_superblockGroups {sb : Superblock} {g : Nat} (hg : g ∈ superblockGroups sb) :
    g * sb.sBlocksPerGroup.toNat < sb.sBlocksCount.toNat := by
  have hlt : g < numBlockgroups sb := List.mem_range.1 (List.mem_filter.1 hg).1
  unfold numBlockgroups at hlt
  have hdiv := Nat.div_mul_le_self sb.sBlocksCount.toNat sb.sBlocksPerGroup.toNat
  have hmod := Nat.div_add_mod' sb.sBlocksCount.toNat sb.sBlocksPerGroup.toNat
  rcases Nat.lt_or_ge g (sb.sBlocksCount.toNat / sb.sBlocksPerGroup.toNat) with hg' | hg'
  · have hpos : 0 < sb.sBlocksPerGroup.toNat := Nat.pos_of_ne_zero fun h0 => by
      rw [h0, Nat.div_zero] at hg'
      exact absurd hg' (Nat.not_lt_zero g)
    exact lt_of_lt_of_le (Nat.mul_lt_mul_of_pos_right hg' hpos) hdiv
  · by_cases hrem : sb.sBlocksCount.toNat % sb.sBlocksPerGroup.toNat = 0
    · rw [if_neg (not_not.2 hrem)] at hlt
      exact absurd hlt (Nat.not_lt.2 hg')
    · rw [if_pos hrem] at hlt
      obtain rfl : g = sb.sBlocksCount.toNat / sb.sBlocksPerGroup.toNat := by omega
      omega

/-- The groups `is_power` selects do carry copies under `sparse_super`. -/
theorem isPower_dvd {x i : Nat} (hx : 0 < x) (hp : isPower x i = true) : x = 1 ∨ i ∣ x := by
  by_contra hcon
  obtain ⟨h1, hdvd⟩ := not_or.1 hcon
  unfold isPower at hp
  obtain ⟨n, rfl⟩ : ∃ n, x = n + 1 := ⟨x - 1, by omega⟩
  rw [isPowerLoop, if_neg fun h0 => hdvd (Nat.dvd_of_mod_eq_zero h0)] at hp
  exact h1 (of_decide_eq_true hp)

end Embext
