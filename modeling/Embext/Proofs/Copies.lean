import Embext.Proofs.Superblock

set_option autoImplicit false

/-! # Where the superblock copies are

The list of copies `ext2_mount` builds in two passes, the groups it counts, and what a flush writes
to each copy. Under `sparse_super` the driver asks whether the group divides 3, 5 or 7 instead of
whether it is a power of them; it counts groups from block 0, which a volume of 1 KiB blocks does not
use; and it stores block numbers where group numbers belong. -/

namespace Embext

/-! ## The two passes -/

/-- The groups among `is` the passes list. -/
def listed (sb : Superblock) (is : List Nat) : List Nat :=
  is.filter fun i => !isSparse sb || carriesSuperblock i

theorem countSuperblocks_eq (is : List Nat) : ∀ n,
    countSuperblocks is n = n + (is.filter carriesSuperblock).length := by
  induction is with
  | nil => exact fun _ => rfl
  | cons i rest ih =>
    intro n
    rw [countSuperblocks, ih]
    by_cases hi : carriesSuperblock i = true
    · rw [if_pos hi, List.filter_cons_of_pos hi, List.length_cons]
      omega
    · rw [if_neg hi, List.filter_cons_of_neg hi]

/-- The count is the length of the list. -/
theorem numSuperblocks_eq (sb : Superblock) :
    numSuperblocks sb = (superblockBlocks sb).length := by
  unfold numSuperblocks superblockBlocks superblockGroups
  by_cases hs : isSparse sb = true
  · rw [if_pos hs, countSuperblocks_eq]
    simp [hs]
  · have hall : (List.range (numBlockgroups sb)).filter
        (fun i => !isSparse sb || carriesSuperblock i) = List.range (numBlockgroups sb) :=
      List.filter_eq_self.2 fun _ _ => by simp [hs]
    rw [if_neg hs, List.length_map, hall, List.length_range]

/-- The second pass fills in the listed groups and stays inside an array with room for them. -/
theorem fillSuperblocks_ok (sb : Superblock) (size : Nat) (is : List Nat) : ∀ blocks,
    blocks.length + (listed sb is).length ≤ size →
    fillSuperblocks sb size is blocks = .ok (blocks ++ (listed sb is).map fun i =>
      UInt32.ofNat (i * sb.sBlocksPerGroup.toNat + (superblockBlock sb).toNat)) := by
  induction is with
  | nil => exact fun blocks _ => by rw [fillSuperblocks, listed, List.filter_nil, List.map_nil,
      List.append_nil]
  | cons i rest ih =>
    intro blocks hroom
    rw [fillSuperblocks]
    by_cases hi : (!isSparse sb || carriesSuperblock i) = true
    · have hskip : ¬ (isSparse sb && !carriesSuperblock i) = true := by
        revert hi
        cases isSparse sb <;> cases carriesSuperblock i <;> decide
      have hcons : listed sb (i :: rest) = i :: listed sb rest := List.filter_cons_of_pos hi
      rw [hcons, List.length_cons] at hroom
      rw [if_neg hskip, if_pos (by omega), ih _ (by rw [List.length_append]; simpa using by omega),
        hcons, List.map_cons, List.append_assoc, List.singleton_append]
    · have hskip : (isSparse sb && !carriesSuperblock i) = true := by
        revert hi
        cases isSparse sb <;> cases carriesSuperblock i <;> decide
      have hcons : listed sb (i :: rest) = listed sb rest := List.filter_cons_of_neg hi
      rw [hcons] at hroom ⊢
      rw [if_pos hskip, ih blocks hroom]

/-- The two passes of a mount agree and leave `superblock_blocks`. -/
theorem fillSuperblocks_range (sb : Superblock) :
    fillSuperblocks sb (numSuperblocks sb) (List.range (numBlockgroups sb)) [] =
      .ok (superblockBlocks sb) := by
  rw [fillSuperblocks_ok]
  · rfl
  · rw [numSuperblocks_eq, superblockBlocks, List.length_map, superblockGroups]
    exact (Nat.zero_add _).le

/-! ## The list of copies -/

/-- The groups `ext2_mount` takes for carriers under `sparse_super`. -/
theorem carriesSuperblock_iff (i : Nat) :
    carriesSuperblock i = true ↔ i = 0 ∨ i = 1 ∨ i = 3 ∨ i = 5 ∨ i = 7 := by
  have hpow : ∀ p, p.Prime → isPower p i = true → i = 1 ∨ i = p := fun p hp hpw => by
    rcases isPower_dvd hp.pos hpw with h1 | hdvd
    · exact absurd h1 hp.one_lt.ne'
    · exact (Nat.dvd_prime hp).1 hdvd
  unfold carriesSuperblock
  simp only [Bool.or_eq_true, decide_eq_true_eq]
  constructor
  · rintro ((((h0 | h1) | h3) | h5) | h7)
    · exact .inl h0
    · exact .inr (.inl h1)
    · exact .inr ((hpow 3 Nat.prime_three h3).imp id .inl)
    · exact .inr ((hpow 5 Nat.prime_five h5).imp id fun h => .inr (.inl h))
    · exact .inr ((hpow 7 (by norm_num) h7).imp id fun h => .inr (.inr h))
  · rintro (rfl | rfl | rfl | rfl | rfl) <;> decide

/-- Below group 9 these are the groups that hold a copy. -/
theorem holdsCopy_iff_of_lt {sb : Superblock} {g : Nat} (hg : g < 9) :
    HoldsCopy sb g ↔ (!isSparse sb || carriesSuperblock g) = true := by
  refine ⟨?_, holdsCopy_of_carries⟩
  rw [Bool.or_eq_true, carriesSuperblock_iff, Bool.not_eq_true']
  -- no power but the first two of each is below 9
  have hpow : ∀ p k, 3 ≤ p → g = p ^ k → g = 1 ∨ g = p := by
    intro p k hp hgk
    rcases k with _ | _ | k
    · exact .inl hgk
    · exact .inr (hgk.trans (Nat.pow_one p))
    · have hbig : 3 ^ 2 ≤ g := by
        rw [hgk]
        exact le_trans (Nat.pow_le_pow_left hp 2) (Nat.pow_le_pow_right (by omega) (by omega))
      omega
  rintro (hs | h0 | h1 | ⟨k, h3 | h5 | h7⟩)
  · exact .inl hs
  · exact .inr (.inl h0)
  · exact .inr (.inr (.inl h1))
  · exact .inr (.inr ((hpow 3 k (by decide) h3).imp id .inl))
  · exact .inr (.inr ((hpow 5 k (by decide) h5).imp id fun h => .inr (.inl h)))
  · exact .inr (.inr ((hpow 7 k (by decide) h7).imp id fun h => .inr (.inr h)))

variable {sb : Superblock}

/-- The block number of a listed copy is a 32-bit number. -/
theorem toNat_copyBlock {g : Nat} (hg : g ∈ superblockGroups sb) :
    (UInt32.ofNat (g * sb.sBlocksPerGroup.toNat + (superblockBlock sb).toNat)).toNat =
      g * sb.sBlocksPerGroup.toNat + (superblockBlock sb).toNat := by
  have hlt := mul_lt_of_mem_superblockGroups hg
  have hcount := sb.sBlocksCount.toNat_lt
  have hone : (superblockBlock sb).toNat ≤ 1 := by
    unfold superblockBlock
    split <;> decide
  exact UInt32.toNat_ofNat_of_lt' (show _ < 2 ^ 32 by omega)

/-- The block numbers of the list, as numbers. -/
theorem toNat_superblockBlocks (sb : Superblock) : (superblockBlocks sb).map UInt32.toNat =
    (superblockGroups sb).map fun g =>
      g * sb.sBlocksPerGroup.toNat + (superblockBlock sb).toNat := by
  rw [superblockBlocks, List.map_map]
  exact List.map_congr_left fun g hg => toNat_copyBlock hg

/-- The list is increasing. -/
theorem superblockBlocks_pairwise (hper : sb.sBlocksPerGroup.toNat ≠ 0) :
    ((superblockBlocks sb).map UInt32.toNat).Pairwise (· < ·) := by
  rw [toNat_superblockBlocks, List.pairwise_map]
  refine (List.pairwise_lt_range.filter _).imp fun {g g'} hlt => ?_
  have hmul := Nat.mul_lt_mul_of_pos_right hlt (Nat.pos_of_ne_zero hper)
  omega

/-- The list of a context has, in increasing order, the copies of just those groups that hold one. -/
structure ListsCopies (sb : Superblock) (c : Ext2Context) : Prop where
  increasing : (c.superblockBlocks.map UInt32.toNat).Pairwise (· < ·)
  exactly : ∀ b, b ∈ c.superblockBlocks.map UInt32.toNat ↔ ∃ g < c.numBlockgroups.toNat,
    HoldsCopy sb g ∧ b = g * sb.sBlocksPerGroup.toNat + (superblockBlock sb).toNat
  length : numSuperblocks sb = c.superblockBlocks.length

/-- There are no more groups than blocks. -/
theorem numBlockgroups_le (sb : Superblock) (hper : sb.sBlocksPerGroup.toNat ≠ 0) :
    numBlockgroups sb ≤ sb.sBlocksCount.toNat := by
  have hdiv := Nat.div_add_mod' sb.sBlocksCount.toNat sb.sBlocksPerGroup.toNat
  have hle := Nat.le_mul_of_pos_right (sb.sBlocksCount.toNat / sb.sBlocksPerGroup.toNat)
    (Nat.pos_of_ne_zero hper)
  unfold numBlockgroups
  split <;> omega

/-- The counted groups, from block 0 on. -/
theorem lt_numBlockgroups_iff (hper : sb.sBlocksPerGroup.toNat ≠ 0) (g : Nat) :
    g < numBlockgroups sb ↔ g * sb.sBlocksPerGroup.toNat < sb.sBlocksCount.toNat := by
  have hpos := Nat.pos_of_ne_zero hper
  have hdiv := Nat.div_add_mod' sb.sBlocksCount.toNat sb.sBlocksPerGroup.toNat
  have hmod := Nat.mod_lt sb.sBlocksCount.toNat hpos
  unfold numBlockgroups
  generalize sb.sBlocksCount.toNat / sb.sBlocksPerGroup.toNat = q at *
  rcases Nat.lt_trichotomy g q with hlt | rfl | hgt
  · have hmul := Nat.mul_lt_mul_of_pos_right hlt hpos
    exact iff_of_true (by omega) (by omega)
  · split <;> omega
  · have hmul := Nat.mul_le_mul_right sb.sBlocksPerGroup.toNat hgt
    rw [Nat.succ_mul] at hmul
    exact iff_of_false (by split <;> omega) (by omega)

variable {h : Host} {m m' : Machine} {garbage : Sector} {partStart volumeSize : UInt32}

/-- What a mounted context takes from the superblock it was mounted from. -/
theorem ext2Mount_geometry (hrun : ext2Mount garbage partStart volumeSize h m = .ok (0, m')) :
    m'.ctx.superblockBlocks = superblockBlocks (mountSector h m garbage partStart).superblock ∧
      m'.ctx.numBlockgroups.toNat =
        numBlockgroups (mountSector h m garbage partStart).superblock := by
  have hper := (checks_of_ext2Mount_ok hrun).2.1
  have hsame := ext2Mount_sameVolume hrun
  have hle := numBlockgroups_le _ hper
  have hcount := (mountSector h m garbage partStart).superblock.sBlocksCount.toNat_lt
  rw [hsame]
  exact ⟨rfl, UInt32.toNat_ofNat_of_lt' (lt_of_le_of_lt hle hcount)⟩

/-- **The list of superblock copies is right** exactly without `sparse_super` or with at most nine
groups: group 9 is the first power the driver misses. -/
theorem listsCopies_iff (hrun : ext2Mount garbage partStart volumeSize h m = .ok (0, m')) :
    ListsCopies (mountSector h m garbage partStart).superblock m'.ctx ↔
      isSparse (mountSector h m garbage partStart).superblock = false ∨
        (mountSector h m garbage partStart).superblock.sBlocksCount.toNat ≤
          9 * (mountSector h m garbage partStart).superblock.sBlocksPerGroup.toNat := by
  obtain ⟨hblocks, hgroups⟩ := ext2Mount_geometry hrun
  have hper := (checks_of_ext2Mount_ok hrun).2.1
  generalize (mountSector h m garbage partStart).superblock = sb at *
  rw [← Nat.not_lt, ← lt_numBlockgroups_iff hper, Nat.not_lt]
  have hmem : ∀ b, b ∈ m'.ctx.superblockBlocks.map UInt32.toNat ↔
      ∃ g ∈ superblockGroups sb, g * sb.sBlocksPerGroup.toNat + (superblockBlock sb).toNat = b := by
    intro b
    rw [hblocks, toNat_superblockBlocks, List.mem_map]
  constructor
  · intro hlists
    by_contra hno
    obtain ⟨hsparse, hmany⟩ := not_or.1 hno
    -- group 9 holds a copy and is not listed
    obtain ⟨g, hg, heq⟩ := (hmem _).1 ((hlists.exactly _).2
      ⟨9, by omega, .inr (.inr (.inr ⟨2, .inl rfl⟩)), rfl⟩)
    have h9 : g = 9 := Nat.eq_of_mul_eq_mul_right (Nat.pos_of_ne_zero hper) (by omega)
    have hlisted := (List.mem_filter.1 hg).2
    rw [h9, Bool.eq_true_of_not_eq_false hsparse] at hlisted
    exact absurd hlisted (by decide)
  · intro hfew
    refine ⟨?_, fun b => (hmem b).trans ?_, ?_⟩
    · rw [hblocks]
      exact superblockBlocks_pairwise hper
    · have hholds : ∀ g < numBlockgroups sb,
          HoldsCopy sb g ↔ (!isSparse sb || carriesSuperblock g) = true := by
        intro g hg
        rcases hfew with hdense | hfew
        · exact iff_of_true (.inl hdense) (by rw [hdense]; rfl)
        · exact holdsCopy_iff_of_lt (by omega)
      constructor
      · rintro ⟨g, hg, rfl⟩
        obtain ⟨hlt, hlisted⟩ := List.mem_filter.1 hg
        rw [List.mem_range] at hlt
        exact ⟨g, by omega, (hholds g hlt).2 hlisted, rfl⟩
      · rintro ⟨g, hlt, hcopy, rfl⟩
        rw [hgroups] at hlt
        exact ⟨g, List.mem_filter.2 ⟨List.mem_range.2 hlt, (hholds g hlt).1 hcopy⟩, rfl⟩
    · rw [hblocks, numSuperblocks_eq]

/-! ## The groups that are counted -/

/-- Every counted group starts inside the volume, every block from the first data block on lies in
    one of them, and so does every listed copy. -/
structure GroupsExist (sb : Superblock) (c : Ext2Context) : Prop where
  starts : ∀ g < c.numBlockgroups.toNat,
    sb.sFirstDataBlock.toNat + g * sb.sBlocksPerGroup.toNat < sb.sBlocksCount.toNat
  covers : ∀ b, sb.sFirstDataBlock.toNat ≤ b → b < sb.sBlocksCount.toNat →
    ∃! g, g < c.numBlockgroups.toNat ∧
      sb.sFirstDataBlock.toNat + g * sb.sBlocksPerGroup.toNat ≤ b ∧
      b < sb.sFirstDataBlock.toNat + (g + 1) * sb.sBlocksPerGroup.toNat
  copies : ∀ b ∈ c.superblockBlocks, b.toNat < sb.sBlocksCount.toNat

/-- **Every counted group exists** exactly when the volume does not end one block behind a multiple
of the group size with its first data block at 1. -/
theorem groupsExist_iff (hrun : ext2Mount garbage partStart volumeSize h m = .ok (0, m'))
    (hsb : sb = (mountSector h m garbage partStart).superblock)
    (hfirst : sb.sFirstDataBlock.toNat = if sb.sLogBlockSize = 0 then 1 else 0)
    (hlt : sb.sFirstDataBlock.toNat < sb.sBlocksCount.toNat) :
    GroupsExist sb m'.ctx ↔
      ¬ (sb.sFirstDataBlock.toNat = 1 ∧
        sb.sBlocksPerGroup.toNat ∣ sb.sBlocksCount.toNat - 1) := by
  obtain ⟨hblocks, hgroups⟩ := ext2Mount_geometry hrun
  have hper := (checks_of_ext2Mount_ok hrun).2.1
  rw [← hsb] at hblocks hgroups hper
  have hpos := Nat.pos_of_ne_zero hper
  have hblock : (superblockBlock sb).toNat = sb.sFirstDataBlock.toNat := by
    rw [hfirst, superblockBlock]
    split <;> rfl
  constructor
  · rintro hexist ⟨hone, g, hg⟩
    -- the group behind the last block is counted
    have hmul : g * sb.sBlocksPerGroup.toNat = sb.sBlocksCount.toNat - 1 := by
      rw [hg, Nat.mul_comm]
    have hcounted : g < m'.ctx.numBlockgroups.toNat := by
      rw [hgroups, lt_numBlockgroups_iff hper]
      omega
    have hstart := hexist.starts g hcounted
    omega
  · intro hend
    have hstarts : ∀ g < m'.ctx.numBlockgroups.toNat,
        sb.sFirstDataBlock.toNat + g * sb.sBlocksPerGroup.toNat < sb.sBlocksCount.toNat := by
      intro g hg
      rw [hgroups, lt_numBlockgroups_iff hper] at hg
      by_contra hout
      have hone : sb.sFirstDataBlock.toNat ≤ 1 := by
        rw [hfirst]
        split <;> decide
      exact hend ⟨by omega, g, by rw [Nat.mul_comm]; omega⟩
    refine ⟨hstarts, fun b hlo hhi => ?_, fun b hb => ?_⟩
    · have hdiv := Nat.div_add_mod' (b - sb.sFirstDataBlock.toNat) sb.sBlocksPerGroup.toNat
      have hmod := Nat.mod_lt (b - sb.sFirstDataBlock.toNat) hpos
      refine ⟨(b - sb.sFirstDataBlock.toNat) / sb.sBlocksPerGroup.toNat, ⟨?_, ?_, ?_⟩, ?_⟩
      · rw [hgroups, lt_numBlockgroups_iff hper]
        omega
      · omega
      · rw [Nat.add_one_mul]
        omega
      · rintro g ⟨-, hge, hlt'⟩
        exact (Nat.div_eq_of_lt_le (by omega) (by omega)).symm
    · rw [hblocks] at hb
      have hmem := List.mem_map_of_mem hb (f := UInt32.toNat)
      rw [toNat_superblockBlocks] at hmem
      obtain ⟨g, hg, heq⟩ := List.mem_map.1 hmem
      have hcounted := List.mem_range.1 (List.mem_filter.1 hg).1
      have hstart := hstarts g (by rw [hgroups]; exact hcounted)
      omega

/-! ## What a flush overwrites -/

/-- The number of the group block `b` lies in. -/
def groupOf (sb : Superblock) (b : UInt32) : Nat :=
  (b.toNat - sb.sFirstDataBlock.toNat) / sb.sBlocksPerGroup.toNat

/-- The copy a flush writes last to sector `x`. -/
def lastCopy (c : Ext2Context) (x : UInt32) : Option UInt32 :=
  c.superblockBlocks.reverse.find? fun b => copySector c b = x

/-- The sector holds the superblock of the context as the copy of group `g`, and behind it the bytes
    it held before. -/
structure KeepsSector (sb : Superblock) (g : Nat) (old new : Sector) : Prop where
  group : new.superblock.sBlockGroupNr.toNat = g
  fields : { new.superblock with sBlockGroupNr := sb.sBlockGroupNr } = sb
  tail : ∀ k, 264 ≤ k → k < 512 → Window.item new k = Window.item old k

/-- A flush returns, and every copy holds the superblock under its group number and keeps the bytes
    the driver does not own. -/
def FlushKeeps (h : Host) (m : Machine) : Prop :=
  ∃ m', ext2FlushSuperblock h m = .ok (0, m') ∧ ∀ b ∈ m.ctx.superblockBlocks,
    KeepsSector m.ctx.superblock (groupOf m.ctx.superblock b)
      (m.disk (copySector m.ctx b)) (m'.disk (copySector m.ctx b))

theorem foldl_flushCopy_disk_last (l : List UInt32) {x b : UInt32} : ∀ {m : Machine},
    l.reverse.find? (fun b => copySector m.ctx b = x) = some b →
    (l.foldl flushCopy m).disk x = (m.ctx.superblock.copyAt b).sector := by
  induction l with
  | nil => exact fun hb => absurd hb (by simp)
  | cons b₀ rest ih =>
    intro m hb
    rw [List.reverse_cons, List.find?_append] at hb
    rcases hrest : rest.reverse.find? (fun b => copySector m.ctx b = x) with _ | b'
    · -- no later copy goes to `x`
      rw [hrest, Option.none_or, List.find?_singleton] at hb
      rw [List.foldl_cons, foldl_flushCopy_disk_other (m := flushCopy m b₀) rest fun b' hb' heq => by
        have hne := List.find?_eq_none.1 hrest b' (List.mem_reverse.2 hb')
        exact hne (decide_eq_true heq)]
      split at hb
      · next hx =>
        obtain rfl : b₀ = b := by simpa using hb
        simp only [flushCopy, of_decide_eq_true hx, Function.update_self]
      · exact absurd hb (by simp)
    · rw [hrest, Option.some_or, Option.some.injEq] at hb
      rw [hb] at hrest
      exact ih (m := flushCopy m b₀) hrest

/-- The sector of a copy holds the superblock under the number of the block written last. -/
theorem flushed_disk {x b : UInt32} (hb : lastCopy m.ctx x = some b) :
    (flushed m).disk x = (m.ctx.superblock.copyAt b).sector :=
  foldl_flushCopy_disk_last m.ctx.superblockBlocks
    (m := { m with ctx := { m.ctx with sysbuf := fun _ => 0 } }) hb

/-- Every copy's sector is written. -/
theorem lastCopy_isSome {c : Ext2Context} {b : UInt32} (hb : b ∈ c.superblockBlocks) :
    ∃ b', lastCopy c (copySector c b) = some b' :=
  Option.isSome_iff_exists.1 (List.find?_isSome.2
    ⟨b, List.mem_reverse.2 hb, decide_eq_true rfl⟩)

/-- Behind the superblock a written sector is zero. -/
theorem Superblock.sector_tail (sb : Superblock) {k : Nat} (hlo : 264 ≤ k) (hhi : k < 512) :
    Window.item sb.sector k = 0 := by
  rw [Superblock.sector, Window.item_patch_outside _ hhi]
  · rfl
  · exact .inr (by rw [Packed.length_bytes, Superblock.packed_size]; omega)

theorem FlushKeeps.keepsSector (hh : h.Reliable) (hk : FlushKeeps h m) {b : UInt32}
    (hb : b ∈ m.ctx.superblockBlocks) : KeepsSector m.ctx.superblock
      (groupOf m.ctx.superblock b) (m.disk (copySector m.ctx b))
      ((flushed m).disk (copySector m.ctx b)) := by
  obtain ⟨m', hrun, hall⟩ := hk
  obtain ⟨-, rfl⟩ := of_ext2FlushSuperblock_ok hh hrun
  exact hall b hb

/-- **A flush keeps what it does not own** exactly when the block numbers it stores are the group
numbers of the copies, and their sectors are zero behind the superblock. -/
theorem flushKeeps_iff (hh : h.Reliable) : FlushKeeps h m ↔
    (m.ctx.superblockBlocks = [] ∨ (m.ctx.superblock.sLogBlockSize + 1).toNat < 32) ∧
      ∀ b ∈ m.ctx.superblockBlocks,
        (∀ b', lastCopy m.ctx (copySector m.ctx b) = some b' →
          b'.toNat % 2 ^ 16 = groupOf m.ctx.superblock b) ∧
        ∀ k, 264 ≤ k → k < 512 → Window.item (m.disk (copySector m.ctx b)) k = 0 := by
  have hkeeps : ∀ b ∈ m.ctx.superblockBlocks,
      (KeepsSector m.ctx.superblock (groupOf m.ctx.superblock b)
        (m.disk (copySector m.ctx b)) ((flushed m).disk (copySector m.ctx b)) ↔
      (∀ b', lastCopy m.ctx (copySector m.ctx b) = some b' →
          b'.toNat % 2 ^ 16 = groupOf m.ctx.superblock b) ∧
        ∀ k, 264 ≤ k → k < 512 → Window.item (m.disk (copySector m.ctx b)) k = 0) := by
    intro b hb
    obtain ⟨b', hlast⟩ := lastCopy_isSome hb
    rw [flushed_disk hlast]
    constructor
    · intro hsector
      refine ⟨fun b'' hb'' => ?_, fun k hlo hhi => ?_⟩
      · have hgroup := hsector.group
        rw [Superblock.sector_superblock] at hgroup
        obtain rfl : b' = b'' := by simpa [hlast] using hb''
        exact hgroup
      · rw [← hsector.tail k hlo hhi, Superblock.sector_tail _ hlo hhi]
    · rintro ⟨hgroup, htail⟩
      refine ⟨?_, ?_, fun k hlo hhi => ?_⟩
      · rw [Superblock.sector_superblock]
        exact hgroup b' hlast
      · rw [Superblock.sector_superblock]
        rfl
      · rw [Superblock.sector_tail _ hlo hhi, htail k hlo hhi]
  constructor
  · intro hk
    obtain ⟨m', hrun, -⟩ := id hk
    exact ⟨shift_of_ext2FlushSuperblock_ok hrun, fun b hb => (hkeeps b hb).1 (hk.keepsSector hh hb)⟩
  · rintro ⟨hshift, hall⟩
    obtain ⟨m', hrun⟩ := ext2FlushSuperblock_returns (h := h) hshift
    obtain ⟨-, rfl⟩ := of_ext2FlushSuperblock_ok hh hrun
    exact ⟨_, hrun, fun b hb => (hkeeps b hb).2 (hall b hb)⟩

theorem carrier_disk_of_ne (sb : Superblock) (partStart : UInt32) {x : UInt32}
    (hx : x ≠ partStart + 2) : (carrier sb partStart).disk x = fun _ => 0 := by
  have hdisk : (carrier sb partStart).disk =
      Function.update (fun _ _ => 0) (partStart + 2) sb.sector := rfl
  rw [hdisk, Function.update_of_ne hx]

namespace SmallVolume

set_option maxRecDepth 4000

/-- A volume of ten groups under `sparse_super`. -/
def tenGroups : Superblock :=
  { superblock with sBlocksCount := 640, sRevLevel := 1, sFeatureRoCompat := 1 }

/-- A volume with one block more than a multiple of its group size. -/
def oneMore : Superblock := { superblock with sBlocksCount := 65 }

/-- The device that carries a superblock can be mounted. -/
theorem carrier_mounts (sb : Superblock) (volumeSize : UInt32) (hsb : Mountable sb volumeSize) :
    ∃ m', ext2Mount (fun _ => 0) 0 volumeSize host (carrier sb 0) = .ok (0, m') ∧
      (mountSector host (carrier sb 0) (fun _ => 0) 0).superblock = sb := by
  have hsec : (mountSector host (carrier sb 0) (fun _ => 0) 0).superblock = sb := by
    rw [mountSector_reliable host_reliable]
    exact carrier_superblock sb 0
  refine ⟨_, ext2Mount_ok host_reliable ?_, hsec⟩
  rw [carrier_superblock sb 0]
  exact hsb

/-- The list of ten groups misses group 9. -/
theorem listsCopies_fails : ∃ m', ext2Mount (fun _ => 0) 0 1000 host (carrier tenGroups 0) =
    .ok (0, m') ∧ (mountSector host (carrier tenGroups 0) (fun _ => 0) 0).superblock = tenGroups ∧
      ¬ ListsCopies tenGroups m'.ctx := by
  obtain ⟨m', hrun, hsec⟩ := carrier_mounts tenGroups 1000
    ⟨⟨by decide, by decide⟩, by decide, by decide⟩
  refine ⟨m', hrun, hsec, fun hlists => ?_⟩
  obtain ⟨hblocks, hgroups⟩ := ext2Mount_geometry hrun
  rw [hsec] at hblocks hgroups
  have hcount : numBlockgroups tenGroups = 10 := by decide
  have hnine := (hlists.exactly 577).2
    ⟨9, by rw [hgroups, hcount]; decide, .inr (.inr (.inr ⟨2, .inl rfl⟩)), by decide⟩
  have hmiss : 577 ∉ (superblockBlocks tenGroups).map UInt32.toNat := by decide
  rw [hblocks] at hnine
  exact hmiss hnine

theorem listsCopies_oneGroup : ∃ m' : Machine, ListsCopies superblock m'.ctx := by
  obtain ⟨m', hrun, hsec⟩ := carrier_mounts superblock 1000
    ⟨⟨by decide, by decide⟩, by decide, by decide⟩
  have hlists := (listsCopies_iff hrun).2 (.inl (by rw [hsec]; decide))
  rw [hsec] at hlists
  exact ⟨m', hlists⟩

/-- The second group counted starts at the end of the volume. -/
theorem groupsExist_fails : ∃ m', ext2Mount (fun _ => 0) 0 1000 host (carrier oneMore 0) =
    .ok (0, m') ∧ (mountSector host (carrier oneMore 0) (fun _ => 0) 0).superblock = oneMore ∧
      oneMore.sFirstDataBlock.toNat = (if oneMore.sLogBlockSize = 0 then 1 else 0) ∧
      oneMore.sFirstDataBlock.toNat < oneMore.sBlocksCount.toNat ∧
      ¬ GroupsExist oneMore m'.ctx := by
  obtain ⟨m', hrun, hsec⟩ := carrier_mounts oneMore 1000
    ⟨⟨by decide, by decide⟩, by decide, by decide⟩
  refine ⟨m', hrun, hsec, by decide, by decide, fun hexist => ?_⟩
  obtain ⟨-, hgroups⟩ := ext2Mount_geometry hrun
  have hcount : numBlockgroups oneMore = 2 := by decide
  have hstart := hexist.starts 1 (by rw [hgroups, hsec, hcount]; decide)
  exact absurd hstart (by decide)

theorem groupsExist_oneGroup : ∃ m' : Machine, GroupsExist superblock m'.ctx := by
  obtain ⟨m', hrun, hsec⟩ := carrier_mounts superblock 1000
    ⟨⟨by decide, by decide⟩, by decide, by decide⟩
  exact ⟨m', (groupsExist_iff hrun hsec.symm (by decide) (by decide)).2
    (by decide)⟩

/-- The only copy of the volume gets its block number, 1, for its group number. -/
theorem flushKeeps_fails : host.Reliable ∧ ¬ FlushKeeps host machine := by
  refine ⟨host_reliable, fun hkeeps => ?_⟩
  have hsector := hkeeps.keepsSector host_reliable (b := 1) (by decide)
  have hlast : lastCopy machine.ctx (copySector machine.ctx 1) = some 1 := by decide
  rw [flushed_disk hlast] at hsector
  have hgroup := hsector.group
  rw [Superblock.sector_superblock] at hgroup
  exact absurd hgroup (by decide)

/-- The mounted volume of 16 blocks of 4 KiB. -/
def largeCtx : Ext2Context := mountedContext false 0 largeBlocks.sector 0

/-- With 4 KiB blocks and one group the copy is in block 0. -/
theorem flushKeeps_largeBlocks : FlushKeeps host { carrier largeBlocks 0 with ctx := largeCtx } := by
  have hblocks : largeCtx.superblockBlocks = [0] := by decide
  have hlast : lastCopy largeCtx (copySector largeCtx 0) = some 0 := by decide
  have hsec : copySector largeCtx 0 ≠ 0 + 2 := by decide
  refine (flushKeeps_iff host_reliable).2 ⟨.inr (by decide), fun b hb => ?_⟩
  change b ∈ largeCtx.superblockBlocks at hb
  rw [hblocks, List.mem_singleton] at hb
  subst hb
  refine ⟨fun b' hb' => ?_, fun k _ _ => ?_⟩
  · obtain rfl : b' = 0 := Option.some.inj (hb'.symm.trans hlast)
    decide
  · dsimp only
    rw [carrier_disk_of_ne _ _ hsec]
    rfl

end SmallVolume

end Embext
