import Embext.Proofs.AllocateInode

set_option autoImplicit false

/-! # Taking inodes one after the other

Calls of `ext2_allocate_inode` only set bits of the inode bitmaps, so the numbers of a run are
distinct. They never write a descriptor, so all of them choose the same group, and once that group
has been used up every further call fails. -/

namespace Embext

variable {h : Host} {m m' : Machine} {fe fe' : FileEnt} {c : Ext2Context} {v : UInt32 → Sector}

/-! ## The layout -/

/-- Inode bitmaps of their own, apart from the descriptors and from the copies of the superblock. -/
structure InodeLayout (v : UInt32 → Sector) (c : Ext2Context) : Prop where
  block : c.SaneBlockSize
  perGroup : 0 < c.superblock.sInodesPerGroup.toNat
  wholeBytes : 8 ∣ c.superblock.sInodesPerGroup.toNat
  oneBlock : c.superblock.sInodesPerGroup.toNat ≤ 8 * c.blockSize
  numbers : c.superblock.sInodesPerGroup.toNat * c.numBlockgroups.toNat < 2 ^ 32
  fits : ∀ g < c.numBlockgroups.toNat, c.partStart.toNat
    + ((descriptorAt v c g).bgInodeBitmap.toNat + 1) * (c.blockSize / 512) ≤ 2 ^ 32
  distinct : ∀ g < c.numBlockgroups.toNat, ∀ g' < c.numBlockgroups.toNat,
    (descriptorAt v c g).bgInodeBitmap = (descriptorAt v c g').bgInodeBitmap → g = g'
  bitmapsOffDescriptors : ∀ g < c.numBlockgroups.toNat, ∀ g' < c.numBlockgroups.toNat,
    ∀ off < c.blockSize,
      blockSector c (descriptorAt v c g).bgInodeBitmap off ≠ descriptorSector c g'
  bitmapsOffCopies : ∀ g < c.numBlockgroups.toNat, ∀ off < c.blockSize,
    OffCopies c (blockSector c (descriptorAt v c g).bgInodeBitmap off)
  descriptorsOffCopies : ∀ g < c.numBlockgroups.toNat, OffCopies c (descriptorSector c g)

namespace InodeLayout

variable {g g' k k' : Nat}

/-- Two inodes have two bits. -/
theorem place_inj (hl : InodeLayout v c) (hg : g < c.numBlockgroups.toNat)
    (hg' : g' < c.numBlockgroups.toNat) (hk : k < 8 * c.blockSize) (hk' : k' < 8 * c.blockSize)
    (heq : inodePlace v c g k = inodePlace v c g' k') : g = g' ∧ k = k' := by
  obtain ⟨hsec, hbyte, hbit⟩ := BitPlace.mk.inj heq
  have hbs := blockSize_eq_mul c
  obtain ⟨hblock, hi⟩ := sector_inj (hl.fits g hg) (hl.fits g' hg')
    (Nat.div_lt_of_lt_mul (by omega)) (Nat.div_lt_of_lt_mul (by omega)) hsec
  exact ⟨hl.distinct g hg g' hg' (UInt32.toNat_inj.1 hblock), by omega⟩

/-- A bit of a bitmap is no target of a flush. -/
theorem offCopies (hl : InodeLayout v c) (hg : g < c.numBlockgroups.toNat)
    (hk : k < 8 * c.blockSize) : OffCopies c (inodePlace v c g k).sector :=
  hl.bitmapsOffCopies g hg (k / 8) (Nat.div_lt_of_lt_mul hk)

/-- Nor does it lie in a descriptor. -/
theorem ne_descriptor (hl : InodeLayout v c) (hg : g < c.numBlockgroups.toNat)
    (hk : k < 8 * c.blockSize) (hg' : g' < c.numBlockgroups.toNat) :
    descriptorSector c g' ≠ (inodePlace v c g k).sector :=
  (hl.bitmapsOffDescriptors g hg g' hg' (k / 8) (Nat.div_lt_of_lt_mul hk)).symm

end InodeLayout

/-! ## One call of a run -/

/-- The machine `m` of a run that has started in `m₀`: the volume and its descriptors are those of
    the start. -/
structure Machine.Since (m₀ m : Machine) : Prop where
  volume : m₀.ctx.SameVolume m.ctx
  descriptors : ∀ g < m₀.ctx.numBlockgroups.toNat,
    descriptorAt m.disk m₀.ctx g = descriptorAt m₀.disk m₀.ctx g

namespace Machine.Since

variable {m₀ : Machine}

theorem refl (m : Machine) : m.Since m := ⟨.refl _, fun _ _ => rfl⟩

theorem context (hs : m₀.Since m) : ∃ s i f b, m.ctx = { m₀.ctx with
    sysbuf := s
    superblock := { m₀.ctx.superblock with
      sFreeBlocksCount := f, sFreeInodesCount := i, sBlockGroupNr := b } } :=
  ⟨_, _, _, _, hs.volume⟩

theorem place (hs : m₀.Since m) {g : Nat} (hg : g < m₀.ctx.numBlockgroups.toNat) (k : Nat) :
    inodePlace m.disk m.ctx g k = inodePlace m₀.disk m₀.ctx g k := by
  obtain ⟨s, i, f, b, hctx⟩ := hs.context
  have hdesc := hs.descriptors g hg
  unfold inodePlace
  rw [← hdesc, hctx]
  rfl

/-- Every call chooses the same group. -/
theorem choice (hs : m₀.Since m) :
    mostFreeInodes m.disk m.ctx = mostFreeInodes m₀.disk m₀.ctx := by
  obtain ⟨s, i, f, b, hctx⟩ := hs.context
  unfold mostFreeInodes
  rw [hctx]
  refine mostFree_congr _ 0 0 0 fun g _ hg => ?_
  change (descriptorAt m.disk m₀.ctx g).bgFreeInodesCount = _
  rw [hs.descriptors g (by simpa using hg)]

theorem inodesPerGroup (hs : m₀.Since m) :
    m.ctx.superblock.sInodesPerGroup = m₀.ctx.superblock.sInodesPerGroup := by
  obtain ⟨s, i, f, b, hctx⟩ := hs.context
  rw [hctx]

theorem saneBlockSize (hs : m₀.Since m) (hb : m₀.ctx.SaneBlockSize) : m.ctx.SaneBlockSize := by
  obtain ⟨s, i, f, b, hctx⟩ := hs.context
  rw [hctx]
  exact hb

theorem offCopies (hs : m₀.Since m) {x : UInt32} (hx : OffCopies m₀.ctx x) : OffCopies m.ctx x :=
  hx.congr hs.volume

theorem browsed (hs : m₀.Since m) (hb : m.Browsed m') : m₀.Since m' := by
  obtain ⟨s, l, rfl⟩ := hb
  exact ⟨hs.volume.trans rfl, hs.descriptors⟩

end Machine.Since

/-- The group the calls of a run choose. -/
def chosenGroup (m₀ : Machine) : Nat := (mostFreeInodes m₀.disk m₀.ctx).2.toNat

/-- Inode `k` of the chosen group, a free one, has been taken and nothing else. -/
structure InodeTaken (m₀ m : Machine) (k : Nat) (fe' : FileEnt) (m' : Machine) : Prop where
  since : m₀.Since m'
  records : (mostFreeInodes m₀.disk m₀.ctx).1 ≠ 0
  group : chosenGroup m₀ < m₀.ctx.numBlockgroups.toNat
  index : k < m₀.ctx.superblock.sInodesPerGroup.toNat
  clear : (inodePlace m₀.disk m₀.ctx (chosenGroup m₀) k).get m.disk = false
  number : fe'.inodeNumber
    = UInt32.ofNat (m₀.ctx.superblock.sInodesPerGroup.toNat * chosenGroup m₀ + k + 1)
  bits : ∀ g < m₀.ctx.numBlockgroups.toNat, ∀ i < 8 * m₀.ctx.blockSize,
    (inodePlace m₀.disk m₀.ctx g i).get m'.disk = ((inodePlace m₀.disk m₀.ctx g i).get m.disk
      || decide (g = chosenGroup m₀ ∧ i = k))
  counted : m'.ctx.superblock.sFreeInodesCount = m.ctx.superblock.sFreeInodesCount - 1

/-- Nothing has been taken, since the chosen group has nothing to give. -/
structure InodeRefused (m₀ m m' : Machine) : Prop where
  since : m₀.Since m'
  full : (mostFreeInodes m₀.disk m₀.ctx).1 = 0 ∨ ∀ k < m₀.ctx.superblock.sInodesPerGroup.toNat,
    (inodePlace m₀.disk m₀.ctx (chosenGroup m₀) k).get m.disk = true
  disk : m'.disk = m.disk
  counted : m'.ctx.superblock.sFreeInodesCount = m.ctx.superblock.sFreeInodesCount

theorem Machine.Browsed.refused {m₀ : Machine} (hb : m.Browsed m') (hs : m₀.Since m)
    (hfull : (mostFreeInodes m₀.disk m₀.ctx).1 = 0 ∨
      ∀ k < m₀.ctx.superblock.sInodesPerGroup.toNat,
        (inodePlace m₀.disk m₀.ctx (chosenGroup m₀) k).get m.disk = true) :
    InodeRefused m₀ m m' := by
  refine ⟨hs.browsed hb, hfull, hb.disk, ?_⟩
  obtain ⟨s, l, rfl⟩ := hb
  rfl

/-- A call in the middle of a run. -/
theorem ext2AllocateInode_since {m₀ : Machine} (fe : FileEnt) (hh : h.Reliable)
    (hl : InodeLayout m₀.disk m₀.ctx) (hs : m₀.Since m) (hclean : fe.buffer.dirty = false) :
    ∃ r fe' m', ext2AllocateInode fe h m = .ok ((r, fe'), m') ∧
      (r = 0 ∧ (∃ k, InodeTaken m₀ m k fe' m') ∨ r = -1 ∧ InodeRefused m₀ m m') := by
  have hN := m₀.ctx.numBlockgroups.toNat_lt
  have hchosen : (mostFreeInodes m.disk m.ctx).2.toNat = chosenGroup m₀ := by
    rw [hs.choice, chosenGroup]
  obtain ⟨r, fe', m', hrun, hout⟩ := ext2AllocateInode_ok fe hh (hs.saneBlockSize hl.block) hclean
    (by rw [hs.inodesPerGroup]; exact hl.perGroup) (by rw [hs.inodesPerGroup]; exact hl.wholeBytes)
  refine ⟨r, fe', m', hrun, ?_⟩
  cases hout with
  | none records looks =>
    rw [hs.choice] at records
    exact .inr ⟨rfl, looks.refused hs (.inl records)⟩
  | stale records full looks =>
    rw [hs.choice] at records
    have hgroup : chosenGroup m₀ < m₀.ctx.numBlockgroups.toNat := (mostFree_lt _ hN records).1
    refine .inr ⟨rfl, looks.refused hs (.inr fun k hk => ?_)⟩
    rw [← hs.place hgroup, ← hchosen]
    exact full k (by rw [hs.inodesPerGroup]; exact hk)
  | @taken k _ _ records index clear number disk volume free =>
    rw [hs.choice] at records
    have hgroup : chosenGroup m₀ < m₀.ctx.numBlockgroups.toNat := (mostFree_lt _ hN records).1
    rw [hs.inodesPerGroup] at index number
    rw [hchosen] at number clear disk
    have hk : k < 8 * m₀.ctx.blockSize := lt_of_lt_of_le index hl.oneBlock
    rw [inodeBit, hs.place hgroup] at clear
    rw [hs.place hgroup] at disk
    refine .inl ⟨rfl, k, ?_, records, hgroup, index, clear, number, fun g hg i hi => ?_, free⟩
    · refine ⟨hs.volume.trans volume, fun g hg => ?_⟩
      rw [← hs.descriptors g hg]
      refine descriptorAt_congr ((disk _ (hs.offCopies (hl.descriptorsOffCopies g hg))).trans ?_)
      exact BitPlace.put_other (hl.ne_descriptor hgroup hk hg)
    · have hsec := disk _ (hs.offCopies (hl.offCopies hg hi))
      rw [BitPlace.get_congr hsec]
      by_cases hsame : g = chosenGroup m₀ ∧ i = k
      · obtain ⟨rfl, rfl⟩ := hsame
        simp [BitPlace.get_put_self (inodePlace_valid _ _ _ _)]
      · have hne := fun heq => hsame (hl.place_inj hg hgroup hi hk heq)
        rw [BitPlace.get_put_ne (inodePlace_valid _ _ _ _) (inodePlace_valid _ _ _ _) hne]
        simp [hsame]

/-! ## Runs -/

/-- One call of a run, with the machine and the handle before and after it. -/
structure InodeCall where
  before : Machine
  handle : FileEnt
  reply : Int
  handle' : FileEnt
  after : Machine

/-- The inode number a successful call returns. -/
def InodeCall.taken (call : InodeCall) : Option UInt32 :=
  if call.reply = 0 then some call.handle'.inodeNumber else none

/-- `ext2_allocate_inode` on one handle after the other. -/
def allocateInodes (h : Host) : List FileEnt → Machine → Except Fault (List InodeCall)
  | [], _ => .ok []
  | fe :: rest, m =>
    match ext2AllocateInode fe h m with
    | .error e => .error e
    | .ok ((r, fe'), m') =>
      match allocateInodes h rest m' with
      | .error e => .error e
      | .ok calls => .ok (⟨m, fe, r, fe', m'⟩ :: calls)

theorem allocateInodes_cons {fes : List FileEnt} {r : Int} {calls : List InodeCall}
    (hstep : ext2AllocateInode fe h m = .ok ((r, fe'), m'))
    (hrest : allocateInodes h fes m' = .ok calls) :
    allocateInodes h (fe :: fes) m = .ok (⟨m, fe, r, fe', m'⟩ :: calls) := by
  rw [allocateInodes, hstep]
  dsimp only
  rw [hrest]

/-- What every call of a run that has started in `m₀` does to the inode bitmaps and the counter. -/
structure InodeCall.Sound (m₀ : Machine) (call : InodeCall) : Prop where
  reply : call.reply = 0 ∨ call.reply = -1
  descriptors : ∀ g < m₀.ctx.numBlockgroups.toNat,
    descriptorAt call.after.disk m₀.ctx g = descriptorAt m₀.disk m₀.ctx g
  range : ∀ n, call.taken = some n → 1 ≤ n.toNat ∧
    n.toNat ≤ m₀.ctx.superblock.sInodesPerGroup.toNat * m₀.ctx.numBlockgroups.toNat
  clear : ∀ n, call.taken = some n →
    (inodePlace m₀.disk m₀.ctx (inodeGroup m₀.ctx n) (inodeIndex m₀.ctx n)).get call.before.disk
      = false
  set : ∀ n, call.taken = some n →
    (inodePlace m₀.disk m₀.ctx (inodeGroup m₀.ctx n) (inodeIndex m₀.ctx n)).get call.after.disk
      = true
  others : ∀ g < m₀.ctx.numBlockgroups.toNat, ∀ k < 8 * m₀.ctx.blockSize,
    (∀ n, call.taken = some n → ¬ (g = inodeGroup m₀.ctx n ∧ k = inodeIndex m₀.ctx n)) →
    (inodePlace m₀.disk m₀.ctx g k).get call.after.disk
      = (inodePlace m₀.disk m₀.ctx g k).get call.before.disk
  counted : call.reply = 0 → call.after.ctx.superblock.sFreeInodesCount
    = call.before.ctx.superblock.sFreeInodesCount - 1
  kept : call.reply = -1 → call.after.ctx.superblock.sFreeInodesCount
    = call.before.ctx.superblock.sFreeInodesCount

/-- Group and index of an inode number. -/
theorem inode_of_index {ino : UInt32} {g k : Nat} (hk : k < c.superblock.sInodesPerGroup.toNat)
    (hg : g < c.numBlockgroups.toNat)
    (hfits : c.superblock.sInodesPerGroup.toNat * c.numBlockgroups.toNat < 2 ^ 32)
    (hino : ino = UInt32.ofNat (c.superblock.sInodesPerGroup.toNat * g + k + 1)) :
    inodeGroup c ino = g ∧ inodeIndex c ino = k ∧ 1 ≤ ino.toNat ∧
      ino.toNat ≤ c.superblock.sInodesPerGroup.toNat * c.numBlockgroups.toNat := by
  have hle : c.superblock.sInodesPerGroup.toNat * g + k + 1
      ≤ c.superblock.sInodesPerGroup.toNat * c.numBlockgroups.toNat := by
    calc c.superblock.sInodesPerGroup.toNat * g + k + 1
        ≤ c.superblock.sInodesPerGroup.toNat * g + c.superblock.sInodesPerGroup.toNat := by omega
      _ = c.superblock.sInodesPerGroup.toNat * (g + 1) := by rw [Nat.mul_add, Nat.mul_one]
      _ ≤ _ := Nat.mul_le_mul_left _ hg
  have hnat : ino.toNat = c.superblock.sInodesPerGroup.toNat * g + k + 1 := by
    rw [hino]
    exact UInt32.toNat_ofNat_of_lt' (lt_of_le_of_lt hle hfits)
  have hpred : (ino - 1).toNat = c.superblock.sInodesPerGroup.toNat * g + k := by
    rw [UInt32.toNat_sub_of_le _ _ (UInt32.le_iff_toNat_le.2 (by rw [hnat]; exact Nat.le_add_left _ _)),
      hnat]
    rfl
  unfold inodeGroup inodeIndex
  rw [hpred, Nat.mul_add_div (by omega), Nat.div_eq_of_lt hk, Nat.mul_add_mod, Nat.mod_eq_of_lt hk]
  exact ⟨rfl, rfl, by omega, by omega⟩

theorem InodeTaken.sound {m₀ : Machine} {k : Nat} (hl : InodeLayout m₀.disk m₀.ctx)
    (ht : InodeTaken m₀ m k fe' m') : InodeCall.Sound m₀ ⟨m, fe, 0, fe', m'⟩ := by
  obtain ⟨hgroup, hindex, hpos, hmax⟩ := inode_of_index ht.index ht.group hl.numbers ht.number
  have hk : k < 8 * m₀.ctx.blockSize := lt_of_lt_of_le ht.index hl.oneBlock
  constructor
  case reply => exact .inl rfl
  case descriptors => exact ht.since.descriptors
  case range =>
    rintro n ⟨⟩
    exact ⟨hpos, hmax⟩
  case clear =>
    rintro n ⟨⟩
    rw [hgroup, hindex]
    exact ht.clear
  case set =>
    rintro n ⟨⟩
    rw [hgroup, hindex, ht.bits _ ht.group _ hk]
    simp
  case others =>
    intro g hg i hi hne
    have hne := hne _ rfl
    rw [hgroup, hindex] at hne
    rw [ht.bits g hg i hi]
    simp [hne]
  case counted => exact fun _ => ht.counted
  case kept => exact fun h0 => absurd (show (0 : Int) = -1 from h0) (by decide)

theorem InodeRefused.sound {m₀ : Machine} (hr : InodeRefused m₀ m m') :
    InodeCall.Sound m₀ ⟨m, fe, -1, fe', m'⟩ := by
  constructor
  case reply => exact .inr rfl
  case descriptors => exact hr.since.descriptors
  case range => rintro n ⟨⟩
  case clear => rintro n ⟨⟩
  case set => rintro n ⟨⟩
  case others =>
    intro g hg k hk _
    rw [hr.disk]
  case counted => exact fun h0 => absurd (show (-1 : Int) = 0 from h0) (by decide)
  case kept => exact fun _ => hr.counted

/-- Bits are only set. -/
theorem InodeCall.Sound.mono {m₀ : Machine} {call : InodeCall} (hs : call.Sound m₀) {g k : Nat}
    (hg : g < m₀.ctx.numBlockgroups.toNat) (hk : k < 8 * m₀.ctx.blockSize)
    (hclear : (inodePlace m₀.disk m₀.ctx g k).get call.after.disk = false) :
    (inodePlace m₀.disk m₀.ctx g k).get call.before.disk = false := by
  rw [← hs.others g hg k hk fun n hn hgk => ?_]
  · exact hclear
  · have hset := hs.set n hn
    rw [← hgk.1, ← hgk.2, hclear] at hset
    cases hset

/-- The run from any machine of a run: what is taken was free, and is taken once. -/
theorem allocateInodes_since {m₀ : Machine} (hh : h.Reliable) (hl : InodeLayout m₀.disk m₀.ctx)
    (fes : List FileEnt) : ∀ {m : Machine}, m₀.Since m → (∀ fe ∈ fes, fe.buffer.dirty = false) →
    ∃ calls, allocateInodes h fes m = .ok calls ∧ (calls.filterMap InodeCall.taken).Nodup ∧
      (∀ call ∈ calls, call.Sound m₀) ∧
      ∀ call ∈ calls, ∀ n, call.taken = some n → inodeGroup m₀.ctx n < m₀.ctx.numBlockgroups.toNat ∧
        inodeIndex m₀.ctx n < 8 * m₀.ctx.blockSize ∧
        (inodePlace m₀.disk m₀.ctx (inodeGroup m₀.ctx n) (inodeIndex m₀.ctx n)).get m.disk
          = false := by
  induction fes with
  | nil => exact fun {m} _ _ => ⟨[], rfl, List.nodup_nil, by simp, by simp⟩
  | cons fe rest ih =>
    intro m hs hclean
    obtain ⟨r, fe', m', hstep, hcase⟩ := ext2AllocateInode_since fe hh hl hs
      (hclean fe List.mem_cons_self)
    have hs' : m₀.Since m' := by
      rcases hcase with ⟨-, k, ht⟩ | ⟨-, hr⟩
      · exact ht.since
      · exact hr.since
    obtain ⟨calls, hrest, hnodup, hsound, hfree⟩ := ih hs' fun fe hfe =>
      hclean fe (List.mem_cons_of_mem _ hfe)
    have hhead : InodeCall.Sound m₀ ⟨m, fe, r, fe', m'⟩ := by
      rcases hcase with ⟨rfl, k, ht⟩ | ⟨rfl, hr⟩
      · exact ht.sound hl
      · exact hr.sound
    have hbound : ∀ n, InodeCall.taken ⟨m, fe, r, fe', m'⟩ = some n →
        inodeGroup m₀.ctx n < m₀.ctx.numBlockgroups.toNat ∧
          inodeIndex m₀.ctx n < 8 * m₀.ctx.blockSize := by
      rcases hcase with ⟨rfl, k, ht⟩ | ⟨rfl, hr⟩
      · rintro n ⟨⟩
        obtain ⟨hgroup, hindex, -⟩ := inode_of_index ht.index ht.group hl.numbers ht.number
        rw [hgroup, hindex]
        exact ⟨ht.group, lt_of_lt_of_le ht.index hl.oneBlock⟩
      · rintro n ⟨⟩
    refine ⟨_, allocateInodes_cons hstep hrest, ?_, ?_, ?_⟩
    · rw [List.filterMap_cons]
      split
      · exact hnodup
      · next n hn =>
        refine List.nodup_cons.2 ⟨fun hmem => ?_, hnodup⟩
        obtain ⟨call, hcall, hcn⟩ := List.mem_filterMap.1 hmem
        have hset := hhead.set n hn
        rw [(hfree call hcall n hcn).2.2] at hset
        cases hset
    · intro call hcall
      rcases List.mem_cons.1 hcall with rfl | hcall
      · exact hhead
      · exact hsound call hcall
    · intro call hcall n hn
      rcases List.mem_cons.1 hcall with rfl | hcall
      · exact ⟨(hbound n hn).1, (hbound n hn).2, hhead.clear n hn⟩
      · obtain ⟨hgroup, hindex, hclear⟩ := hfree call hcall n hn
        exact ⟨hgroup, hindex, hhead.mono hgroup hindex hclear⟩

/-- **No inode twice.** On every layout with inode bitmaps of their own, every sequence of calls on
    handles with clean buffers returns, the numbers it hands out are distinct, and every call does to
    the bitmaps and the counter what its reply says. -/
theorem allocateInodes_distinct (hh : h.Reliable) (hl : InodeLayout m.disk m.ctx)
    {fes : List FileEnt} (hclean : ∀ fe ∈ fes, fe.buffer.dirty = false) :
    ∃ calls, allocateInodes h fes m = .ok calls ∧ (calls.filterMap InodeCall.taken).Nodup ∧
      ∀ call ∈ calls, call.Sound m := by
  obtain ⟨calls, hrun, hnodup, hsound, -⟩ := allocateInodes_since hh hl fes (.refl m) hclean
  exact ⟨calls, hrun, hnodup, hsound⟩

namespace SmallVolume

theorem machine_inodeLayout : InodeLayout machine.disk machine.ctx where
  block := machine_sane
  perGroup := by decide +kernel
  wholeBytes := by decide +kernel
  oneBlock := by decide +kernel
  numbers := by decide +kernel
  fits := by decide +kernel
  distinct := by decide +kernel
  bitmapsOffDescriptors := by decide +kernel
  bitmapsOffCopies := by decide +kernel
  descriptorsOffCopies := by decide +kernel

/-- Five calls on the small volume, which has four free inodes. -/
theorem allocateInodes_five : ∃ calls,
    allocateInodes host (List.replicate 5 FileEnt.fresh) machine = .ok calls ∧
      (calls.filterMap InodeCall.taken).Nodup ∧ ∀ call ∈ calls, call.Sound machine :=
  allocateInodes_distinct host_reliable machine_inodeLayout (by decide)

end SmallVolume

/-! ## When the calls begin to fail -/

/-- Turning off one of the counted numbers. -/
theorem countP_range_off {p q : Nat → Bool} {k : Nat} (hp : p k = true) (hq : q k = false)
    (n : Nat) : (∀ i < n, i ≠ k → q i = p i) →
    (List.range n).countP p = (List.range n).countP q + if k < n then 1 else 0 := by
  induction n with
  | zero => exact fun _ => rfl
  | succ n ih =>
    intro hother
    rw [List.range_succ, List.countP_append, List.countP_append,
      ih fun i hi => hother i (Nat.lt_succ_of_lt hi), List.countP_singleton, List.countP_singleton]
    rcases Nat.lt_trichotomy k n with hlt | rfl | hgt
    · have hk : k < n + 1 := Nat.lt_succ_of_lt hlt
      simp only [hother n (Nat.lt_succ_self n) hlt.ne', hlt, hk, if_true]
      omega
    · simp [hp, hq]
    · have hk : ¬ k < n + 1 := by omega
      simp only [hother n (Nat.lt_succ_self n) hgt.ne, Nat.lt_asymm hgt, hk, if_false]
      omega

/-- The clear bits of group `g` in the device `v`, on the volume of `m₀`. -/
def clearInodes (m₀ : Machine) (v : UInt32 → Sector) (g : Nat) : Nat :=
  (List.range m₀.ctx.superblock.sInodesPerGroup.toNat).countP fun k =>
    !(inodePlace m₀.disk m₀.ctx g k).get v

theorem clearInodes_eq_zero {m₀ : Machine} {g : Nat} : clearInodes m₀ v g = 0 ↔
    ∀ k < m₀.ctx.superblock.sInodesPerGroup.toNat,
      (inodePlace m₀.disk m₀.ctx g k).get v = true := by
  unfold clearInodes
  rw [List.countP_eq_zero]
  simp

/-- A laid-out volume whose descriptors record the clear bits of their inode bitmaps. -/
structure ConsistentInodes (m : Machine) : Prop where
  layout : InodeLayout m.disk m.ctx
  counts : ∀ g < m.ctx.numBlockgroups.toNat,
    (descriptorAt m.disk m.ctx g).bgFreeInodesCount.toNat = clearInodes m m.disk g

/-- The call fails only if no group has a clear bit left. -/
def FailsOnlyFull (m₀ : Machine) (call : InodeCall) : Prop :=
  call.reply = -1 → ∀ g < m₀.ctx.numBlockgroups.toNat,
    ∀ k < m₀.ctx.superblock.sInodesPerGroup.toNat,
      (inodePlace m₀.disk m₀.ctx g k).get call.before.disk = true

/-- A machine of a run with `d` successful calls to come: the chosen group has `d` clear bits and
    the others are as they were at the start. -/
structure Remains (m₀ m : Machine) (d : Nat) : Prop where
  since : m₀.Since m
  none : (mostFreeInodes m₀.disk m₀.ctx).1 = 0 → d = 0
  count : (mostFreeInodes m₀.disk m₀.ctx).1 ≠ 0 → clearInodes m₀ m.disk (chosenGroup m₀) = d
  others : ∀ g < m₀.ctx.numBlockgroups.toNat,
    (g = chosenGroup m₀ → (mostFreeInodes m₀.disk m₀.ctx).1 = 0) →
    ∀ k < m₀.ctx.superblock.sInodesPerGroup.toNat,
      (inodePlace m₀.disk m₀.ctx g k).get m.disk = (inodePlace m₀.disk m₀.ctx g k).get m₀.disk

variable {m₀ : Machine} {d : Nat}

theorem Remains.start (hc : ConsistentInodes m) :
    Remains m m (mostFreeInodes m.disk m.ctx).1.toNat where
  since := .refl m
  none h0 := by rw [h0]; rfl
  count hne := by
    obtain ⟨hlt, hcount⟩ := mostFree_lt _ m.ctx.numBlockgroups.toNat_lt hne
    rw [chosenGroup, mostFreeInodes, hcount]
    exact (hc.counts _ hlt).symm
  others := fun _ _ _ _ _ => rfl

/-- A successful call uses up one of the clear bits. -/
theorem Remains.taken {k : Nat} (hr : Remains m₀ m d) (hl : InodeLayout m₀.disk m₀.ctx)
    (ht : InodeTaken m₀ m k fe' m') : 0 < d ∧ Remains m₀ m' (d - 1) := by
  have hbits : ∀ g < m₀.ctx.numBlockgroups.toNat, ∀ i < m₀.ctx.superblock.sInodesPerGroup.toNat, _ :=
    fun g hg i hi => ht.bits g hg i (lt_of_lt_of_le hi hl.oneBlock)
  have hcount : clearInodes m₀ m.disk (chosenGroup m₀)
      = clearInodes m₀ m'.disk (chosenGroup m₀) + 1 := by
    have hoff := countP_range_off (k := k)
      (p := fun i => !(inodePlace m₀.disk m₀.ctx (chosenGroup m₀) i).get m.disk)
      (q := fun i => !(inodePlace m₀.disk m₀.ctx (chosenGroup m₀) i).get m'.disk)
      (by simp [ht.clear]) (by simp [hbits _ ht.group k ht.index])
      m₀.ctx.superblock.sInodesPerGroup.toNat
      fun i hi hne => by simp [hbits _ ht.group i hi, hne]
    rw [if_pos ht.index] at hoff
    exact hoff
  rw [hr.count ht.records] at hcount
  refine ⟨by omega, ht.since, fun h0 => absurd h0 ht.records, fun _ => by omega, ?_⟩
  intro g hg hne i hi
  have hother : g ≠ chosenGroup m₀ := fun heq => ht.records (hne heq)
  rw [hbits g hg i hi, ← hr.others g hg hne i hi]
  simp [hother]

/-- A refused call had none left. -/
theorem Remains.refused (hr : Remains m₀ m d) (hf : InodeRefused m₀ m m') :
    d = 0 ∧ Remains m₀ m' d := by
  refine ⟨?_, hf.since, hr.none, fun hne => ?_, fun g hg hne k hk => ?_⟩
  · by_cases h0 : (mostFreeInodes m₀.disk m₀.ctx).1 = 0
    · exact hr.none h0
    · rcases hf.full with hz | hfull
      · exact absurd hz h0
      · rw [← hr.count h0]
        exact clearInodes_eq_zero.2 hfull
  · rw [hf.disk]
    exact hr.count hne
  · rw [hf.disk]
    exact hr.others g hg hne k hk

/-- Call `n` of a run fails when the chosen group has given its `d` inodes. -/
theorem allocateInodes_remains (hh : h.Reliable) (hl : InodeLayout m₀.disk m₀.ctx)
    (fes : List FileEnt) : ∀ {m : Machine} {d : Nat}, Remains m₀ m d →
    (∀ fe ∈ fes, fe.buffer.dirty = false) →
    ∃ calls, allocateInodes h fes m = .ok calls ∧ calls.length = fes.length ∧
      ∀ (n : Nat) (hn : n < calls.length),
        Remains m₀ calls[n].before (d - n) ∧ (calls[n].reply = -1 ↔ d ≤ n) := by
  induction fes with
  | nil => exact fun {m d} _ _ => ⟨[], rfl, rfl, by simp⟩
  | cons fe rest ih =>
    intro m d hr hclean
    obtain ⟨r, fe', m', hstep, hcase⟩ := ext2AllocateInode_since fe hh hl hr.since
      (hclean fe List.mem_cons_self)
    have hnext : Remains m₀ m' (d - 1) ∧ (r = -1 ↔ d ≤ 0) := by
      rcases hcase with ⟨rfl, k, ht⟩ | ⟨rfl, hf⟩
      · obtain ⟨hpos, hr'⟩ := hr.taken hl ht
        exact ⟨hr', iff_of_false (by decide) (by omega)⟩
      · obtain ⟨rfl, hr'⟩ := hr.refused hf
        exact ⟨hr', iff_of_true rfl (Nat.le_refl 0)⟩
    obtain ⟨calls, hrest, hlen, hcalls⟩ := ih hnext.1 fun fe hfe =>
      hclean fe (List.mem_cons_of_mem _ hfe)
    refine ⟨_, allocateInodes_cons hstep hrest, by rw [List.length_cons, List.length_cons, hlen], ?_⟩
    intro n hn
    cases n with
    | zero => exact ⟨hr, hnext.2⟩
    | succ n =>
      obtain ⟨hrem, hreply⟩ := hcalls n (Nat.lt_of_succ_lt_succ hn)
      rw [Nat.sub_sub, Nat.add_comm] at hrem
      exact ⟨hrem, hreply.trans (by omega)⟩

/-- Without a record of a free inode a consistent group is full. -/
theorem ConsistentInodes.full (hc : ConsistentInodes m) {g : Nat}
    (hg : g < m.ctx.numBlockgroups.toNat)
    (hzero : (descriptorAt m.disk m.ctx g).bgFreeInodesCount = 0) :
    ∀ k < m.ctx.superblock.sInodesPerGroup.toNat,
      (inodePlace m.disk m.ctx g k).get m.disk = true := by
  rw [← clearInodes_eq_zero, ← hc.counts g hg, hzero]
  rfl

/-- A call with `d` inodes left before it: it fails only on a full volume if there are some, or the
    other groups had none from the start. -/
theorem Remains.failsOnlyFull_iff {call : InodeCall} (hr : Remains m₀ call.before d)
    (hc : ConsistentInodes m₀) (hreply : call.reply = -1 ↔ d = 0) : FailsOnlyFull m₀ call ↔ d ≠ 0 ∨
      ∀ g < m₀.ctx.numBlockgroups.toNat, g ≠ chosenGroup m₀ →
        (descriptorAt m₀.disk m₀.ctx g).bgFreeInodesCount = 0 := by
  constructor
  · intro hfull
    rw [or_iff_not_imp_left, not_not]
    intro hd g hg hne
    have hset := hfull (hreply.2 hd) g hg
    have hzero : clearInodes m₀ m₀.disk g = 0 := clearInodes_eq_zero.2 fun k hk => by
      rw [← hr.others g hg (fun heq => absurd heq hne) k hk]
      exact hset k hk
    rw [← hc.counts g hg] at hzero
    exact UInt16.toNat_inj.1 hzero
  · rintro hcase hfail g hg k hk
    have hd := hreply.1 hfail
    have hother := hcase.resolve_left (not_not.2 hd)
    by_cases hrec : (mostFreeInodes m₀.disk m₀.ctx).1 = 0
    · rw [hr.others g hg (fun _ => hrec) k hk]
      exact hc.full hg ((mostFree_zero_iff _ m₀.ctx.numBlockgroups.toNat_lt).1 hrec g hg) k hk
    · by_cases hgroup : g = chosenGroup m₀
      · subst hgroup
        exact clearInodes_eq_zero.1 ((hr.count hrec).trans hd) k hk
      · rw [hr.others g hg (fun heq => absurd heq hgroup) k hk]
        exact hc.full hg (hother g hg hgroup) k hk

/-- **When the calls fail.** From a consistent volume the `n`-th call on a handle with a clean buffer
    (counting from 0) fails only on a full volume if and only if fewer calls than the largest
    recorded count have gone before, or no other group had a free inode. -/
theorem allocateInodes_failsOnlyFull_iff (hh : h.Reliable) (hc : ConsistentInodes m)
    (fes : List FileEnt) (hclean : ∀ fe ∈ fes, fe.buffer.dirty = false) :
    ∃ calls, allocateInodes h fes m = .ok calls ∧ calls.length = fes.length ∧
      ∀ (n : Nat) (hn : n < calls.length), FailsOnlyFull m calls[n] ↔
        n < (mostFreeInodes m.disk m.ctx).1.toNat ∨
          ∀ g < m.ctx.numBlockgroups.toNat, g ≠ (mostFreeInodes m.disk m.ctx).2.toNat →
            (descriptorAt m.disk m.ctx g).bgFreeInodesCount = 0 := by
  obtain ⟨calls, hrun, hlen, hcalls⟩ := allocateInodes_remains hh hc.layout fes (.start hc) hclean
  refine ⟨calls, hrun, hlen, fun n hn => ?_⟩
  obtain ⟨hrem, hreply⟩ := hcalls n hn
  rw [hrem.failsOnlyFull_iff hc (hreply.trans Nat.sub_eq_zero_iff_le.symm), Ne,
    Nat.sub_eq_zero_iff_le, Nat.not_le]
  rfl

namespace SmallVolume

theorem machine_consistentInodes : ConsistentInodes machine where
  layout := machine_inodeLayout
  counts := by decide +kernel

/-- On the small volume, which has one group, the calls fail only when it is full. -/
theorem allocateInodes_failsOnlyFull_five : ∃ calls,
    allocateInodes host (List.replicate 5 FileEnt.fresh) machine = .ok calls ∧ calls.length = 5 ∧
      ∀ (n : Nat) (hn : n < calls.length), FailsOnlyFull machine calls[n] := by
  obtain ⟨calls, hrun, hlen, hcalls⟩ := allocateInodes_failsOnlyFull_iff host_reliable
    machine_consistentInodes (List.replicate 5 FileEnt.fresh) (by decide)
  exact ⟨calls, hrun, hlen, fun n hn => (hcalls n hn).2 (.inr (by decide +kernel))⟩

/-- A volume of two groups with one free inode in each. -/
def twoGroups : Machine :=
  let sb : Superblock :=
    { superblock with
      sInodesCount := 16
      sBlocksCount := 128
      sFreeInodesCount := 2
      sInodesPerGroup := 8 }
  let first : BlockGroupDescriptor := { descriptor with bgFreeInodesCount := 1 }
  let second : BlockGroupDescriptor :=
    { descriptor with
      bgBlockBitmap := 67
      bgInodeBitmap := 68
      bgInodeTable := 69
      bgFreeInodesCount := 1 }
  let disk : UInt32 → Sector := fun s =>
    if s = 2 then sb.sector
    else if s = 4 then
      sectorOf [(0, BlockGroupDescriptor.packed.bytes first),
        (32, BlockGroupDescriptor.packed.bytes second)]
    else if s = 8 ∨ s = 136 then sectorOf [(0, [0x7F])]
    else fun _ => 0
  { machine with disk := disk, ctx := mountedContext false 0 (disk 2) 1000 }

theorem twoGroups_consistentInodes : ConsistentInodes twoGroups where
  layout :=
    { block := by unfold Ext2Context.SaneBlockSize; decide +kernel
      perGroup := by decide +kernel
      wholeBytes := by decide +kernel
      oneBlock := by decide +kernel
      numbers := by decide +kernel
      fits := by decide +kernel
      distinct := by decide +kernel
      bitmapsOffDescriptors := by decide +kernel
      bitmapsOffCopies := by decide +kernel
      descriptorsOffCopies := by decide +kernel }
  counts := by decide +kernel

/-- The second call fails with the inode of the second group still free. -/
theorem allocateInodes_failsOnlyFull_fails : ConsistentInodes twoGroups ∧ ∃ calls,
    allocateInodes host [FileEnt.fresh, FileEnt.fresh] twoGroups = .ok calls ∧
      ∃ (n : Nat) (hn : n < calls.length), ¬ FailsOnlyFull twoGroups calls[n] := by
  have hc := twoGroups_consistentInodes
  obtain ⟨calls, hrun, hlen, hcalls⟩ := allocateInodes_remains host_reliable hc.layout
    [FileEnt.fresh, FileEnt.fresh] (.start hc) (by decide)
  have hn : 1 < calls.length := by rw [hlen]; decide
  refine ⟨hc, calls, hrun, 1, hn, fun hfull => ?_⟩
  obtain ⟨hrem, hreply⟩ := hcalls 1 hn
  rw [hrem.failsOnlyFull_iff hc (hreply.trans Nat.sub_eq_zero_iff_le.symm)] at hfull
  rcases hfull with hleft | hother
  · exact hleft (by decide +kernel)
  · exact absurd (hother 1 (by decide +kernel) (by decide +kernel)) (by decide +kernel)

end SmallVolume

end Embext
