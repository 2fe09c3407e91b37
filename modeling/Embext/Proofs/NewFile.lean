import Embext.Proofs.Create
import Embext.Proofs.Isolation
import Embext.Proofs.Tree

set_option autoImplicit false

/-! # A new file in the directory tree

What `ext2_open` with `O_CREAT` does to the volume when it returns a handle: an inode that was free is in
use and holds an empty file, its name has been entered in one directory behind the others, and everything
else is as it was. For the tree of directories this is the insertion of one entry. -/

namespace Embext

variable {h : Host} {m m₁ m' : Machine} {fe fe' : FileEnt} {v w : UInt32 → Sector} {c : Ext2Context}
  {dirs : Set UInt32} {recs : UInt32 → List DirRecord} {d n : UInt32} {name : List UInt8}

/-! ## The inode is taken -/

/-- The handle of a call that takes an inode has its number and a clean buffer. -/
theorem ext2AllocateInode_handle (hh : h.Reliable) (hs : m.ctx.SaneBlockSize)
    (hrun : ext2AllocateInode fe h m = .ok ((0, fe'), m')) :
    ∃ b : BufferObject, b.dirty = false ∧
      fe' = { fe with inodeNumber := fe'.inodeNumber, buffer := b } := by
  obtain ⟨ctx, m₀, hctx, hrun⟩ := Prog.of_bind_ok hrun
  cases hctx
  obtain ⟨⟨most, g⟩, m₁, hmost, hrun⟩ := Prog.of_bind_ok hrun
  have hq₁ := (quiet_mostFreeGroup _ _ _ _ _ m _ m₁ (.refl m) hmost).1
  by_cases hzero : most = 0
  · subst hzero
    cases hrun
  dsimp only at hrun
  rw [if_neg hzero] at hrun
  obtain ⟨bg, m₂, hbg, hrun⟩ := Prog.of_bind_ok hrun
  have hq₂ := (quiet_ext2BgDescriptor _ m₁ _ m₂ hq₁ hbg).1
  have hs₂ : m₂.ctx.SaneBlockSize := by
    rw [hq₂.ctx]
    exact hs
  obtain ⟨⟨found, fe₁⟩, m₃, hscan, hrun⟩ := Prog.of_bind_ok hrun
  have hper := m.ctx.superblock.sInodesPerGroup.toNat_lt
  obtain ⟨_, _, _, hscanned, hl, -⟩ := scanBitmap_ok hh bg.bgInodeBitmap
    (m.ctx.superblock.sInodesPerGroup.toNat / 8) fe 0 hs₂ (by omega)
  rw [hscan] at hscanned
  cases hscanned
  cases found with
  | none =>
    dsimp only at hrun
    split at hrun
    · cases hrun
    · cases hrun
  | some x =>
    obtain ⟨i, b, j⟩ := x
    obtain ⟨buffer, m₄, hwrite, hrun⟩ := Prog.of_bind_ok hrun
    dsimp only at hrun
    rw [Prog.bind_ok (ext2StoreBuffer_ok hh)] at hrun
    obtain ⟨_, _, -, hrun⟩ := Prog.of_bind_ok hrun
    obtain ⟨_, _, -, hrun⟩ := Prog.of_bind_ok hrun
    obtain ⟨_, _, -, hrun⟩ := Prog.of_bind_ok hrun
    obtain ⟨_, _, -, hrun⟩ := Prog.of_bind_ok hrun
    cases hrun
    exact ⟨{ buffer with dirty := false }, rfl, by rw [hl.handle]⟩

/-- Sector `s` lies in no copy of the superblock and in no inode bitmap. -/
def OffCounts (v : UInt32 → Sector) (c : Ext2Context) (s : UInt32) : Prop :=
  ∀ r : MetaRole, r.Valid c → r.Sectors v c s → (∀ b, r ≠ .superblock b) ∧ ∀ g, r ≠ .inodeBitmap g

/-- Inode `n` was free and is in use; only copies of the superblock and inode bitmaps are different. -/
structure InodeGiven (v : UInt32 → Sector) (c : Ext2Context) (n : UInt32) (w : UInt32 → Sector) :
    Prop where
  isInode : IsInode c n
  free : inodeUsed v c n = false
  bits : ∀ x, CountedInode c x → (inodePlace v c (inodeGroup c x) (inodeIndex c x)).get w
    = (inodeUsed v c x || decide (x = n))
  other : ∀ s, OffCounts v c s → w s = v s

theorem LaidOut.offCounts (hl : LaidOut v c) {r : MetaRole} {s : UInt32} (hr : r.Valid c)
    (hs : r.Sectors v c s) (hb : ∀ b, r ≠ .superblock b) (hg : ∀ g, r ≠ .inodeBitmap g) :
    OffCounts v c s := by
  intro r' hr' hs'
  obtain rfl := hl.role_unique hr' hr hs' hs
  exact ⟨hb, hg⟩

/-- What a call that returns 0 has done. -/
theorem ext2AllocateInode_given (hp : Placed m.disk m.ctx dirs) (hh : h.Reliable)
    (hclean : fe.buffer.dirty = false) (hrun : ext2AllocateInode fe h m = .ok ((0, fe'), m')) :
    InodeGiven m.disk m.ctx fe'.inodeNumber m'.disk ∧ m.ctx.SameVolume m'.ctx := by
  have hl := hp.layout
  have hlay := hp.inodeLayout
  obtain ⟨r, fe₁, m₁, hok, hout⟩ := ext2AllocateInode_ok fe hh hl.sane.block hclean hlay.perGroup
    hp.wholeBytes
  rw [hrun] at hok
  cases hok
  cases hout with
  | @taken k _ _ records index clear number disk volume free =>
    have hgroup : (mostFreeInodes m.disk m.ctx).2.toNat < m.ctx.numBlockgroups.toNat :=
      (mostFree_lt _ m.ctx.numBlockgroups.toNat_lt records).1
    obtain ⟨hg, hi, hpos, hle⟩ := inode_of_index index hgroup hlay.numbers number
    have hk : k < 8 * m.ctx.blockSize := lt_of_lt_of_le index hlay.oneBlock
    have hino : IsInode m.ctx fe'.inodeNumber :=
      ⟨fun h0 => by rw [h0] at hpos; exact absurd hpos (by decide), hle.trans hp.numbers⟩
    refine ⟨⟨hino, ?_, fun x hx => ?_, fun s hs => ?_⟩, volume⟩
    · rw [inodeUsed, hg, hi]
      exact clear
    · have hxi := hl.inodeIndex_lt x
      rw [BitPlace.get_congr (disk _ (hlay.offCopies hx.group hxi))]
      by_cases hxn : x = fe'.inodeNumber
      · subst hxn
        rw [hg, hi]
        simp [BitPlace.get_put_self (inodePlace_valid _ _ _ _)]
      · have hne : inodePlace m.disk m.ctx (inodeGroup m.ctx x) (inodeIndex m.ctx x) ≠ _ := fun heq => by
          obtain ⟨hgx, hix⟩ := hlay.place_inj hx.group hgroup hxi hk heq
          exact hxn (inode_eq_of_group_index (hgx.trans hg.symm) (hix.trans hi.symm))
        rw [BitPlace.get_put_ne (inodePlace_valid _ _ _ _) (inodePlace_valid _ _ _ _) hne]
        simp [hxn, inodeUsed, inodeBit]
    · have hoff : OffCopies m.ctx s := by
        rintro b hb rfl
        exact (hs (.superblock b) hb (hl.copySector_sectors b)).1 b rfl
      rw [disk s hoff]
      refine BitPlace.put_other ?_
      rintro rfl
      exact (hs (.inodeBitmap _) hgroup
        (LaidOut.bitmapSector_sectors _ _ (Nat.div_lt_of_lt_mul hk))).2 _ rfl

namespace InodeGiven

variable (hg : InodeGiven v c n w) (hl : LaidOut v c)
include hg hl

theorem descriptorAt_eq {g : Nat} (hgroup : g < c.numBlockgroups.toNat) :
    descriptorAt w c g = descriptorAt v c g := by
  obtain ⟨j, hvalid, hsec⟩ := hl.descriptorSector_sectors hgroup
  exact descriptorAt_congr (hg.other _ (hl.offCounts hvalid hsec (by simp) (by simp)))

theorem inodeAt_eq {x : UInt32} (hx : CountedInode c x) : inodeAt w c x = inodeAt v c x := by
  obtain ⟨j, hvalid, hsec⟩ := hl.slotSector_sectors hx
  exact inodeAt_congr (hg.descriptorAt_eq hl hx.group)
    (hg.other _ (hl.offCounts hvalid hsec (by simp) (by simp)))

theorem inodeUsed_eq {x : UInt32} (hx : CountedInode c x) :
    inodeUsed w c x = (inodeUsed v c x || decide (x = n)) := by
  rw [← hg.bits x hx, inodeUsed, inodeBit, inodePlace, hg.descriptorAt_eq hl hx.group]
  rfl

omit hl in
theorem keepsPlaces (hp : Placed v c dirs) : KeepsPlaces v c dirs w where
  descriptors g hgroup := hg.descriptorAt_eq hp.layout hgroup
  maps d hd := by rw [hg.inodeAt_eq hp.layout (hp.counted (hp.inodes d hd))]
  used d hd hused := by
    rw [hg.inodeUsed_eq hp.layout (hp.counted (hp.inodes d hd)), hused]
    rfl
  elsewhere s hs := hg.other s fun r hr hsec => absurd ⟨r, hr, hsec⟩ hs.1

omit hl in
/-- A free inode is no directory of the tree. -/
theorem not_mem (hp : Placed v c dirs) : n ∉ dirs := by
  intro hmem
  have hused := hp.used n hmem
  rw [hg.free] at hused
  cases hused

omit hl in
/-- The tree stays. -/
theorem tree (ht : Tree v c dirs recs) : Tree w c dirs recs := by
  have hp := ht.placed
  have hk := hg.keepsPlaces hp
  refine ⟨hp.step hk, ht.root, fun d hd => ?_, ht.plain, fun d hd r hr hnot hino => ?_⟩
  · have hinode := hg.inodeAt_eq hp.layout (hp.counted (hp.inodes d hd))
    refine hk.directory hp hd (ht.directory d hd) (by rw [hinode]) (by rw [hinode]) fun s hs =>
      hg.other s fun r hr hsec => ?_
    exact absurd ⟨r, hr, hsec⟩ (hp.data d hd s hs)
  · rw [hg.inodeAt_eq hp.layout (hp.counted hino)]
    exact ht.closed d hd r hr hnot hino

end InodeGiven

/-! ## The name is entered -/

/-- A directory of a writable volume is opened for the driver's own use. -/
theorem Leads.ext2OpenPlain_ok (hh : h.Reliable) (hs : m.ctx.Sane) (hpat : 2 ^ 29 ≤ h.patience)
    {path : List UInt8} (hl : Leads m.disk m.ctx path d) (hd : IsInode m.ctx d)
    (hro : m.ctx.readOnly = false) : ∃ fe m₁,
    ext2OpenPlain path oRdwr 0o1777 h m = .ok (some fe, m₁) ∧ fe.inodeNumber = d := by
  obtain ⟨m₁, fe₁, hlook, hb₁⟩ := hl.lookup hh hs hpat
  obtain ⟨m₂, fe₂, hopen, hb₂, hfe₂, -⟩ := hb₁.openInode hh hs hd.1 hd.2
  obtain ⟨s, hctx⟩ := hb₂.ctx
  have hro₂ : m₂.ctx.readOnly = false := by
    rw [hctx]
    exact hro
  refine ⟨{ fe₂ with flags := openedFlags fe₂.flags oRdwr }, m₂, ?_, by rw [hfe₂]; rfl⟩
  unfold ext2OpenPlain ext2OpenWith
  rw [Prog.bind_ok hlook]
  dsimp only
  rw [Prog.bind_ok hopen]
  dsimp only
  rw [Prog.bind_ok getErrno_apply, if_neg fun hboth => absurd hboth.1 (by decide), if_pos rfl]
  unfold ext2OpenExisting
  rw [if_neg (by decide), if_neg (by decide), Prog.bind_ok getCtx_apply, if_neg (by rw [hro₂]; decide),
    if_neg (fun hboth => hboth.2 (by decide)), if_neg (by decide)]
  rfl

/-- The device after `ext2_append_to_directory`: blocks of directory `d` and its inode, with the map and
    the mode as they were, are different, and the records of `d` are now `recs'`. -/
structure Entered (v : UInt32 → Sector) (c : Ext2Context) (d : UInt32) (recs' : List DirRecord)
    (w : UInt32 → Sector) : Prop where
  device : ∃ u i, w = putInode u c d i ∧ (∀ s, ¬ HoldsBytes v c d s → u s = v s) ∧
    i.iBlock = (inodeAt v c d).iBlock ∧ i.iMode = (inodeAt v c d).iMode
  listing : Listing w c d recs'

namespace DirRecord

variable {r : DirRecord}

theorem Plain.shrunk (hr : r.Plain) : r.shrunk.Plain := ⟨hr.live, hr.positive, hr.sector, hr.string⟩

/-- A record with a name of its own length is plain in one sector. -/
theorem plain_new {off len : Nat} (hn : n ≠ 0) (hpos : n.toNat < 2 ^ 31) (hlen : name.length ≤ 255)
    (hstring : 0 ∉ name) (hsector : (off + 8) % 512 + name.length ≤ 512) :
    Plain ⟨off, newHeader n len name, name⟩ := by
  refine ⟨hn, hpos, ?_, hstring⟩
  have hnameLen : (newHeader n len name).nameLen.toNat = name.length :=
    UInt8.toNat_ofNat_of_lt' (Nat.lt_succ_of_le hlen)
  rw [hnameLen]
  exact hsector

end DirRecord

/-- What `append_record` leaves of the open directory: the bytes `b` behind the handle hold one entry
    more. -/
structure EntryWritten (m₁ : Machine) (fe : FileEnt) (l : List DirRecord) (n : UInt32)
    (name : List UInt8) (b : FileBytes) (recs' : List DirRecord) (m₃ : Machine) (fe₃ : FileEnt) :
    Prop where
  editing : Editing m₁ fe b m₃ fe₃
  dirty : fe₃.flags.fsDirty = true
  mapped : ∀ p < b.size, Mapped (view m₁ fe) m₁.ctx fe.inode p
  records : b.WellFormed m₁.ctx.blockSize recs'
  plain : ∀ r ∈ recs', r.Plain
  entries : entries recs' = entries l ++ [⟨n, name⟩]

section

variable {m₂ : Machine} {fe₂ : FileEnt} {base : Nat} {d : FileBytes} {l : List DirRecord}
  {last : DirRecord}
  (ha : FileApart (view m₁ fe) m₁.ctx fe.inodeNumber fe.inode) (hs : m₁.ctx.SaneBlockSize)
  (hmode : fe.flags.write = true ∧ fe.flags.append = false) (he : Editing m₁ fe d m₂ fe₂)
  (hwf : d.WellFormed m₁.ctx.blockSize (l ++ [last])) (hsmall : d.size < 2 ^ 31)
  (hbase : base + m₁.ctx.blockSize = d.size) (hname : name ≠ []) (hlen : name.length ≤ 255)
  (hh : h.Reliable) (hplain : ∀ r ∈ l ++ [last], r.Plain) (hn : n ≠ 0) (hpos : n.toNat < 2 ^ 31)
  (hstring : 0 ∉ name) (hmap : ∀ p < d.size, Mapped (view m₁ fe) m₁.ctx fe.inode p)
include ha hs hmode he hwf hsmall hbase hname hlen hh hplain hn hpos hstring hmap

/-- The record behind the last one. -/
theorem entryWritten_behind (hheader : last.off % 512 + 8 ≤ 512) (hroom : last.Roomy name)
    (hfirst : (last.off + last.minLen) % 512 + 8 ≤ 512)
    (htail : (last.off + last.minLen + 8) % 512 + name.length ≤ 512) : ∃ b recs' m₃ fe₃,
    appendRecord fe₂ base m₁.ctx.blockSize (last.off - base) last.hdr n name h m₂ = .ok (fe₃, m₃) ∧
      EntryWritten m₁ fe (l ++ [last]) n name b recs' m₃ fe₃ := by
  obtain ⟨m₃, fe₃, hrun, he₃, hdirty⟩ := (appendRecord_slack n ha hs hmode he hwf hsmall hbase hmap
    hheader hname hlen hh hroom).1 ⟨hfirst, htail⟩
  refine ⟨_, _, m₃, fe₃, hrun, he₃, hdirty, ?_, hwf.splitLast n hroom hlen, fun r hr => ?_,
    entries_behind hn l last name⟩
  · rw [hwf.size_splitLast hroom]
    exact hmap
  · simp only [List.mem_append, List.mem_cons, List.not_mem_nil, or_false] at hr
    rcases hr with hr | rfl | rfl
    · exact hplain r (by simp [hr])
    · exact (hplain last (by simp)).shrunk
    · exact DirRecord.plain_new hn hpos hlen hstring htail

/-- The record in the next block. -/
theorem entryWritten_block (hfull : ¬ last.Roomy name)
    (hnext : fileBlock (view m₁ fe) m₁.ctx fe.inode (d.size / m₁.ctx.blockSize) ≠ 0)
    (hfits : m₁.ctx.blockSize < 2 ^ 16) : ∃ b recs' m₃ fe₃,
    appendRecord fe₂ base m₁.ctx.blockSize (last.off - base) last.hdr n name h m₂ = .ok (fe₃, m₃) ∧
      EntryWritten m₁ fe (l ++ [last]) n name b recs' m₃ fe₃ := by
  obtain ⟨b, m₃, fe₃, hrun, he₃, hdirty, hgrown, hkept⟩ := appendRecord_block n ha hs hmode he hwf
    hsmall hbase hname hlen hh hfull hnext
  have hge := blockSize_ge m₁.ctx
  have hle := blockSize_le hs
  have hmul := blockSize_eq_mul m₁.ctx
  have hstart : d.size % 512 = 0 := Nat.mod_eq_zero_of_dvd (dvd_trans ⟨_, hmul⟩ hwf.blocks)
  have hwritten : (b.writeRecord d.size (newHeader n m₁.ctx.blockSize name) name).size
      = d.size + m₁.ctx.blockSize := by
    rw [FileBytes.size_writeRecord (by omega), hgrown]
  refine ⟨_, _, m₃, fe₃, hrun, he₃, hdirty, ?_, hwf.addBlock n hge
    ⟨128 * (m₁.ctx.blockSize / 512), by omega⟩ hfits hgrown hkept hlen, fun r hr => ?_, ?_⟩
  · rw [hwritten]
    exact mapped_grown hwf.blocks (by omega) hnext hmap
  · rcases List.mem_append.1 hr with hr | hr
    · exact hplain r hr
    · rw [List.mem_singleton.1 hr]
      exact DirRecord.plain_new hn hpos hlen hstring (by omega)
  · rw [entries_append _ [_], entries_new hn]
    rfl

end

section

variable {directory : List UInt8} {l : List DirRecord} {last : DirRecord} (hh : h.Reliable)
  (hs : m.ctx.Sane)
  (hopen : ext2OpenPlain directory oRdwr 0o1777 h m = .ok (some fe, m₁))
  (hapart : FileApart m.disk m.ctx fe.inodeNumber (inodeAt m.disk m.ctx fe.inodeNumber))
include hh hs hopen hapart

/-- The close at the end of the call leaves the records of the edited directory. -/
theorem Editing.enters {m₂ : Machine} {fe₂ : FileEnt} {b : FileBytes} {recs' : List DirRecord}
    (he : Editing m₁ fe b m₂ fe₂) (hdirty : fe₂.flags.fsDirty = true)
    (hmap : ∀ p < b.size, Mapped (view m₁ fe) m₁.ctx fe.inode p)
    (hwf : b.WellFormed m₁.ctx.blockSize recs') : ∃ m' fe',
    ext2Close fe₂ h m₂ = .ok ((0, fe'), m') ∧ (∃ s, m'.ctx = { m.ctx with sysbuf := s }) ∧
      Entered m.disk m.ctx fe.inodeNumber recs' m'.disk := by
  have ho := of_ext2OpenPlain_rdwr hh hs hopen
  have hview := ho.view_eq
  obtain ⟨s, hctx⟩ : ∃ s, m₁.ctx = { m.ctx with sysbuf := s } := ⟨_, ho.ctx⟩
  have hslotted := ho.slotted hs
  have hgroup := ho.inGroup hs
  have ha := ho.fileApart hapart
  obtain ⟨m', fe', hclose, ⟨s', hctx'⟩, hdisk⟩ := ext2Close_ok hh (by rw [he.ctx]; exact hslotted)
    he.magic hdirty (by rw [he.ctx, he.number]; exact hgroup)
  obtain ⟨_, _, hsaves, hsaved⟩ := he.close hh ha hslotted hgroup hdirty
  rw [hclose] at hsaves
  cases hsaves
  have hvol : ∃ s, m'.ctx = { m.ctx with sysbuf := s } := ⟨s', by rw [hctx', he.ctx, hctx]⟩
  refine ⟨m', fe', hclose, hvol, ⟨⟨view m₂ fe₂, fe₂.inode, ?_, fun x hx => ?_, ?_, ?_⟩, ?_⟩⟩
  · rw [hdisk, he.ctx, he.number, hctx]
    rfl
  · rw [he.frame x fun p hp heq => hx ⟨p, ?_, ?_⟩, hview]
    · rw [hview, ho.inode, hctx, mapped_sysbuf] at hp
      exact hp
    · rw [heq, hview, ho.inode, hctx, byteSector_sysbuf]
  · rw [he.inode, ho.inode]
  · rw [he.inode, ho.inode]
  · obtain ⟨s', hctx'⟩ := hvol
    have hlisting := (hsaved.listing_iff hmap).2 hwf
    rw [hctx'] at hlisting
    have hslot : inodeAt m'.disk { m.ctx with sysbuf := s' } fe.inodeNumber
        = inodeAt m'.disk m.ctx fe.inodeNumber := rfl
    have hhole := hlisting.noHole
    have hrecords := hlisting.records
    unfold inodeBytes at hrecords
    rw [hslot] at hhole hrecords
    rw [fileByte_withSysbuf] at hrecords
    refine ⟨fun p hp => ?_, hrecords⟩
    rw [← fileBlock_withSysbuf _ _ s']
    exact hhole p hp

/-- The call on a directory whose last record, or next block, takes the new one. -/
theorem ext2AppendToDirectory_enters (hpat : 2 ^ 29 ≤ h.patience)
    (hdir : Listing m.disk m.ctx fe.inodeNumber (l ++ [last])) (hplain : ∀ r ∈ l ++ [last], r.Plain)
    (hsmall : (inodeAt m.disk m.ctx fe.inodeNumber).iSize.toNat < 2 ^ 31)
    (hreads : LastBlockReads (inodeBytes m.disk m.ctx (inodeAt m.disk m.ctx fe.inodeNumber))
      m.ctx.blockSize (l ++ [last]))
    (htakes : TakesRecord m.disk m.ctx fe.inodeNumber last name) (hn : n ≠ 0)
    (hpos : n.toNat < 2 ^ 31) (hname : name ≠ []) (hlen : name.length ≤ 255) (hstring : 0 ∉ name) :
    ∃ m' recs', ext2AppendToDirectory directory n name h m = .ok (0, m') ∧
      (∃ s, m'.ctx = { m.ctx with sysbuf := s }) ∧
      Entered m.disk m.ctx fe.inodeNumber recs' m'.disk ∧ (∀ r ∈ recs', r.Plain) ∧
      entries recs' = entries (l ++ [last]) ++ [⟨n, name⟩] := by
  have ho := of_ext2OpenPlain_rdwr hh hs hopen
  have hbs := ho.blockSize_eq
  have hs₁ := (ho.slotted hs).block
  have ha := ho.fileApart hapart
  have hfe := ho.readable hs.block hdir.noHole
  have hsize : (fileBytes m₁ fe).size = fe.inode.iSize.toNat := rfl
  have hwf : (fileBytes m₁ fe).WellFormed m₁.ctx.blockSize (l ++ [last]) := by
    rw [ho.fileBytes_eq, hbs]
    exact hdir.records
  have hmode : fe.flags.write = true ∧ fe.flags.append = false := by
    rw [ho.mode]
    exact ⟨rfl, rfl⟩
  rw [← ho.inode] at hsmall
  rw [← ho.fileBytes_eq] at hreads
  obtain ⟨base, hbase⟩ : ∃ base, base + m₁.ctx.blockSize = (fileBytes m₁ fe).size :=
    ⟨_, Nat.sub_add_cancel (Nat.le_of_dvd hwf.nonempty hwf.blocks)⟩
  obtain ⟨m₂, fe₂, he, hcall⟩ := (ext2AppendToDirectory_scan n name hh hs hopen hpat hfe
    (by rw [← hbs]; exact hwf) (by rw [← hbs]; exact hbase) hsmall).1 hreads
  -- the record goes behind the last one or to a block of its own
  obtain ⟨b, recs', m₃, fe₃, hrun, hw⟩ : ∃ b recs' m₃ fe₃,
      appendRecord fe₂ base m₁.ctx.blockSize (last.off - base) last.hdr n name h m₂ = .ok (fe₃, m₃) ∧
        EntryWritten m₁ fe (l ++ [last]) n name b recs' m₃ fe₃ := by
    cases htakes with
    | behind room header tail =>
      obtain ⟨-, -, -, -, hinside, hend⟩ := hwf.records.of_last
      have hheader : last.off % 512 + 8 ≤ 512 := hreads last (by simp) (by rw [← hbs]; omega)
      exact entryWritten_behind ha hs₁ hmode he hwf hsmall hbase hname hlen hh hplain hn hpos hstring
        hfe.mapped hheader room header tail
    | block full mapped small =>
      refine entryWritten_block ha hs₁ hmode he hwf hsmall hbase hname hlen hh hplain hn hpos hstring
        hfe.mapped full ?_ (by rw [hbs]; exact small)
      rw [ho.fileBlock_eq, hbs, hsize, ho.inode]
      exact mapped
  obtain ⟨m', fe', hclose, hvol, hentered⟩ :=
    hw.editing.enters hh hs hopen hapart hw.dirty hw.mapped hw.records
  refine ⟨m', recs', ?_, hvol, hentered, hw.plain, hw.entries⟩
  rw [hcall, ← hbs, Prog.bind_ok hrun, Prog.bind_ok hclose]
  rfl

end

/-! ## The tree with one more entry -/

/-- The device `w` is `v` with the entry in directory `d`, whose records are now `recs'`, and the new
    file's inode in the slot of `n`. -/
structure FileAdded (v : UInt32 → Sector) (c : Ext2Context) (dirs : Set UInt32) (d n : UInt32)
    (recs' : List DirRecord) (inode : Inode) (w : UInt32 → Sector) : Prop where
  places : KeepsPlaces v c dirs w
  listing : Listing w c d recs'
  mode : (inodeAt w c d).iMode = (inodeAt v c d).iMode
  inode : inodeAt w c n = inode
  others : ∀ x, IsInode c x → x ≠ d → x ≠ n → inodeAt w c x = inodeAt v c x
  bits : ∀ x, CountedInode c x → inodeUsed w c x = inodeUsed v c x
  data : ∀ s, ¬ InMetadata v c s → ¬ HoldsBytes v c d s → w s = v s

theorem Entered.added {recs' : List DirRecord} (hp : Placed v c dirs) (hd : d ∈ dirs)
    (hn : IsInode c n) (hnot : n ∉ dirs) (he : Entered v c d recs' w) (inode : Inode) :
    FileAdded v c dirs d n recs' inode (putInode w c n inode) := by
  obtain ⟨u, i, rfl, hu, hmap, hmode⟩ := he.device
  have hcd := hp.counted (hp.inodes d hd)
  have hcn := hp.counted hn
  have hne : n ≠ d := fun heq => hnot (heq ▸ hd)
  -- first the blocks of the directory, then its inode, then the new one
  have hdata : ∀ s, InMetadata v c s ∨ Elsewhere v c dirs s → u s = v s := fun s hs =>
    hu s fun hbytes => hs.elim (hp.data d hd s hbytes) fun hs => hs.2 d hd hbytes
  have hk₁ := hp.keepsPlaces_data hdata
  have hp₁ := hp.step hk₁
  have hk₂ : KeepsPlaces u c dirs (putInode u c d i) := hp₁.keepsPlaces_putInode i hcd fun _ => by
    rw [hmap, hp.inodeAt_data hdata hcd]
  have hp₂ := hp₁.step hk₂
  have hk₃ : KeepsPlaces (putInode u c d i) c dirs (putInode (putInode u c d i) c n inode) :=
    hp₂.keepsPlaces_putInode inode hcn fun hmem => absurd hmem hnot
  have hself : inodeAt (putInode u c d i) c d = i := hp₁.layout.inodeTables.inodeAt_putInode hcd i
  have hdir := hp₂.layout.inodeTables.inodeAt_putInode_ne hcn hcd hne inode
  constructor
  · exact (hk₁.trans hp hk₂).trans hp hk₃
  · exact hk₃.listing hp₂ hd he.listing (by rw [hdir]) fun s hs =>
      hp₂.putInode_data inode hcn (hp₂.data d hd s hs)
  · rw [hdir, hself, hmode]
  · exact hp₂.layout.inodeTables.inodeAt_putInode hcn inode
  · intro x hx hxd hxn
    rw [hp₂.layout.inodeTables.inodeAt_putInode_ne hcn (hp.counted hx) (Ne.symm hxn),
      hp₁.layout.inodeTables.inodeAt_putInode_ne hcd (hp.counted hx) (Ne.symm hxd),
      hp.inodeAt_data hdata (hp.counted hx)]
  · intro x hx
    rw [hp₂.inodeUsed_putInode inode hcn hx, hp₁.inodeUsed_putInode i hcd hx, hp.inodeUsed_data hdata hx]
  · intro s hs hbytes
    have hs₁ : ¬ InMetadata u c s := by rwa [hk₁.inMetadata]
    have hs₂ : ¬ InMetadata (putInode u c d i) c s := by rwa [hk₂.inMetadata]
    rw [hp₂.putInode_data inode hcn hs₂, hp₁.putInode_data i hcd hs₁, hu s hbytes]

/-- **One entry more.** The directories are still a tree, with the new name in `d`. -/
theorem Tree.added {recs' : List DirRecord} {inode : Inode} (ht : Tree v c dirs recs) (hd : d ∈ dirs)
    (hnot : n ∉ dirs) (ha : FileAdded v c dirs d n recs' inode w)
    (hmode : inode.iMode &&& 0xF000 ≠ ext2SIfdir) (hplain : ∀ r ∈ recs', r.Plain)
    (hentries : entries recs' = entries (recs d) ++ [⟨n, name⟩])
    (hname : ∀ z, (name, z) ∉ (names dirs recs).entries d) :
    Tree w c dirs (Function.update recs d recs') ∧
      names dirs (Function.update recs d recs') = (names dirs recs).insert d name n := by
  have hp := ht.placed
  have hnames : names dirs (Function.update recs d recs') = (names dirs recs).insert d name n := by
    unfold names DirTree.insert
    congr 1
    funext x
    by_cases hx : x = d
    · subst hx
      simp [hentries]
    · simp [hx]
  have hrecords : ∀ x, x ≠ d → Function.update recs d recs' x = recs x := fun x hx =>
    Function.update_of_ne hx ..
  have hself : Function.update recs d recs' d = recs' := Function.update_self ..
  refine ⟨⟨hp.step ha.places, ht.root, fun x hx => ?_, fun x hx => ?_, fun x hx r hr hout hino => ?_⟩,
    hnames⟩
  · by_cases hxd : x = d
    · subst hxd
      rw [hself]
      have hdir := ht.directory x hx
      refine ⟨hdir.positive, hdir.known, ha.mode ▸ hdir.mode, ha.listing.noHole, ha.listing.records, ?_⟩
      -- the names are those of the tree
      have hdistinct := ht.distinct.insert (n := n) hname x hx
      rw [← hnames] at hdistinct
      simpa [names, entries, DirRecord.dirent, Function.comp_def] using hdistinct
    · rw [hrecords x hxd]
      have hinode := ha.others x (hp.inodes x hx) hxd fun heq => hnot (heq ▸ hx)
      refine ha.places.directory hp hx (ht.directory x hx) (by rw [hinode]) (by rw [hinode])
        fun s hs => ?_
      exact ha.data s (hp.data x hx s hs) fun hbytes => hxd (hp.disjoint x hx d hd s hs hbytes)
  · by_cases hxd : x = d
    · subst hxd
      rw [hself]
      exact hplain
    · rw [hrecords x hxd]
      exact ht.plain x hx
  · by_cases hxn : r.hdr.inode = n
    · rw [hxn, ha.inode]
      exact hmode
    · rw [ha.others _ hino (fun heq => hout (heq ▸ hd)) hxn]
      -- any other entry was there before
      have hmem : (r.name, r.hdr.inode) ∈ (names dirs recs).entries x := by
        have hlive : r.Live := by
          by_cases hxd : x = d
          · subst hxd
            rw [hself] at hr
            exact (hplain r hr).live
          · rw [hrecords x hxd] at hr
            exact (ht.plain x hx r hr).live
        have hnew : (r.name, r.hdr.inode) ∈ (names dirs (Function.update recs d recs')).entries x :=
          mem_names.2 ⟨r, hr, hlive, rfl, rfl⟩
        rw [hnames, DirTree.mem_entries_insert] at hnew
        exact hnew.resolve_right fun hboth => hxn hboth.2.2
      obtain ⟨r', hr', -, -, heq⟩ := mem_names.1 hmem
      rw [← heq] at hout hino ⊢
      exact ht.closed x hx r' hr' hout hino

/-! ## Creating a file -/

/-- A path that is not there is not found, and `ext2_open` goes on with `ENOENT`. -/
theorem Tree.ext2Open_misses (hh : h.Reliable) (hpat : 2 ^ 29 ≤ h.patience)
    (ht : Tree m.disk m.ctx dirs recs) {path : List UInt8} (mode : Nat) (flags : OpenFlags)
    (hmiss : (names dirs recs).Misses ext2RootIno (pathElements path)) :
    ∃ (m₁ : Machine) (fe : FileEnt), ext2Open path flags mode h m = (if ¬ flags.creat then do
        setErrno .enoent
        pure none
      else ext2Create ext2AppendToDirectory { fe with flags := openedFlags fe.flags flags } path mode :
        Drv (Option FileEnt)) h m₁ ∧
      Quiet m m₁ ∧ fe.Reader ∧ fe.magic = embextMagic := by
  have hs := ht.placed.layout.sane
  have hb : Browsing m.disk m.ctx m FileEnt.fresh := ⟨rfl, ⟨m.ctx.sysbuf, rfl⟩, rfl, rfl⟩
  obtain ⟨o, m₁, fe, hrun, hb₁, hwalked⟩ :=
    lookupElements_searched hh hs hpat (ht.searched_of_misses hmiss) hb (by decide)
  obtain ⟨s, hctx⟩ := hb₁.ctx
  cases hwalked with
  | found res _ => exact absurd ((ht.resolves_iff ht.root).1 res) (hmiss.not_leads ht.distinct)
  | missing _ error =>
    have hlook : ext2LookupPath FileEnt.fresh path h m = .ok ((0xFFFFFFFF, fe), m₁) := by
      unfold ext2LookupPath
      rw [Prog.bind_ok hrun]
      rfl
    obtain ⟨hq, hreader⟩ := quiet_ext2LookupPath FileEnt.fresh_reader path m _ m₁ (.refl m) hlook
    have hpos := ht.placed.positive
    have hopen : ext2OpenInode fe 0xFFFFFFFF h m₁ = .ok ((-1, fe), m₁) := by
      refine ext2OpenInode_missing (by rw [hctx]; exact hs.perGroup) (.inl ?_)
      rw [hctx]
      exact lt_trans hpos (by decide)
    refine ⟨m₁, fe, ?_, hq, hreader, hb₁.magic⟩
    rw [ext2Open_eq hlook hopen, if_pos ⟨rfl, error⟩]

/-- Directory `d` takes `name`: a C string of 1 to 255 bytes that is not in it, and the record fits where
    `ext2_append_to_directory` puts it. -/
structure Enterable (v : UInt32 → Sector) (c : Ext2Context) (dirs : Set UInt32)
    (recs : UInt32 → List DirRecord) (d : UInt32) (name : List UInt8) : Prop where
  dir : d ∈ dirs
  absent : ∀ z, (name, z) ∉ (names dirs recs).entries d
  nonempty : name ≠ []
  short : name.length ≤ 255
  string : 0 ∉ name
  small : (inodeAt v c d).iSize.toNat < 2 ^ 31
  reads : LastBlockReads (inodeBytes v c (inodeAt v c d)) c.blockSize (recs d)
  takes : ∃ l last, recs d = l ++ [last] ∧ TakesRecord v c d last name

theorem Enterable.step (he : Enterable v c dirs recs d name) (hp : Placed v c dirs)
    (hk : KeepsPlaces v c dirs w) (hinode : inodeAt w c d = inodeAt v c d) :
    Enterable w c dirs recs d name := by
  have hnext : nextBlock w c d = nextBlock v c d := by
    unfold nextBlock
    rw [hk.fileBlock_eq hp he.dir, hinode]
  obtain ⟨l, last, heq, htakes⟩ := he.takes
  refine ⟨he.dir, he.absent, he.nonempty, he.short, he.string, by rw [hinode]; exact he.small, ?_,
    l, last, heq, ?_⟩
  · rw [hinode]
    exact he.reads
  · cases htakes with
    | behind room header tail => exact .behind room header tail
    | block full mapped small => exact .block full (by rw [hnext]; exact mapped) small

theorem Enterable.sameVolume {c' : Ext2Context} (he : Enterable v c dirs recs d name)
    (hvol : c.SameVolume c') : Enterable v c' dirs recs d name := by
  have hinode := inodes_sameVolume hvol v
  have hbs := blockSize_sameVolume hvol
  have hnext : nextBlock v c' d = nextBlock v c d := by
    unfold nextBlock
    rw [hinode, fileBlock_sameVolume hvol, hbs]
  obtain ⟨l, last, heq, htakes⟩ := he.takes
  refine ⟨he.dir, he.absent, he.nonempty, he.short, he.string, by rw [hinode]; exact he.small, ?_,
    l, last, heq, ?_⟩
  · rw [hinode, hbs]
    exact he.reads
  · cases htakes with
    | behind room header tail => exact .behind room header tail
    | block full mapped small =>
      exact .block full (by rw [hnext]; exact mapped) (by rw [hbs]; exact small)

/-- The path leads, up to its last component, to directory `d`, which takes this component. -/
structure Creatable (v : UInt32 → Sector) (c : Ext2Context) (dirs : Set UInt32)
    (recs : UInt32 → List DirRecord) (path : List UInt8) (d : UInt32) (name : List UInt8) : Prop where
  split : ∃ front, splitLastSlash path = some (front, name) ∧
    pathElements path = pathElements front ++ [name] ∧
    (names dirs recs).Leads ext2RootIno (pathElements front) d
  enters : Enterable v c dirs recs d name

theorem Creatable.sameVolume {c' : Ext2Context} {path : List UInt8}
    (hc : Creatable v c dirs recs path d name) (hvol : c.SameVolume c') :
    Creatable v c' dirs recs path d name :=
  ⟨hc.split, hc.enters.sameVolume hvol⟩

theorem Creatable.misses {path : List UInt8} (hc : Creatable v c dirs recs path d name) :
    (names dirs recs).Misses ext2RootIno (pathElements path) := by
  obtain ⟨front, -, hpath, hleads⟩ := hc.split
  exact ⟨_, name, [], d, hpath, hleads, hc.enters.dir, hc.enters.absent⟩

/-- What a call that creates a file has done: inode `n` was free, is in use and holds an empty file,
    directory `d` has one more entry, and every other inode, bit and sector of data is as it was. -/
structure Created (h : Host) (m : Machine) (dirs : Set UInt32) (recs : UInt32 → List DirRecord)
    (d n : UInt32) (name : List UInt8) (mode : Nat) (recs' : UInt32 → List DirRecord) (m' : Machine) :
    Prop where
  volume : m.ctx.SameVolume m'.ctx
  isInode : IsInode m.ctx n
  free : inodeUsed m.disk m.ctx n = false
  tree : Tree m'.disk m'.ctx dirs recs'
  entry : names dirs recs' = (names dirs recs).insert d name n
  inode : ∃ t, inodeAt m'.disk m'.ctx n
    = newInode mode h.uid h.gid (h.clock t) (h.clock (t + 1)) (h.clock (t + 2))
  others : ∀ x, IsInode m.ctx x → x ≠ d → x ≠ n → inodeAt m'.disk m'.ctx x = inodeAt m.disk m.ctx x
  bits : ∀ x, IsInode m.ctx x → inodeUsed m'.disk m'.ctx x
    = (inodeUsed m.disk m.ctx x || decide (x = n))
  data : ∀ s, ¬ InMetadata m.disk m.ctx s → ¬ HoldsBytes m.disk m.ctx d s → m'.disk s = m.disk s

/-- The same, seen from before a step that only reads. -/
theorem Created.of_quiet {mode : Nat} {recs' : UInt32 → List DirRecord}
    (hc : Created h m₁ dirs recs d n name mode recs' m') (hq : Quiet m m₁) :
    Created h m dirs recs d n name mode recs' m' := by
  have hvol := hq.ctx.sameVolume
  have hdisk := hq.disk
  have hino : ∀ x, IsInode m₁.ctx x ↔ IsInode m.ctx x := fun x => by
    rw [hvol]
    rfl
  obtain ⟨volume, isInode, free, tree, entry, inode, others, bits, data⟩ := hc
  rw [hdisk, inodesUsed_sameVolume hvol] at free bits
  rw [hdisk, inodes_sameVolume hvol] at others
  rw [hdisk, inMetadata_sameVolume hvol, holdsBytes_sameVolume hvol] at data
  simp only [hino] at isInode others bits
  exact ⟨hvol.trans volume, isInode, free, tree, entry, inode, others, bits, data⟩

theorem openedFlags_write_eq (f : FileFlags) (flags : OpenFlags) (hf : f.write = false) :
    (openedFlags f flags).write = (flags.rdwr || flags.wronly) := by
  unfold openedFlags
  cases flags.rdwr <;> cases flags.wronly <;> cases flags.append <;> simp [hf]

theorem newInode_isFile (mode : Nat) (uid gid : UInt16) (atime ctime mtime : UInt32) :
    (newInode mode uid gid atime ctime mtime).iMode &&& 0xF000 ≠ ext2SIfdir := by
  intro heq
  have hbit := congrArg (fun x : UInt16 => x.toBitVec.getLsbD 15) heq
  simp [newInode, ext2SIfreg, ext2SIfdir] at hbit

/-- The two steps together: an inode is taken, then the file is added. -/
theorem FileAdded.created {recs' : UInt32 → List DirRecord} {l : List DirRecord} {inode : Inode}
    {mode t : Nat} (hp : Placed m.disk m.ctx dirs) (hd : d ∈ dirs) (hg : InodeGiven m.disk m.ctx n m₁.disk)
    (hvol : m.ctx.SameVolume m₁.ctx) (hvol' : m₁.ctx.SameVolume m'.ctx)
    (ha : FileAdded m₁.disk m₁.ctx dirs d n l inode m'.disk)
    (hinode : inode = newInode mode h.uid h.gid (h.clock t) (h.clock (t + 1)) (h.clock (t + 2)))
    (htree : Tree m'.disk m₁.ctx dirs recs')
    (hnames : names dirs recs' = (names dirs recs).insert d name n) :
    Created h m dirs recs d n name mode recs' m' := by
  have hl := hp.layout
  have hk := hg.keepsPlaces hp
  have hcount : ∀ x, IsInode m.ctx x → CountedInode m₁.ctx x := fun x hx => by
    have hx' := hp.counted hx
    rw [hvol]
    exact ⟨hx'.isInode, hx'.group⟩
  constructor
  · exact hvol.trans hvol'
  · exact hg.isInode
  · exact hg.free
  · exact htree.sameVolume hvol'
  · exact hnames
  · refine ⟨t, ?_⟩
    rw [inodes_sameVolume hvol', ha.inode, hinode]
  · intro x hx hxd hxn
    rw [inodes_sameVolume hvol', ha.others x (by rw [hvol]; exact hx) hxd hxn, inodes_sameVolume hvol,
      hg.inodeAt_eq hl (hp.counted hx)]
  · intro x hx
    rw [inodesUsed_sameVolume hvol', ha.bits x (hcount x hx), inodesUsed_sameVolume hvol,
      hg.inodeUsed_eq hl (hp.counted hx)]
  · intro s hs hbytes
    rw [ha.data s (by rwa [inMetadata_sameVolume hvol, hk.inMetadata])
      (by rwa [holdsBytes_sameVolume hvol, hk.holdsBytes_eq hp hd])]
    exact hg.other s fun r hr hsec => absurd ⟨r, hr, hsec⟩ hs

/-- The flush of a changed inode puts it into its slot. -/
theorem ext2FlushInode_puts (hh : h.Reliable) (hs : m.ctx.Sane) (hclean : fe.buffer.dirty = false)
    (hdirty : fe.flags.fsDirty = true) (hn : IsInode m.ctx fe.inodeNumber) : ∃ m' b,
    ext2FlushInode fe h m
      = .ok ((0, { fe with buffer := b, flags := { fe.flags with fsDirty := false } }), m') ∧
    b.dirty = false ∧ m'.disk = putInode m.disk m.ctx fe.inodeNumber fe.inode ∧
    m.ctx.SameVolume m'.ctx := by
  obtain ⟨m', fe', hrun, hstored, -⟩ :=
    ext2FlushInode_ok hh hs.slotted hclean hdirty (hs.covered _ hn.1 hn.2)
  obtain ⟨s, l, hm'⟩ := hstored.machine
  obtain ⟨b, hb, rfl⟩ := hstored.handle
  refine ⟨m', b, hrun, hb, ?_, ?_⟩
  · rw [hm']
  · rw [hm']
    rfl

/-- The call once there is an inode and the name is in its directory: the new inode is left to flush. -/
theorem ext2Create_eq {append : List UInt8 → UInt32 → List UInt8 → Drv Int} {fe₁ fe₂ : FileEnt}
    {m₃ : Machine} {path front : List UInt8} {mode : Nat} (hro : m.ctx.readOnly = false)
    (halloc : ext2AllocateInode fe h m = .ok ((0, fe₁), m₁))
    (hsplit : splitLastSlash path = some (front, name))
    (happend : append front fe₁.inodeNumber name h m₁ = .ok (0, m₃))
    (hfe₂ : fe₂ = { fe₁ with
      inode := newInode mode h.uid h.gid (h.clock m₃.ticks) (h.clock (m₃.ticks + 1))
        (h.clock (m₃.ticks + 2))
      cursor := 0, flags := { fe₁.flags with fsDirty := true } })
    (hflush : ext2FlushInode fe₂ h { m₃ with ticks := m₃.ticks + 3 } = .ok ((0, fe'), m')) :
    ext2Create append fe path mode h m = .ok (some fe', m') := by
  have huid : getuid h m₃ = .ok (h.uid, m₃) := rfl
  have hgid : getgid h m₃ = .ok (h.gid, m₃) := rfl
  have htime : ∀ m : Machine, timeNull h m = .ok (h.clock m.ticks, { m with ticks := m.ticks + 1 }) :=
    fun _ => rfl
  unfold ext2Create
  rw [Prog.bind_ok getCtx_apply, if_neg (by rw [hro]; decide), Prog.bind_ok halloc]
  dsimp only
  rw [if_neg (by decide), hsplit]
  dsimp only
  rw [Prog.bind_ok happend, if_neg (by decide), Prog.bind_ok huid, Prog.bind_ok hgid,
    Prog.bind_ok (htime _), Prog.bind_ok (htime _), Prog.bind_ok (htime _), ← hfe₂,
    Prog.bind_ok hflush]
  rfl

/-- Once it has an inode the call creates the file. -/
theorem ext2Create_creates {path : List UInt8} (mode : Nat) (hh : h.Reliable)
    (hpat : 2 ^ 29 ≤ h.patience) (ht : Tree m.disk m.ctx dirs recs) (hro : m.ctx.readOnly = false)
    (hclean : fe.buffer.dirty = false) {fe₁ : FileEnt}
    (halloc : ext2AllocateInode fe h m = .ok ((0, fe₁), m₁))
    (hc : Creatable m.disk m.ctx dirs recs path d name) : ∃ m' recs' inode b,
    ext2Create ext2AppendToDirectory fe path mode h m = .ok (some { fe with
      inodeNumber := fe₁.inodeNumber, inode := inode, cursor := 0, buffer := b
      flags := { fe.flags with fsDirty := false } }, m') ∧
    b.dirty = false ∧ inode = inodeAt m'.disk m'.ctx fe₁.inodeNumber ∧
    Created h m dirs recs d fe₁.inodeNumber name mode recs' m' := by
  have hs := ht.placed.layout.sane
  obtain ⟨hgiven, hvol⟩ := ext2AllocateInode_given ht.placed hh hclean halloc
  obtain ⟨b, hbclean, hfe₁⟩ := ext2AllocateInode_handle hh hs.block halloc
  obtain ⟨front, hsplit, hpath, hleads⟩ := hc.split
  have hd := hc.enters.dir
  have hn := hgiven.isInode
  have hnot := hgiven.not_mem ht.placed
  -- the state in which the name is entered
  have hkeeps := hgiven.keepsPlaces ht.placed
  have ht₁ : Tree m₁.disk m₁.ctx dirs recs := (hgiven.tree ht).sameVolume hvol
  have he₁ : Enterable m₁.disk m₁.ctx dirs recs d name := (hc.enters.step ht.placed hkeeps
    (hgiven.inodeAt_eq ht.placed.layout (ht.placed.counted (ht.placed.inodes d hd)))).sameVolume hvol
  have hs₁ := ht₁.placed.layout.sane
  have hro₁ : m₁.ctx.readOnly = false := by
    rw [hvol]
    exact hro
  have hn₁ : IsInode m₁.ctx fe₁.inodeNumber := by
    rw [hvol]
    exact hn
  have hpos : fe₁.inodeNumber.toNat < 2 ^ 31 := lt_of_le_of_lt hn.2 ht.placed.positive
  obtain ⟨l, last, hrecs, htakes⟩ := he₁.takes
  obtain ⟨dir, m₂, hopen, hnumber⟩ := (ht₁.leads hleads).ext2OpenPlain_ok hh hs₁ hpat
    (ht₁.placed.inodes d hd) hro₁
  obtain rfl := hnumber
  have hdir := ht₁.directory _ hd
  have hreads := he₁.reads
  have hplain := ht₁.plain _ hd
  rw [hrecs] at hreads hplain
  obtain ⟨m₃, recs₃, happend, ⟨s, hctx₃⟩, hentered, hplain₃, hentries⟩ :=
    ext2AppendToDirectory_enters hh hs₁ hopen (ht₁.placed.fileApart hd) hpat
      ⟨hdir.noHole, hrecs ▸ hdir.records⟩ hplain he₁.small hreads htakes hn₁.1 hpos he₁.nonempty
      he₁.short he₁.string
  rw [← hrecs] at hentries
  -- the new inode goes to its slot
  obtain ⟨inode, hinode⟩ : ∃ i, i = newInode mode h.uid h.gid (h.clock m₃.ticks)
    (h.clock (m₃.ticks + 1)) (h.clock (m₃.ticks + 2)) := ⟨_, rfl⟩
  obtain ⟨fe₂, hfe₂⟩ : ∃ f : FileEnt, f = { fe₁ with
    inode := inode, cursor := 0, flags := { fe₁.flags with fsDirty := true } } := ⟨_, rfl⟩
  have hvol₃ : m₁.ctx.SameVolume m₃.ctx := by
    rw [hctx₃]
    rfl
  have hclean₂ : fe₂.buffer.dirty = false := by
    rw [hfe₂, hfe₁]
    exact hbclean
  have hn₃ : IsInode m₃.ctx fe₂.inodeNumber := by
    rw [hctx₃, hfe₂]
    exact hn₁
  obtain ⟨m', b', hflush, hb', hdisk, hvol₄⟩ :=
    ext2FlushInode_puts (m := { m₃ with ticks := m₃.ticks + 3 }) hh (hs₁.of_sameVolume hvol₃) hclean₂
      (by rw [hfe₂]) hn₃
  have hcreate := ext2Create_eq hro halloc hsplit happend (hinode ▸ hfe₂) hflush
  have hvol' : m₁.ctx.SameVolume m'.ctx := hvol₃.trans hvol₄
  have hdisk' : m'.disk = putInode m₃.disk m₁.ctx fe₁.inodeNumber inode := by
    rw [hdisk, hfe₂, hctx₃]
    rfl
  have hadded := hentered.added ht₁.placed hd hn₁ hnot inode
  rw [← hdisk'] at hadded
  obtain ⟨htree, hnames⟩ := ht₁.added hd hnot hadded (hinode ▸ newInode_isFile _ _ _ _ _ _) hplain₃
    hentries he₁.absent
  refine ⟨m', _, inode, b', ?_, hb', ?_,
    hadded.created ht.placed hd hgiven hvol hvol' hinode htree hnames⟩
  · rw [hcreate, hfe₂, hfe₁]
  · rw [inodes_sameVolume hvol', hadded.inode]

/-- No descriptor records a free inode, or the bitmap of the first group with the most has none. -/
def OutOfInodes (v : UInt32 → Sector) (c : Ext2Context) : Prop :=
  (mostFreeInodes v c).1 = 0 ∨ ∀ k < c.superblock.sInodesPerGroup.toNat,
    inodeBit v c (mostFreeInodes v c).2.toNat k = true

/-- The handle of a new file: it reads the empty file in its inode, and has nothing to write. -/
structure FreshHandle (m' : Machine) (flags : OpenFlags) (fe : FileEnt) : Prop where
  magic : fe.magic = embextMagic
  clean : fe.buffer.dirty = false
  synced : fe.flags.fsDirty = false
  writes : fe.flags.write = (flags.rdwr || flags.wronly)
  cursor : fe.cursor = 0
  inode : fe.inode = inodeAt m'.disk m'.ctx fe.inodeNumber

/-- Creating a file is inserting its name into the tree, if there is an inode for it. -/
theorem Tree.ext2Open_creates {path : List UInt8} {flags : OpenFlags} (mode : Nat) (hh : h.Reliable)
    (hpat : 2 ^ 29 ≤ h.patience) (ht : Tree m.disk m.ctx dirs recs) (hro : m.ctx.readOnly = false)
    (hc : Creatable m.disk m.ctx dirs recs path d name) (hcreat : flags.creat = true) :
    (OutOfInodes m.disk m.ctx → ∃ m', ext2Open path flags mode h m = .ok (none, m') ∧ Quiet m m') ∧
    (¬ OutOfInodes m.disk m.ctx → ∃ fe m' recs',
      ext2Open path flags mode h m = .ok (some fe, m') ∧ FreshHandle m' flags fe ∧
      Created h m dirs recs d fe.inodeNumber name mode recs' m') := by
  obtain ⟨m₁, fe, heq, hq, hreader, hmagic⟩ := ht.ext2Open_misses hh hpat mode flags hc.misses
  rw [if_neg (by simp [hcreat])] at heq
  obtain ⟨fe₁, hfe₁⟩ : ∃ f : FileEnt, f = { fe with flags := openedFlags fe.flags flags } := ⟨_, rfl⟩
  rw [← hfe₁] at heq
  have hvol := hq.ctx.sameVolume
  have hclean : fe₁.buffer.dirty = false := by
    rw [hfe₁]
    exact hreader.clean
  have hro₁ : m₁.ctx.readOnly = false := by
    rw [hvol]
    exact hro
  have ht₁ : Tree m₁.disk m₁.ctx dirs recs := by
    rw [hq.disk]
    exact ht.sameVolume hvol
  have hc₁ : Creatable m₁.disk m₁.ctx dirs recs path d name := by
    rw [hq.disk]
    exact hc.sameVolume hvol
  have hout : OutOfInodes m₁.disk m₁.ctx ↔ OutOfInodes m.disk m.ctx := by
    rw [hq.disk, hvol]
    rfl
  have hp₁ := ht₁.placed
  obtain ⟨r, fe₂, m₂, halloc, houtcome⟩ := ext2AllocateInode_ok fe₁ hh hp₁.layout.sane.block hclean
    hp₁.inodeLayout.perGroup hp₁.wholeBytes
  rw [heq, ← hout]
  have hnull : r ≠ 0 → ∃ m', ext2Create ext2AppendToDirectory fe₁ path mode h m₁ = .ok (none, m') ∧
      Quiet m m' := by
    intro hr
    rcases ext2AllocateInode_cases hclean halloc with ⟨-, -, hq₂⟩ | ⟨rfl, -⟩
    · refine ⟨{ m₂ with rerrno := fe₂.rerrno }, ?_, hq.trans (hq₂.trans ⟨rfl, .refl m₂, rfl⟩)⟩
      unfold ext2Create
      rw [Prog.bind_ok getCtx_apply, if_neg (by rw [hro₁]; decide), Prog.bind_ok halloc]
      dsimp only
      rw [if_pos hr]
      rfl
    · exact absurd rfl hr
  cases houtcome with
  | none records _ => exact ⟨fun _ => hnull (by decide), fun hnot => absurd (.inl records) hnot⟩
  | stale _ full _ => exact ⟨fun _ => hnull (by decide), fun hnot => absurd (.inr full) hnot⟩
  | taken records index clear =>
    refine ⟨fun hfull => ?_, fun _ => ?_⟩
    · rcases hfull with hzero | hfull
      · exact absurd hzero records
      · rw [hfull _ index] at clear
        cases clear
    · obtain ⟨m', recs', inode, b, hrun, hb, hinode, hcreated⟩ :=
        ext2Create_creates mode hh hpat ht₁ hro₁ hclean halloc hc₁
      refine ⟨_, m', recs', hrun, ⟨?_, hb, rfl, ?_, rfl, hinode⟩, ?_⟩
      · rw [hfe₁]
        exact hmagic
      · rw [hfe₁]
        exact openedFlags_write_eq _ flags hreader.flags
      · exact hcreated.of_quiet hq

/-- A path of the tree opens the inode it leads to. -/
theorem Tree.opens {path : List UInt8} (mode : Nat) (hh : h.Reliable) (hpat : 2 ^ 29 ≤ h.patience)
    (ht : Tree m.disk m.ctx dirs recs)
    (hleads : (names dirs recs).Leads ext2RootIno (pathElements path) n) (hn : IsInode m.ctx n) :
    ∃ fe m₁, ext2Open path oRdonly mode h m = .ok (some fe, m₁) ∧ fe.inodeNumber = n ∧
      fe.inode = inodeAt m.disk m.ctx n := by
  obtain ⟨m₁, fe, heq, -, hinode, hnumber, -⟩ :=
    (ht.leads hleads).ext2Open_eq hh ht.placed.layout.sane hpat hn.1 hn.2 oRdonly mode
  exact ⟨_, m₁, heq.trans rfl, hnumber, hinode⟩

/-- With `O_CREAT` and `O_EXCL` it is refused. -/
theorem Tree.refuses {path : List UInt8} {flags : OpenFlags} (mode : Nat) (hh : h.Reliable)
    (hpat : 2 ^ 29 ≤ h.patience) (ht : Tree m.disk m.ctx dirs recs)
    (hleads : (names dirs recs).Leads ext2RootIno (pathElements path) n) (hn : IsInode m.ctx n)
    (hcreat : flags.creat = true) (hexcl : flags.excl = true) :
    ∃ m₁, ext2Open path flags mode h m = .ok (none, m₁) ∧ m₁.rerrno = .eexist := by
  obtain ⟨m₁, fe, heq, -⟩ :=
    (ht.leads hleads).ext2Open_eq hh ht.placed.layout.sane hpat hn.1 hn.2 flags mode
  refine ⟨{ m₁ with rerrno := .eexist }, ?_, rfl⟩
  rw [heq, ext2OpenExisting, if_pos ⟨hcreat, hexcl⟩]
  rfl

namespace SmallVolume

set_option maxRecDepth 4000

/-- The metadata of the small volume. -/
def machineRoles : List MetaRole :=
  [.superblock 1, .descriptors 1 0, .blockBitmap 0, .inodeBitmap 0, .inodeTable 0 0, .inodeTable 0 1]

theorem mem_machineRoles {r : MetaRole} (hr : r.Valid machine.ctx) : r ∈ machineRoles := by
  have hcopies : machine.ctx.superblockBlocks = [1] := by decide
  have hgroups : machine.ctx.numBlockgroups.toNat = 1 := by decide
  have htable : inodeTableBlocks machine.ctx = 2 := by decide
  have hone : ∀ g : Nat, g < machine.ctx.numBlockgroups.toNat → g = 0 := fun g hg => by omega
  cases r with
  | superblock s =>
    have hs : s ∈ machine.ctx.superblockBlocks := hr
    rw [hcopies, List.mem_singleton] at hs
    subst hs
    decide
  | descriptors s j =>
    obtain ⟨hs, hj⟩ : s ∈ machine.ctx.superblockBlocks ∧ j < descriptorBlocks machine.ctx := hr
    rw [hcopies, List.mem_singleton] at hs
    have hdesc : descriptorBlocks machine.ctx = 1 := by decide
    obtain rfl : j = 0 := by omega
    subst hs
    decide
  | blockBitmap g =>
    obtain rfl := hone g hr
    decide
  | inodeBitmap g =>
    obtain rfl := hone g hr
    decide
  | inodeTable g j =>
    obtain ⟨hg, hj⟩ : g < machine.ctx.numBlockgroups.toNat ∧ j < inodeTableBlocks machine.ctx := hr
    obtain rfl := hone g hg
    rw [htable] at hj
    interval_cases j <;> decide

theorem machineRoles_block : ∀ r ∈ machineRoles, r.block machine.disk machine.ctx < 7 := by
  decide +kernel

theorem machine_laidOut : LaidOut machine.disk machine.ctx where
  sane := machine_ctx_sane
  fits := by
    unfold Ext2Context.Fits
    decide
  primary := by decide
  groups := by decide
  blockBits := by decide
  inodeBits := by decide
  inside r hr := by
    have hblocks : machine.ctx.superblock.sBlocksCount.toNat = 64 := by decide
    have hlt := machineRoles_block r (mem_machineRoles hr)
    omega
  apart r r' hr hr' := by
    have hall : ∀ r ∈ machineRoles, ∀ r' ∈ machineRoles,
        r.block machine.disk machine.ctx = r'.block machine.disk machine.ctx → r = r' := by
      decide +kernel
    exact hall r (mem_machineRoles hr) r' (mem_machineRoles hr')

/-- The bytes of the root directory are in block 7. -/
theorem root_holdsBytes {s : UInt32} (hs : HoldsBytes machine.disk machine.ctx 2 s) :
    InBlock machine.ctx 7 s := by
  obtain ⟨p, hmap, rfl⟩ := hs
  rw [root_inode] at hmap ⊢
  obtain ⟨hlt, -, heq⟩ := byteSector_single (b := 7) rfl hmap
  have hsectors : machine.ctx.blockSize / 512 = 2 := by decide
  have hstart : machine.ctx.partStart = 0 := by decide
  refine ⟨p / 512, by omega, ?_⟩
  rw [heq, hsectors, hstart, UInt32.add_zero]
  rfl

theorem root_placed : Placed machine.disk machine.ctx {2} where
  layout := machine_laidOut
  wholeBytes := by decide
  numbers := by decide
  positive := by decide
  inodes := by
    rintro d rfl
    exact ⟨by decide, by decide⟩
  used := by
    rintro d rfl
    decide
  once := by
    rintro d rfl
    rw [root_inode]
    exact root_apart.once
  disjoint := by
    rintro d rfl d' rfl s - -
    rfl
  data := by
    rintro d rfl s hs ⟨r, hr, hsec⟩
    have hlt := machineRoles_block r (mem_machineRoles hr)
    have hblocks : machine.ctx.superblock.sBlocksCount.toNat = 64 := by decide
    have heq := (root_holdsBytes hs).unique hsec machine_laidOut.fits (by omega) (by omega)
    omega
  map := by
    rintro w - d rfl k
    rw [root_inode, fileBlock_single (b := 7) rfl, fileBlock_single (b := 7) rfl]

/-- The root directory alone is a tree, with the files `f` and `e`. -/
theorem root_tree : Tree machine.disk machine.ctx {2} fun _ => rootRecords machine where
  placed := root_placed
  root := rfl
  directory := by
    rintro d rfl
    exact root_directory
  plain _ _ := rootRecords_plain
  closed := by
    rintro d - r hr hout -
    have hall : ∀ r ∈ rootRecords machine, r.hdr.inode = 2 ∨
        (inodeAt machine.disk machine.ctx r.hdr.inode).iMode &&& 0xF000 ≠ ext2SIfdir := by decide
    exact (hall r hr).resolve_left hout

/-- `"/n"` -/
def pathSlashN : List UInt8 := [47, 110]

/-- There is room for `"n"` behind the last record. -/
theorem n_creatable {recs : UInt32 → List DirRecord} (hrecs : recs 2 = rootRecords machine) :
    Creatable machine.disk machine.ctx {2} recs pathSlashN 2 [110] where
  split := ⟨[], by decide, by decide, .here _⟩
  enters := by
    refine ⟨rfl, fun z hmem => ?_, by decide, by decide, by decide, ?_, ?_,
      [0, 12, 24].map (fileBytes machine handleRoot).record, (fileBytes machine handleRoot).record 36,
      hrecs, .behind ?_ ?_ ?_⟩
    · obtain ⟨r, hr, -, hname, -⟩ := mem_names.1 hmem
      have hall : ∀ r ∈ rootRecords machine, r.name ≠ [110] := by decide
      exact hall r (hrecs ▸ hr) hname
    · rw [root_inode]
      decide
    · rw [hrecs]
      intro r hr _
      have hoff : ∀ r ∈ rootRecords machine, r.off ≤ 36 := List.forall_mem_map.2 (by decide)
      have := hoff r hr
      omega
    · unfold DirRecord.Roomy
      decide
    · decide
    · decide

end SmallVolume

end Embext
