import Embext.Proofs.Lookup
import Embext.Proofs.ErrorCode
import Embext.Proofs.Writing

set_option autoImplicit false

/-! # Opening a file again

A path that leads to an inode, all searches on the way getting as far as they need to, opens that inode
whatever the flags, and a file without holes is read back by requests that do not leave a sector. -/

namespace Embext

variable {h : Host} {m m' : Machine} {fe fe' : FileEnt} {v : UInt32 → Sector} {c c' : Ext2Context}
  {ino : UInt32} {path : List UInt8} {flags : OpenFlags} {mode : Nat}

/-! ## The path of a file -/

/-- The path leads to inode `ino`, and the searches on the way get as far as they need to. -/
structure Leads (v : UInt32 → Sector) (c : Ext2Context) (path : List UInt8) (ino : UInt32) : Prop where
  searched : Searched v c ext2RootIno (pathElements path)
  resolves : Resolves v c ext2RootIno (pathElements path) ino

theorem Directory.sameVolume {recs : List DirRecord} (hd : Directory v c ino recs)
    (hvol : c.SameVolume c') : Directory v c' ino recs := by
  have hlog : c'.superblock.sLogBlockSize = c.superblock.sLogBlockSize := by rw [hvol]
  have hps : c'.partStart = c.partStart := by rw [hvol]
  have hbs : c'.blockSize = c.blockSize := by
    rw [hvol]
    rfl
  have hinode : inodeAt v c' ino = inodeAt v c ino := by
    rw [hvol]
    rfl
  refine ⟨hd.positive, ?_, ?_, ?_, ?_, hd.distinct⟩
  · rw [hvol]
    exact hd.known
  · rw [hinode]
    exact hd.mode
  · intro p hp
    rw [hinode] at hp ⊢
    rw [fileBlock_sysbuf v c _ _ hlog hps, hbs]
    exact hd.noHole p hp
  · unfold inodeBytes
    rw [hinode, fileByte_sysbuf v c _ hlog hps, hbs]
    exact hd.records

theorem Resolves.sameVolume {els : List (List UInt8)} {n : UInt32} (hvol : c.SameVolume c')
    (hres : Resolves v c ino els n) : Resolves v c' ino els n := by
  induction hres with
  | here ino => exact .here ino
  | entry dir mem live _ ih => exact .entry (dir.sameVolume hvol) mem live ih

theorem Searched.sameVolume {els : List (List UInt8)} (hvol : c.SameVolume c')
    (hs : Searched v c ino els) : Searched v c' ino els := by
  have hcount : c'.superblock.sInodesCount = c.superblock.sInodesCount := by rw [hvol]
  induction hs with
  | done ino => exact .done ino
  | directory dir searchable _ ih => exact .directory (dir.sameVolume hvol) searchable ih
  | outside name els out => exact .outside name els (by rw [hcount]; exact out)
  | empty name els positive known size =>
    refine .empty name els positive (by rw [hcount]; exact known) ?_
    rw [hvol]
    exact size

theorem Leads.sameVolume (hl : Leads v c path ino) (hvol : c.SameVolume c') : Leads v c' path ino :=
  ⟨hl.searched.sameVolume hvol, hl.resolves.sameVolume hvol⟩

/-! ## Opening by that path -/

/-- A lookup of the path finds the inode. -/
theorem Leads.lookup (hh : h.Reliable) (hs : m.ctx.Sane) (hpat : 2 ^ 29 ≤ h.patience)
    (hl : Leads m.disk m.ctx path ino) : ∃ m₁ fe₁,
    ext2LookupPath FileEnt.fresh path h m = .ok ((ino, fe₁), m₁) ∧ Browsing m.disk m.ctx m₁ fe₁ := by
  have hb : Browsing m.disk m.ctx m FileEnt.fresh := ⟨rfl, ⟨m.ctx.sysbuf, rfl⟩, rfl, rfl⟩
  obtain ⟨o, m₁, fe₁, hrun, hb₁, hwalked⟩ :=
    lookupElements_searched hh hs hpat hl.searched hb (by decide)
  refine ⟨m₁, fe₁, ?_, hb₁⟩
  unfold ext2LookupPath
  rw [Prog.bind_ok hrun]
  cases hwalked with
  | found res _ =>
    obtain rfl := hl.resolves.unique res
    rfl
  | missing unresolved _ => exact absurd hl.resolves (unresolved ino)

/-- `ext2_open` of the path goes on with the inode it leads to. -/
theorem Leads.ext2Open_eq (hh : h.Reliable) (hs : m.ctx.Sane) (hpat : 2 ^ 29 ≤ h.patience)
    (hl : Leads m.disk m.ctx path ino) (hpos : ino ≠ 0)
    (hknown : ino.toNat ≤ m.ctx.superblock.sInodesCount.toNat) (flags : OpenFlags) (mode : Nat) :
    ∃ m₁ fe₁, ext2Open path flags mode h m = ext2OpenExisting
        { fe₁ with flags := openedFlags fe₁.flags flags } flags mode h m₁ ∧
      Browsing m.disk m.ctx m₁ fe₁ ∧ fe₁.inode = inodeAt m.disk m.ctx ino ∧ fe₁.inodeNumber = ino ∧
      fe₁.cursor = 0 ∧ fe₁.flags = ⟨true, false, false, false⟩ := by
  obtain ⟨m₁, fe₁, hlook, hb₁⟩ := hl.lookup hh hs hpat
  obtain ⟨m₂, fe₂, hopen, hb₂, hfe₂, -⟩ := hb₁.openInode hh hs hpos hknown
  refine ⟨m₂, fe₂, ?_, hb₂, ?_⟩
  · rw [Embext.ext2Open_eq hlook hopen, if_neg fun hboth => absurd hboth.1 (by decide), if_pos rfl]
  · rw [hfe₂]
    exact ⟨rfl, rfl, rfl, rfl⟩

theorem Leads.opened (hh : h.Reliable) (hs : m.ctx.Sane) (hpat : 2 ^ 29 ≤ h.patience)
    (hl : Leads m.disk m.ctx path ino) (hpos : ino ≠ 0)
    (hknown : ino.toNat ≤ m.ctx.superblock.sInodesCount.toNat) (htrunc : flags.trunc = false)
    (hrun : ext2Open path flags mode h m = .ok (some fe, m')) :
    Opened m flags m' fe ∧ fe.inodeNumber = ino := by
  obtain ⟨m₁, fe₁, heq, hb, hinode, hnumber, hcur, hflags⟩ :=
    hl.ext2Open_eq hh hs hpat hpos hknown flags mode
  rw [heq] at hrun
  obtain ⟨rfl, rfl⟩ := of_ext2OpenExisting_kept htrunc hrun
  obtain ⟨s, hctx⟩ := hb.ctx
  refine ⟨⟨hb.disk, ?_, hb.magic, hb.clean, ?_, ?_, hcur, ?_, ?_⟩, hnumber⟩
  · unfold Ext2Context.SameButSysbuf
    rw [hctx]
  · dsimp only
    rw [hflags]
  · exact hinode.trans (congrArg _ hnumber.symm)
  · exact hnumber ▸ hpos
  · exact hnumber ▸ hknown

/-- Opening it for reading succeeds. -/
theorem Leads.opens (hh : h.Reliable) (hs : m.ctx.Sane) (hpat : 2 ^ 29 ≤ h.patience)
    (hl : Leads m.disk m.ctx path ino) (hpos : ino ≠ 0)
    (hknown : ino.toNat ≤ m.ctx.superblock.sInodesCount.toNat) : ∃ fe' m',
    ext2Open path oRdonly mode h m = .ok (some fe', m') ∧ fe'.inodeNumber = ino := by
  obtain ⟨m₁, fe₁, heq, -, -, hnumber, -⟩ := hl.ext2Open_eq hh hs hpat hpos hknown oRdonly mode
  exact ⟨{ fe₁ with flags := openedFlags fe₁.flags oRdonly }, m₁, heq.trans rfl, hnumber⟩

/-! ## Reading all of a file -/

/-- Calls of `ext2_read` for `n` bytes each, up to the one that delivers nothing: the bytes of all
    calls. `none` when a call fails or the last one is not among `k`. -/
def readAll (n : Nat) : Nat → FileEnt → Drv (Option (List UInt8))
  | 0, _ => pure none
  | k + 1, fe => do
    let (r, bytes, fe) ← ext2Read fe n
    if r < 0 then pure none
    else if r = 0 then pure (some [])
    else
      let rest ← readAll n k fe
      pure (rest.map (bytes ++ ·))

theorem FileBytes.slice_append (d : FileBytes) (p a b : Nat) :
    d.slice p a ++ d.slice (p + a) b = d.slice p (a + b) := by
  unfold slice
  rw [List.range_add, List.map_append, List.map_map]
  simp [Function.comp_def, Nat.add_assoc]

/-- Requests of a size that divides a sector read the rest of the file. -/
theorem readAll_slice {n : Nat} (hn : n ∣ 512) (hh : h.Reliable) (k : Nat) :
    ∀ {m : Machine} {fe : FileEnt} {p : Nat}, Readable m fe → fe.cursor = p →
      (n ∣ p ∨ fe.inode.iSize.toNat ≤ p) → fe.inode.iSize.toNat - p < k →
      ∃ m', readAll n k fe h m
        = .ok (some ((fileBytes m fe).slice p (fe.inode.iSize.toNat - p)), m') := by
  have hpos : 0 < n := Nat.pos_of_dvd_of_pos hn (by decide)
  induction k with
  | zero => exact fun _ _ _ hk => absurd hk (Nat.not_lt_zero _)
  | succ k ih =>
    intro m fe p hfe hcur hp hk
    have hsize : (fileBytes m fe).size = fe.inode.iSize.toNat := rfl
    -- a request that starts at a multiple of its size stays in the sector
    have hfetch : (fileBytes m fe).fetch p n
        = .ok ((fileBytes m fe).slice p (min n (fe.inode.iSize.toNat - p))) := by
      unfold FileBytes.fetch
      rw [hsize]
      refine if_pos ?_
      rcases hp with hdvd | hend
      · obtain ⟨a, ha⟩ : n ∣ p % 512 := (Nat.dvd_mod_iff hn).2 hdvd
        obtain ⟨b, hb⟩ := hn
        have hlt : n * a < n * b := by
          rw [← ha, ← hb]
          exact Nat.mod_lt _ (by decide)
        have hle : n * (a + 1) ≤ n * b := Nat.mul_le_mul_left n (Nat.lt_of_mul_lt_mul_left hlt)
        rw [Nat.mul_succ, ← ha, ← hb] at hle
        omega
      · omega
    obtain ⟨m₁, fe₁, hrun, hr, hcur₁, -⟩ := ext2Read_fetch hh hfe hcur hfetch
    rw [FileBytes.length_slice] at hrun hcur₁
    have hsize₁ : fe₁.inode.iSize = fe.inode.iSize := by rw [hr.inode]
    rcases Nat.eq_zero_or_pos (fe.inode.iSize.toNat - p) with hz | hleft
    · refine ⟨m₁, ?_⟩
      rw [hz, Nat.min_zero] at hrun
      rw [readAll, Prog.bind_ok hrun, hz]
      rfl
    obtain ⟨m', hrest⟩ := ih (p := p + min n (fe.inode.iSize.toNat - p)) (hr.readable hfe)
      (by rw [hcur₁]; omega) (by
        rw [hsize₁]
        rcases Nat.le_total n (fe.inode.iSize.toNat - p) with hle | hle
        · rw [Nat.min_eq_left hle]
          exact .inl (Nat.dvd_add (hp.resolve_right (by omega)) (Nat.dvd_refl n))
        · rw [Nat.min_eq_right hle]
          exact .inr (by omega)) (by rw [hsize₁]; omega)
    rw [hr.fileBytes_eq, hsize₁] at hrest
    refine ⟨m', ?_⟩
    rw [readAll, Prog.bind_ok hrun]
    dsimp only
    rw [if_neg (by omega), if_neg (by omega), Prog.bind_ok hrest]
    have hsplit : min n (fe.inode.iSize.toNat - p)
        + (fe.inode.iSize.toNat - (p + min n (fe.inode.iSize.toNat - p)))
          = fe.inode.iSize.toNat - p := by omega
    simp only [Prog.pure_apply, Option.map_some, FileBytes.slice_append, hsplit]

end Embext
