import Embext.Implementation.TestEmbext
import Embext.Proofs.Hash
import Embext.Proofs.IsolatedCalls

set_option autoImplicit false

/-! # The read pass of the test program

The pass reads the whole file, in pieces of half a sector, whatever its size: it is the comparison of
the MD5 sum of what is on the volume with the recorded one. -/

namespace Embext

variable {h : Host} {m m' : Machine} {fe : FileEnt} {ino : UInt32}

/-- Closing the handle leaves the volume as it was, up to the access time of the file. -/
theorem close_readOnly {m₁ : Machine} {fe fe' : FileEnt} (hh : h.Reliable) (hs : m₁.ctx.Sane)
    (hfe : fe.magic = embextMagic) (hclean : fe.buffer.dirty = false)
    (hino : IsInode m₁.ctx fe.inodeNumber) (hr : Reading m₁ fe m fe') : ∃ r m',
    ext2Close fe' h m = .ok (r, m') ∧ ∃ t, m'.disk = m₁.disk ∨
      m'.disk = putInode m₁.disk m₁.ctx fe.inodeNumber { fe.inode with iAtime := t } := by
  have hmagic := hr.magic.trans hfe
  have hclean' := hr.clean hclean
  have hview : view m fe' = m₁.disk := by
    rw [hr.view, view, if_neg (by rw [hclean]; decide)]
  have hdisk : m.disk = m₁.disk := by
    rw [← hview, view, if_neg (by rw [hclean']; decide)]
  by_cases hdirty : fe'.flags.fsDirty = true
  · obtain ⟨m', fe₂, hrun, -, hput⟩ := ext2Close_ok hh (by rw [hr.ctx]; exact hs.slotted) hmagic
      hdirty (by rw [hr.ctx, hr.number]; exact hs.covered _ hino.1 hino.2)
    refine ⟨(0, fe₂), m', hrun, fe'.inode.iAtime, .inr ?_⟩
    rw [hput, hview, hr.ctx, hr.number, hr.inode]
  · exact ⟨_, m, ext2Close_stored hmagic hclean' (by simpa using hdirty), 0, .inl hdisk⟩

namespace TestEmbext

open Hash

variable {path : List UInt8} {s : Copied}

/-- The sum is that of the bytes in the dump. -/
def Copied.Sums (s : Copied) : Prop := Represents s.hashContext s.dump

theorem Copied.Sums.take {buffer : List UInt8} (hs : s.Sums) (hlen : buffer.length ≤ 256) : ∃ s',
    s.take buffer h m = .ok (s', m) ∧ s'.dump = s.dump ++ buffer ∧ s'.Sums := by
  have hsize : (UInt64.ofNat buffer.length).toNat = buffer.length :=
    UInt64.toNat_ofNat_of_lt' (by show _ < 2 ^ 64; omega)
  obtain ⟨context, hrun, hrep⟩ := md5Update_represents hs (fun i => buffer.getD i 0)
    (n := UInt64.ofNat buffer.length) (by omega)
  rw [bytesAt_list (by omega)] at hrep
  refine ⟨⟨context, s.dump ++ buffer⟩, ?_, rfl, hrep⟩
  unfold Copied.take
  rw [hrun]
  rfl

/-- From a multiple of 256 the loop takes in the rest of the file. -/
theorem readLoop_rest (hh : h.Reliable) (k : Nat) :
    ∀ {m : Machine} {fe : FileEnt} {p : Nat} {s : Copied}, Readable m fe → fe.cursor = p → 256 ∣ p →
    p ≤ fe.inode.iSize.toNat → fe.inode.iSize.toNat - p < 256 * k → s.Sums → ∃ s' fe' m',
    readLoop k s fe h m = .ok ((s', fe'), m') ∧ Reading m fe m' fe' ∧ s'.Sums ∧
      s'.dump = s.dump ++ (fileBytes m fe).slice p (fe.inode.iSize.toNat - p) := by
  induction k with
  | zero => exact fun _ _ _ _ hk => absurd hk (Nat.not_lt_zero _)
  | succ k ih =>
    intro m fe p s hfe hcur hdvd hle hk hs
    obtain ⟨size, hsize⟩ : ∃ size, size = fe.inode.iSize.toNat := ⟨_, rfl⟩
    rw [← hsize] at hle hk ⊢
    have hfetch : (fileBytes m fe).fetch p bufferSize
        = .ok ((fileBytes m fe).slice p (min bufferSize (size - p))) := by
      have hbytes : (fileBytes m fe).size = size := hsize.symm
      unfold FileBytes.fetch
      rw [hbytes]
      refine if_pos ?_
      unfold bufferSize
      omega
    obtain ⟨m₁, fe₁, hread, hr, hcur₁, -⟩ := ext2Read_fetch hh hfe hcur hfetch
    rw [FileBytes.length_slice] at hread hcur₁
    have hsize₁ : fe₁.inode.iSize = fe.inode.iSize := by rw [hr.inode]
    obtain ⟨s₁, htake, hdump, hs₁⟩ : ∃ s₁,
        s.take ((fileBytes m fe).slice p (min bufferSize (size - p))) h m₁ = .ok (s₁, m₁) ∧
          s₁.dump = s.dump ++ (fileBytes m fe).slice p (min bufferSize (size - p)) ∧ s₁.Sums := by
      refine hs.take ?_
      rw [FileBytes.length_slice]
      exact Nat.min_le_left ..
    unfold readLoop
    rw [Prog.bind_ok hread]
    dsimp only
    rcases Nat.lt_or_ge (size - p) bufferSize with hshort | hfull
    · -- the last read
      rw [Nat.min_eq_right hshort.le] at htake hdump ⊢
      rw [if_neg (by omega)]
      rcases Nat.eq_zero_or_pos (size - p) with hzero | hpos
      · rw [if_neg (by omega)]
        refine ⟨s, fe₁, m₁, rfl, hr, hs, ?_⟩
        rw [hzero]
        exact (List.append_nil _).symm
      · rw [if_pos (by omega), Prog.bind_ok htake]
        exact ⟨s₁, fe₁, m₁, rfl, hr, hs₁, hdump⟩
    · rw [Nat.min_eq_left hfull] at htake hdump hcur₁ ⊢
      rw [if_pos rfl, Prog.bind_ok htake]
      obtain ⟨s', fe', m', hloop, hr', hs', hdump'⟩ := ih (p := p + bufferSize) (hr.readable hfe) hcur₁
        (Nat.dvd_add hdvd (Nat.dvd_refl _)) (by rw [hsize₁, ← hsize]; omega)
        (by rw [hsize₁, ← hsize]; unfold bufferSize at *; omega) hs₁
      refine ⟨s', fe', m', hloop, hr.trans hr', hs', ?_⟩
      have hrest : bufferSize + (size - (p + bufferSize)) = size - p := by omega
      rw [hdump', hdump, hr.fileBytes_eq, hsize₁, ← hsize, List.append_assoc, FileBytes.slice_append,
        hrest]

/-- **The read pass.** For every file without holes the pass compares the MD5 sum of its bytes with
    the recorded sum, and they are what it has put in the dump; of the volume at most the file's access
    time is different then. -/
theorem readBinaryFile_compares (hh : h.Reliable) (hs : m.ctx.Sane) (hpat : 2 ^ 29 ≤ h.patience)
    (hl : Leads m.disk m.ctx path ino) (hino : IsInode m.ctx ino)
    (hhole : NoHole m.disk m.ctx (inodeAt m.disk m.ctx ino)) (hashContext : MdContext)
    {fhash : List UInt8} (hfhash : 16 ≤ fhash.length) : ∃ m',
    readBinaryFile hashContext path (some fhash) h m = .ok (.compared (decide (List.ofFn (Md5.digest
        (inodeBytes m.disk m.ctx (inodeAt m.disk m.ctx ino)).toList) = fhash.take 16))
      (inodeBytes m.disk m.ctx (inodeAt m.disk m.ctx ino)).toList, m') ∧
    ∃ t, m'.disk = m.disk ∨
      m'.disk = putInode m.disk m.ctx ino { inodeAt m.disk m.ctx ino with iAtime := t } := by
  obtain ⟨fe, m₁, hopen, -⟩ : ∃ fe m₁, ext2Open path oRdonly 0o777 h m = .ok (some fe, m₁) ∧ _ :=
    hl.opens hh hs hpat hino.1 hino.2
  obtain ⟨ho, hnumber⟩ := hl.opened hh hs hpat hino.1 hino.2 rfl hopen
  have hinode : fe.inode = inodeAt m.disk m.ctx ino := by rw [ho.inode, hnumber]
  have hsize := fe.inode.iSize.toNat_lt
  obtain ⟨s, fe', m₂, hloop, hr, hsums, hdump⟩ := readLoop_rest hh h.patience (p := 0)
    (s := ⟨md5Start hashContext, []⟩) (ho.readable hs.block (by rw [hnumber]; exact hhole)) ho.cursor
    (Nat.dvd_zero _) (Nat.zero_le _) (by omega) (md5Start_represents hashContext)
  have hcontents : s.dump = (inodeBytes m.disk m.ctx (inodeAt m.disk m.ctx ino)).toList := by
    rw [hdump, List.nil_append, Nat.sub_zero, ho.fileBytes_eq, ← ho.inode, hinode]
    rfl
  have hsane : m₁.ctx.Sane := hs.of_sameVolume ho.ctx.sameVolume
  have hinRange : IsInode m₁.ctx fe.inodeNumber := by
    rw [ho.ctx, hnumber]
    exact hino
  obtain ⟨r, m', hclose, t, hdisk⟩ := close_readOnly hh hsane ho.magic ho.clean hinRange hr
  obtain ⟨context, hfinish, hdigest⟩ := md5Finish_digest hsums
  refine ⟨m', ?_, t, ?_⟩
  · have hlen : ¬ (fhash.take 16).length ≠ 16 := by
      rw [List.length_take, Nat.min_eq_left hfhash]
      exact not_not.2 rfl
    unfold readBinaryFile
    rw [Prog.bind_ok hopen]
    dsimp only
    rw [Prog.bind_ok (patience_apply h m₁), Prog.bind_ok hloop]
    dsimp only
    rw [Prog.bind_ok hclose, hfinish]
    dsimp only
    rw [compareHash, if_neg hlen, hdigest, hcontents]
    rfl
  · have hput : putInode m₁.disk m₁.ctx fe.inodeNumber { fe.inode with iAtime := t }
        = putInode m.disk m.ctx ino { inodeAt m.disk m.ctx ino with iAtime := t } := by
      rw [ho.disk, ho.ctx, hnumber, hinode]
      rfl
    rw [hput, ho.disk] at hdisk
    exact hdisk

end TestEmbext

namespace SmallVolume

set_option maxRecDepth 4000

open TestEmbext

/-- The bytes of `f`. -/
def fBytes : List UInt8 :=
  (inodeBytes machine.disk machine.ctx (inodeAt machine.disk machine.ctx 11)).toList

theorem readBinaryFile_compares_f : ∃ m',
    readBinaryFile ⟨fun _ => 0, fun _ => 0, 0, fun _ => 0⟩ pathF (some (List.ofFn (Md5.digest fBytes)))
      patientHost machine = .ok (.compared true fBytes, m') ∧ fBytes.length = 1000 := by
  have hhole : NoHole machine.disk machine.ctx (inodeAt machine.disk machine.ctx 11) := by
    intro p hp
    have hbs : machine.ctx.blockSize = 1024 := by decide
    have hsize : (inodeAt machine.disk machine.ctx 11).iSize.toNat = 1000 := by decide
    rw [fileBlock_single f_blocks, hbs, if_pos (by omega)]
    decide
  obtain ⟨m', hrun, -⟩ := readBinaryFile_compares (h := patientHost) (fun _ => rfl) machine_ctx_sane
    (Nat.le_refl _) (root_leads_f machine_hasRoot) ⟨by decide, by decide⟩ hhole
    ⟨fun _ => 0, fun _ => 0, 0, fun _ => 0⟩ (Nat.le_of_eq (List.length_ofFn (f := Md5.digest fBytes)).symm)
  refine ⟨m', ?_, ?_⟩
  · have htake : (List.ofFn (Md5.digest fBytes)).take 16 = List.ofFn (Md5.digest fBytes) :=
      List.take_of_length_le (by rw [List.length_ofFn])
    have hbytes : (inodeBytes machine.disk machine.ctx (inodeAt machine.disk machine.ctx 11)).toList
        = fBytes := rfl
    rw [htake, hbytes, decide_eq_true rfl] at hrun
    exact hrun
  · rw [fBytes, FileBytes.length_toList]
    decide

end SmallVolume

end Embext
