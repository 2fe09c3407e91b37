import Embext.Proofs.Read
import Embext.Proofs.SmallVolume

set_option autoImplicit false

/-! # Seeking

What `ext2_lseek` does, in one equation for every origin it knows, and what a seek is for. The cursor
has 64 bits and the value returned 32, so the two part from 2^31 on. -/

namespace Embext

section

variable {h : Host} {m m' : Machine} {fe fe' : FileEnt} {offset : Int} {whence : Whence}

/-! ## One seek -/

/-- The offset a seek counts from. -/
def Whence.base (fe : FileEnt) : Whence → Option Int
  | .set => some 0
  | .cur => some fe.cursor
  | .end => some fe.inode.iSize.toNat
  | .other => none

/-- The cursor a seek sets. From the end the sum is a `uint32_t`. -/
def Whence.landing (target : Int) : Whence → Int
  | .end => target % 2 ^ 32
  | _ => target

theorem Whence.landing_of_lt {target : Int} (hnonneg : 0 ≤ target) (hlt : target < 2 ^ 32) :
    whence.landing target = target := by
  cases whence with
  | «end» => exact Int.emod_eq_of_lt hnonneg hlt
  | set => rfl
  | cur => rfl
  | other => rfl

theorem Whence.landing_nonneg {target : Int} (hnonneg : 0 ≤ target) : 0 ≤ whence.landing target := by
  cases whence with
  | «end» => exact Int.emod_nonneg _ (by decide)
  | set => exact hnonneg
  | cur => exact hnonneg
  | other => exact hnonneg

/-- A seek that moves nothing. -/
def seekFails (fe : FileEnt) (e : Errno) : Drv (Int × FileEnt) := do
  setErrno e
  pure (-1, fe)

theorem ext2Lseek_badMagic (hmagic : fe.magic ≠ embextMagic) :
    ext2Lseek fe offset whence = seekFails fe .ebadf := by
  unfold ext2Lseek
  exact if_pos hmagic

theorem ext2Lseek_other (hmagic : fe.magic = embextMagic) (hbase : whence.base fe = none) :
    ext2Lseek fe offset whence = seekFails fe .einval := by
  unfold ext2Lseek
  rw [if_neg (not_not.2 hmagic)]
  cases whence with
  | other => rfl
  | set => cases hbase
  | cur => cases hbase
  | «end» => cases hbase

theorem ext2Lseek_eq (hmagic : fe.magic = embextMagic) {base : Int}
    (hbase : whence.base fe = some base) (hoffset : offset ≤ int64Max) :
    ext2Lseek fe offset whence
      = if int64Max < base + offset then seekFails fe .eoverflow
        else if base + offset < 0 then seekFails fe .einval
        else pure (toInt32 (whence.landing (base + offset)),
          { fe with cursor := whence.landing (base + offset) }) := by
  have hover : (int64Max - base < offset) = (int64Max < base + offset) :=
    propext ⟨fun _ => by omega, fun _ => by omega⟩
  have hneg : (offset + base < 0) = (base + offset < 0) := by rw [Int.add_comm]
  unfold ext2Lseek
  rw [if_neg (not_not.2 hmagic)]
  cases whence with
  | set =>
    cases hbase
    rw [Int.zero_add, if_neg (not_lt.2 hoffset)]
    rfl
  | cur =>
    cases hbase
    dsimp only
    simp only [hover, hneg]
    rfl
  | «end» =>
    cases hbase
    dsimp only
    simp only [hover, hneg]
    rfl
  | other => cases hbase

/-- The seek to an offset. -/
theorem ext2Lseek_set (hmagic : fe.magic = embextMagic) {p : Nat} (hp : p < 2 ^ 31) :
    ext2Lseek fe p .set h m = .ok ((p, { fe with cursor := p }), m) := by
  rw [ext2Lseek_eq hmagic rfl (by unfold int64Max; omega), Int.zero_add,
    if_neg (by unfold int64Max; omega), if_neg (by omega),
    Whence.landing_of_lt (Int.natCast_nonneg p) (by omega), toInt32_of_lt hp]
  rfl

/-- The seek from the end of the file. -/
theorem ext2Lseek_end (hmagic : fe.magic = embextMagic) (hle : offset ≤ 0) {p : Nat}
    (hp : (fe.inode.iSize.toNat : Int) + offset = p) :
    ext2Lseek fe offset .end h m = .ok ((toInt32 p, { fe with cursor := p }), m) := by
  have hsize := fe.inode.iSize.toNat_lt
  rw [ext2Lseek_eq hmagic rfl (by unfold int64Max; omega), hp, if_neg (by unfold int64Max; omega),
    if_neg (by omega), Whence.landing_of_lt (Int.natCast_nonneg p) (by omega)]
  rfl

/-! ## What a seek is for -/

/-- Where a seek should go, or why it should fail: the new cursor is a non-negative offset that the
    return type can name. -/
def seekTarget (fe : FileEnt) (offset : Int) (whence : Whence) : Except Errno Int :=
  if fe.magic ≠ embextMagic then .error .ebadf
  else
    match whence.base fe with
    | none => .error .einval
    | some base =>
      if base + offset < 0 then .error .einval
      else if 2 ^ 31 ≤ base + offset then .error .eoverflow
      else .ok (base + offset)

/-- A failed seek sets `*rerrno` and keeps the cursor, any other returns the cursor it sets. -/
def lseekSpec (fe : FileEnt) (offset : Int) (whence : Whence) : Drv (Int × FileEnt) :=
  match seekTarget fe offset whence with
  | .error e => seekFails fe e
  | .ok c => pure (c, { fe with cursor := c })

/-- The target fits the return type, or is beyond every cursor. -/
def SeekFits (fe : FileEnt) (offset : Int) (whence : Whence) : Prop :=
  fe.magic = embextMagic → ∀ base, whence.base fe = some base →
    base + offset < 2 ^ 31 ∨ int64Max < base + offset

theorem ext2Lseek_eq_spec (hoffset : offset < 2 ^ 31) (hfits : SeekFits fe offset whence) :
    ext2Lseek fe offset whence = lseekSpec fe offset whence := by
  unfold lseekSpec seekTarget
  by_cases hmagic : fe.magic = embextMagic
  · rw [if_neg (not_not.2 hmagic)]
    cases hbase : whence.base fe with
    | none => exact ext2Lseek_other hmagic hbase
    | some base =>
      dsimp only
      rw [ext2Lseek_eq hmagic hbase (by unfold int64Max; omega)]
      rcases hfits hmagic base hbase with hlt | hover
      · rw [if_neg (by unfold int64Max; omega)]
        by_cases hneg : base + offset < 0
        · rw [if_pos hneg, if_pos hneg]
        · obtain ⟨c, hc⟩ := Int.eq_ofNat_of_zero_le (Int.not_lt.1 hneg)
          rw [if_neg hneg, if_neg hneg, if_neg (by omega), Whence.landing_of_lt (by omega) (by omega),
            hc, toInt32_of_lt (by omega)]
      · have hbig : 2 ^ 31 ≤ base + offset := by
          unfold int64Max at hover
          omega
        rw [if_pos hover, if_neg (by omega), if_pos hbig]
  · rw [if_pos hmagic]
    exact ext2Lseek_badMagic hmagic

/-- A target between the two limits is not reported: the cursor moves and `*rerrno` stays. -/
theorem ext2Lseek_ne_spec (hoffset : offset < 2 ^ 31) (hmagic : fe.magic = embextMagic) {base : Int}
    (hbase : whence.base fe = some base) (hbig : 2 ^ 31 ≤ base + offset)
    (hle : base + offset ≤ int64Max) :
    ext2Lseek fe offset whence h { m with rerrno := .enotty }
      ≠ lseekSpec fe offset whence h { m with rerrno := .enotty } := by
  have hmoved : ext2Lseek fe offset whence h { m with rerrno := .enotty }
      = .ok ((toInt32 (whence.landing (base + offset)),
          { fe with cursor := whence.landing (base + offset) }), { m with rerrno := .enotty }) := by
    rw [ext2Lseek_eq hmagic hbase (by unfold int64Max; omega), if_neg (not_lt.2 hle),
      if_neg (by omega)]
    rfl
  have hspec : lseekSpec fe offset whence h { m with rerrno := .enotty }
      = .ok ((-1, fe), { m with rerrno := .eoverflow }) := by
    unfold lseekSpec seekTarget
    rw [if_neg (not_not.2 hmagic), hbase]
    dsimp only
    rw [if_neg (by omega), if_pos hbig]
    rfl
  intro hsame
  rw [hmoved, hspec] at hsame
  have herrno : Errno.enotty = Errno.eoverflow :=
    congrArg Machine.rerrno (Prod.mk.inj (Except.ok.inj hsame)).2
  cases herrno

/-! ## Runs of seeks -/

/-- Seeks on one handle, one after the other. -/
def lseekRun (fe : FileEnt) : List (Int × Whence) → Drv FileEnt
  | [] => pure fe
  | (offset, whence) :: seeks => do
    let (_, fe) ← ext2Lseek fe offset whence
    lseekRun fe seeks

theorem ext2Lseek_nonneg (m : Machine) (whence : Whence) (hcur : 0 ≤ fe.cursor)
    (hoffset : offset < 2 ^ 31) : ∃ r fe' m',
    ext2Lseek fe offset whence h m = .ok ((r, fe'), m') ∧ 0 ≤ fe'.cursor := by
  by_cases hmagic : fe.magic = embextMagic
  · cases hbase : whence.base fe with
    | none =>
      rw [ext2Lseek_other hmagic hbase]
      exact ⟨-1, fe, _, rfl, hcur⟩
    | some base =>
      rw [ext2Lseek_eq hmagic hbase (by unfold int64Max; omega), Prog.ite_apply]
      split
      · exact ⟨-1, fe, _, rfl, hcur⟩
      · rw [Prog.ite_apply]
        split
        · exact ⟨-1, fe, _, rfl, hcur⟩
        · rename_i hneg
          exact ⟨_, _, _, rfl, Whence.landing_nonneg (Int.not_lt.1 hneg)⟩
  · rw [ext2Lseek_badMagic hmagic]
    exact ⟨-1, fe, _, rfl, hcur⟩

theorem lseekRun_nonneg {seeks : List (Int × Whence)} (hseeks : ∀ s ∈ seeks, s.1 < 2 ^ 31) :
    ∀ {fe : FileEnt} {m : Machine}, 0 ≤ fe.cursor →
      ∃ fe' m', lseekRun fe seeks h m = .ok (fe', m') ∧ 0 ≤ fe'.cursor := by
  induction seeks with
  | nil => exact fun {fe m} hcur => ⟨fe, m, rfl, hcur⟩
  | cons s seeks ih =>
    intro fe m hcur
    obtain ⟨r, fe₁, m₁, hrun, hcur₁⟩ := ext2Lseek_nonneg (h := h) m s.2 hcur
      (hseeks s List.mem_cons_self)
    obtain ⟨fe', m', hrest, hcur'⟩ := ih (fun s hs => hseeks s (List.mem_cons_of_mem _ hs)) hcur₁
      (m := m₁)
    refine ⟨fe', m', ?_, hcur'⟩
    rw [lseekRun, Prog.bind_ok hrun]
    exact hrest

/-- A seek does what it is for exactly when its target fits, and no run of seeks makes the cursor
    negative. -/
theorem ext2Lseek_contract_iff (h : Host) (m : Machine) {fe : FileEnt} (hcur : 0 ≤ fe.cursor)
    {offset : Int} (hoffset : offset < 2 ^ 31) (whence : Whence) :
    ((∀ e, ext2Lseek fe offset whence h { m with rerrno := e }
        = lseekSpec fe offset whence h { m with rerrno := e }) ↔ SeekFits fe offset whence) ∧
      ∀ seeks : List (Int × Whence), (∀ s ∈ seeks, s.1 < 2 ^ 31) →
        ∃ fe' m', lseekRun fe seeks h m = .ok (fe', m') ∧ 0 ≤ fe'.cursor := by
  refine ⟨⟨fun heq hmagic base hbase => ?_, fun hfits e => by rw [ext2Lseek_eq_spec hoffset hfits]⟩,
    fun seeks hseeks => lseekRun_nonneg hseeks hcur⟩
  by_contra hbad
  obtain ⟨hbig, hle⟩ := not_or.1 hbad
  exact ext2Lseek_ne_spec hoffset hmagic hbase (not_lt.1 hbig) (not_lt.1 hle) (heq .enotty)

end

namespace SmallVolume

/-- An open file of 2^32 - 1 bytes. -/
def handleHuge : FileEnt := { FileEnt.fresh with inode := { fInode with iSize := 0xFFFFFFFF } }

/-- The seek to the end of the huge file returns -1, with the cursor moved and `*rerrno` not set. -/
theorem ext2Lseek_contract_fails : ¬ ∀ (h : Host) (m : Machine) (fe : FileEnt) (offset : Int)
    (whence : Whence), 0 ≤ fe.cursor → -2 ^ 31 ≤ offset → offset < 2 ^ 31 →
      ∀ e, ext2Lseek fe offset whence h { m with rerrno := e }
        = lseekSpec fe offset whence h { m with rerrno := e } := by
  intro hclaim
  have hbase : Whence.base handleHuge .end = some 0xFFFFFFFF := rfl
  exact ext2Lseek_ne_spec (by decide) rfl hbase (by decide) (by decide)
    (hclaim host machine handleHuge 0 .end (by decide) (by decide) (by decide) .enotty)

theorem ext2Lseek_contract_fresh :
    ((∀ e, ext2Lseek FileEnt.fresh 5 .set host { machine with rerrno := e }
        = lseekSpec FileEnt.fresh 5 .set host { machine with rerrno := e }) ↔
      SeekFits FileEnt.fresh 5 .set) ∧
      ∀ seeks : List (Int × Whence), (∀ s ∈ seeks, s.1 < 2 ^ 31) →
        ∃ fe' m', lseekRun FileEnt.fresh seeks host machine = .ok (fe', m') ∧ 0 ≤ fe'.cursor :=
  ext2Lseek_contract_iff host machine (by decide) (by decide) .set

end SmallVolume

end Embext
