import Embext.Proofs.SmallVolume
import Mathlib.Tactic.Ring
import Mathlib.Tactic.NormNum

set_option autoImplicit false

/-! # The block map

The ext2 tree of an inode, stated in its own terms: file block `k` is the pointer reached from slot
`slot` of `i_block` along a path of table entries, and a zero anywhere on the way is a hole.
`ext2_block_from_offset` follows the same path; it agrees with the tree wherever the path meets no
hole. -/

namespace Embext

/-! ## The tree -/

/-- A pointer of an inode: a slot of `i_block` and the entries taken in the tables below it. -/
structure PtrPos where
  slot : Fin 15
  path : List Nat
  deriving DecidableEq

/-- The position of the pointer to file block `k`, with `ie` entries in a table. -/
def filePos (ie k : Nat) : Option PtrPos :=
  if k < 12 then some ⟨Fin.ofNat 15 k, []⟩
  else
    let k := k - 12
    if k < ie then some ⟨12, [k]⟩
    else
      let k := k - ie
      if k < ie * ie then some ⟨13, [k / ie, k % ie]⟩
      else
        let k := k - ie * ie
        if k < ie * ie * ie then some ⟨14, [k / (ie * ie), k / ie % ie, k % ie]⟩
        else none

/-- The pointer at the end of a path, a zero pointer anywhere making it zero. -/
def followTree (v : UInt32 → Sector) (ctx : Ext2Context) (b : UInt32) : List Nat → UInt32
  | [] => b
  | i :: rest => if b = 0 then 0 else followTree v ctx (pointerAt v ctx b i) rest

/-- The pointer the inode's tree holds at a position. -/
def treePtr (v : UInt32 → Sector) (ctx : Ext2Context) (inode : Inode) (p : PtrPos) : UInt32 :=
  followTree v ctx (inode.iBlock p.slot) p.path

/-- The disk block of file block `k`; 0 is a hole, and so is every `k` past the largest mappable
    one. -/
def fileBlock (v : UInt32 → Sector) (ctx : Ext2Context) (inode : Inode) (k : Nat) : UInt32 :=
  match filePos (ctx.blockSize / 4) k with
  | some p => treePtr v ctx inode p
  | none => 0

@[simp]
theorem followTree_zero (v : UInt32 → Sector) (ctx : Ext2Context) (path : List Nat) :
    followTree v ctx 0 path = 0 := by
  cases path with
  | nil => rfl
  | cons i rest => exact if_pos rfl

/-- A file without pointer tables has the twelve blocks of its inode. -/
theorem fileBlock_direct {v : UInt32 → Sector} {ctx : Ext2Context} {inode : Inode}
    (h12 : inode.iBlock 12 = 0) (h13 : inode.iBlock 13 = 0) (h14 : inode.iBlock 14 = 0) (k : Nat) :
    fileBlock v ctx inode k = if k < 12 then inode.iBlock (Fin.ofNat 15 k) else 0 := by
  unfold fileBlock filePos
  by_cases hk : k < 12
  · simp only [if_pos hk]
    rfl
  simp only [if_neg hk]
  split
  · next p hp =>
    split_ifs at hp <;> cases hp <;> simp [treePtr, h12, h13, h14]
  · rfl

/-- Byte `p` of the file. -/
def fileByte (v : UInt32 → Sector) (ctx : Ext2Context) (inode : Inode) (p : Nat) : UInt8 :=
  blockByte v ctx (fileBlock v ctx inode (p / ctx.blockSize)) (p % ctx.blockSize)

/-- The tree depends on the context through the places of blocks alone. -/
theorem followTree_congr {v : UInt32 → Sector} {c c' : Ext2Context}
    (hptr : ∀ b i, pointerAt v c' b i = pointerAt v c b i) (path : List Nat) :
    ∀ b, followTree v c' b path = followTree v c b path := by
  induction path with
  | nil => exact fun b => rfl
  | cons i rest ih =>
    intro b
    simp only [followTree, hptr, ih]

/-- Two contexts of one volume see one map. -/
theorem fileBlock_sysbuf (v : UInt32 → Sector) (c : Ext2Context) (inode : Inode) (k : Nat)
    {c' : Ext2Context} (hlog : c'.superblock.sLogBlockSize = c.superblock.sLogBlockSize)
    (hps : c'.partStart = c.partStart) : fileBlock v c' inode k = fileBlock v c inode k := by
  have hbs : c'.blockSize = c.blockSize := by
    unfold Ext2Context.blockSize
    rw [hlog]
  have hptr : ∀ b i, pointerAt v c' b i = pointerAt v c b i := by
    intro b i
    unfold pointerAt blockByte blockSector
    rw [hbs, hps]
  unfold fileBlock treePtr
  simp only [hbs, followTree_congr hptr]

/-- The blocks of a file by the numbers in its inode. -/
theorem fileBlock_iBlock {v : UInt32 → Sector} {c : Ext2Context} {inode inode' : Inode}
    (hmap : inode'.iBlock = inode.iBlock) (k : Nat) :
    fileBlock v c inode' k = fileBlock v c inode k := by
  unfold fileBlock treePtr
  rw [hmap]

theorem fileByte_sysbuf (v : UInt32 → Sector) (c : Ext2Context) (inode : Inode)
    {c' : Ext2Context} (hlog : c'.superblock.sLogBlockSize = c.superblock.sLogBlockSize)
    (hps : c'.partStart = c.partStart) : fileByte v c' inode = fileByte v c inode := by
  have hbs : c'.blockSize = c.blockSize := by
    unfold Ext2Context.blockSize
    rw [hlog]
  funext p
  unfold fileByte blockByte blockSector
  rw [fileBlock_sysbuf v c inode _ hlog hps, hbs, hps]

/-! ## What the code follows -/

/-- The path `ext2_block_from_offset` takes: `filePos` with the products cut to 32 bits. -/
def codePos (ie k : Nat) : Option PtrPos :=
  if k < 12 then some ⟨Fin.ofNat 15 k, []⟩
  else
    let k := k - 12
    if k < ie then some ⟨12, [k]⟩
    else
      let k := k - ie
      if k < ie * ie % 2 ^ 32 then some ⟨13, [k / ie, k % ie]⟩
      else
        let k := k - ie * ie % 2 ^ 32
        if k < ie * ie * ie % 2 ^ 32 then
          some ⟨14, [k / (ie * ie % 2 ^ 32), k / ie % ie, k % ie]⟩
        else none

/-- The pointer at the end of a path when zero pointers are followed like any other. -/
def followRaw (v : UInt32 → Sector) (ctx : Ext2Context) (b : UInt32) : List Nat → UInt32
  | [] => b
  | i :: rest => followRaw v ctx (pointerAt v ctx b i) rest

/-- What `ext2_block_from_offset` returns for file block `k`. -/
def codeBlock (v : UInt32 → Sector) (ctx : Ext2Context) (inode : Inode) (k : Nat) : UInt32 :=
  match codePos (ctx.blockSize / 4) k with
  | some p => followRaw v ctx (inode.iBlock p.slot) p.path
  | none => 0xFFFFFFFF

theorem followRaw_eq_followTree {v : UInt32 → Sector} {ctx : Ext2Context} {path : List Nat} :
    ∀ {b : UInt32}, followTree v ctx b path ≠ 0 → followRaw v ctx b path = followTree v ctx b path := by
  induction path with
  | nil => intro b _; rfl
  | cons i rest ih =>
    intro b hb
    simp only [followTree] at hb ⊢
    split at hb
    · exact absurd rfl hb
    · next hne => rw [if_neg hne]; exact ih hb

/-- The wrapped products make no difference to an offset that fits 32 bits. -/
theorem codePos_eq_filePos {bs : Nat} (k s : Nat) (hbs : bs = 1024 * 2 ^ s) (hk : k * bs < 2 ^ 32) :
    codePos (bs / 4) k = filePos (bs / 4) k := by
  subst hbs
  have hpow : (0 : Nat) < 2 ^ s := Nat.two_pow_pos s
  have hie : 1024 * 2 ^ s / 4 = 256 * 2 ^ s := by omega
  rw [hie]
  have hk' : k * 2 ^ s < 2 ^ 22 := by
    have : k * (1024 * 2 ^ s) = k * 2 ^ s * 1024 := by ring
    omega
  have hkle : k < 2 ^ 22 := lt_of_le_of_lt (Nat.le_mul_of_pos_right k hpow) hk'
  unfold codePos filePos
  -- up to `s = 7` the double product fits; beyond, file block `k` is below the double range
  by_cases hs : s ≤ 7
  · have hle : 2 ^ s ≤ 2 ^ 7 := Nat.pow_le_pow_right (by omega) hs
    have hsq : 256 * 2 ^ s * (256 * 2 ^ s) < 2 ^ 32 := by
      calc 256 * 2 ^ s * (256 * 2 ^ s) ≤ 256 * 2 ^ 7 * (256 * 2 ^ 7) :=
            Nat.mul_le_mul (by omega) (by omega)
        _ < 2 ^ 32 := by norm_num
    rw [Nat.mod_eq_of_lt hsq]
    -- the triple range starts past `2 ^ 22` unless the triple product fits as well
    by_cases hs2 : s ≤ 2
    · have hcu : 256 * 2 ^ s * (256 * 2 ^ s) * (256 * 2 ^ s) < 2 ^ 32 := by
        have hle2 : 2 ^ s ≤ 2 ^ 2 := Nat.pow_le_pow_right (by omega) hs2
        calc 256 * 2 ^ s * (256 * 2 ^ s) * (256 * 2 ^ s)
            ≤ 256 * 2 ^ 2 * (256 * 2 ^ 2) * (256 * 2 ^ 2) :=
              Nat.mul_le_mul (Nat.mul_le_mul (by omega) (by omega)) (by omega)
          _ < 2 ^ 32 := by norm_num
      rw [Nat.mod_eq_of_lt hcu]
    · have hge : 2 ^ 3 ≤ 2 ^ s := Nat.pow_le_pow_right (by omega) (by omega)
      have hbig : 2 ^ 22 ≤ 256 * 2 ^ s * (256 * 2 ^ s) := by
        calc 2 ^ 22 = 256 * 2 ^ 3 * (256 * 2 ^ 3) := by norm_num
          _ ≤ 256 * 2 ^ s * (256 * 2 ^ s) := Nat.mul_le_mul (by omega) (by omega)
      have hin : k - 12 - 256 * 2 ^ s < 256 * 2 ^ s * (256 * 2 ^ s) := by omega
      simp only [hin, if_true]
  · have hge : 2 ^ 8 ≤ 2 ^ s := Nat.pow_le_pow_right (by omega) (by omega)
    have hsmall : k < 2 ^ 14 := by
      by_contra hcon
      have : 2 ^ 14 * 2 ^ 8 ≤ k * 2 ^ s := Nat.mul_le_mul (by omega) hge
      omega
    have hin : k - 12 < 256 * 2 ^ s := by omega
    simp only [hin, if_true]

/-- Where the tree has no hole, the code finds the tree's block. -/
theorem codeBlock_eq_fileBlock {v : UInt32 → Sector} {ctx : Ext2Context} {inode : Inode} {k : Nat}
    (hk : k * ctx.blockSize < 2 ^ 32) (hmap : fileBlock v ctx inode k ≠ 0) :
    codeBlock v ctx inode k = fileBlock v ctx inode k := by
  unfold codeBlock fileBlock at *
  rw [codePos_eq_filePos k ctx.superblock.sLogBlockSize.toNat (show ctx.blockSize = _ from rfl) hk]
  cases hp : filePos (ctx.blockSize / 4) k with
  | none => simp [hp] at hmap
  | some p =>
    simp only [hp] at hmap ⊢
    exact followRaw_eq_followTree hmap

/-! ## Running the code -/

variable {h : Host} {m : Machine}

/-- `ext2_block_from_offset` returns the block of its path and keeps the view. -/
theorem ext2BlockFromOffset_ok (fe : FileEnt) (hh : h.Reliable) (hs : m.ctx.SaneBlockSize) (offset : Nat) :
    ∃ m' fe', ext2BlockFromOffset fe offset h m = .ok
      ((codeBlock (view m fe) m.ctx fe.inode (offset / m.ctx.blockSize % 2 ^ 32), fe'), m')
      ∧ Loads m fe m' fe' := by
  have hbs := blockSize_ge m.ctx
  have hle := blockSize_le hs
  generalize hk : offset / m.ctx.blockSize % 2 ^ 32 = k
  generalize hie : m.ctx.blockSize / 4 = ie
  have hie0 : 0 < ie := by omega
  have hieb : ie * 4 ≤ 2 ^ 30 := by omega
  have hie4 : ie = 4 * (64 * 2 ^ m.ctx.superblock.sLogBlockSize.toNat) := by
    rw [← hie, Ext2Context.blockSize]; omega
  -- a table entry below `ie` lies below 2 ^ 32 bytes
  have hent : ∀ i, i < ie → i * 4 < 2 ^ 32 := fun i hi => by omega
  have hmod : ∀ x, x % ie < ie := fun x => Nat.mod_lt _ hie0
  unfold ext2BlockFromOffset codeBlock codePos
  simp only [Prog.bind_apply, ext2BlockSize_ok hs, hk, hie]
  by_cases h0 : k < 12
  · simp only [if_pos h0]
    exact ⟨m, fe, rfl, Loads.refl m fe⟩
  simp only [if_neg h0]
  by_cases h1 : k - 12 < ie
  · simp only [if_pos h1]
    exact ext2ReadPointer_ok fe hh hs _ (hent _ h1)
  simp only [if_neg h1]
  by_cases h2 : k - 12 - ie < ie * ie % 2 ^ 32
  · simp only [if_pos h2]
    have hdiv : (k - 12 - ie) / ie < ie :=
      Nat.div_lt_of_lt_mul (lt_of_lt_of_le h2 (Nat.mod_le _ _))
    obtain ⟨m₁, fe₁, hr₁, hl₁⟩ := ext2ReadPointer_ok fe hh hs (fe.inode.iBlock 13)
      (hent _ hdiv)
    have hs₁ : m₁.ctx.SaneBlockSize := by rw [hl₁.ctx_eq]; exact hs
    obtain ⟨m₂, fe₂, hr₂, hl₂⟩ := ext2ReadPointer_ok fe₁ hh hs₁
      (pointerAt (view m fe) m.ctx (fe.inode.iBlock 13) ((k - 12 - ie) / ie))
      (hent _ (hmod (k - 12 - ie)))
    refine ⟨m₂, fe₂, ?_, hl₁.trans hl₂⟩
    simp only [Prog.bind_apply, hr₁, hr₂, hl₁.view_eq, hl₁.ctx_eq, followRaw]
  simp only [if_neg h2]
  by_cases h3 : k - 12 - ie - ie * ie % 2 ^ 32 < ie * ie * ie % 2 ^ 32
  · simp only [if_pos h3]
    generalize hj : k - 12 - ie - ie * ie % 2 ^ 32 = j at h3
    have hj32 : j < 2 ^ 32 := by omega
    have hdiv : j / (ie * ie % 2 ^ 32) * 4 < 2 ^ 32 := by
      -- the divisor is a multiple of 16, so it is 0 or at least 16
      obtain ⟨q, hq⟩ : ∃ q, ie = 4 * q := ⟨_, hie4⟩
      have hsq : ie * ie = 16 * (q * q) := by rw [hq]; ring
      have hd : ie * ie % 2 ^ 32 = 0 ∨ 16 ≤ ie * ie % 2 ^ 32 := by
        rw [hsq]; generalize q * q = x; omega
      generalize ie * ie % 2 ^ 32 = d at hd
      rcases hd with rfl | hd
      · simp
      · have := Nat.div_le_div_left (c := 16) (a := j) hd (by omega)
        omega
    obtain ⟨m₁, fe₁, hr₁, hl₁⟩ := ext2ReadPointer_ok fe hh hs (fe.inode.iBlock 14) hdiv
    have hs₁ : m₁.ctx.SaneBlockSize := by rw [hl₁.ctx_eq]; exact hs
    obtain ⟨m₂, fe₂, hr₂, hl₂⟩ := ext2ReadPointer_ok fe₁ hh hs₁
      (pointerAt (view m fe) m.ctx (fe.inode.iBlock 14) (j / (ie * ie % 2 ^ 32)))
      (hent _ (hmod (j / ie)))
    have hs₂ : m₂.ctx.SaneBlockSize := by rw [hl₂.ctx_eq]; exact hs₁
    obtain ⟨m₃, fe₃, hr₃, hl₃⟩ := ext2ReadPointer_ok fe₂ hh hs₂
      (pointerAt (view m fe) m.ctx (pointerAt (view m fe) m.ctx (fe.inode.iBlock 14)
        (j / (ie * ie % 2 ^ 32))) (j / ie % ie)) (hent _ (hmod j))
    refine ⟨m₃, fe₃, ?_, (hl₁.trans hl₂).trans hl₃⟩
    simp only [Prog.bind_apply, hr₁, hr₂, hr₃, hl₁.view_eq, hl₁.ctx_eq, hl₂.view_eq, hl₂.ctx_eq,
      followRaw]
  simp only [if_neg h3]
  exact ⟨m, fe, rfl, Loads.refl m fe⟩

/-- A block that is not behind a table is found without the device. -/
theorem ext2BlockFromOffset_resident (fe : FileEnt) (hs : m.ctx.SaneBlockSize) {offset k : Nat}
    (hk : offset / m.ctx.blockSize % 2 ^ 32 = k)
    (hnear : k < 12 ∨ codePos (m.ctx.blockSize / 4) k = none) :
    ext2BlockFromOffset fe offset h m
      = .ok ((codeBlock (view m fe) m.ctx fe.inode k, fe), m) := by
  unfold ext2BlockFromOffset codeBlock
  rw [Prog.bind_ok (ext2BlockSize_ok hs)]
  dsimp only
  rw [hk]
  unfold codePos at hnear ⊢
  by_cases h0 : k < 12
  · simp only [if_pos h0]
    rfl
  have hnone := hnear.resolve_left h0
  simp only [if_neg h0] at hnone ⊢
  split_ifs at hnone ⊢ with h1 h2 h3
  rfl

/-- **The block map is the ext2 map.** Where no pointer on the way to an offset below `2 ^ 32` is
    zero, `ext2_block_from_offset` returns the tree's pointer for `offset / block_size`, whatever
    the buffer held, and the device with the buffer laid over it stays as it was. -/
theorem ext2BlockFromOffset_fileBlock (fe : FileEnt) (hh : h.Reliable) (hs : m.ctx.SaneBlockSize)
    {offset : Nat} (hlt : offset < 2 ^ 32)
    (hmap : fileBlock (view m fe) m.ctx fe.inode (offset / m.ctx.blockSize) ≠ 0) :
    ∃ m' fe', ext2BlockFromOffset fe offset h m = .ok
        ((fileBlock (view m fe) m.ctx fe.inode (offset / m.ctx.blockSize), fe'), m') ∧
      view m' fe' = view m fe := by
  obtain ⟨m', fe', hrun, hl⟩ := ext2BlockFromOffset_ok fe hh hs offset
  refine ⟨m', fe', ?_, hl.view_eq⟩
  have hindex : offset / m.ctx.blockSize < 2 ^ 32 :=
    lt_of_le_of_lt (Nat.div_le_self offset m.ctx.blockSize) hlt
  have hmul : offset / m.ctx.blockSize * m.ctx.blockSize < 2 ^ 32 :=
    lt_of_le_of_lt (Nat.div_mul_le_self offset m.ctx.blockSize) hlt
  rw [hrun, Nat.mod_eq_of_lt hindex, codeBlock_eq_fileBlock hmul hmap]

namespace SmallVolume

/-- A handle on `f`, as `ext2_open` leaves it for reading. -/
def handleF : FileEnt :=
  { FileEnt.fresh with inode := fInode, inodeNumber := 11, flags := ⟨true, false, false, false⟩ }

/-- The last byte of `f` is in block 8. -/
theorem ext2BlockFromOffset_f : ∃ m' fe', ext2BlockFromOffset handleF 999 host machine
      = .ok ((fileBlock (view machine handleF) machine.ctx handleF.inode
        (999 / machine.ctx.blockSize), fe'), m') ∧
    view m' fe' = view machine handleF :=
  ext2BlockFromOffset_fileBlock handleF host_reliable machine_sane (by decide) (by decide +kernel)

end SmallVolume

end Embext
