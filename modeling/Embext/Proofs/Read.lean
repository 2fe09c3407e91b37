import Embext.Proofs.BlockMap

set_option autoImplicit false

/-! # Reading

`ext2_select_buffer` on a mapped or a missing block, and `ext2_read` as a whole. The buffer space is
computed from the block size (at least 1024) while the buffer holds 512 bytes, so a request is never
cut at the end of the buffer: a read is right exactly when it stays inside one sector, and every
other read copies past the end of the buffer. -/

namespace Embext

variable {h : Host} {m : Machine} {fe : FileEnt}

/-! ## Selecting the buffer -/

/-- The file block under the cursor as `ext2_select_buffer` computes it. -/
def cursorBlock (m : Machine) (fe : FileEnt) : UInt32 :=
  codeBlock (view m fe) m.ctx fe.inode ((fe.cursor % 2 ^ 64).toNat / m.ctx.blockSize % 2 ^ 32)

/-- The sector under the cursor. -/
def cursorSector (m : Machine) (fe : FileEnt) : UInt32 :=
  blockSector m.ctx (cursorBlock m fe) (fe.cursor % m.ctx.blockSize).toNat

/-- The two map walks of `ext2_select_buffer` find the block under the cursor and keep the view;
    the rest of the call continues from there. -/
theorem ext2SelectBuffer_walk (fe : FileEnt) (hh : h.Reliable) (hs : m.ctx.SaneBlockSize) :
    ∃ m' fe' previous, Loads m fe m' fe' ∧ ext2SelectBuffer fe h m =
      (if cursorBlock m fe ≠ 0 then do
        let (_, fe) ← ext2LoadBuffer fe' (cursorBlock m fe)
          (UInt32.ofNat (fe.cursor % m.ctx.blockSize).toNat)
        pure (0, fe)
      else if fe.flags.write then do
        let (newBlock, fe') ← ext2AllocateBlock fe' previous
        if newBlock ≠ 0 then
          let (_, fe) ← ext2LoadBuffer (fe'.setBlock 0 newBlock) newBlock
            (UInt32.ofNat (fe.cursor % m.ctx.blockSize).toNat)
          pure (0, fe)
        else pure (-1, fe')
      else pure (-1, fe') : Drv (Int × FileEnt)) h m' := by
  obtain ⟨m₁, fe₁, hr₁, hl₁⟩ := ext2BlockFromOffset_ok fe hh hs (fe.cursor % 2 ^ 64).toNat
  have hs₁ : m₁.ctx.SaneBlockSize := by rw [hl₁.ctx_eq]; exact hs
  obtain ⟨m₂, fe₂, hr₂, hl₂⟩ := ext2BlockFromOffset_ok fe₁ hh hs₁
    ((fe₁.cursor / m.ctx.blockSize - 1) * m.ctx.blockSize % 2 ^ 64).toNat
  have hl := hl₁.trans hl₂
  refine ⟨m₂, fe₂, codeBlock (view m₁ fe₁) m₁.ctx fe₁.inode
    (((fe₁.cursor / m.ctx.blockSize - 1) * m.ctx.blockSize % 2 ^ 64).toNat
      / m₁.ctx.blockSize % 2 ^ 32), hl, ?_⟩
  have hcur : fe₂.cursor = fe.cursor := by rw [hl.handle]
  have hwr : fe₂.flags = fe.flags := by rw [hl.handle]
  simp only [ext2SelectBuffer, Prog.bind_apply, ext2BlockSize_ok hs, hr₁, hr₂, hcur, hwr,
    cursorBlock]
  rfl

/-- On a mapped block the call leaves the block's sector of the view in a clean buffer, and the
    device equal to the view. -/
theorem ext2SelectBuffer_mapped (hh : h.Reliable) (hs : m.ctx.SaneBlockSize)
    (hb : cursorBlock m fe ≠ 0) :
    ∃ m' fe', ext2SelectBuffer fe h m = .ok ((0, fe'), m') ∧ Loads m fe m' fe' ∧
      m'.disk = view m fe ∧ fe'.buffer.dirty = false ∧
      fe'.buffer.lbaBlock + m.ctx.partStart = cursorSector m fe ∧
      fe'.buffer.buffer = view m fe (cursorSector m fe) ∧
      ∃ l, m.log <:+ l ∧ m'.log = .read (cursorSector m fe) true :: l := by
  obtain ⟨m₁, fe₁, previous, hl, hrun⟩ := ext2SelectBuffer_walk fe hh hs
  have hs₁ : m₁.ctx.SaneBlockSize := by rw [hl.ctx_eq]; exact hs
  have hbs := blockSize_ge m.ctx
  have hle := blockSize_le hs
  have hoff : (UInt32.ofNat (fe.cursor % m.ctx.blockSize).toNat).toNat
      = (fe.cursor % m.ctx.blockSize).toNat := by
    apply UInt32.toNat_ofNat_of_lt'
    have := Int.emod_lt_of_pos fe.cursor (show (0 : Int) < m.ctx.blockSize by omega)
    change _ < 2 ^ 32
    omega
  refine ⟨_, _, ?_, hl.trans (Loads.load (cursorBlock m fe)
    (UInt32.ofNat (fe.cursor % m.ctx.blockSize).toNat)), ?_, rfl, ?_, ?_, ?_⟩
  · rw [hrun, if_pos hb]
    simp only [Prog.bind_apply, ext2LoadBuffer_ok hh hs₁, Prog.pure_apply]
  · exact hl.view_eq
  · simp only [cursorSector, loadedBuffer, blockSector, hl.ctx_eq, hoff]
  · simp only [cursorSector, loadedBuffer, hl.ctx_eq, hl.view_eq, hoff]
  · obtain ⟨l, hsuf, hlog⟩ := loadLog_eq m₁ fe₁ (blockSector m₁.ctx (cursorBlock m fe)
      (UInt32.ofNat (fe.cursor % m.ctx.blockSize).toNat).toNat)
    refine ⟨l, hl.grows.trans hsuf, ?_⟩
    rw [hoff, hl.ctx_eq] at hlog
    simp only [cursorSector, hl.ctx_eq, hoff]
    exact hlog

/-- On a missing block a handle that may not write gets -1. -/
theorem ext2SelectBuffer_hole (hh : h.Reliable) (hs : m.ctx.SaneBlockSize)
    (hb : cursorBlock m fe = 0) (hw : fe.flags.write = false) :
    ∃ m' fe', ext2SelectBuffer fe h m = .ok ((-1, fe'), m') ∧ Loads m fe m' fe' := by
  obtain ⟨m₁, fe₁, previous, hl, hrun⟩ := ext2SelectBuffer_walk fe hh hs
  refine ⟨m₁, fe₁, ?_, hl⟩
  rw [hrun, if_neg (not_not.2 hb), hw]
  simp only [Bool.false_eq_true, if_false, Prog.pure_apply]

/-! ## Bytes of a file inside one sector -/

/-- Byte `c + k` lies in the block of byte `c` when it is in the same sector. -/
theorem add_in_sector (ctx : Ext2Context) {c k : Nat} (hk : c % 512 + k < 512) :
    (c + k) / ctx.blockSize = c / ctx.blockSize ∧
      (c + k) % ctx.blockSize = c % ctx.blockSize + k ∧
      c % ctx.blockSize % 512 = c % 512 := by
  obtain ⟨q, hq⟩ : ∃ q, ctx.blockSize = 512 * q := ⟨_, blockSize_eq_mul ctx⟩
  have hbs := blockSize_ge ctx
  -- the sector index inside the block does not change
  have hmod : c % ctx.blockSize % 512 = c % 512 := by
    rw [hq]; exact Nat.mod_mul_right_mod c 512 q
  have hlt : c % ctx.blockSize + k < ctx.blockSize := by
    have h1 := Nat.mod_lt c (show 0 < ctx.blockSize by omega)
    have h2 : c % ctx.blockSize % 512 + k < 512 := by omega
    omega
  refine ⟨?_, ?_, hmod⟩
  · conv_lhs => rw [← Nat.div_add_mod c ctx.blockSize, Nat.add_assoc,
      Nat.mul_add_div (by omega), Nat.div_eq_of_lt hlt, Nat.add_zero]
  · conv_lhs => rw [← Nat.div_add_mod c ctx.blockSize, Nat.add_assoc, Nat.mul_add_mod,
      Nat.mod_eq_of_lt hlt]

/-- Such bytes have the same sector on the device. -/
theorem blockSector_in_sector (ctx : Ext2Context) (b : UInt32) {c k : Nat}
    (hk : c % 512 + k < 512) :
    blockSector ctx b ((c + k) % ctx.blockSize) = blockSector ctx b (c % ctx.blockSize) := by
  obtain ⟨-, hrem, hmod⟩ := add_in_sector ctx hk
  unfold blockSector
  rw [hrem]
  congr 3
  omega

/-- Bytes `c` to `c + k` of a file lie in one sector when the request that starts at `c` stays
    inside it. -/
theorem fileByte_in_sector {v : UInt32 → Sector} {ctx : Ext2Context} {inode : Inode} {c k : Nat}
    (hk : c % 512 + k < 512) :
    fileByte v ctx inode (c + k) = Window.item
      (v (blockSector ctx (fileBlock v ctx inode (c / ctx.blockSize)) (c % ctx.blockSize)))
      (c % 512 + k) := by
  obtain ⟨hdiv, hrem, hmod⟩ := add_in_sector ctx hk
  unfold fileByte blockByte
  rw [hdiv, blockSector_in_sector ctx _ hk, hrem]
  congr 1
  omega

/-! ## One call of `ext2_read` -/

/-- The number of bytes a read of `count` should deliver: `min(count, max(0, i_size - cursor))`. -/
def readLength (fe : FileEnt) (count : Nat) : Nat :=
  min count ((fe.inode.iSize.toNat : Int) - fe.cursor).toNat

/-- The handle after a read that delivered `n > 0` bytes at time `t`. -/
def FileEnt.advanced (fe : FileEnt) (n : Nat) (t : UInt32) : FileEnt :=
  { fe with
    cursor := fe.cursor + n
    inode := { fe.inode with iAtime := t }
    flags := { fe.flags with fsDirty := true } }

/-- Bytes `cursor` to `cursor + n` of the file behind a handle. -/
def bytesAhead (m : Machine) (fe : FileEnt) (n : Nat) : List UInt8 :=
  (List.range n).map fun k => fileByte (view m fe) m.ctx fe.inode (fe.cursor.toNat + k)

/-- The `n` bytes from the cursor on in the sector under it. -/
def sectorBytes (m : Machine) (fe : FileEnt) (n : Nat) : List UInt8 :=
  Window.slice (view m fe (cursorSector m fe)) (fe.cursor.toNat % 512) n

theorem toInt32_of_lt {n : Nat} (hn : n < 2 ^ 31) : toInt32 n = n := by
  unfold toInt32
  omega

/-- Below `i_size` the walk of `ext2_select_buffer` finds the tree's block. -/
theorem cursorBlock_eq {m : Machine} {fe : FileEnt} (h0 : 0 ≤ fe.cursor)
    (hlt : fe.cursor < 2 ^ 32)
    (hmap : fileBlock (view m fe) m.ctx fe.inode (fe.cursor.toNat / m.ctx.blockSize) ≠ 0) :
    cursorBlock m fe
      = fileBlock (view m fe) m.ctx fe.inode (fe.cursor.toNat / m.ctx.blockSize) := by
  have hbs := blockSize_ge m.ctx
  have hc : (fe.cursor % 2 ^ 64).toNat = fe.cursor.toNat := by omega
  have hle : fe.cursor.toNat / m.ctx.blockSize ≤ fe.cursor.toNat := Nat.div_le_self _ _
  unfold cursorBlock
  rw [hc, Nat.mod_eq_of_lt (by omega)]
  refine codeBlock_eq_fileBlock ?_ hmap
  have := Nat.div_mul_le_self fe.cursor.toNat m.ctx.blockSize
  omega

/-- `amount_to_copy` is the least of the three limits. -/
theorem readAmount_eq (left space : Nat) (hle : fe.cursor ≤ fe.inode.iSize.toNat) :
    readAmount left space fe
      = min (min left space) ((fe.inode.iSize.toNat : Int) - fe.cursor).toNat := by
  simp only [readAmount]
  split <;> split <;> omega

theorem toNat_emod_blockSize (ctx : Ext2Context) {c : Int} (h0 : 0 ≤ c) :
    (c % ctx.blockSize).toNat = c.toNat % ctx.blockSize := by
  rw [Int.toNat_emod h0 (by omega), Int.toNat_natCast]

theorem mod_blockSize_mod (ctx : Ext2Context) (c : Nat) : c % ctx.blockSize % 512 = c % 512 := by
  rw [blockSize_eq_mul ctx]
  exact Nat.mod_mul_right_mod c 512 _

/-- On a mapped block the bytes of the sector are the bytes of the file. -/
theorem sectorBytes_eq {n : Nat} (h0 : 0 ≤ fe.cursor) (hlt : fe.cursor < 2 ^ 32)
    (hmap : fileBlock (view m fe) m.ctx fe.inode (fe.cursor.toNat / m.ctx.blockSize) ≠ 0)
    (hfit : fe.cursor.toNat % 512 + n ≤ 512) : sectorBytes m fe n = bytesAhead m fe n := by
  apply List.ext_getElem (by simp [sectorBytes, bytesAhead])
  intro k h₁ h₂
  rw [sectorBytes, Window.length_slice] at h₁
  simp only [sectorBytes, bytesAhead, cursorSector, cursorBlock_eq h0 hlt hmap,
    toNat_emod_blockSize _ h0, Window.getElem_slice, List.getElem_map, List.getElem_range]
  rw [fileByte_in_sector (by omega)]

section call

variable (hh : h.Reliable) (hs : m.ctx.SaneBlockSize)
include hh hs

/-- The first iteration of the read loop below `i_size` on a mapped block, up to the copy. -/
theorem ext2ReadLoop_first (fuel : Nat) {count : Nat} (h0 : 0 ≤ fe.cursor)
    (hpos : 0 < readLength fe count) (hb : cursorBlock m fe ≠ 0) :
    ∃ m' fe', Loads m fe m' fe' ∧ m'.disk = view m fe ∧ fe'.buffer.dirty = false ∧
      fe'.buffer.buffer = view m fe (cursorSector m fe) ∧
      (∃ l, m.log <:+ l ∧ m'.log = .read (cursorSector m fe) true :: l) ∧
      ext2ReadLoop (fuel + 1) count [] fe h m = (do
        let amount := readAmount count (m.ctx.blockSize - 1 - (fe.cursor % 512).toNat) fe
        let bytes ← ext2ReadBuffer fe'.buffer (fe.cursor.toNat % m.ctx.blockSize) amount
        ext2ReadLoop fuel (count - amount) bytes { fe' with cursor := fe.cursor + amount } :
          Drv (Option (List UInt8) × FileEnt)) h m' := by
  unfold readLength at hpos
  obtain ⟨m₁, fe₁, hsel, hl, hdisk, hclean, -, hbuf, hlog⟩ := ext2SelectBuffer_mapped hh hs hb
  have hs₁ : m₁.ctx.SaneBlockSize := by rw [hl.ctx_eq]; exact hs
  have hcur : fe₁.cursor = fe.cursor := by rw [hl.handle]
  have hino : fe₁.inode = fe.inode := by rw [hl.handle]
  have hmod := toNat_emod_blockSize m.ctx h0
  refine ⟨m₁, fe₁, hl, hdisk, hclean, hbuf, hlog, ?_⟩
  have hlt : ¬ (fe.inode.iSize.toNat : Int) ≤ fe.cursor := by omega
  have hamount : ∀ left space, readAmount left space fe₁ = readAmount left space fe := by
    intro left space
    simp only [readAmount, hcur, hino]
  rw [ext2ReadLoop, if_neg (by omega), if_neg hlt]
  simp only [Prog.bind_apply, hsel, ne_eq, not_true_eq_false, if_false, ext2BlockSize_ok hs₁,
    ext2BufferSpace, Prog.pure_apply, hl.ctx_eq, hcur, hmod, hamount, List.nil_append]

variable (hmagic : fe.magic = embextMagic)
include hmagic

omit hh hs in
/-- Nothing to deliver: nothing happens. -/
theorem ext2Read_zero {count : Nat} (hn : readLength fe count = 0) :
    ext2Read fe count h m = .ok ((0, [], fe), m) := by
  have hloop : ext2ReadLoop count count [] fe h m = .ok ((some [], fe), m) := by
    unfold readLength at hn
    cases count with
    | zero => rfl
    | succ c =>
      have hend : (fe.inode.iSize.toNat : Int) ≤ fe.cursor := by omega
      simp [ext2ReadLoop, hend]
  simp [ext2Read, hmagic, Prog.bind_apply, hloop, toInt32]

/-- A read that stays inside the sector under the cursor delivers its bytes. -/
theorem ext2Read_inside {count : Nat} (h0 : 0 ≤ fe.cursor) (hpos : 0 < readLength fe count)
    (hb : cursorBlock m fe ≠ 0) (hfit : fe.cursor.toNat % 512 + readLength fe count ≤ 512) :
    ∃ m' fe', ext2Read fe count h m = .ok ((readLength fe count,
        sectorBytes m fe (readLength fe count),
        fe'.advanced (readLength fe count) (h.clock m.ticks)), { m' with ticks := m.ticks + 1 }) ∧
      Loads m fe m' fe' ∧ m'.disk = view m fe ∧ fe'.buffer.dirty = false ∧
      ∃ l, m.log <:+ l ∧ m'.log = .read (cursorSector m fe) true :: l := by
  have hbs := blockSize_ge m.ctx
  obtain ⟨m₁, fe₁, hl, hdisk, hclean, hbuf, hlog, hfirst⟩ :=
    ext2ReadLoop_first hh hs (count - 1) h0 hpos hb
  have hcur : fe₁.cursor = fe.cursor := by rw [hl.handle]
  have hino : fe₁.inode = fe.inode := by rw [hl.handle]
  have hoff := mod_blockSize_mod m.ctx fe.cursor.toNat
  generalize hn : readLength fe count = n at *
  have hlen : min count ((fe.inode.iSize.toNat : Int) - fe.cursor).toNat = n := hn
  -- the buffer space never cuts a request that fits the sector
  have hamount : readAmount count (m.ctx.blockSize - 1 - (fe.cursor % 512).toNat) fe = n := by
    rw [readAmount_eq _ _ (by omega)]
    omega
  have hlenb : (sectorBytes m fe n).length = n := by simp [sectorBytes]
  -- one iteration delivers everything, the next one stops
  have hloop : ext2ReadLoop count count [] fe h m
      = .ok ((some (sectorBytes m fe n), { fe₁ with cursor := fe.cursor + n }), m₁) := by
    rw [show count - 1 + 1 = count by omega] at hfirst
    rw [hfirst]
    simp only [hamount, Prog.bind_apply, hoff, hbuf,
      ext2ReadBuffer_ok (show fe.cursor.toNat % m.ctx.blockSize % 512 + n ≤ 512 by omega)]
    by_cases hend : count - n = 0
    · rw [hend]
      cases count - 1 <;> rfl
    · obtain ⟨d, hd⟩ : ∃ d, count - 1 = d + 1 := ⟨count - 2, by omega⟩
      have hstop : (fe₁.inode.iSize.toNat : Int) ≤ fe.cursor + n := by rw [hino]; omega
      rw [hd, ext2ReadLoop, if_neg hend, if_pos hstop]
      rfl
  have hticks : m₁.ticks = m.ticks := by rw [hl.machine]
  refine ⟨m₁, fe₁, ?_, hl, hdisk, hclean, hlog⟩
  simp only [ext2Read, hmagic, ne_eq, not_true_eq_false, if_false, Prog.bind_apply, hloop, hlenb,
    hpos, if_true, ext2UpdateAtime, timeNull_apply, Prog.pure_apply, hticks, FileEnt.advanced,
    toInt32_of_lt (show n < 2 ^ 31 by omega), hcur]

/-- A read that leaves the sector under the cursor copies past the end of the buffer. -/
theorem ext2Read_cross {count : Nat} (h0 : 0 ≤ fe.cursor) (hb : cursorBlock m fe ≠ 0)
    (hfit : 512 < fe.cursor.toNat % 512 + readLength fe count) :
    ext2Read fe count h m = .error .outOfBounds := by
  have hbs := blockSize_ge m.ctx
  obtain ⟨m₁, fe₁, hl, -, -, -, -, hfirst⟩ :=
    ext2ReadLoop_first hh hs (count - 1) h0 (show 0 < readLength fe count by omega) hb
  have hoff := mod_blockSize_mod m.ctx fe.cursor.toNat
  unfold readLength at hfit
  have hamount : 512 < fe.cursor.toNat % m.ctx.blockSize % 512
      + readAmount count (m.ctx.blockSize - 1 - (fe.cursor % 512).toNat) fe := by
    rw [readAmount_eq _ _ (by omega)]
    omega
  rw [show count - 1 + 1 = count by omega] at hfirst
  simp only [ext2Read, hmagic, ne_eq, not_true_eq_false, if_false, Prog.bind_apply, hfirst,
    ext2ReadBuffer_error hamount]

/-- A read below `i_size` on a missing block fails with `EIO` when the handle may not write. -/
theorem ext2Read_hole {count : Nat} (hpos : 0 < readLength fe count)
    (hb : cursorBlock m fe = 0) (hw : fe.flags.write = false) :
    ∃ m' fe', ext2Read fe count h m = .ok ((-1, [], fe'), { m' with rerrno := .eio }) ∧
      Loads m fe m' fe' := by
  unfold readLength at hpos
  obtain ⟨m₁, fe₁, hsel, hl⟩ := ext2SelectBuffer_hole hh hs hb hw
  refine ⟨m₁, fe₁, ?_, hl⟩
  obtain ⟨c, rfl⟩ : ∃ c, count = c + 1 := ⟨count - 1, by omega⟩
  have hlt : ¬ (fe.inode.iSize.toNat : Int) ≤ fe.cursor := by omega
  simp only [ext2Read, hmagic, ne_eq, not_true_eq_false, if_false, Prog.bind_apply]
  rw [ext2ReadLoop, if_neg (by omega), if_neg hlt]
  simp only [Prog.bind_apply, hsel, ne_eq, Int.reduceNeg, reduceCtorEq, not_false_eq_true, if_true,
    setErrno_apply, Prog.pure_apply]

end call

/-! ## When a read is right -/

/-- The block map has no hole below `i_size`. -/
def NoHole (v : UInt32 → Sector) (ctx : Ext2Context) (inode : Inode) : Prop :=
  ∀ p < inode.iSize.toNat, fileBlock v ctx inode (p / ctx.blockSize) ≠ 0

/-- The call returns `n = min(count, max(0, i_size - cursor))`, delivers bytes `cursor` to
    `cursor + n` of the file and advances the cursor by `n`. Returning at all means that every copy
    stayed inside the 512-byte buffer: one that does not is a fault of the model. -/
def ReadsFile (h : Host) (m : Machine) (fe : FileEnt) (count : Nat) : Prop :=
  ∃ m' fe', ext2Read fe count h m
      = .ok ((readLength fe count, bytesAhead m fe (readLength fe count), fe'), m') ∧
    fe'.cursor = fe.cursor + readLength fe count

/-- **Read correctness.** On an inode without holes below `i_size`, for every block size, cursor and
    count, a read is right if and only if the bytes it should deliver lie in one 512-byte sector. -/
theorem ext2Read_correct_iff (hh : h.Reliable) (hs : m.ctx.SaneBlockSize)
    (hmagic : fe.magic = embextMagic) (h0 : 0 ≤ fe.cursor)
    (hmap : NoHole (view m fe) m.ctx fe.inode) (count : Nat) :
    ReadsFile h m fe count ↔ fe.cursor.toNat % 512 + readLength fe count ≤ 512 := by
  rcases Nat.eq_zero_or_pos (readLength fe count) with hz | hpos
  · refine ⟨fun _ => by omega, fun _ => ⟨m, fe, ?_, by simp [hz]⟩⟩
    rw [ext2Read_zero hmagic hz, hz]
    rfl
  · have hmapped : fileBlock (view m fe) m.ctx fe.inode
        (fe.cursor.toNat / m.ctx.blockSize) ≠ 0 := by
      apply hmap
      unfold readLength at hpos
      omega
    have hlt : fe.cursor < 2 ^ 32 := by
      have := fe.inode.iSize.toNat_lt
      unfold readLength at hpos
      omega
    have hb : cursorBlock m fe ≠ 0 := by
      rw [cursorBlock_eq h0 hlt hmapped]
      exact hmapped
    constructor
    · rintro ⟨m', fe', hrun, -⟩
      by_contra hcross
      rw [ext2Read_cross hh hs hmagic h0 hb (by omega)] at hrun
      exact absurd hrun (by simp)
    · intro hfit
      obtain ⟨m', fe', hrun, hl, -⟩ := ext2Read_inside hh hs hmagic h0 hpos hb hfit
      rw [sectorBytes_eq h0 hlt hmapped hfit] at hrun
      refine ⟨_, _, hrun, ?_⟩
      rw [hl.handle]
      rfl

namespace SmallVolume

theorem handleF_noHole : NoHole (view machine handleF) machine.ctx handleF.inode := by
  intro p hp
  have hsize : handleF.inode.iSize.toNat = 1000 := rfl
  have hbs := blockSize_ge machine.ctx
  rw [Nat.div_eq_of_lt (by omega)]
  decide

/-- 513 bytes from the start of the 1000-byte `f`: the second sector would be needed. -/
theorem ext2Read_correct_fails : host.Reliable ∧ machine.ctx.SaneBlockSize ∧
    handleF.magic = embextMagic ∧ 0 ≤ handleF.cursor ∧
    NoHole (view machine handleF) machine.ctx handleF.inode ∧
    ¬ ReadsFile host machine handleF 513 := by
  refine ⟨host_reliable, machine_sane, rfl, by decide, handleF_noHole, ?_⟩
  rintro ⟨m', fe', hrun, -⟩
  have hfault : (ext2Read handleF 513 host machine).isOk = false := by decide +kernel
  rw [hrun] at hfault
  exact absurd hfault (by simp [Except.isOk, Except.toBool])

/-- The first 512 bytes of `f` are read correctly. -/
theorem ext2Read_correct_sector : ReadsFile host machine handleF 512 :=
  (ext2Read_correct_iff host_reliable machine_sane rfl (by decide) handleF_noHole 512).2
    (by decide)

end SmallVolume

end Embext
