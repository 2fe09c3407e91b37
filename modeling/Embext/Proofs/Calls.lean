import Embext.Proofs.Handle
import Embext.Proofs.Inode
import Embext.Proofs.Seek

set_option autoImplicit false

/-! # Reads and writes that return

`ext2_select_buffer` says once what a request can do: the sector under the cursor is in the buffer,
or the selection fails. From that follow the outcomes of `ext2_read` and `ext2_write` on a driver
whose transfers succeed. Both copy at most once: a request that would need a second sector leaves the
buffer and does not return. -/

namespace Embext

variable {h : Host} {m m' : Machine} {fe fe' : FileEnt}

theorem Ext2Context.Sane.of_sameVolume {c c' : Ext2Context} (hs : c.Sane)
    (hvol : c.SameVolume c') : c'.Sane := by
  unfold SameVolume at hvol
  rw [hvol]
  exact ⟨hs.block, hs.first, hs.size, hs.perGroup, hs.groups, hs.covered⟩

theorem Ext2Context.Slotted.of_sameVolume {c c' : Ext2Context} (hs : c.Slotted)
    (hvol : c.SameVolume c') : c'.Slotted := by
  unfold SameVolume at hvol
  rw [hvol]
  exact ⟨hs.block, hs.size, hs.perGroup⟩

/-! ## The sectors of a request -/

/-- The handle `k` bytes further on. -/
def FileEnt.forward (fe : FileEnt) (k : Nat) : FileEnt := { fe with cursor := fe.cursor + k }

/-- The block under the cursor of `fe`, or the one that a call which left `fe'` has put in
    `i_block[0]` because there was none. -/
def dataBlock (m : Machine) (fe fe' : FileEnt) : UInt32 :=
  if cursorBlock m fe ≠ 0 then cursorBlock m fe else fe'.inode.iBlock 0

/-- The sector with byte `cursor + k` of the file behind `fe`. -/
def dataSector (m : Machine) (fe fe' : FileEnt) (k : Nat) : UInt32 :=
  blockSector m.ctx (dataBlock m (fe.forward k) fe')
    ((fe.forward k).cursor % m.ctx.blockSize).toNat

theorem FileEnt.forward_zero (fe : FileEnt) : fe.forward 0 = fe := by
  simp [FileEnt.forward]

/-- A cursor's offset in its block, through the unsigned conversion of `ext2_select_buffer`. -/
theorem emod_blockSize (ctx : Ext2Context) (hs : ctx.SaneBlockSize) (c : Int) :
    (c % ctx.blockSize).toNat = (c % 2 ^ 64).toNat % ctx.blockSize := by
  have hbs := blockSize_ge ctx
  have hdvd : (ctx.blockSize : Int) ∣ 2 ^ 64 := by
    exact_mod_cast blockSize_dvd_pow hs (show 30 ≤ 64 by decide)
  rw [← Int.emod_emod_of_dvd c hdvd, Int.toNat_emod (by omega) (by omega), Int.toNat_natCast]

/-- All bytes of a request that stays inside one sector have that sector. -/
theorem dataSector_eq (hs : m.ctx.SaneBlockSize) {k : Nat}
    (hk : (fe.cursor % 512).toNat + k < 512) : dataSector m fe fe' k = dataSector m fe fe' 0 := by
  obtain ⟨c, hc⟩ : ∃ c, (fe.cursor % 2 ^ 64).toNat = c := ⟨_, rfl⟩
  have hck : ((fe.forward k).cursor % 2 ^ 64).toNat = c + k := by
    change ((fe.cursor + k) % 2 ^ 64).toNat = c + k
    omega
  have hk' : c % 512 + k < 512 := by omega
  have hblock : cursorBlock m (fe.forward k) = cursorBlock m fe := by
    change codeBlock (view m fe) m.ctx fe.inode _ = _
    rw [hck, (add_in_sector m.ctx hk').1, ← hc]
    rfl
  unfold dataSector dataBlock
  rw [hblock, FileEnt.forward_zero, emod_blockSize _ hs, emod_blockSize _ hs, hck, hc,
    blockSector_in_sector _ _ hk']

/-! ## What a selection finds when no transfer fails -/

/-- The handle after a successful selection: its clean buffer holds the sector under the cursor,
    read last. Only the block map may have changed besides. -/
structure Selected (m : Machine) (fe : FileEnt) (m' : Machine) (fe' : FileEnt) : Prop where
  handle : fe' = { fe with
    buffer := fe'.buffer
    rerrno := fe'.rerrno
    inode := { fe.inode with iBlock := fe'.inode.iBlock } }
  sane : m.ctx.SaneBlockSize
  volume : m.ctx.SameVolume m'.ctx
  sector : fe'.buffer.lbaBlock + m'.ctx.partStart = dataSector m fe fe' 0
  bytes : fe'.buffer.buffer = m'.disk (dataSector m fe fe' 0)
  clean : fe'.buffer.dirty = false
  mapped : cursorBlock m fe ≠ 0 → fe'.inode = fe.inode
  log : ∃ l, m.log <:+ l ∧ m'.log = .read (dataSector m fe fe' 0) true :: l

theorem ext2SelectBuffer_selected (hh : h.Reliable)
    (hrun : ext2SelectBuffer fe h m = .ok ((0, fe'), m')) : Selected m fe m' fe' := by
  have hvol := (show Steps True _ from steps_ext2SelectBuffer fe).sameVolume hrun
  obtain ⟨bs, m₀, hbs, -⟩ := Prog.of_bind_ok hrun
  obtain ⟨hs, -, -⟩ := of_ext2BlockSize_ok hbs
  have hzero : dataSector m fe fe' 0
      = blockSector m.ctx (dataBlock m fe fe') (fe.cursor % m.ctx.blockSize).toNat := by
    unfold dataSector
    rw [FileEnt.forward_zero]
  by_cases hb : cursorBlock m fe ≠ 0
  · obtain ⟨m₁, fe₁, hsel, hl, hdisk, hclean, hlba, hbuf, hlog⟩ := ext2SelectBuffer_mapped hh hs hb
    rw [hsel] at hrun
    cases hrun
    have hsec : dataSector m fe fe' 0 = cursorSector m fe := by
      rw [hzero, dataBlock, if_pos hb, cursorSector]
    exact ⟨hl.handle ▸ rfl, hs, hvol, by rw [hsec, hl.ctx_eq]; exact hlba, by rw [hsec, hdisk]; exact hbuf,
      hclean, fun _ => by rw [hl.handle], by rw [hsec]; exact hlog⟩
  · -- a missing block: the sector belongs to the block just allocated
    obtain ⟨m₁, fe₁, previous, hl, hwalk⟩ := ext2SelectBuffer_walk fe hh hs
    rw [hwalk, if_neg hb] at hrun
    by_cases hw : fe.flags.write = true
    · rw [if_pos hw] at hrun
      obtain ⟨⟨newBlock, fe₂⟩, m₂, halloc, hrun⟩ := Prog.of_bind_ok hrun
      have hkeep : fe₁.SameFile fe₂ := (keeps_ext2AllocateBlock fe₁ previous m₁ _ m₂ trivial halloc).2
      have hsteps : Steps True (ext2AllocateBlock fe₁ previous) := steps_ext2AllocateBlock _ _
      have hvol₂ := hsteps.sameVolume halloc
      have hgrow := hl.grows.trans (hsteps.suffix halloc)
      by_cases hnew : newBlock ≠ 0
      · have hctx : m₂.ctx.blockSize = m.ctx.blockSize := by
          rw [hl.ctx_eq] at hvol₂
          rw [hvol₂]
          rfl
        have hpart : m₂.ctx.partStart = m.ctx.partStart := by
          rw [hl.ctx_eq] at hvol₂
          rw [hvol₂]
        have hs₂ : m₂.ctx.SaneBlockSize := by
          rw [hl.ctx_eq] at hvol₂
          rw [hvol₂]
          exact hs
        have hsector : ∀ off, blockSector m₂.ctx newBlock off = blockSector m.ctx newBlock off := by
          intro off
          unfold blockSector
          rw [hctx, hpart]
        have hoff : (UInt32.ofNat (fe.cursor % m.ctx.blockSize).toNat).toNat
            = (fe.cursor % m.ctx.blockSize).toNat := by
          have hge := blockSize_ge m.ctx
          have hle := blockSize_le hs
          apply UInt32.toNat_ofNat_of_lt'
          have := Int.emod_lt_of_pos fe.cursor (show (0 : Int) < m.ctx.blockSize by omega)
          change _ < 2 ^ 32
          omega
        simp only [hnew, ne_eq, not_false_eq_true, if_true, Prog.bind_apply,
          ext2LoadBuffer_ok hh hs₂, Prog.pure_apply, Except.ok.injEq, Prod.mk.injEq, true_and] at hrun
        obtain ⟨rfl, rfl⟩ := hrun
        have hsec : ∀ b, dataSector m fe { fe₂.setBlock 0 newBlock with buffer := b } 0
            = blockSector m₂.ctx newBlock (fe.cursor % m.ctx.blockSize).toNat := by
          intro b
          have h0 : ({ fe₂.setBlock 0 newBlock with buffer := b } : FileEnt).inode.iBlock 0
              = newBlock :=
            show Function.update fe₂.inode.iBlock 0 newBlock 0 = newBlock from Function.update_self ..
          rw [hsector, dataSector, FileEnt.forward_zero, dataBlock, if_neg hb, h0]
        obtain ⟨l, hsuf, hlog⟩ := loadLog_eq m₂ (fe₂.setBlock 0 newBlock)
          (blockSector m₂.ctx newBlock (UInt32.ofNat (fe.cursor % m.ctx.blockSize).toNat).toNat)
        refine ⟨?_, hs, hvol, ?_, ?_, rfl, fun hmap => absurd hmap hb, ?_⟩
        · rw [hkeep, hl.handle]
          rfl
        · rw [hsec]
          simp only [loadedBuffer, blockSector, hoff]
        · rw [hsec]
          simp only [loadedBuffer, hoff]
        · rw [hsec]
          rw [hoff] at hlog
          exact ⟨l, hgrow.trans hsuf, by simpa only [hoff] using hlog⟩
      · dsimp only at hrun
        rw [if_neg hnew] at hrun
        cases hrun
    · rw [if_neg hw] at hrun
      cases hrun

/-- A selection that returns found a block size the code can compute. -/
theorem sane_of_ext2SelectBuffer {r : Int} (hrun : ext2SelectBuffer fe h m = .ok ((r, fe'), m')) :
    m'.ctx.SaneBlockSize := by
  have hvol := (show Steps True _ from steps_ext2SelectBuffer fe).sameVolume hrun
  obtain ⟨bs, m₁, hbs, -⟩ := Prog.of_bind_ok hrun
  rw [hvol]
  exact (of_ext2BlockSize_ok hbs).1

/-! ## A read, whatever transfers fail -/

/-- The offset in the buffer is the cursor's offset in its sector. -/
theorem cursor_mod_sector (ctx : Ext2Context) (c : Int) :
    (c % ctx.blockSize).toNat % 512 = (c % 512).toNat := by
  have hbs := blockSize_ge ctx
  have hdvd : (512 : Int) ∣ ctx.blockSize := ⟨(ctx.blockSize / 512 : Nat), by
    exact_mod_cast blockSize_eq_mul ctx⟩
  have hnn := Int.emod_nonneg c (show (ctx.blockSize : Int) ≠ 0 by omega)
  rw [← Int.emod_emod_of_dvd c hdvd, Int.toNat_emod hnn (by omega)]
  rfl

/-- The buffer space never cuts a request that fits the sector, so one that is cut does not fit. -/
theorem space_of_fits {ctx : Ext2Context} {c : Int} {n : Nat}
    (hfit : (ctx.blockSize - 1 - (c % 512).toNat) ≤ n) : 512 < (c % 512).toNat + n := by
  have hbs := blockSize_ge ctx
  omega

/-- With nothing wanted or nothing left, a read loop that returns has done nothing. -/
theorem of_ext2ReadLoop_stop {fuel left : Nat} {acc : List UInt8} {r : Option (List UInt8)}
    (hstop : left = 0 ∨ (fe.inode.iSize.toNat : Int) ≤ fe.cursor)
    (hrun : ext2ReadLoop fuel left acc fe h m = .ok ((r, fe'), m')) :
    r = some acc ∧ fe' = fe ∧ m' = m := by
  cases fuel with
  | zero =>
    unfold ext2ReadLoop at hrun
    split at hrun <;> cases hrun
    exact ⟨rfl, rfl, rfl⟩
  | succ fuel =>
    rw [ext2ReadLoop] at hrun
    by_cases hleft : left = 0
    · rw [if_pos hleft] at hrun
      cases hrun
      exact ⟨rfl, rfl, rfl⟩
    · rw [if_neg hleft, if_pos (hstop.resolve_left hleft)] at hrun
      cases hrun
      exact ⟨rfl, rfl, rfl⟩

/-- The three ways a read loop returns, whatever transfers fail: with nothing to do, with a selection
    that failed, or after the one iteration that delivers everything. -/
theorem ext2ReadLoop_once {fuel left : Nat} {o : Option (List UInt8)}
    (hrun : ext2ReadLoop fuel left [] fe h m = .ok ((o, fe'), m')) :
    (o = some [] ∧ fe' = fe ∧ m' = m) ∨
    (o = none ∧ ∃ r m₁, r ≠ 0 ∧ ext2SelectBuffer fe h m = .ok ((r, fe'), m₁) ∧
      fe.cursor < fe.inode.iSize.toNat ∧ m' = { m₁ with rerrno := .eio }) ∨
    ∃ n fe₁, o = some (Window.slice fe₁.buffer.buffer (fe.cursor % 512).toNat n) ∧ 0 < n ∧ n ≤ left ∧
      ext2SelectBuffer fe h m = .ok ((0, fe₁), m') ∧ fe.cursor < fe.inode.iSize.toNat ∧
      fe' = { fe₁ with cursor := fe.cursor + n } ∧ (fe.cursor % 512).toNat + n ≤ 512 := by
  by_cases hstop : left = 0 ∨ (fe.inode.iSize.toNat : Int) ≤ fe.cursor
  · exact .inl (of_ext2ReadLoop_stop hstop hrun)
  obtain ⟨hleft, hend⟩ := not_or.1 hstop
  cases fuel with
  | zero =>
    rw [ext2ReadLoop, if_neg hleft] at hrun
    cases hrun
  | succ fuel =>
    rw [ext2ReadLoop, if_neg hleft, if_neg hend] at hrun
    obtain ⟨⟨r, fe₁⟩, m₀, hsel, hrun⟩ := Prog.of_bind_ok hrun
    by_cases hr : r ≠ 0
    · dsimp only at hrun
      rw [if_pos hr] at hrun
      cases hrun
      exact .inr (.inl ⟨rfl, r, m₀, hr, hsel, Int.not_le.1 hend, rfl⟩)
    obtain rfl := not_not.1 hr
    have hsame := of_ext2SelectBuffer_ok hsel
    obtain ⟨bs, m₁, hbs, hrun⟩ := Prog.of_bind_ok hrun
    obtain ⟨hs, rfl, rfl⟩ := of_ext2BlockSize_ok hbs
    have hspace : ext2BufferSpace fe₁ h m₁
        = .ok (m₁.ctx.blockSize - 1 - (fe₁.cursor % 512).toNat, m₁) := Prog.bind_ok hbs
    rw [Prog.bind_ok hspace] at hrun
    obtain ⟨bytes', m₂, hcopy, hrun⟩ := Prog.of_bind_ok hrun
    have hcur : fe₁.cursor = fe.cursor := by rw [hsame]
    have hsize : fe₁.inode.iSize = fe.inode.iSize := by rw [hsame]
    generalize hamount : readAmount left (m₁.ctx.blockSize - 1 - (fe₁.cursor % 512).toNat) fe₁ = n
      at hcopy hrun
    rw [readAmount_eq _ _ (by rw [hcur, hsize]; omega), hcur, hsize] at hamount
    have hoff := cursor_mod_sector m₁.ctx fe.cursor
    have hbs := blockSize_ge m₁.ctx
    rw [hcur] at hcopy hrun
    -- the copy returned, so it stayed inside the buffer
    by_cases hfit : (fe.cursor % m₁.ctx.blockSize).toNat % 512 + n ≤ 512
    · rw [ext2ReadBuffer_ok hfit] at hcopy
      cases hcopy
      have hlt : n < m₁.ctx.blockSize - 1 - (fe.cursor % 512).toNat := by
        by_contra hge
        have := space_of_fits (Nat.not_lt.1 hge)
        omega
      obtain ⟨hb, rfl, rfl⟩ := of_ext2ReadLoop_stop (by
        change left - n = 0 ∨ (fe₁.inode.iSize.toNat : Int) ≤ fe.cursor + n
        rw [hsize]
        omega) hrun
      rw [hoff] at hfit
      rw [List.nil_append, hoff] at hb
      exact .inr (.inr ⟨n, fe₁, hb, by omega, by omega, hsel, Int.not_le.1 hend, rfl, hfit⟩)
    · rw [ext2ReadBuffer_error (Nat.not_le.1 hfit)] at hcopy
      cases hcopy

/-- How a call of `ext2_read` returns, whatever transfers fail. -/
inductive ReadReturn (h : Host) (m : Machine) (fe : FileEnt) (count : Nat) :
    Int → List UInt8 → FileEnt → Machine → Prop where
  | refused (hmagic : fe.magic ≠ embextMagic) :
      ReadReturn h m fe count (-1) [] fe { m with rerrno := .ebadf }
  | nothing : ReadReturn h m fe count 0 [] fe m
  | failed {r : Int} {fe' : FileEnt} {m' : Machine} (hr : r ≠ 0)
      (hsel : ext2SelectBuffer fe h m = .ok ((r, fe'), m'))
      (hend : fe.cursor < fe.inode.iSize.toNat) :
      ReadReturn h m fe count (-1) [] fe' { m' with rerrno := .eio }
  | delivered {n : Nat} {fe' : FileEnt} {m' : Machine} (hn : 0 < n) (hle : n ≤ count)
      (hsel : ext2SelectBuffer fe h m = .ok ((0, fe'), m')) (hend : fe.cursor < fe.inode.iSize.toNat)
      (hfit : (fe.cursor % 512).toNat + n ≤ 512) :
      ReadReturn h m fe count n (Window.slice fe'.buffer.buffer (fe.cursor % 512).toNat n)
        (fe'.advanced n (h.clock m'.ticks)) { m' with ticks := m'.ticks + 1 }

theorem ext2Read_return {count : Nat} {r : Int} {bytes : List UInt8}
    (hrun : ext2Read fe count h m = .ok ((r, bytes, fe'), m')) :
    ReadReturn h m fe count r bytes fe' m' := by
  unfold ext2Read at hrun
  by_cases hmagic : fe.magic ≠ embextMagic
  · rw [if_pos hmagic] at hrun
    cases hrun
    exact .refused hmagic
  rw [if_neg hmagic] at hrun
  obtain ⟨⟨o, fe₁⟩, m₁, hloop, htail⟩ := Prog.of_bind_ok hrun
  rcases ext2ReadLoop_once hloop with ⟨rfl, rfl, rfl⟩ | ⟨rfl, r', m₂, hr, hsel, hend, rfl⟩ |
    ⟨n, fe₂, rfl, hpos, hle, hsel, hend, rfl, hfit⟩
  · cases htail
    exact .nothing
  · cases htail
    exact .failed hr hsel hend
  · have hlen : (Window.slice fe₂.buffer.buffer (fe.cursor % 512).toNat n).length = n :=
      Window.length_slice ..
    have hsame := of_ext2SelectBuffer_ok hsel
    have hcur : fe₂.cursor = fe.cursor := by rw [hsame]
    have hupd : ext2UpdateAtime { fe₂ with cursor := fe.cursor + n } h m₁
        = .ok (fe₂.advanced n (h.clock m₁.ticks), { m₁ with ticks := m₁.ticks + 1 }) := by
      rw [← hcur]
      rfl
    dsimp only at htail
    rw [hlen, if_pos hpos, Prog.bind_ok hupd] at htail
    simp only [Prog.pure_apply, Except.ok.injEq, Prod.mk.injEq] at htail
    obtain ⟨⟨rfl, rfl, rfl⟩, rfl⟩ := htail
    rw [toInt32_of_lt (show n < 2 ^ 31 by omega)]
    exact .delivered hpos hle hsel hend hfit

/-! ## A read when no transfer fails -/

/-- How a call of `ext2_read` can return: with nothing to do, with a selection that failed, or after
    one copy of `n` bytes from the sector selected. -/
inductive ReadOutcome (h : Host) (m : Machine) (fe : FileEnt) :
    Int → List UInt8 → FileEnt → Machine → Prop where
  | nothing {r : Int} (e : Errno) (hr : r ≤ 0) : ReadOutcome h m fe r [] fe { m with rerrno := e }
  | failed {r : Int} {fe' : FileEnt} {m' : Machine} (hr : r ≠ 0)
      (hsel : ext2SelectBuffer fe h m = .ok ((r, fe'), m'))
      (hend : fe.cursor < fe.inode.iSize.toNat) :
      ReadOutcome h m fe (-1) [] fe' { m' with rerrno := .eio }
  | delivered {n : Nat} {fe' : FileEnt} {m' : Machine} (hn : 0 < n) (hsel : Selected m fe m' fe')
      (hend : fe.cursor < fe.inode.iSize.toNat)
      (hfit : (fe.cursor % 512).toNat + n ≤ 512) :
      ReadOutcome h m fe n
        (Window.slice (m'.disk (dataSector m fe fe' 0)) (fe.cursor % 512).toNat n)
        (fe'.advanced n (h.clock m'.ticks)) { m' with ticks := m'.ticks + 1 }

theorem ext2Read_outcome (hh : h.Reliable) {count : Nat} {r : Int} {bytes : List UInt8}
    (hrun : ext2Read fe count h m = .ok ((r, bytes, fe'), m')) :
    ReadOutcome h m fe r bytes fe' m' := by
  cases ext2Read_return hrun with
  | refused => exact .nothing .ebadf (by decide)
  | nothing => exact .nothing m.rerrno le_rfl
  | failed hr hsel hend => exact .failed hr hsel hend
  | delivered hn hle hsel hend hfit =>
    have hS := ext2SelectBuffer_selected hh hsel
    rw [hS.bytes]
    exact .delivered hn hS hend hfit

/-! ## A write, whatever transfers fail -/

theorem ext2WriteLoop_nil (fuel done : Nat) (fe : FileEnt) :
    ext2WriteLoop fuel [] done fe h m = .ok ((some done, fe), m) := by
  cases fuel <;> rfl

/-- `i_size` after a write that ends at `c`. -/
def sizeAfter (inode : Inode) (c : Int) : UInt32 :=
  if (inode.iSize.toNat : Int) < c then UInt32.ofNat (c % 2 ^ 32).toNat else inode.iSize

/-- The handle after `data` has been copied into the sector selected, at time `t`. -/
def FileEnt.wrote (fe : FileEnt) (data : List UInt8) (t : UInt32) : FileEnt :=
  { fe with
    buffer := { fe.buffer with
      buffer := Window.patch fe.buffer.buffer (fe.cursor % 512).toNat data
      dirty := true }
    cursor := fe.cursor + data.length
    inode := { fe.inode with iSize := sizeAfter fe.inode (fe.cursor + data.length), iMtime := t }
    flags := { fe.flags with fsDirty := true } }

/-- After a selection a write copies all the data to the sector selected, or leaves the buffer. -/
theorem ext2WriteFrom_selected {data : List UInt8} {m₁ : Machine} {fe₁ : FileEnt}
    (hsel : ext2SelectBuffer fe h m = .ok ((0, fe₁), m₁)) (hne : data ≠ []) :
    ext2WriteFrom fe data h m = if (fe.cursor % 512).toNat + data.length ≤ 512
      then .ok ((data.length, fe₁.wrote data (h.clock m₁.ticks)), { m₁ with ticks := m₁.ticks + 1 })
      else .error .outOfBounds := by
  have hs₁ := sane_of_ext2SelectBuffer hsel
  have hcur : fe₁.cursor = fe.cursor := by rw [of_ext2SelectBuffer_ok hsel]
  have hoff := cursor_mod_sector m₁.ctx fe.cursor
  obtain ⟨n, hn⟩ := Nat.exists_eq_add_of_lt (List.length_pos_iff.2 hne)
  rw [Nat.zero_add] at hn
  -- the selection, and the space in the buffer
  have hspace : ext2BufferSpace fe₁ h m₁ = .ok (m₁.ctx.blockSize - 1 - (fe.cursor % 512).toNat, m₁) := by
    rw [← hcur]
    exact Prog.bind_ok (ext2BlockSize_ok hs₁)
  rw [ext2WriteFrom]
  by_cases hfit : (fe.cursor % 512).toNat + data.length ≤ 512
  · rw [if_pos hfit]
    have hamount : writeAmount data.length (m₁.ctx.blockSize - 1 - (fe.cursor % 512).toNat)
        = data.length := by
      unfold writeAmount
      refine if_neg fun hlt => ?_
      exact absurd (space_of_fits hlt.le) (Nat.not_lt.2 hfit)
    -- the handle after the copy, and after the size has been adjusted
    obtain ⟨fc, hfc⟩ : ∃ fc : FileEnt, fc = { fe₁ with
        buffer := { fe₁.buffer with
          buffer := Window.patch fe₁.buffer.buffer (fe.cursor % 512).toNat data
          dirty := true }
        cursor := fe.cursor + data.length } := ⟨_, rfl⟩
    obtain ⟨fs, hfs⟩ : ∃ fs : FileEnt, fs = if (fc.inode.iSize.toNat : Int) < fc.cursor then { fc with
        inode := { fc.inode with iSize := UInt32.ofNat (fc.cursor % 2 ^ 32).toNat }
        flags := { fc.flags with fsDirty := true } } else fc := ⟨_, rfl⟩
    have hloop : ext2WriteLoop (n + 1) data 0 fe h m = .ok ((some data.length, fs), m₁) := by
      rw [ext2WriteLoop, if_neg hne, Prog.bind_ok hsel]
      dsimp only
      rw [if_neg (not_not.2 rfl), Prog.bind_ok (ext2BlockSize_ok hs₁), Prog.bind_ok hspace, hcur,
        hamount, List.take_length, Prog.bind_ok (ext2WriteBuffer_ok (by rw [hoff]; exact hfit)), hoff,
        List.drop_length, ext2WriteLoop_nil, Nat.zero_add, hfs, hfc]
    rw [← hn] at hloop
    have hwrote : ({ fs with
        inode := { fs.inode with iMtime := h.clock m₁.ticks }
        flags := { fs.flags with fsDirty := true } } : FileEnt)
          = fe₁.wrote data (h.clock m₁.ticks) := by
      rw [hfs, hfc]
      unfold FileEnt.wrote sizeAfter
      rw [hcur]
      by_cases hgrow : (fe₁.inode.iSize.toNat : Int) < fe.cursor + data.length
      · rw [if_pos hgrow, if_pos hgrow]
      · rw [if_neg hgrow, if_neg hgrow]
    have hupdate : ext2UpdateMtime fs h m₁
        = .ok (fe₁.wrote data (h.clock m₁.ticks), { m₁ with ticks := m₁.ticks + 1 }) := by
      rw [← hwrote]
      rfl
    rw [Prog.bind_ok hloop]
    dsimp only
    rw [if_pos (by omega), Prog.bind_ok hupdate, toInt32_of_lt (by omega)]
    rfl
  · rw [if_neg hfit]
    have hcross : 512 < (fe.cursor % m₁.ctx.blockSize).toNat % 512 + (data.take (writeAmount
        data.length (m₁.ctx.blockSize - 1 - (fe.cursor % 512).toNat))).length := by
      have hbs := blockSize_ge m₁.ctx
      rw [hoff, List.length_take]
      unfold writeAmount
      split <;> omega
    refine Prog.bind_error ?_
    rw [hn, ext2WriteLoop, if_neg hne, Prog.bind_ok hsel]
    dsimp only
    rw [if_neg (not_not.2 rfl), Prog.bind_ok (ext2BlockSize_ok hs₁), Prog.bind_ok hspace, hcur]
    refine Prog.bind_error ?_
    unfold ext2WriteBuffer
    rw [if_neg (Nat.not_le.2 hcross)]
    rfl

/-- Where no sector can be selected nothing is written. -/
theorem ext2WriteFrom_failed {data : List UInt8} {m₁ : Machine} {fe₁ : FileEnt} {r : Int}
    (hsel : ext2SelectBuffer fe h m = .ok ((r, fe₁), m₁)) (hr : r ≠ 0) (hne : data ≠ []) :
    ext2WriteFrom fe data h m = .ok ((-1, fe₁), { m₁ with rerrno := .eio }) := by
  obtain ⟨n, hn⟩ := Nat.exists_eq_add_of_lt (List.length_pos_iff.2 hne)
  rw [Nat.zero_add] at hn
  have hloop : ext2WriteLoop (n + 1) data 0 fe h m = .ok ((none, fe₁), { m₁ with rerrno := .eio }) := by
    rw [ext2WriteLoop, if_neg hne, Prog.bind_ok hsel]
    dsimp only
    rw [if_pos hr]
    rfl
  rw [← hn] at hloop
  rw [ext2WriteFrom, Prog.bind_ok hloop]
  rfl

theorem ext2WriteFrom_error {data : List UInt8} {e : Fault} (hsel : ext2SelectBuffer fe h m = .error e)
    (hne : data ≠ []) : ext2WriteFrom fe data h m = .error e := by
  obtain ⟨n, hn⟩ := Nat.exists_eq_add_of_lt (List.length_pos_iff.2 hne)
  rw [Nat.zero_add] at hn
  refine Prog.bind_error ?_
  rw [hn, ext2WriteLoop, if_neg hne]
  exact Prog.bind_error hsel

/-- Where the data of a write starts: at the end of the file for a handle in append mode. -/
def FileEnt.writeStart (fe : FileEnt) : FileEnt :=
  if fe.flags.append then { fe with cursor := fe.inode.iSize.toNat } else fe

/-- The handle takes data: it is open for writing, and the seek of an append does not return -1. -/
structure FileEnt.Accepts (fe : FileEnt) : Prop where
  magic : fe.magic = embextMagic
  write : fe.flags.write = true
  seek : fe.flags.append = true → toInt32 (fe.inode.iSize.toNat : Int) ≠ -1

theorem writeStart_eq (fe : FileEnt) :
    fe.writeStart = { fe with cursor := fe.writeStart.cursor } := by
  unfold FileEnt.writeStart
  split <;> rfl

/-- How a call of `ext2_write` returns, whatever transfers fail. A refused append has moved the
    cursor when the seek returned -1. -/
inductive WriteReturn (h : Host) (m : Machine) (fe : FileEnt) (data : List UInt8) :
    Int → FileEnt → Machine → Prop where
  | refused (start : FileEnt) (e : Errno) (hstart : start = fe ∨ start = fe.writeStart) :
      WriteReturn h m fe data (-1) start { m with rerrno := e }
  | empty (hdata : data = []) : WriteReturn h m fe data 0 fe.writeStart m
  | failed {r : Int} {fe' : FileEnt} {m' : Machine} (hr : r ≠ 0)
      (hsel : ext2SelectBuffer fe.writeStart h m = .ok ((r, fe'), m')) :
      WriteReturn h m fe data (-1) fe' { m' with rerrno := .eio }
  | wrote {fe' : FileEnt} {m' : Machine} (hne : data ≠ []) (haccepts : fe.Accepts)
      (hsel : ext2SelectBuffer fe.writeStart h m = .ok ((0, fe'), m'))
      (hfit : (fe.writeStart.cursor % 512).toNat + data.length ≤ 512) :
      WriteReturn h m fe data data.length (fe'.wrote data (h.clock m'.ticks))
        { m' with ticks := m'.ticks + 1 }

theorem ext2WriteFrom_return {start : FileEnt} {data : List UInt8} {r : Int}
    (hstart : fe.writeStart = start) (ha : fe.Accepts)
    (hrun : ext2WriteFrom start data h m = .ok ((r, fe'), m')) :
    WriteReturn h m fe data r fe' m' := by
  by_cases hne : data = []
  · rw [ext2WriteFrom, hne, Prog.bind_ok (ext2WriteLoop_nil _ _ _)] at hrun
    cases hrun
    rw [← hstart]
    exact .empty hne
  cases hsel : ext2SelectBuffer start h m with
  | error e =>
    rw [ext2WriteFrom_error hsel hne] at hrun
    cases hrun
  | ok x =>
    obtain ⟨⟨r₁, fe₁⟩, m₁⟩ := x
    by_cases hr : r₁ = 0
    · rw [hr] at hsel
      rw [ext2WriteFrom_selected hsel hne] at hrun
      by_cases hfit : (start.cursor % 512).toNat + data.length ≤ 512
      · rw [if_pos hfit] at hrun
        cases hrun
        rw [← hstart] at hsel hfit
        exact .wrote hne ha hsel hfit
      · rw [if_neg hfit] at hrun
        cases hrun
    · rw [ext2WriteFrom_failed hsel hr hne] at hrun
      cases hrun
      exact .failed hr (hstart ▸ hsel)

theorem FileEnt.Accepts.ext2Write_eq {data : List UInt8} (ha : fe.Accepts) :
    ext2Write fe data h m = ext2WriteFrom fe.writeStart data h m := by
  unfold ext2Write FileEnt.writeStart
  rw [if_neg (not_not.2 ha.magic), if_neg (by rw [ha.write]; decide)]
  by_cases happ : fe.flags.append = true
  · rw [if_pos happ, if_pos happ, Prog.bind_ok (ext2Lseek_end ha.magic le_rfl (Int.add_zero _))]
    exact (Prog.ite_apply _ _ _ _ _).trans (if_neg (ha.seek happ))
  · rw [if_neg happ, if_neg happ]

theorem ext2Write_return {data : List UInt8} {r : Int}
    (hrun : ext2Write fe data h m = .ok ((r, fe'), m')) : WriteReturn h m fe data r fe' m' := by
  by_cases hmagic : fe.magic ≠ embextMagic
  · unfold ext2Write at hrun
    rw [if_pos hmagic] at hrun
    cases hrun
    exact .refused fe .ebadf (.inl rfl)
  by_cases hwrite : fe.flags.write = true
  · by_cases hseek : fe.flags.append = true → toInt32 (fe.inode.iSize.toNat : Int) ≠ -1
    · have ha : fe.Accepts := ⟨not_not.1 hmagic, hwrite, hseek⟩
      rw [ha.ext2Write_eq] at hrun
      exact ext2WriteFrom_return rfl ha hrun
    · obtain ⟨happ, hfail⟩ := Classical.not_imp.1 hseek
      unfold ext2Write at hrun
      rw [if_neg hmagic, if_neg (by rw [hwrite]; decide), if_pos happ,
        Prog.bind_ok (ext2Lseek_end (not_not.1 hmagic) le_rfl (Int.add_zero _))] at hrun
      dsimp only at hrun
      rw [if_pos (not_not.1 hfail)] at hrun
      cases hrun
      exact .refused _ m.rerrno (.inr (by rw [FileEnt.writeStart, if_pos happ]))
  · unfold ext2Write at hrun
    rw [if_neg hmagic, if_pos (by simpa using hwrite)] at hrun
    cases hrun
    exact .refused fe .ebadf (.inl rfl)

/-! ## A write when no transfer fails -/

/-- How a call of `ext2_write` can return: with nothing written, with a selection that failed, or
    after one copy of all the data. -/
inductive WriteOutcome (h : Host) (m : Machine) (fe : FileEnt) (data : List UInt8) :
    Int → FileEnt → Machine → Prop where
  | nothing {r : Int} (c : Int) (e : Errno) (hr : r ≤ 0) :
      WriteOutcome h m fe data r { fe with cursor := c } { m with rerrno := e }
  | failed {r : Int} {fe' : FileEnt} {m' : Machine} (hr : r ≠ 0)
      (hsel : ext2SelectBuffer fe.writeStart h m = .ok ((r, fe'), m')) :
      WriteOutcome h m fe data (-1) fe' { m' with rerrno := .eio }
  | wrote {fe' : FileEnt} {m' : Machine} (hne : data ≠ []) (hwrite : fe.flags.write = true)
      (hsel : Selected m fe.writeStart m' fe')
      (hfit : (fe.writeStart.cursor % 512).toNat + data.length ≤ 512) :
      WriteOutcome h m fe data data.length (fe'.wrote data (h.clock m'.ticks))
        { m' with ticks := m'.ticks + 1 }

theorem ext2Write_outcome (hh : h.Reliable) {data : List UInt8} {r : Int}
    (hrun : ext2Write fe data h m = .ok ((r, fe'), m')) : WriteOutcome h m fe data r fe' m' := by
  cases ext2Write_return hrun with
  | refused start e hstart =>
    rcases hstart with rfl | rfl
    · exact .nothing fe'.cursor e (by decide)
    · rw [writeStart_eq]
      exact .nothing fe.writeStart.cursor e (by decide)
  | empty hdata =>
    rw [writeStart_eq]
    exact .nothing fe.writeStart.cursor m.rerrno le_rfl
  | failed hr hsel => exact .failed hr hsel
  | wrote hne ha hsel hfit =>
    exact .wrote hne ha.write (ext2SelectBuffer_selected hh hsel) hfit

/-! ## Closing -/

theorem Host.reliable_reliable (h : Host) : h.reliable.Reliable := fun _ => rfl

/-- A store that reports success is the store of a driver that never fails. -/
theorem of_ext2StoreBuffer_ok (hrun : ext2StoreBuffer fe h m = .ok ((0, fe'), m')) :
    fe' = { fe with buffer := { fe.buffer with dirty := false } } ∧
      m' = { m with
        disk := Function.update m.disk (fe.buffer.lbaBlock + m.ctx.partStart) fe.buffer.buffer
        log := .write (fe.buffer.lbaBlock + m.ctx.partStart) true :: m.log } := by
  have hok : ext2StoreBuffer fe h.reliable m = .ok ((0, fe'), m') := by
    have hsteps : Steps True (ext2StoreBuffer fe) := steps_ext2StoreBuffer fe
    refine hsteps.reliable hrun fun k hlo hhi => ?_
    obtain ⟨ctx, m₁, hctx, hrun⟩ := Prog.of_bind_ok hrun
    cases hctx
    obtain ⟨r, m₂, hw, hrun⟩ := Prog.of_bind_ok hrun
    unfold blockWrite at hw
    by_cases hf : h.fails m.log.length = true
    · rw [if_pos hf] at hw
      cases hw
      cases hrun
    · rw [if_neg hf] at hw
      cases hw
      cases hrun
      obtain rfl : k = m.log.length := Nat.le_antisymm (Nat.le_of_lt_succ hhi) hlo
      simpa using hf
  rw [ext2StoreBuffer_ok h.reliable_reliable] at hok
  cases hok
  exact ⟨rfl, rfl⟩

/-- The first half of `ext2_close`, when it succeeds, leaves a clean buffer over the view. -/
theorem of_closeStore (hrun : (if fe.buffer.dirty then ext2StoreBuffer fe else pure (0, fe) :
    Drv (Int × FileEnt)) h m = .ok ((0, fe'), m')) :
    fe' = { fe with buffer := fe'.buffer } ∧ fe'.buffer.dirty = false ∧
      m' = { m with disk := view m fe, log := m'.log } ∧
      m'.log.length = m.log.length + if fe.buffer.dirty then 1 else 0 := by
  by_cases hd : fe.buffer.dirty = true
  · rw [if_pos hd] at hrun
    obtain ⟨rfl, rfl⟩ := of_ext2StoreBuffer_ok hrun
    refine ⟨rfl, rfl, ?_, ?_⟩
    · rw [view, if_pos hd]
    · rw [if_pos hd]
      rfl
  · rw [if_neg hd] at hrun
    cases hrun
    refine ⟨rfl, by simpa using hd, ?_, ?_⟩
    · rw [view, if_neg hd]
    · rw [if_neg hd]
      rfl

/-- A close that succeeds stores a dirty buffer, then flushes the inode of a marked handle. -/
theorem of_ext2Close_ok (hrun : ext2Close fe h m = .ok ((0, fe'), m')) : ∃ fe₁ m₁,
    (if fe.buffer.dirty then ext2StoreBuffer fe else pure (0, fe) : Drv (Int × FileEnt)) h m
      = .ok ((0, fe₁), m₁) ∧
    (fe.flags.fsDirty = true → ∃ r fe₂, ext2FlushInode fe₁ h m₁ = .ok ((r, fe₂), m')) ∧
    (fe.flags.fsDirty = false → m' = m₁) := by
  unfold ext2Close at hrun
  by_cases hmagic : fe.magic ≠ embextMagic
  · rw [if_pos hmagic] at hrun
    cases hrun
  rw [if_neg hmagic] at hrun
  obtain ⟨⟨r₁, fe₁⟩, m₁, hstore, htail⟩ := Prog.of_bind_ok hrun
  by_cases hr₁ : r₁ ≠ 0
  · dsimp only at htail
    rw [if_pos hr₁] at htail
    cases htail
  obtain rfl := not_not.1 hr₁
  have hflags : fe₁.flags = fe.flags := by rw [(of_closeStore hstore).1]
  refine ⟨fe₁, m₁, hstore, fun hd => ?_, fun hd => ?_⟩
  · dsimp only at htail
    rw [if_neg hr₁, if_pos (by rw [hflags]; exact hd)] at htail
    obtain ⟨⟨r₂, fe₂⟩, m₂, hflush, htail⟩ := Prog.of_bind_ok htail
    obtain rfl : m' = m₂ := by
      by_cases hr₂ : r₂ ≠ 0
      · dsimp only at htail
        rw [if_pos hr₂] at htail
        cases htail
      · dsimp only at htail
        rw [if_neg hr₂] at htail
        cases htail
        rfl
    exact ⟨r₂, fe₂, hflush⟩
  · dsimp only at htail
    rw [if_neg hr₁, if_neg (by rw [hflags, hd]; decide)] at htail
    cases htail
    rfl

end Embext
