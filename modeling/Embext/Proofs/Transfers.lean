import Embext.Proofs.AllocateBlock
import Embext.Proofs.Create
import Embext.Proofs.Writing

set_option autoImplicit false

/-! # What a transfer leaves behind

`ext2_read` and `ext2_write` either fail before anything moved or move everything at once, so a
failed call is judged by its buffer selection: that may store the buffer and read tables and bitmaps,
which nobody sees through the handle. A write that succeeds is judged by `i_size`, which has 32 bits
where the cursor has 64. -/

namespace Embext

open Prog (ensures_ite ensures_pure)

section

variable {h : Host} {m₀ m m' : Machine} {fe₀ fe fe' : FileEnt}

/-! ## Selections that fail -/

/-- The handle and what is seen through it are as they were with `fe₀` in `m₀`. -/
structure Intact (m₀ : Machine) (fe₀ fe : FileEnt) (m : Machine) : Prop where
  file : fe₀.SameFile fe
  seen : view m fe = view m₀ fe₀
  ctx : m₀.ctx.SameButSysbuf m.ctx

theorem Intact.refl (m : Machine) (fe : FileEnt) : Intact m fe fe m := ⟨rfl, rfl, rfl⟩

theorem Intact.fileBytes_eq (hi : Intact m₀ fe₀ fe m) : fileBytes m fe = fileBytes m₀ fe₀ := by
  have hinode : fe.inode = fe₀.inode := by rw [hi.file]
  unfold fileBytes
  rw [hi.seen, hinode]
  exact congrArg _ (funext fun p => fileByte_sameButSysbuf hi.ctx fe₀.inode p)

theorem Intact.quiet (hi : Intact m₀ fe₀ fe m) (hq : Quiet m m') : Intact m₀ fe₀ fe m' := by
  have hpart : m'.ctx.partStart = m.ctx.partStart := by rw [hq.ctx]
  refine ⟨hi.file, ?_, hi.ctx.trans hq.ctx⟩
  rw [← hi.seen]
  unfold view
  rw [hq.disk, hpart]

/-- A store that fails leaves the buffer dirty, one that succeeds moves it to the device. -/
theorem intact_ext2StoreBuffer (hdirty : fe.buffer.dirty = true) :
    (ext2StoreBuffer fe).Ensures h (Intact m₀ fe₀ fe) fun a s =>
      Intact m₀ fe₀ a.2 s ∧ (a.1 = 0 → a.2.buffer.dirty = false) := by
  rintro s ⟨r, fe'⟩ s' hs hrun
  have hfile : fe₀.SameFile fe' := hs.file.trans (keeps_ext2StoreBuffer fe s _ s' trivial hrun).2
  by_cases hr : r = 0
  · obtain ⟨rfl, rfl⟩ := of_ext2StoreBuffer_ok (hr ▸ hrun)
    refine ⟨⟨hfile, ?_, hs.ctx⟩, fun _ => rfl⟩
    rw [← hs.seen]
    exact (if_neg Bool.false_ne_true).trans (if_pos hdirty).symm
  · obtain ⟨ctx, s₁, hctx, hrun⟩ := Prog.of_bind_ok hrun
    cases hctx
    obtain ⟨w, s₁, hw, hrun⟩ := Prog.of_bind_ok hrun
    unfold blockWrite at hw
    by_cases hf : h.fails s.log.length = true
    · rw [if_pos hf] at hw
      cases hw
      cases hrun
      exact ⟨⟨hfile, by rw [← hs.seen]; rfl, hs.ctx⟩, fun h0 => absurd h0 hr⟩
    · rw [if_neg hf] at hw
      cases hw
      cases hrun
      exact absurd rfl hr

theorem intact_ext2FillBuffer (hclean : fe.buffer.dirty = false) (b off : UInt32) :
    (ext2FillBuffer fe b off).Ensures h (Intact m₀ fe₀ fe) fun a s => Intact m₀ fe₀ a.2 s := by
  rintro s ⟨r, fe'⟩ s' hs hrun
  have hfile : fe.SameFile fe' := (keeps_ext2FillBuffer fe b off s _ s' trivial hrun).2
  have hquiet : (ext2FillBuffer fe b off).Maintains h (Quiet s) fun x => x.2.buffer.dirty = false := by
    unfold ext2FillBuffer
    exact quiet_ext2BlockSize.bind fun bs _ => quiet_getCtx.bind fun ctx _ =>
      (quiet_blockRead _ _).bind fun (_, s) _ => Prog.maintains_pure hclean
  obtain ⟨hq, hclean'⟩ := hquiet s _ s' (.refl s) hrun
  refine ⟨hs.file.trans hfile, ?_, hs.ctx.trans hq.ctx⟩
  rw [← hs.seen]
  unfold view
  rw [hclean', hclean, hq.disk]
  rfl

theorem intact_ext2LoadBuffer (fe : FileEnt) (b off : UInt32) :
    (ext2LoadBuffer fe b off).Ensures h (Intact m₀ fe₀ fe) fun a s => Intact m₀ fe₀ a.2 s := by
  unfold ext2LoadBuffer
  refine ensures_ite (fun hd => .bind (intact_ext2StoreBuffer hd) fun (r, fe') => ?_) fun hd =>
    intact_ext2FillBuffer (by simpa using hd) b off
  refine ensures_ite (fun _ => ensures_pure fun s hs => hs.1) fun h0 s a s' hs hrun => ?_
  exact intact_ext2FillBuffer (hs.2 (not_not.1 h0)) b off s a s' hs.1 hrun

/-- A selection that fails has written nothing but the buffer. -/
theorem intact_ext2SelectBuffer (hnum : m₀.ctx.Numbered) (fe : FileEnt) :
    (ext2SelectBuffer fe).Ensures h (Intact m₀ fe₀ fe) fun a s => a.1 ≠ 0 → Intact m₀ fe₀ a.2 s := by
  have hI : LoadInvariant h (Intact m₀ fe₀) :=
    { numbered := fun hs => by
        unfold Ext2Context.Numbered
        rw [hs.ctx]
        exact hnum
      quiet := Intact.quiet
      code := fun _ hs => ⟨hs.file.trans rfl, hs.seen, hs.ctx⟩
      load := intact_ext2LoadBuffer }
  exact hI.selectBuffer fe

/-! ## Failed calls -/

/-- The size is what it was, and so are the contents wherever every block number fits 32 bits. -/
structure Unchanged (m : Machine) (fe : FileEnt) (m' : Machine) (fe' : FileEnt) : Prop where
  size : fe'.inode.iSize = fe.inode.iSize
  contents : m.ctx.Numbered → fileBytes m' fe' = fileBytes m fe

/-- A selection that fails keeps the cursor and changes nothing seen through the handle. -/
theorem unchanged_of_selection {r : Int} (hr : r ≠ 0)
    (hsel : ext2SelectBuffer fe h m = .ok ((r, fe'), m')) (e : Errno) :
    fe'.cursor = fe.cursor ∧ Unchanged m fe { m' with rerrno := e } fe' := by
  have hsame : fe.SameFile fe' := (keeps_ext2SelectBuffer fe m _ m' trivial hsel).2 hr
  refine ⟨by rw [hsame], by rw [hsame], fun hnum => ?_⟩
  exact (intact_ext2SelectBuffer hnum fe m _ m' (.refl m fe) hsel hr).fileBytes_eq

theorem ext2Read_reports {count : Nat} {r : Int} {bytes : List UInt8}
    (hrun : ext2Read fe count h m = .ok ((r, bytes, fe'), m')) :
    (r = -1 → fe'.cursor = fe.cursor ∧ Unchanged m fe m' fe') ∧
      (r ≠ -1 → 0 ≤ r ∧ r ≤ count ∧ fe'.cursor = fe.cursor + r) := by
  cases ext2Read_return hrun with
  | refused => exact ⟨fun _ => ⟨rfl, rfl, fun _ => rfl⟩, fun hr => absurd rfl hr⟩
  | nothing =>
    exact ⟨fun hr => absurd hr (by decide), fun _ => ⟨le_rfl, by omega, (Int.add_zero _).symm⟩⟩
  | failed hr hsel => exact ⟨fun _ => unchanged_of_selection hr hsel _, fun hr => absurd rfl hr⟩
  | @delivered n fe₁ m₁ hn hle hsel =>
    refine ⟨fun hr => by omega, fun _ => ⟨by omega, by omega, ?_⟩⟩
    have hsame := of_ext2SelectBuffer_ok hsel
    exact congrArg (· + (n : Int)) (show fe₁.cursor = fe.cursor by rw [hsame])

theorem ext2Write_reports {data : List UInt8} {r : Int}
    (hrun : ext2Write fe data h m = .ok ((r, fe'), m')) :
    (r = -1 → (fe'.cursor = fe.cursor ∨ fe'.cursor = fe.writeStart.cursor) ∧
        Unchanged m fe m' fe') ∧
      (r ≠ -1 → 0 ≤ r ∧ r ≤ data.length ∧ fe'.cursor = fe.writeStart.cursor + r) := by
  have hstart := writeStart_eq fe
  cases ext2Write_return hrun with
  | refused start e hs =>
    refine ⟨fun _ => ?_, fun hr => absurd rfl hr⟩
    rcases hs with rfl | rfl
    · exact ⟨.inl rfl, rfl, fun _ => rfl⟩
    · rw [hstart]
      exact ⟨.inr rfl, rfl, fun _ => rfl⟩
  | empty => exact ⟨fun hr => absurd hr (by decide), fun _ => ⟨le_rfl, by omega, (Int.add_zero _).symm⟩⟩
  | failed hr hsel =>
    refine ⟨fun _ => ?_, fun hr => absurd rfl hr⟩
    obtain ⟨hcur, hsize, hbytes⟩ := unchanged_of_selection hr hsel .eio
    refine ⟨.inr hcur, ?_, fun hnum => (hbytes hnum).trans ?_⟩
    · rw [hsize, hstart]
    · rw [hstart]
      rfl
  | @wrote fe₁ m₁ hne hwrite hsel hfit =>
    refine ⟨fun hr => by omega, fun _ => ⟨by omega, le_rfl, ?_⟩⟩
    have hsame := of_ext2SelectBuffer_ok hsel
    exact congrArg (· + (data.length : Int)) (show fe₁.cursor = fe.writeStart.cursor by rw [hsame])

/-- A call of `ext2_write` that writes leaves the larger of the old size and the cursor as the size,
    and one whose data would end behind the largest size fails and keeps the size. -/
def GrowsExactly (h : Host) (m : Machine) (fe : FileEnt) (data : List UInt8) : Prop :=
  ∀ r fe' m', ext2Write fe data h m = .ok ((r, fe'), m') →
    (0 < r → (fe'.inode.iSize.toNat : Int) = max (fe.inode.iSize.toNat : Int) fe'.cursor) ∧
    (data ≠ [] → 2 ^ 32 ≤ fe.writeStart.cursor + data.length →
      r = -1 ∧ fe'.inode.iSize = fe.inode.iSize)

/-- The call gets as far as copying the data: the handle takes it, the buffer can be selected where
    it starts, and it stays inside the sector. -/
structure ReachesCopy (h : Host) (m : Machine) (fe : FileEnt) (data : List UInt8) : Prop where
  accepts : fe.Accepts
  selects : ∃ fe₁ m₁, ext2SelectBuffer fe.writeStart h m = .ok ((0, fe₁), m₁)
  fits : (fe.writeStart.cursor % 512).toNat + data.length ≤ 512

theorem writeStart_iSize (fe : FileEnt) : fe.writeStart.inode.iSize = fe.inode.iSize := by
  rw [writeStart_eq]

theorem sizeAfter_of_lt (inode : Inode) {c : Int} (hc : c < 2 ^ 32) :
    ((sizeAfter inode c).toNat : Int) = max (inode.iSize.toNat : Int) c := by
  unfold sizeAfter
  by_cases hgrow : (inode.iSize.toNat : Int) < c
  · rw [if_pos hgrow, max_eq_right hgrow.le, Int.emod_eq_of_lt (by omega) hc,
      UInt32.toNat_ofNat_of_lt' (show c.toNat < 2 ^ 32 by omega), Int.toNat_of_nonneg (by omega)]
  · rw [if_neg hgrow, max_eq_left (by omega)]

theorem growsExactly_of_lt {data : List UInt8} (hlt : fe.writeStart.cursor + data.length < 2 ^ 32 ∨
    data = [] ∨ ¬ ReachesCopy h m fe data) : GrowsExactly h m fe data := by
  intro r fe' m' hrun
  have hsize := writeStart_iSize fe
  cases ext2Write_return hrun with
  | refused start e hstart =>
    refine ⟨fun hr => absurd hr (by decide), fun _ _ => ⟨rfl, ?_⟩⟩
    rcases hstart with rfl | rfl
    · rfl
    · exact hsize
  | empty hdata => exact ⟨fun hr => absurd hr (by decide), fun hne => absurd hdata hne⟩
  | failed hr hsel =>
    refine ⟨fun hr => absurd hr (by decide), fun _ _ => ⟨rfl, ?_⟩⟩
    rw [of_ext2SelectBuffer_ok hsel]
    exact hsize
  | @wrote fe₁ m₁ hne ha hsel hfit =>
    have hcopied : fe.writeStart.cursor + data.length < 2 ^ 32 := by
      refine hlt.resolve_right (not_or.2 ⟨hne, not_not.2 ⟨ha, ⟨fe₁, m₁, hsel⟩, hfit⟩⟩)
    have hcur : fe₁.cursor = fe.writeStart.cursor := by rw [of_ext2SelectBuffer_ok hsel]
    have hkept : fe₁.inode.iSize = fe.inode.iSize := by
      rw [of_ext2SelectBuffer_ok hsel]
      exact hsize
    rw [← hcur] at hcopied ⊢
    refine ⟨fun _ => ?_, fun _ hbig => absurd hbig (not_le.2 hcopied)⟩
    rw [← hkept]
    exact sizeAfter_of_lt fe₁.inode hcopied

/-- Data that ends behind the largest size is written all the same. -/
theorem not_growsExactly {data : List UInt8} (hne : data ≠ []) (hcopy : ReachesCopy h m fe data)
    (hbig : 2 ^ 32 ≤ fe.writeStart.cursor + data.length) : ¬ GrowsExactly h m fe data := by
  intro hgrows
  obtain ⟨fe₁, m₁, hsel⟩ := hcopy.selects
  have hrun : ext2Write fe data h m = .ok ((data.length, fe₁.wrote data (h.clock m₁.ticks)),
      { m₁ with ticks := m₁.ticks + 1 }) := by
    rw [hcopy.accepts.ext2Write_eq, ext2WriteFrom_selected hsel hne, if_pos hcopy.fits]
  have hfailed := ((hgrows _ _ _ hrun).2 hne hbig).1
  omega

end

namespace SmallVolume

/-- `e` open in append mode, with a hole of one block as its contents. -/
def handleAppending : FileEnt :=
  { FileEnt.fresh with
    flags := ⟨false, true, true, false⟩
    inode := { eInode with iSize := 1024 } }

/-- With every block taken the selection at the end of the file fails. -/
theorem selectsNone : ∃ fe₁ m₁, ext2SelectBuffer handleAppending.writeStart host fullMachine
    = .ok ((-1, fe₁), m₁) := by
  have hs : fullMachine.ctx.SaneBlockSize := machine_sane
  have hhole : ¬ cursorBlock fullMachine handleAppending.writeStart ≠ 0 := by decide +kernel
  have hwrite : handleAppending.writeStart.flags.write = true := rfl
  have hnone : (mostFreeBlocks fullMachine.disk fullMachine.ctx).1 = 0 := by decide +kernel
  obtain ⟨m₁, fe₁, previous, hl, hrun⟩ :=
    ext2SelectBuffer_walk handleAppending.writeStart host_reliable hs
  have hdisk : m₁.disk = fullMachine.disk := (hl.clean rfl).2
  obtain ⟨m₂, hfull, -⟩ := ext2AllocateBlock_full fe₁ host_reliable
    (by rw [hl.ctx_eq]; exact hs) (by rw [hdisk, hl.ctx_eq]; exact hnone) previous
  rw [if_neg hhole, if_pos hwrite, Prog.bind_ok hfull] at hrun
  exact ⟨_, m₂, hrun⟩

/-- `f` open for writing, with the cursor at 32 GiB. -/
def handleFar : FileEnt :=
  { FileEnt.fresh with
    flags := ⟨false, true, false, false⟩
    cursor := 2 ^ 35
    inode := fInode }

theorem handleFar_reachesCopy : ReachesCopy host machine handleFar [7] where
  accepts := ⟨rfl, rfl, fun happ => by cases happ⟩
  selects := by
    have hmapped : cursorBlock machine handleFar.writeStart ≠ 0 := by decide +kernel
    obtain ⟨m₁, fe₁, hsel, -⟩ := ext2SelectBuffer_mapped host_reliable machine_sane hmapped
    exact ⟨fe₁, m₁, hsel⟩
  fits := by decide

end SmallVolume

end Embext
