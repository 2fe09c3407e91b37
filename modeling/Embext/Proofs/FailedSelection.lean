import Embext.Proofs.Bitmap
import Embext.Proofs.ReadOnly

set_option autoImplicit false

/-! # Selections that fail

`ext2_select_buffer` fails on a hole of a handle that may not write, and where no block can be
allocated. Up to there it loads sectors through the handle and reads bitmaps and descriptors, and as
long as block numbers do not wrap to 0 it does nothing else. So whatever loads and reads keep holds
after a failed selection. -/

namespace Embext

open Prog (maintains_pure maintains_ite ensures_ite ensures_pure)

variable {h : Host} {m m' : Machine} {fe fe' : FileEnt}

/-! ## An allocation that fails -/

/-- Every block of the groups has a 32-bit number. -/
def Ext2Context.Numbered (ctx : Ext2Context) : Prop :=
  ctx.numBlockgroups.toNat * ctx.superblock.sBlocksPerGroup.toNat < 2 ^ 32

/-- A group with something free is one of the volume's. -/
theorem mostFreeGroup_lt (free : BlockGroupDescriptor → UInt16) {N : Nat} (hN : N < 2 ^ 32)
    (n : Nat) : ∀ (i : UInt32) (most : UInt16) (g : UInt32), i.toNat + n = N →
      (most = 0 ∨ g.toNat < N) →
      (mostFreeGroup free n i most g).Maintains h (fun _ => True) fun a => a.1 = 0 ∨ a.2.toNat < N := by
  induction n with
  | zero => exact fun i most g _ hg => maintains_pure hg
  | succ n ih =>
    intro i most g hi hg
    have hnext : (i + 1).toNat + n = N := by
      rw [UInt32.toNat_add]
      have h1 : (1 : UInt32).toNat = 1 := rfl
      omega
    exact Prog.maintains_skip fun bg =>
      maintains_ite (fun _ => ih _ _ _ hnext (.inr (by omega))) fun _ => ih _ _ _ hnext hg

/-- A bit found in a bitmap lies in the bytes that were scanned. -/
theorem scanBitmap_lt (bitmap : UInt32) (n : Nat) : ∀ i fe,
    (scanBitmap bitmap n i fe).Maintains h (fun _ => True)
      fun a => ∀ k b j, a.1 = some (k, b, j) → k < i + n ∧ j < 8 := by
  induction n with
  | zero => exact fun i fe => maintains_pure fun k b j hx => absurd hx (by simp)
  | succ n ih =>
    intro i fe
    refine Prog.maintains_skip fun (_, fe) => Prog.maintains_skip fun byte => ?_
    dsimp only
    split
    · next j hj =>
      refine maintains_pure fun k b j' hx => ?_
      cases hx
      exact ⟨by omega, firstClearBit_lt hj⟩
    · refine (ih (i + 1) fe).mono fun a ha k b j hx => ?_
      obtain ⟨hk, hj⟩ := ha k b j hx
      exact ⟨by omega, hj⟩

variable {m₀ : Machine} {F : FileFlags → Prop}

/-- A bit that could not be changed was not written. -/
theorem quiet_ext2ChangeAllocated (block : UInt32) (set dir : Bool) :
    (ext2ChangeAllocated block set dir).Ensures h (Quiet m₀) fun r s => r ≠ 0 → Quiet m₀ s := by
  unfold ext2ChangeAllocated
  refine quiet_getCtx.bind_ensures fun ctx _ => (quiet_udiv _ _).bind_ensures fun g _ =>
    (quiet_ext2BgDescriptor _).bind_ensures fun bg _ => (quiet_umod _ _).bind_ensures fun off _ =>
      (quiet_readSysbuf _).bind_ensures fun _ _ => quiet_getCtx.bind_ensures fun ctx _ =>
        ensures_ite (fun _ => ensures_pure fun _ hs _ => hs) fun _ => ?_
  -- from the write on, the result is 0
  intro s r s' _ hrun hr
  obtain ⟨_, _, -, hrun⟩ := Prog.of_bind_ok hrun
  obtain ⟨_, _, -, hrun⟩ := Prog.of_bind_ok hrun
  obtain ⟨_, _, -, hrun⟩ := Prog.of_bind_ok hrun
  obtain ⟨_, _, -, hrun⟩ := Prog.of_bind_ok hrun
  obtain ⟨_, _, -, hrun⟩ := Prog.of_bind_ok hrun
  cases hrun
  exact absurd rfl hr

/-- A block number of a group of the volume is not 0. -/
theorem blockNo_ne_zero {per g N k j : Nat} (hnum : N * per < 2 ^ 32) (hg : g < N)
    (hk : k < per / 8) (hj : j < 8) : UInt32.ofNat (per * g + k * 8 + j + 1) ≠ 0 := by
  have hle : per * g + per ≤ N * per := by
    calc per * g + per = (g + 1) * per := by ring
      _ ≤ N * per := Nat.mul_le_mul_right _ hg
  intro h0
  have hnat := congrArg UInt32.toNat h0
  rw [UInt32.toNat_ofNat_of_lt' (by show _ < 2 ^ 32; omega)] at hnat
  exact absurd hnat (Nat.succ_ne_zero _)

/-! ## A selection that fails -/

/-- What holds of a handle and a machine and is kept by loads through the handle, and by everything
    that only reads the device. -/
structure LoadInvariant (h : Host) (I : FileEnt → Machine → Prop) : Prop where
  numbered {fe : FileEnt} {s : Machine} : I fe s → s.ctx.Numbered
  quiet {fe : FileEnt} {s s' : Machine} : I fe s → Quiet s s' → I fe s'
  code {fe : FileEnt} {s : Machine} (e : Errno) : I fe s → I { fe with rerrno := e } s
  load (fe : FileEnt) (b off : UInt32) :
    (ext2LoadBuffer fe b off).Ensures h (I fe) fun a s => I a.2 s

namespace LoadInvariant

variable {I : FileEnt → Machine → Prop} (hI : LoadInvariant h I)
include hI

theorem of_quiet {α : Type} {p : Drv α} {P : α → Prop} (hp : ∀ m, p.Maintains h (Quiet m) P) :
    p.Maintains h (I fe) P := by
  intro s a s' hs hrun
  obtain ⟨hq, hP⟩ := hp s s a s' (.refl s) hrun
  exact ⟨hI.quiet hs hq, hP⟩

theorem getCtx : Embext.getCtx.Maintains h (I fe) Ext2Context.Numbered := by
  intro s c s' hs hrun
  cases hrun
  exact ⟨hs, hI.numbered hs⟩

theorem readPointer (fe : FileEnt) (table : UInt32) (i : Nat) :
    (ext2ReadPointer fe table i).Ensures h (I fe) fun a s => I a.2 s := by
  unfold ext2ReadPointer ext2ReadBufferU32
  refine .bind (hI.load fe _ _) fun (_, fe') =>
    (hI.of_quiet (P := fun _ => True) fun m => ?_).bind_ensures fun block _ =>
      ensures_pure fun _ hs => hs
  exact (quiet_ext2ReadBuffer _ _ _).bind fun l _ => maintains_pure trivial

theorem blockFromOffset (fe : FileEnt) (offset : Nat) :
    (ext2BlockFromOffset fe offset).Ensures h (I fe) fun a s => I a.2 s := by
  unfold ext2BlockFromOffset
  refine (hI.of_quiet fun m => quiet_ext2BlockSize).bind_ensures fun bs _ => ?_
  refine ensures_ite (fun _ => ensures_pure fun _ hs => hs) fun _ =>
    ensures_ite (fun _ => hI.readPointer _ _ _) fun _ => ensures_ite (fun _ => ?_) fun _ =>
      ensures_ite (fun _ => ?_) fun _ => ensures_pure fun _ hs => hs
  · exact .bind (hI.readPointer _ _ _) fun (b, fe') => hI.readPointer _ _ _
  · exact .bind (hI.readPointer _ _ _) fun (b, fe') =>
      .bind (hI.readPointer _ _ _) fun (b, fe') => hI.readPointer _ _ _

theorem scanBitmap (bitmap : UInt32) (n : Nat) : ∀ i fe,
    (Embext.scanBitmap bitmap n i fe).Ensures h (I fe) fun a s => I a.2 s := by
  induction n with
  | zero => exact fun i fe => ensures_pure fun _ hs => hs
  | succ n ih =>
    intro i fe
    refine .bind (hI.load _ _ _) fun (_, fe') =>
      (hI.of_quiet fun m => quiet_ext2ReadBuffer _ _ _).bind_ensures fun byte _ => ?_
    dsimp only
    split
    · exact ensures_pure fun _ hs => hs
    · exact ih _ _

/-- An allocation that fails has loaded and read, and written nothing else. -/
theorem allocateBlock (fe : FileEnt) (previous : UInt32) :
    (ext2AllocateBlock fe previous).Ensures h (I fe) fun a s => a.1 = 0 → I a.2 s := by
  unfold ext2AllocateBlock
  refine hI.getCtx.bind_ensures fun ctx hnum => ?_
  refine ((hI.of_quiet fun m => quiet_mostFreeGroup _ _ _ _ _).and (mostFreeGroup_lt _
    ctx.numBlockgroups.toNat_lt _ 0 0 0 (Nat.zero_add _) (.inl rfl))).bind_ensures
      fun (most, g) hmost => ?_
  refine ensures_ite (fun _ => ensures_pure fun s hs _ => hI.code _ hs) fun hne => ?_
  have hg : g.toNat < ctx.numBlockgroups.toNat := hmost.2.resolve_left hne
  refine (hI.of_quiet fun m => quiet_ext2BgDescriptor _).bind_ensures fun bg _ =>
    (hI.scanBitmap _ _ _ _).bind_value (scanBitmap_lt _ _ _ _) fun (found, fe₁) hfound => ?_
  cases found with
  | none => exact ensures_pure fun s hs _ => hs
  | some x =>
    obtain ⟨k, b, j⟩ := x
    obtain ⟨hk, hj⟩ := hfound k b j rfl
    refine .bind (S := fun r s => r ≠ 0 → I fe₁ s) (fun s r s' hs hrun hr => ?_)
      fun r => ensures_ite (fun hr => ensures_pure fun s hs _ => hs hr) fun _ =>
        ensures_pure fun s _ h0 => absurd h0 (blockNo_ne_zero hnum hg (by omega) hj)
    exact hI.quiet hs (quiet_ext2ChangeAllocated _ _ _ s r s' (.refl s) hrun hr)

/-- So has a selection that fails. -/
theorem selectBuffer (fe : FileEnt) :
    (ext2SelectBuffer fe).Ensures h (I fe) fun a s => a.1 ≠ 0 → I a.2 s := by
  unfold ext2SelectBuffer
  refine (hI.of_quiet fun m => quiet_ext2BlockSize).bind_ensures fun bs _ =>
    .bind (hI.blockFromOffset _ _) fun (block, fe') =>
      .bind (hI.blockFromOffset _ _) fun (previous, fe') => ensures_ite (fun _ => ?_)
        fun _ => ensures_ite (fun _ => ?_) fun _ => ensures_pure fun _ hs _ => hs
  · exact .bind (hI.load _ _ _) fun (_, fe') => ensures_pure fun _ _ h0 => absurd rfl h0
  · refine .bind (hI.allocateBlock fe' _) fun (b, fe₂) => ensures_ite (fun _ => ?_)
      fun hb => ensures_pure fun s hs _ => hs (not_not.1 hb)
    intro s a s' _ hrun h0
    obtain ⟨_, _, -, hrun⟩ := Prog.of_bind_ok hrun
    cases hrun
    exact absurd rfl h0

end LoadInvariant

/-- A selection that fails on an idle handle has written nothing. -/
theorem quiet_ext2SelectBuffer_failed (hnum : m₀.ctx.Numbered) {fe : FileEnt} (hfe : fe.Idle F) :
    (ext2SelectBuffer fe).Ensures h (Quiet m₀)
      fun a s => a.1 ≠ 0 → Quiet m₀ s ∧ a.2.Idle F := by
  have hI : LoadInvariant h fun fe s => Quiet m₀ s ∧ fe.Idle F :=
    { numbered := fun hs => by
        unfold Ext2Context.Numbered
        rw [hs.1.ctx]
        exact hnum
      quiet := fun hs hq => ⟨hs.1.trans hq, hs.2⟩
      code := fun _ hs => ⟨hs.1, hs.2.clean, hs.2.flags⟩
      load := fun fe b off s a s' hs hrun => quiet_ext2LoadBuffer hs.2 b off s a s' hs.1 hrun }
  exact fun s a s' hs hrun => hI.selectBuffer fe s a s' ⟨hs, hfe⟩ hrun

end Embext
