import Embext.Proofs.Frame

set_option autoImplicit false

/-! # The handle through its calls

What the calls do to the handle they are given, whatever transfers fail. `SameFile` says that only
the buffer and the error code differ; `Pending m₀ t` that sector `t` has been written since `m₀` or
still waits in the dirty buffer of a handle whose inode is to be flushed. Only `ext2_close` ends the
second alternative. -/

namespace Embext

open Prog (Ensures ensures_pure ensures_fault ensures_ite maintains_pure maintains_ite
  maintains_skip)

variable {h : Host}

/-! ## Same file -/

/-- Two states of one handle that differ at most in the buffer and the error code. -/
def FileEnt.SameFile (fe fe' : FileEnt) : Prop :=
  fe' = { fe with buffer := fe'.buffer, rerrno := fe'.rerrno }

theorem FileEnt.SameFile.refl (fe : FileEnt) : fe.SameFile fe := rfl

theorem FileEnt.SameFile.trans {fe₁ fe₂ fe₃ : FileEnt} (h₁ : fe₁.SameFile fe₂)
    (h₂ : fe₂.SameFile fe₃) : fe₁.SameFile fe₃ := by
  unfold SameFile at *
  rw [h₂, h₁]

/-- A program that hands back the handle it was given, up to the buffer. -/
def KeepsFile {α : Type} (h : Host) (fe : FileEnt) (m : Drv (α × FileEnt)) : Prop :=
  m.Maintains h (fun _ => True) fun a => fe.SameFile a.2

theorem KeepsFile.pure {α : Type} {fe fe' : FileEnt} (a : α) (hfe : fe.SameFile fe') :
    KeepsFile h fe (pure (a, fe')) :=
  Prog.maintains_pure hfe

theorem KeepsFile.ite {α : Type} {fe : FileEnt} {c : Prop} [Decidable c] {m₁ m₂ : Drv (α × FileEnt)}
    (h₁ : c → KeepsFile h fe m₁) (h₂ : ¬ c → KeepsFile h fe m₂) :
    KeepsFile h fe (if c then m₁ else m₂) :=
  Prog.maintains_ite h₁ h₂

/-- A step that does not see the handle. -/
theorem KeepsFile.step {α β : Type} {fe : FileEnt} {m : Drv β} {k : β → Drv (α × FileEnt)}
    (hk : ∀ b, KeepsFile h fe (k b)) : KeepsFile h fe (m >>= k) :=
  Prog.maintains_skip hk

/-- A step that passes the handle on. -/
theorem KeepsFile.bind {α β : Type} {fe : FileEnt} {m : Drv (β × FileEnt)}
    {k : β × FileEnt → Drv (α × FileEnt)} (hm : KeepsFile h fe m)
    (hk : ∀ b fe', KeepsFile h fe' (k (b, fe'))) : KeepsFile h fe (m >>= k) :=
  Prog.Maintains.bind hm fun (b, fe') hfe => (hk b fe').mono fun _ hfe' => hfe.trans hfe'

theorem keeps_ext2StoreBuffer (fe : FileEnt) : KeepsFile h fe (ext2StoreBuffer fe) := by
  unfold ext2StoreBuffer
  exact .step fun ctx => .step fun r => .ite (fun _ => .pure _ rfl) fun _ => .pure _ rfl

theorem keeps_ext2FillBuffer (fe : FileEnt) (b off : UInt32) :
    KeepsFile h fe (ext2FillBuffer fe b off) := by
  unfold ext2FillBuffer
  exact .step fun bs => .step fun ctx => .step fun (_, s) => .pure _ rfl

theorem keeps_ext2LoadBuffer (fe : FileEnt) (b off : UInt32) :
    KeepsFile h fe (ext2LoadBuffer fe b off) := by
  unfold ext2LoadBuffer
  refine .ite (fun _ => .bind (keeps_ext2StoreBuffer _) fun r fe' => ?_) fun _ =>
    keeps_ext2FillBuffer _ _ _
  exact .ite (fun _ => .pure _ (.refl _)) fun _ => keeps_ext2FillBuffer _ _ _

theorem keeps_ext2ReadPointer (fe : FileEnt) (table : UInt32) (i : Nat) :
    KeepsFile h fe (ext2ReadPointer fe table i) := by
  unfold ext2ReadPointer
  exact .bind (keeps_ext2LoadBuffer _ _ _) fun _ fe' => .step fun block => .pure _ (.refl _)

theorem keeps_ext2BlockFromOffset (fe : FileEnt) (offset : Nat) :
    KeepsFile h fe (ext2BlockFromOffset fe offset) := by
  unfold ext2BlockFromOffset
  refine .step fun bs => .ite (fun _ => .pure _ (.refl _)) fun _ =>
    .ite (fun _ => keeps_ext2ReadPointer _ _ _) fun _ => .ite (fun _ => ?_) fun _ =>
      .ite (fun _ => ?_) fun _ => .pure _ (.refl _)
  · exact .bind (keeps_ext2ReadPointer _ _ _) fun b fe' => keeps_ext2ReadPointer _ _ _
  · exact .bind (keeps_ext2ReadPointer _ _ _) fun b fe' =>
      .bind (keeps_ext2ReadPointer _ _ _) fun b fe' => keeps_ext2ReadPointer _ _ _

theorem keeps_scanBitmap (bitmap : UInt32) (n : Nat) :
    ∀ i fe, KeepsFile h fe (scanBitmap bitmap n i fe) := by
  induction n with
  | zero => exact fun i fe => .pure _ (.refl _)
  | succ n ih =>
    intro i fe
    refine .bind (keeps_ext2LoadBuffer _ _ _) fun _ fe' => .step fun byte => ?_
    dsimp only
    split
    · exact .pure _ (.refl _)
    · exact ih _ _

theorem keeps_ext2AllocateBlock (fe : FileEnt) (b : UInt32) :
    KeepsFile h fe (ext2AllocateBlock fe b) := by
  unfold ext2AllocateBlock
  refine .step fun ctx => .step fun (most, g) => .ite (fun _ => .pure _ rfl) fun _ =>
    .step fun bg => .bind (keeps_scanBitmap _ _ _ _) fun found fe' => ?_
  cases found with
  | none => exact .pure _ (.refl _)
  | some x => exact .step fun r => .ite (fun _ => .pure _ (.refl _)) fun _ => .pure _ (.refl _)

/-- A selection that fails has put nothing into the block map. -/
theorem keeps_ext2SelectBuffer (fe : FileEnt) : (ext2SelectBuffer fe).Maintains h (fun _ => True)
    fun a => a.1 ≠ 0 → fe.SameFile a.2 := by
  unfold ext2SelectBuffer
  refine maintains_skip fun bs => Prog.Maintains.bind (keeps_ext2BlockFromOffset fe _)
    fun (block, fe₁) h₁ => Prog.Maintains.bind (keeps_ext2BlockFromOffset fe₁ _)
      fun (previous, fe₂) h₂ => ?_
  refine maintains_ite (fun _ => ?_) fun _ => maintains_ite (fun _ => ?_) fun _ =>
    maintains_pure fun _ => h₁.trans h₂
  · exact maintains_skip fun (_, fe) => maintains_pure fun h0 => absurd rfl h0
  · refine Prog.Maintains.bind (keeps_ext2AllocateBlock fe₂ _) fun (b, fe₃) h₃ =>
      maintains_ite (fun _ => ?_) fun _ => maintains_pure fun _ => (h₁.trans h₂).trans h₃
    exact maintains_skip fun (_, fe) => maintains_pure fun h0 => absurd rfl h0

/-- Two states of one handle that differ at most in the buffer, the error code and the block map. -/
def FileEnt.SameButMap (fe fe' : FileEnt) : Prop :=
  fe' = { fe with
    buffer := fe'.buffer
    rerrno := fe'.rerrno
    inode := { fe.inode with iBlock := fe'.inode.iBlock } }

theorem FileEnt.SameFile.sameButMap {fe fe' : FileEnt} (hs : fe.SameFile fe') :
    fe.SameButMap fe' := by
  unfold SameFile at hs
  rw [hs]
  rfl

theorem FileEnt.SameButMap.trans {fe₁ fe₂ fe₃ : FileEnt} (h₁ : fe₁.SameButMap fe₂)
    (h₂ : fe₂.SameButMap fe₃) : fe₁.SameButMap fe₃ := by
  unfold SameButMap at *
  rw [h₂, h₁]

theorem FileEnt.setBlock_sameButMap (fe : FileEnt) (k : Fin 15) (b : UInt32) :
    fe.SameButMap (fe.setBlock k b) := rfl

/-- Only the block map of the inode changes in a selection. -/
theorem sameButMap_ext2SelectBuffer (fe : FileEnt) :
    (ext2SelectBuffer fe).Maintains h (fun _ => True) fun a => fe.SameButMap a.2 := by
  unfold ext2SelectBuffer
  refine maintains_skip fun bs => Prog.Maintains.bind (keeps_ext2BlockFromOffset fe _)
    fun (block, fe₁) h₁ => Prog.Maintains.bind (keeps_ext2BlockFromOffset fe₁ _)
      fun (previous, fe₂) h₂ => ?_
  refine maintains_ite (fun _ => ?_) fun _ => maintains_ite (fun _ => ?_) fun _ =>
    maintains_pure (h₁.trans h₂).sameButMap
  · exact Prog.Maintains.bind (keeps_ext2LoadBuffer fe₂ _ _) fun (_, fe₃) h₃ =>
      maintains_pure ((h₁.trans h₂).trans h₃).sameButMap
  · refine Prog.Maintains.bind (keeps_ext2AllocateBlock fe₂ _) fun (b, fe₃) h₃ =>
      maintains_ite (fun _ => ?_) fun _ => maintains_pure ((h₁.trans h₂).trans h₃).sameButMap
    refine Prog.Maintains.bind (keeps_ext2LoadBuffer (fe₃.setBlock 0 b) _ _) fun (_, fe₄) h₄ =>
      maintains_pure ?_
    exact (((h₁.trans h₂).trans h₃).sameButMap.trans (fe₃.setBlock_sameButMap 0 b)).trans
      h₄.sameButMap

theorem of_ext2SelectBuffer_ok {fe fe' : FileEnt} {m m' : Machine} {r : Int}
    (hrun : ext2SelectBuffer fe h m = .ok ((r, fe'), m')) : fe.SameButMap fe' :=
  (sameButMap_ext2SelectBuffer fe m _ m' trivial hrun).2

/-! ## Data on its way to the device -/

/-- Sector `t` was written successfully between `m₀` and `m`. -/
def WrittenSince (m₀ : Machine) (t : UInt32) (m : Machine) : Prop :=
  ∃ new, m.log = new ++ m₀.log ∧ .write t true ∈ new

theorem WrittenSince.mono {m₀ m m' : Machine} {t : UInt32} (hw : WrittenSince m₀ t m)
    (hsuf : m.log <:+ m'.log) : WrittenSince m₀ t m' := by
  obtain ⟨new, hnew, ht⟩ := hw
  obtain ⟨later, hlater⟩ := hsuf
  refine ⟨later ++ new, ?_, List.mem_append_right _ ht⟩
  rw [← hlater, hnew, List.append_assoc]

/-- Sector `t` has been written since `m₀`, or waits in the dirty buffer; either way the handle's
    inode is to be flushed. -/
structure Pending (m₀ : Machine) (t : UInt32) (fe : FileEnt) (m : Machine) : Prop where
  flush : fe.flags.fsDirty = true
  data : WrittenSince m₀ t m ∨
    m₀.log <:+ m.log ∧ fe.buffer.dirty = true ∧ fe.buffer.lbaBlock + m.ctx.partStart = t

variable {m₀ : Machine} {t : UInt32}

theorem Pending.written {fe : FileEnt} {m : Machine} (hp : Pending m₀ t fe m)
    (hclean : fe.buffer.dirty = false) : WrittenSince m₀ t m := by
  rcases hp.data with hw | ⟨-, hd, -⟩
  · exact hw
  · exact absurd hd (by rw [hclean]; decide)

/-- What does not see the handle leaves it pending. -/
theorem Steps.pending {α : Type} {m : Drv α} (hm : Steps True m) (fe : FileEnt) :
    m.Ensures h (Pending m₀ t fe) fun _ => Pending m₀ t fe := by
  intro s a s' hs hrun
  have hsuf := hm.suffix hrun
  refine ⟨hs.flush, ?_⟩
  rcases hs.data with hw | ⟨h₀, hd, hlba⟩
  · exact .inl (hw.mono hsuf)
  · refine .inr ⟨h₀.trans hsuf, hd, ?_⟩
    rw [show s'.ctx.partStart = s.ctx.partStart by rw [hm.sameVolume hrun]]
    exact hlba

theorem Steps.written {α : Type} {m : Drv α} (hm : Steps True m) :
    m.Ensures h (WrittenSince m₀ t) fun _ => WrittenSince m₀ t :=
  fun _ _ _ hs hrun => hs.mono (hm.suffix hrun)

/-- A store either reports its failure and changes nothing, or the sector is written. -/
theorem pending_ext2StoreBuffer (fe : FileEnt) : (ext2StoreBuffer fe).Ensures h (Pending m₀ t fe)
    fun a s => Pending m₀ t a.2 s ∧ (a.1 = 0 → WrittenSince m₀ t s) := by
  rintro s ⟨r, fe'⟩ s' hs hrun
  obtain ⟨ctx, s₁, hctx, hrun⟩ := Prog.of_bind_ok hrun
  cases hctx
  obtain ⟨w, s₁, hw, hrun⟩ := Prog.of_bind_ok hrun
  have hsuf : s.log <:+ s₁.log := Steps.suffix (show Steps True _ from .prim (.blockWrite _ _)) hw
  unfold blockWrite at hw
  by_cases hf : h.fails s.log.length = true
  · rw [if_pos hf] at hw
    cases hw
    cases hrun
    refine ⟨⟨hs.flush, ?_⟩, fun h0 => absurd (show (-1 : Int) = 0 from h0) (by decide)⟩
    rcases hs.data with hdone | ⟨h₀, hd, hlba⟩
    · exact .inl (hdone.mono hsuf)
    · exact .inr ⟨h₀.trans hsuf, hd, hlba⟩
  · rw [if_neg hf] at hw
    cases hw
    cases hrun
    have hdone : WrittenSince m₀ t (s.logged (.write (fe.buffer.lbaBlock + s.ctx.partStart) true)) := by
      rcases hs.data with hdone | ⟨⟨new, hnew⟩, hd, hlba⟩
      · exact hdone.mono hsuf
      · refine ⟨.write t true :: new, ?_, List.mem_cons_self⟩
        rw [← hlba, List.cons_append, hnew]
        rfl
    exact ⟨⟨hs.flush, .inl hdone⟩, fun _ => hdone⟩

theorem pending_ext2FillBuffer {fe : FileEnt} (hflush : fe.flags.fsDirty = true) (b off : UInt32) :
    (ext2FillBuffer fe b off).Ensures h (WrittenSince m₀ t) fun a s => Pending m₀ t a.2 s := by
  rintro s ⟨r, fe'⟩ s' hs hrun
  have hfe : fe.SameFile fe' := (keeps_ext2FillBuffer fe b off s _ s' trivial hrun).2
  refine ⟨?_, .inl (hs.mono (Steps.suffix (show Steps True _ from steps_ext2FillBuffer _ _ _) hrun))⟩
  rw [hfe]
  exact hflush

/-- A load puts nothing in the buffer before its old contents are on the device. -/
theorem pending_ext2LoadBuffer (fe : FileEnt) (b off : UInt32) :
    (ext2LoadBuffer fe b off).Ensures h (Pending m₀ t fe) fun a s => Pending m₀ t a.2 s := by
  unfold ext2LoadBuffer
  refine ensures_ite (fun _ => .bind (pending_ext2StoreBuffer fe) fun (r, fe') => ?_) fun hd => ?_
  · refine ensures_ite (fun _ => ensures_pure fun s hs => hs.1) fun h0 s a s' hs hrun => ?_
    exact pending_ext2FillBuffer hs.1.flush b off s a s' (hs.2 (not_not.1 h0)) hrun
  · intro s a s' hs hrun
    exact pending_ext2FillBuffer hs.flush b off s a s' (hs.written (by simpa using hd)) hrun

theorem pending_ext2ReadPointer (fe : FileEnt) (table : UInt32) (i : Nat) :
    (ext2ReadPointer fe table i).Ensures h (Pending m₀ t fe) fun a s => Pending m₀ t a.2 s := by
  unfold ext2ReadPointer ext2ReadBufferU32
  exact .bind (pending_ext2LoadBuffer _ _ _) fun (_, fe') =>
    .bind (Steps.pending (.bind (steps_ext2ReadBuffer _ _ _) fun l => .pure _) fe')
      fun block => ensures_pure fun _ hs => hs

theorem pending_ext2BlockFromOffset (fe : FileEnt) (offset : Nat) :
    (ext2BlockFromOffset fe offset).Ensures h (Pending m₀ t fe) fun a s => Pending m₀ t a.2 s := by
  unfold ext2BlockFromOffset
  refine .bind (Steps.pending steps_ext2BlockSize fe) fun bs => ?_
  refine ensures_ite (fun _ => ensures_pure fun _ hs => hs) fun _ =>
    ensures_ite (fun _ => pending_ext2ReadPointer _ _ _) fun _ => ensures_ite (fun _ => ?_) fun _ =>
      ensures_ite (fun _ => ?_) fun _ => ensures_pure fun _ hs => hs
  · exact .bind (pending_ext2ReadPointer _ _ _) fun (b, fe') => pending_ext2ReadPointer _ _ _
  · exact .bind (pending_ext2ReadPointer _ _ _) fun (b, fe') =>
      .bind (pending_ext2ReadPointer _ _ _) fun (b, fe') => pending_ext2ReadPointer _ _ _

theorem pending_scanBitmap (bitmap : UInt32) (n : Nat) : ∀ i fe,
    (scanBitmap bitmap n i fe).Ensures h (Pending m₀ t fe) fun a s => Pending m₀ t a.2 s := by
  induction n with
  | zero => exact fun i fe => ensures_pure fun _ hs => hs
  | succ n ih =>
    intro i fe
    refine .bind (pending_ext2LoadBuffer _ _ _) fun (_, fe') =>
      .bind (Steps.pending (steps_ext2ReadBuffer _ _ _) fe') fun byte => ?_
    dsimp only
    split
    · exact ensures_pure fun _ hs => hs
    · exact ih _ _

theorem pending_ext2AllocateBlock (fe : FileEnt) (b : UInt32) :
    (ext2AllocateBlock fe b).Ensures h (Pending m₀ t fe) fun a s => Pending m₀ t a.2 s := by
  unfold ext2AllocateBlock
  refine .bind (Steps.pending (.prim .getCtx) fe) fun ctx =>
    .bind (Steps.pending (steps_mostFreeGroup _ _ _ _ _) fe) fun (most, g) =>
      ensures_ite (fun _ => ensures_pure fun _ hs => ⟨hs.flush, hs.data⟩) fun _ =>
        .bind (Steps.pending (steps_ext2BgDescriptor _) fe) fun bg =>
          .bind (pending_scanBitmap _ _ _ _) fun (found, fe') => ?_
  cases found with
  | none => exact ensures_pure fun _ hs => hs
  | some x =>
    exact .bind (Steps.pending (steps_ext2ChangeAllocated _ _ _) fe') fun r =>
      ensures_ite (fun _ => ensures_pure fun _ hs => hs) fun _ => ensures_pure fun _ hs => hs

theorem pending_ext2SelectBuffer (fe : FileEnt) :
    (ext2SelectBuffer fe).Ensures h (Pending m₀ t fe) fun a s => Pending m₀ t a.2 s := by
  unfold ext2SelectBuffer
  refine .bind (Steps.pending steps_ext2BlockSize fe) fun bs =>
    .bind (pending_ext2BlockFromOffset _ _) fun (block, fe') =>
      .bind (pending_ext2BlockFromOffset _ _) fun (previous, fe') => ensures_ite (fun _ => ?_)
        fun _ => ensures_ite (fun _ => ?_) fun _ => ensures_pure fun _ hs => hs
  · exact .bind (pending_ext2LoadBuffer _ _ _) fun (_, fe') => ensures_pure fun _ hs => hs
  · refine .bind (pending_ext2AllocateBlock _ _) fun (b, fe') => ensures_ite (fun _ => ?_)
      fun _ => ensures_pure fun _ hs => hs
    refine .bind (S := fun a s => Pending m₀ t a.2 s) (fun s a s' hs hrun => ?_) fun (_, fe') =>
      ensures_pure fun _ hs => hs
    refine pending_ext2LoadBuffer _ _ _ s a s' ?_ hrun
    exact ⟨hs.flush, hs.data⟩

/-! ## The calls -/

theorem pending_ext2ReadLoop (fuel : Nat) : ∀ left acc fe,
    (ext2ReadLoop fuel left acc fe).Ensures h (Pending m₀ t fe) fun a s => Pending m₀ t a.2 s := by
  induction fuel with
  | zero =>
    exact fun left acc fe => ensures_ite (fun _ => ensures_pure fun _ hs => hs) fun _ =>
      ensures_fault _
  | succ fuel ih =>
    intro left acc fe
    refine ensures_ite (fun _ => ensures_pure fun _ hs => hs) fun _ =>
      ensures_ite (fun _ => ensures_pure fun _ hs => hs) fun _ =>
        .bind (pending_ext2SelectBuffer _) fun (r, fe') => ensures_ite (fun _ => ?_) fun _ => ?_
    · exact .bind (Steps.pending (.prim (.setErrno _)) fe') fun _ =>
        ensures_pure fun _ hs => hs
    · refine .bind (Steps.pending steps_ext2BlockSize fe') fun bs =>
        .bind (Steps.pending (.bind steps_ext2BlockSize fun _ => .pure _) fe')
          fun space => .bind (Steps.pending (steps_ext2ReadBuffer _ _ _) fe')
            fun bytes s a s' hs hrun => ?_
      refine ih _ _ _ s a s' ?_ hrun
      exact ⟨hs.flush, hs.data⟩

theorem pending_setErrno {α : Type} (e : Errno) (a : α) (fe : FileEnt) :
    (do setErrno e; pure (a, fe) : Drv (α × FileEnt)).Ensures h (Pending m₀ t fe)
      fun a s => Pending m₀ t a.2 s :=
  .bind (Steps.pending (.prim (.setErrno _)) fe) fun _ =>
    ensures_pure fun _ hs => hs

theorem pending_ext2Read (fe : FileEnt) (count : Nat) :
    (ext2Read fe count).Ensures h (Pending m₀ t fe) fun a s => Pending m₀ t a.2.2 s := by
  unfold ext2Read
  refine ensures_ite (fun _ => ?_) fun _ =>
    .bind (pending_ext2ReadLoop _ _ _ _) fun (r, fe') => ?_
  · exact .bind (Steps.pending (.prim (.setErrno _)) fe) fun _ =>
      ensures_pure fun _ hs => hs
  · cases r with
    | none => exact ensures_pure fun _ hs => hs
    | some bytes =>
      refine ensures_ite (fun _ => ?_) fun _ => ensures_pure fun _ hs => hs
      exact .bind (.bind (Steps.pending (.prim .timeNull) fe') fun time =>
        ensures_pure (S := fun a s => Pending m₀ t a s) fun _ hs => ⟨rfl, hs.data⟩) fun fe'' =>
          ensures_pure fun _ hs => hs

theorem pending_ext2Lseek (fe : FileEnt) (offset : Int) (whence : Whence) :
    (ext2Lseek fe offset whence).Ensures h (Pending m₀ t fe) fun a s => Pending m₀ t a.2 s := by
  rintro s ⟨r, fe'⟩ s' hs hrun
  obtain ⟨c, e, rfl, rfl⟩ := of_ext2Lseek_ok hrun
  exact ⟨hs.flush, hs.data⟩

theorem pending_ext2WriteLoop (fuel : Nat) : ∀ data done fe,
    (ext2WriteLoop fuel data done fe).Ensures h (Pending m₀ t fe) fun a s => Pending m₀ t a.2 s := by
  induction fuel with
  | zero =>
    exact fun data done fe => ensures_ite (fun _ => ensures_pure fun _ hs => hs) fun _ =>
      ensures_fault _
  | succ fuel ih =>
    intro data done fe
    refine ensures_ite (fun _ => ensures_pure fun _ hs => hs) fun _ =>
      .bind (pending_ext2SelectBuffer _) fun (r, fe') =>
        ensures_ite (fun _ => pending_setErrno _ _ _) fun _ =>
          .bind (Steps.pending steps_ext2BlockSize fe') fun bs =>
            .bind (Steps.pending (.bind steps_ext2BlockSize fun _ => .pure _) fe')
              fun space => ?_
    -- the copy makes the buffer dirty and keeps the sector it belongs to
    refine .bind (S := fun b s => Pending m₀ t { fe' with buffer := b } s) ?_
      fun buffer s a s' hs hrun => ?_
    · refine ensures_ite (fun _ => ensures_pure fun s hs => ⟨hs.flush, ?_⟩) fun _ => ensures_fault _
      exact hs.data.imp id fun hd => ⟨hd.1, rfl, hd.2.2⟩
    · refine ih _ _ _ s a s' ?_ hrun
      split
      · exact ⟨rfl, hs.data⟩
      · exact ⟨hs.flush, hs.data⟩

theorem pending_ext2WriteFrom (fe : FileEnt) (data : List UInt8) :
    (ext2WriteFrom fe data).Ensures h (Pending m₀ t fe) fun a s => Pending m₀ t a.2 s := by
  unfold ext2WriteFrom
  refine .bind (pending_ext2WriteLoop _ _ _ _) fun (r, fe') => ?_
  cases r with
  | none => exact ensures_pure fun _ hs => hs
  | some done =>
    refine ensures_ite (fun _ => ?_) fun _ => ensures_pure fun _ hs => hs
    exact .bind (.bind (Steps.pending (.prim .timeNull) fe') fun time =>
      ensures_pure (S := fun a s => Pending m₀ t a s) fun _ hs => ⟨rfl, hs.data⟩) fun fe'' =>
        ensures_pure fun _ hs => hs

theorem pending_ext2Write (fe : FileEnt) (data : List UInt8) :
    (ext2Write fe data).Ensures h (Pending m₀ t fe) fun a s => Pending m₀ t a.2 s := by
  unfold ext2Write
  refine ensures_ite (fun _ => pending_setErrno _ _ _) fun _ =>
    ensures_ite (fun _ => pending_setErrno _ _ _) fun _ =>
      ensures_ite (fun _ => ?_) fun _ => pending_ext2WriteFrom _ _
  exact .bind (pending_ext2Lseek _ _ _) fun (r, fe') =>
    ensures_ite (fun _ => ensures_pure fun _ hs => hs) fun _ => pending_ext2WriteFrom _ _

/-- `ext2_readdir` keeps what its reads, its seek and the store to `d_name` keep. -/
theorem ensures_ext2Readdir {J : FileEnt → Machine → Prop}
    (hread : ∀ fe n, (ext2Read fe n).Ensures h (J fe) fun a s => J a.2.2 s)
    (hseek : ∀ fe o w, (ext2Lseek fe o w).Ensures h (J fe) fun a s => J a.2 s)
    (hname : ∀ fe (f : (Fin 256 → UInt8) → Fin 256 → UInt8),
      (Prog.modify fun m => { m with dName := f m.dName } : Drv Unit).Ensures h (J fe)
        fun _ => J fe) (fe : FileEnt) :
    (ext2Readdir fe).Ensures h (J fe) fun a s => J a.2 s := by
  unfold ext2Readdir
  refine .bind (hread _ _) fun (r, ino, fe) => ensures_ite (fun _ => ensures_pure fun _ hs => hs)
    fun _ => .bind (hread _ _) fun (r, recLen, fe) =>
      ensures_ite (fun _ => ensures_pure fun _ hs => hs) fun _ =>
        .bind (hread _ _) fun (r, nameLen, fe) =>
          ensures_ite (fun _ => ensures_pure fun _ hs => hs) fun _ => ?_
  refine .bind (hread _ _) fun (r, _, fe) => ensures_ite (fun _ => ensures_pure fun _ hs => hs)
    fun _ => ensures_ite (fun _ => ?_) fun _ => ensures_pure fun _ hs => hs
  exact .bind (hread _ _) fun (_, name, fe) =>
    .bind (hname fe fun d => Window.patch (Window.patch d 0 name) _ [0]) fun _ =>
      .bind (hseek _ _ _) fun (_, fe) => .bind (S := fun _ s => J fe s)
        (fun s a s' hs hrun => by
          cases hrun
          exact hs) fun m => ensures_pure fun _ hs => hs

theorem pending_ext2Readdir (fe : FileEnt) :
    (ext2Readdir fe).Ensures h (Pending m₀ t fe) fun a s => Pending m₀ t a.2 s :=
  ensures_ext2Readdir pending_ext2Read pending_ext2Lseek
    (fun fe f => Steps.pending (.prim (.dName f)) fe) fe

/-- `ext2_flush_inode` always reports success. -/
theorem ext2FlushInode_ret (fe : FileEnt) :
    (ext2FlushInode fe).Maintains h (fun _ => True) fun a => a.1 = 0 := by
  unfold ext2FlushInode
  refine maintains_skip fun ctx => maintains_skip fun g => maintains_skip fun i =>
    maintains_ite (fun _ => ?_) fun _ => maintains_pure rfl
  exact maintains_skip fun bg => maintains_skip fun bs => maintains_skip fun perBlock =>
    maintains_skip fun skip => maintains_skip fun (_, fe) => maintains_skip fun b =>
      maintains_skip fun (_, fe) => maintains_pure rfl

/-- A close that fails leaves the handle as it was, its data still pending. -/
theorem pending_ext2Close (fe : FileEnt) : (ext2Close fe).Ensures h (Pending m₀ t fe)
    fun a s => a.1 ≠ 0 → Pending m₀ t a.2 s := by
  unfold ext2Close
  refine ensures_ite (fun _ => ?_) fun _ => ?_
  · exact .mono (pending_setErrno _ _ _) fun a s hs _ => hs
  · refine .bind (S := fun a s => a.1 ≠ 0 → Pending m₀ t a.2 s)
      (ensures_ite (fun _ => ?_) fun _ => ensures_pure fun _ hs _ => hs) fun (r, fe') =>
        ensures_ite (fun hr => ?_) fun _ => ?_
    · exact .mono (pending_ext2StoreBuffer fe) fun a s hs _ => hs.1
    · intro s a s' hs hrun _
      exact pending_setErrno _ _ _ s a s' (hs hr) hrun
    · -- the flush always reports success
      refine .bind (S := fun a _ => a.1 = 0) (ensures_ite (fun _ s a s' _ hrun => ?_) fun _ =>
        ensures_pure fun _ _ => rfl) fun (r, fe') => ensures_ite (fun hr s a s' h0 => ?_) fun _ =>
          ensures_pure fun _ _ h0 => absurd rfl h0
      · exact (ext2FlushInode_ret fe' s a s' trivial hrun).2
      · exact absurd h0 hr

/-! ## Runs -/

/-- A call on a handle either finds the NULL pointer or runs on an open handle and puts the result
    in its place. A freed handle does not return. -/
theorem of_withHandle_ok {files files' : Files} {fd : Nat} {null reply : Reply}
    {body : FileEnt → Drv (Reply × Option FileEnt)} {m m' : Machine}
    (hrun : withHandle files fd null body h m = .ok ((reply, files'), m')) :
    (files[fd]? = none ∧ files' = files ∧ m' = { m with rerrno := .ebadf }) ∨
    ∃ fe o, files[fd]? = some (some fe) ∧ body fe h m = .ok ((reply, o), m') ∧
      files' = files.set fd o := by
  unfold withHandle at hrun
  rcases hfd : files[fd]? with _ | _ | fe
  · rw [hfd] at hrun
    cases hrun
    exact .inl ⟨rfl, rfl, rfl⟩
  · rw [hfd] at hrun
    cases hrun
  · rw [hfd] at hrun
    obtain ⟨⟨reply', o⟩, m₁, hbody, hrun⟩ := Prog.of_bind_ok hrun
    cases hrun
    exact .inr ⟨fe, o, rfl, hbody, rfl⟩

/-- The same for a handle known to be open. -/
theorem of_withHandle_open {files files' : Files} {fd : Nat} {null reply : Reply} {fe : FileEnt}
    {body : FileEnt → Drv (Reply × Option FileEnt)} {m m' : Machine}
    (hfe : files[fd]? = some (some fe))
    (hrun : withHandle files fd null body h m = .ok ((reply, files'), m')) :
    ∃ o, body fe h m = .ok ((reply, o), m') ∧ files' = files.set fd o := by
  rcases of_withHandle_ok hrun with ⟨hnone, -⟩ | ⟨fe', o, hfe', hbody, hset⟩
  · rw [hfe] at hnone
    cases hnone
  · rw [hfe] at hfe'
    cases hfe'
    exact ⟨o, hbody, hset⟩

/-- Handle `fd` is still pending, if it has not been freed. -/
def PendingAt (m₀ : Machine) (t : UInt32) (fd : Nat) (files : Files) (m : Machine) : Prop :=
  fd < files.length ∧ ∀ fe, files[fd]? = some (some fe) → Pending m₀ t fe m

theorem pendingAt_withHandle {files : Files} {fd g : Nat} {null : Reply}
    {body : FileEnt → Drv (Reply × Option FileEnt)} (hsteps : ∀ fe, Steps True (body fe))
    (hbody : ∀ fe, (body fe).Ensures h (Pending m₀ t fe)
      fun a s => ∀ fe', a.2 = some fe' → Pending m₀ t fe' s) :
    (withHandle files g null body).Ensures h (PendingAt m₀ t fd files)
      fun a s => PendingAt m₀ t fd a.2 s := by
  rintro s ⟨reply, files'⟩ s' ⟨hlt, hp⟩ hrun
  rcases of_withHandle_ok hrun with ⟨-, rfl, rfl⟩ | ⟨fe, o, hg, hbodyrun, rfl⟩
  · exact ⟨hlt, fun fe hfe => ⟨(hp fe hfe).flush, (hp fe hfe).data⟩⟩
  · refine ⟨by simpa using hlt, fun fe' hfe' => ?_⟩
    by_cases hgd : g = fd
    · subst hgd
      rw [List.getElem?_set_self hlt] at hfe'
      exact hbody fe s _ s' (hp fe hg) hbodyrun fe' (Option.some.inj hfe')
    · rw [List.getElem?_set_ne hgd] at hfe'
      exact (hsteps fe).pending fe' s _ s' (hp fe' hfe') hbodyrun

/-- Whatever call is made, on this handle or another, its data stay pending until it is freed. -/
theorem pendingAt_execCall (call : Call) (files : Files) (fd : Nat) :
    (execCall call files).Ensures h (PendingAt m₀ t fd files)
      fun a s => PendingAt m₀ t fd a.2 s := by
  cases call with
  | «open» name flags mode =>
    rintro s ⟨reply, files'⟩ s' ⟨hlt, hp⟩ hrun
    obtain ⟨o, s₁, hopen, hrun⟩ := Prog.of_bind_ok hrun
    have hsame : ∀ fe, files[fd]? = some (some fe) → Pending m₀ t fe s₁ := fun fe hfe =>
      (steps_ext2Open name flags mode).pending fe s _ s₁ (hp fe hfe) hopen
    cases o with
    | none =>
      cases hrun
      exact ⟨hlt, hsame⟩
    | some fe =>
      cases hrun
      refine ⟨by simpa using Nat.lt_succ_of_lt hlt, fun fe' hfe' => hsame fe' ?_⟩
      rwa [List.getElem?_append_left hlt] at hfe'
  | close g =>
    refine pendingAt_withHandle (fun fe => .bind (steps_ext2Close _) fun (r, fe) => .pure _) fun fe =>
      .bind (pending_ext2Close fe) fun (r, fe') => ensures_pure fun s hs f hf => ?_
    dsimp only at hf
    split at hf
    · cases hf
    · next hr =>
      cases hf
      exact hs hr
  | read g count =>
    refine pendingAt_withHandle (fun fe => .bind (steps_ext2Read _ _) fun (r, bytes, fe) => .pure _)
      fun fe => .bind (pending_ext2Read fe count) fun (r, bytes, fe') =>
        ensures_pure fun s hs f hf => ?_
    cases hf
    exact hs
  | write g data =>
    refine pendingAt_withHandle (fun fe => .bind (steps_ext2Write _ _) fun (r, fe) => .pure _)
      fun fe => .bind (pending_ext2Write fe data) fun (r, fe') => ensures_pure fun s hs f hf => ?_
    cases hf
    exact hs
  | lseek g offset whence =>
    refine pendingAt_withHandle (fun fe => .bind (steps_ext2Lseek _ _ _) fun (r, fe) => .pure _)
      fun fe => .bind (pending_ext2Lseek fe offset whence) fun (r, fe') =>
        ensures_pure fun s hs f hf => ?_
    cases hf
    exact hs
  | readdir g =>
    refine pendingAt_withHandle (fun fe => .bind (steps_ext2Readdir _) fun (de, fe) => .pure _)
      fun fe => .bind (pending_ext2Readdir fe) fun (de, fe') => ensures_pure fun s hs f hf => ?_
    cases hf
    exact hs
  | fstat g =>
    refine pendingAt_withHandle (fun fe => .bind (steps_ext2Fstat _) fun (r, st) => .pure _)
      fun fe => .bind (Steps.pending (steps_ext2Fstat fe) fe) fun (r, st) =>
        ensures_pure fun s hs f hf => ?_
    cases hf
    exact hs
  | isatty g =>
    refine pendingAt_withHandle (fun fe => .bind (steps_ext2Isatty _) fun r => .pure _)
      fun fe => .bind (Steps.pending (steps_ext2Isatty fe) fe) fun r =>
        ensures_pure fun s hs f hf => ?_
    cases hf
    exact hs

theorem Run.pendingAt {files files' : Files} {m m' : Machine} {run : List Executed} {fd : Nat}
    (hrun : Run h files m run files' m') (hp : PendingAt m₀ t fd files m) :
    PendingAt m₀ t fd files' m' := by
  induction hrun with
  | nil => exact hp
  | cons c exec rest ih => exact ih (pendingAt_execCall _ _ fd _ _ _ hp exec)

/-- A traced run is one, of the calls it was given. -/
theorem run_of_trace {files' : Files} {m' : Machine} (calls : List Call) :
    ∀ {run : List Executed} {files : Files} {m : Machine},
      trace calls files h m = .ok ((run, files'), m') →
      Run h files m run files' m' ∧ run.map (·.call) = calls := by
  induction calls with
  | nil =>
    intro run files m hrun
    cases hrun
    exact ⟨.nil _ _, rfl⟩
  | cons call rest ih =>
    intro run files m hrun
    obtain ⟨before, m₀, hget, hrun⟩ := Prog.of_bind_ok hrun
    cases hget
    obtain ⟨⟨reply, files₁⟩, m₁, hexec, hrun⟩ := Prog.of_bind_ok hrun
    obtain ⟨after, m₂, hget, hrun⟩ := Prog.of_bind_ok hrun
    cases hget
    obtain ⟨⟨run', files₂⟩, m₂, hrest, hrun⟩ := Prog.of_bind_ok hrun
    cases hrun
    obtain ⟨hR, hcalls⟩ := ih hrest
    exact ⟨Run.cons ⟨call, files, _, reply, files₁, _⟩ hexec hR, by rw [List.map_cons, hcalls]⟩

theorem Run.of_cons {files files' : Files} {m m' : Machine} {c : Executed} {run : List Executed}
    (hrun : Run h files m (c :: run) files' m') : c.files = files ∧ c.before = m ∧
      execCall c.call c.files h c.before = .ok ((c.reply, c.files'), c.after) ∧
      Run h c.files' c.after run files' m' := by
  cases hrun with
  | cons c exec rest => exact ⟨rfl, rfl, exec, rest⟩

theorem Run.of_append {files files' : Files} {m m' : Machine} {run₁ run₂ : List Executed}
    (hrun : Run h files m (run₁ ++ run₂) files' m') :
    ∃ files₁ m₁, Run h files m run₁ files₁ m₁ ∧ Run h files₁ m₁ run₂ files' m' := by
  induction run₁ generalizing files m with
  | nil => exact ⟨files, m, .nil _ _, hrun⟩
  | cons c rest ih =>
    obtain ⟨rfl, rfl, exec, hrest⟩ := Run.of_cons hrun
    obtain ⟨files₁, m₁, h₁, h₂⟩ := ih hrest
    exact ⟨files₁, m₁, .cons c exec h₁, h₂⟩

theorem Run.append {files files₁ files' : Files} {m m₁ m' : Machine} {run₁ run₂ : List Executed}
    (h₁ : Run h files m run₁ files₁ m₁) (h₂ : Run h files₁ m₁ run₂ files' m') :
    Run h files m (run₁ ++ run₂) files' m' := by
  induction h₁ with
  | nil => exact h₂
  | cons c exec rest ih => exact .cons c exec (ih h₂)

theorem Run.sameVolume {files files' : Files} {m m' : Machine} {run : List Executed}
    (hrun : Run h files m run files' m') : m.ctx.SameVolume m'.ctx := by
  induction hrun with
  | nil => exact .refl _
  | cons c exec rest ih => exact ((steps_execCall _ _).sameVolume exec).trans ih

end Embext
