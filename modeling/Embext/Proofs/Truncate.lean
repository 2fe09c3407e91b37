import Embext.Library.Postorder
import Embext.Proofs.ChangeAllocated
import Embext.Proofs.BlockMap
import Embext.Proofs.Frame

set_option autoImplicit false

/-! # Truncation

`ext2_truncate_file` takes the first zero of a table for its end and starts the triply indirect walk
from `i_block[13]`, which is 0 by then. So what it frees is the file's tree exactly when no table has
a pointer behind a zero and nothing hangs below `i_block[14]`, or block 0 happens to list the
blocks that are missing. -/

namespace Embext

open Postorder

/-! ## The calls of a truncation

`ext2_truncate_file` once more, with the blocks `ext2_change_allocated` is called for. -/

def deallocateCalls (isdir : Bool) (block : UInt32) (fe : FileEnt) :
    Drv (List UInt32 × FileEnt) := do
  let fe ← ext2Deallocate isdir block fe
  pure ([block], fe)

/-- One part of the walk after another. -/
def andThen (first second : FileEnt → Drv (List UInt32 × FileEnt)) (fe : FileEnt) :
    Drv (List UInt32 × FileEnt) := do
  let (l₁, fe) ← first fe
  let (l₂, fe) ← second fe
  pure (l₁ ++ l₂, fe)

def forPointersCalls (table : UInt32) (body : UInt32 → FileEnt → Drv (List UInt32 × FileEnt)) :
    Nat → Nat → FileEnt → Drv (List UInt32 × FileEnt)
  | 0, _, fe => pure ([], fe)
  | n + 1, i, fe => do
    let (block, fe) ← ext2ReadPointer fe table i
    if block ≠ 0 then andThen (body block) (forPointersCalls table body n (i + 1)) fe
    else pure ([], fe)

def truncateDirectCalls (isdir : Bool) : List (Fin 15) → FileEnt → Drv (List UInt32 × FileEnt)
  | [], fe => pure ([], fe)
  | k :: rest, fe => do
    if fe.inode.iBlock k ≠ 0 then
      andThen (deallocateCalls isdir (fe.inode.iBlock k))
        (fun fe => truncateDirectCalls isdir rest (fe.setBlock k 0)) fe
    else truncateDirectCalls isdir rest (fe.setBlock k 0)

/-- One slot of `i_block` below the direct ones: `walk` frees what hangs below. -/
def truncateSlotCalls (isdir : Bool) (k : Fin 15) (walk : FileEnt → Drv (List UInt32 × FileEnt))
    (fe : FileEnt) : Drv (List UInt32 × FileEnt) := do
  if fe.inode.iBlock k ≠ 0 then
    let (l, fe) ← andThen walk (fun fe => deallocateCalls isdir (fe.inode.iBlock k) fe) fe
    pure (l, fe.setBlock k 0)
  else pure ([], fe)

def singleCalls (isdir : Bool) (entries : Nat) (fe : FileEnt) : Drv (List UInt32 × FileEnt) :=
  forPointersCalls (fe.inode.iBlock 12) (deallocateCalls isdir) entries 0 fe

def doubleCalls (isdir : Bool) (entries : Nat) (fe : FileEnt) : Drv (List UInt32 × FileEnt) :=
  forPointersCalls (fe.inode.iBlock 13)
    (fun block => andThen (forPointersCalls block (deallocateCalls isdir) entries 0)
      (deallocateCalls isdir block)) entries 0 fe

def tripleCalls (isdir : Bool) (entries : Nat) (fe : FileEnt) : Drv (List UInt32 × FileEnt) :=
  forPointersCalls (fe.inode.iBlock 13)
    (fun block => andThen (forPointersCalls block
      (fun block2 => andThen (forPointersCalls block (deallocateCalls isdir) entries 0)
        (deallocateCalls isdir block2)) entries 0)
      (deallocateCalls isdir block)) entries 0 fe

/-- The first twelve slots of `i_block`. -/
def directSlots : List (Fin 15) := List.ofFn fun k : Fin 12 => k.castLE (Nat.le_add_right 12 3)

def truncateCalls (fe : FileEnt) : Drv (List UInt32 × FileEnt) := do
  let bs ← ext2BlockSize
  let entries := bs / 4
  let isdir := decide (fe.inode.iMode &&& ext2SIfdir ≠ 0)
  let (l, fe) ← andThen (truncateDirectCalls isdir directSlots)
    (andThen (truncateSlotCalls isdir 12 (singleCalls isdir entries))
      (andThen (truncateSlotCalls isdir 13 (doubleCalls isdir entries))
        (truncateSlotCalls isdir 14 (tripleCalls isdir entries)))) fe
  pure (l, { fe with inode := { fe.inode with iSize := 0, iBlocks := 0 } })

/-! ### Nothing else is different -/

/-- `run` makes the calls of `plain`. -/
def Erases (run : FileEnt → Drv (List UInt32 × FileEnt)) (plain : FileEnt → Drv FileEnt) : Prop :=
  ∀ fe, Prod.snd <$> run fe = plain fe

theorem erases_deallocate (isdir : Bool) (block : UInt32) :
    Erases (deallocateCalls isdir block) (ext2Deallocate isdir block) := by
  intro fe
  unfold deallocateCalls
  simp

theorem Erases.andThen {first second : FileEnt → Drv (List UInt32 × FileEnt)}
    {first' second' : FileEnt → Drv FileEnt} (h₁ : Erases first first') (h₂ : Erases second second') :
    Erases (andThen first second) fun fe => first' fe >>= second' := by
  intro fe
  unfold Embext.andThen
  simp only [← h₁ fe, map_bind, bind_map_left, map_pure, ← h₂ _]
  simp

theorem Erases.forPointers {body : UInt32 → FileEnt → Drv (List UInt32 × FileEnt)}
    {body' : UInt32 → FileEnt → Drv FileEnt} (hbody : ∀ block, Erases (body block) (body' block))
    (table : UInt32) (n : Nat) :
    ∀ i, Erases (forPointersCalls table body n i) (forPointers table body' n i) := by
  induction n with
  | zero =>
    intro i fe
    rfl
  | succ n ih =>
    intro i fe
    unfold forPointersCalls Embext.forPointers
    rw [map_bind]
    refine bind_congr fun (block, fe) => ?_
    by_cases hb : block ≠ 0
    · simp only [if_pos hb]
      exact (hbody block).andThen (ih (i + 1)) fe
    · simp only [if_neg hb, map_pure]

theorem erases_direct (isdir : Bool) (l : List (Fin 15)) :
    Erases (truncateDirectCalls isdir l) (ext2TruncateDirect isdir l) := by
  induction l with
  | nil =>
    intro fe
    rfl
  | cons k rest ih =>
    intro fe
    unfold truncateDirectCalls ext2TruncateDirect
    by_cases hb : fe.inode.iBlock k ≠ 0
    · simp only [if_pos hb]
      exact (erases_deallocate isdir _).andThen (fun fe => ih (fe.setBlock k 0)) fe
    · simp only [if_neg hb]
      exact ih _

theorem erases_slot (isdir : Bool) (k : Fin 15) {walk : FileEnt → Drv (List UInt32 × FileEnt)}
    {walk' : FileEnt → Drv FileEnt} (hwalk : Erases walk walk') :
    Erases (truncateSlotCalls isdir k walk) (fun fe => do
      if fe.inode.iBlock k ≠ 0 then
        let fe ← walk' fe
        let fe ← ext2Deallocate isdir (fe.inode.iBlock k) fe
        pure (fe.setBlock k 0)
      else pure fe) := by
  intro fe
  unfold truncateSlotCalls
  by_cases hb : fe.inode.iBlock k ≠ 0
  · simp only [if_pos hb, map_bind, map_pure]
    have hthen := hwalk.andThen (fun fe => erases_deallocate isdir (fe.inode.iBlock k) fe) fe
    have hzero := congrArg (fun run : Drv FileEnt => run >>= fun fe => pure (fe.setBlock k 0)) hthen
    simpa only [bind_map_left, bind_assoc] using hzero
  · simp only [if_neg hb, map_pure]

/-- Without the record of its calls it is `ext2_truncate_file`. -/
theorem ext2TruncateFile_eq_truncateCalls (fe : FileEnt) : ext2TruncateFile fe = (do
    let (_, fe) ← truncateCalls fe
    pure (0, fe)) := by
  unfold ext2TruncateFile truncateCalls
  rw [bind_assoc]
  refine bind_congr fun bs => ?_
  generalize decide (fe.inode.iMode &&& ext2SIfdir ≠ 0) = isdir
  have hfree := erases_deallocate isdir
  have hsingle : Erases (singleCalls isdir (bs / 4)) fun fe =>
      forPointers (fe.inode.iBlock 12) (ext2Deallocate isdir) (bs / 4) 0 fe :=
    fun fe => Erases.forPointers hfree _ _ 0 fe
  have hdouble : Erases (doubleCalls isdir (bs / 4)) fun fe =>
      forPointers (fe.inode.iBlock 13) (fun block fe => do
        let fe ← forPointers block (ext2Deallocate isdir) (bs / 4) 0 fe
        ext2Deallocate isdir block fe) (bs / 4) 0 fe :=
    fun fe => Erases.forPointers (fun block =>
      (Erases.forPointers hfree block _ 0).andThen (hfree block)) _ _ 0 fe
  have htriple : Erases (tripleCalls isdir (bs / 4)) fun fe =>
      forPointers (fe.inode.iBlock 13) (fun block fe => do
        let fe ← forPointers block (fun block2 fe => do
          let fe ← forPointers block (ext2Deallocate isdir) (bs / 4) 0 fe
          ext2Deallocate isdir block2 fe) (bs / 4) 0 fe
        ext2Deallocate isdir block fe) (bs / 4) 0 fe :=
    fun fe => Erases.forPointers (fun block => (Erases.forPointers (fun block2 =>
      (Erases.forPointers hfree block _ 0).andThen (hfree block2)) block _ 0).andThen
        (hfree block)) _ _ 0 fe
  have hall := (erases_direct isdir directSlots).andThen ((erases_slot isdir 12 hsingle).andThen
    ((erases_slot isdir 13 hdouble).andThen (erases_slot isdir 14 htriple))) fe
  have hsize := congrArg (fun run : Drv FileEnt => run >>= fun fe =>
    pure ((0 : Int), { fe with inode := { fe.inode with iSize := 0, iBlocks := 0 } })) hall
  simp only [bind_map_left, bind_assoc] at hsize
  simp only [bind_assoc, pure_bind]
  exact hsize.symm

/-! ## The blocks of a file and the blocks that are freed -/

variable {v : UInt32 → Sector} {c : Ext2Context} {inode : Inode}

/-- The pointers of the table in block `t`. -/
def tableEntries (v : UInt32 → Sector) (c : Ext2Context) (t : UInt32) : List UInt32 :=
  (List.range (c.blockSize / 4)).map (pointerAt v c t)

/-- A pointer that is not 0. -/
def isSet (b : UInt32) : Bool := b ≠ 0

/-- The direct blocks. -/
def directBlocks (inode : Inode) : List UInt32 := (directSlots.map inode.iBlock).filter isSet

/-- What `f` lists below a slot of `i_block`; nothing hangs below an empty one. -/
def belowSlot (inode : Inode) (f : UInt32 → List UInt32) (k : Fin 15) : List UInt32 :=
  if inode.iBlock k ≠ 0 then f (inode.iBlock k) else []

/-- The data blocks and tables of the file: every nonzero pointer of its tree. -/
def fileTree (v : UInt32 → Sector) (c : Ext2Context) (inode : Inode) : List UInt32 :=
  directBlocks inode ++ (belowSlot inode (full (tableEntries v c) isSet 1) 12 ++
    (belowSlot inode (full (tableEntries v c) isSet 2) 13 ++
      belowSlot inode (full (tableEntries v c) isSet 3) 14))

/-- The pointers of a table up to its first zero. -/
def reached (v : UInt32 → Sector) (c : Ext2Context) (t : UInt32) : List UInt32 :=
  (tableEntries v c t).takeWhile isSet

/-- What the triply indirect walk frees, from block 0 instead of `i_block[14]`, the pointers of
    `block` once for each of them. -/
def strayed (v : UInt32 → Sector) (c : Ext2Context) : List UInt32 :=
  (reached v c 0).flatMap fun block =>
    ((reached v c block).flatMap fun block2 => reached v c block ++ [block2]) ++ [block]

/-- What the walk frees. -/
def freed (v : UInt32 → Sector) (c : Ext2Context) (inode : Inode) : List UInt32 :=
  directBlocks inode ++ (belowSlot inode (cut (tableEntries v c) isSet 1) 12 ++
    (belowSlot inode (cut (tableEntries v c) isSet 2) 13 ++
      belowSlot inode (fun b => strayed v c ++ [b]) 14))

/-- The blocks the walk leaves: behind a zero in a table, and below `i_block[14]`. -/
def missed (v : UInt32 → Sector) (c : Ext2Context) (inode : Inode) : List UInt32 :=
  belowSlot inode (lost (tableEntries v c) isSet 1) 12 ++
    (belowSlot inode (lost (tableEntries v c) isSet 2) 13 ++
      belowSlot inode (fun b => ((tableEntries v c b).filter isSet).flatMap
        (full (tableEntries v c) isSet 2)) 14)

theorem belowSlot_perm (inode : Inode) {f g : UInt32 → List UInt32} (hperm : ∀ b, (f b).Perm (g b)) (k : Fin 15) :
    (belowSlot inode f k).Perm (belowSlot inode g k) := by
  unfold belowSlot
  split
  · exact hperm _
  · rfl

theorem belowSlot_append (f g : UInt32 → List UInt32) (k : Fin 15) :
    belowSlot inode (fun b => f b ++ g b) k = belowSlot inode f k ++ belowSlot inode g k := by
  unfold belowSlot
  split <;> rfl

/-- The walk frees the file's tree when what it frees instead is what it leaves. -/
theorem freed_perm_iff : (freed v c inode).Perm (fileTree v c inode) ↔
    (belowSlot inode (fun _ => strayed v c) 14).Perm (missed v c inode) := by
  have h₁₂ := (belowSlot_perm inode (full_perm (tableEntries v c) isSet 1) 12).count_eq
  have h₁₃ := (belowSlot_perm inode (full_perm (tableEntries v c) isSet 2) 13).count_eq
  -- the tree below `i_block[14]` is its root and the rest
  have h₁₄ : belowSlot inode (full (tableEntries v c) isSet 3) 14
      = belowSlot inode (fun b => ((tableEntries v c b).filter isSet).flatMap
        (full (tableEntries v c) isSet 2)) 14 ++ belowSlot inode (fun b => [b]) 14 :=
    belowSlot_append _ _ 14
  simp only [belowSlot_append, List.count_append] at h₁₂ h₁₃
  unfold freed fileTree missed
  rw [h₁₄, belowSlot_append, List.perm_iff_count, List.perm_iff_count]
  simp only [List.count_append, h₁₂, h₁₃]
  refine forall_congr' fun b => ?_
  omega

/-! ## Walking the tables -/

variable {h : Host} {m m' : Machine} {fe fe' : FileEnt} {i i' i'' : Inode} {l l' : List UInt32}

/-- `ext2_change_allocated` knows the group of the block. -/
def InGroup (c : Ext2Context) (b : UInt32) : Prop :=
  c.superblock.sBlocksPerGroup.toNat ≠ 0 ∧
    b.toNat / c.superblock.sBlocksPerGroup.toNat < c.numBlockgroups.toNat

/-- No bit that `ext2_change_allocated` can change lies in sector `s`. -/
def Unmarked (v : UInt32 → Sector) (c : Ext2Context) (s : UInt32) : Prop :=
  ∀ b, InGroup c b → s ≠ (codePlace v c b).sector

/-- A state of the walk: only sectors with such bits have changed, and no descriptor. -/
structure Walking (v : UInt32 → Sector) (c : Ext2Context) (m : Machine) (fe : FileEnt) : Prop where
  volume : c.SameVolume m.ctx
  view : ∀ s, Unmarked v c s → view m fe s = v s
  descriptors : ∀ g < c.numBlockgroups.toNat, descriptorAt m.disk c g = descriptorAt v c g

/-- From every state of the walk with inode `i` the part makes the calls `l` and ends with inode
    `i'`, or stops at a block of an unknown group. -/
structure Yields (h : Host) (v : UInt32 → Sector) (c : Ext2Context) (i : Inode)
    (part : FileEnt → Drv (List UInt32 × FileEnt)) (l : List UInt32) (i' : Inode) : Prop where
  returns : ∀ m fe, Walking v c m fe → fe.inode = i → (∀ b ∈ l, InGroup c b) →
    ∃ m' fe', part fe h m = .ok ((l, fe'), m') ∧ Walking v c m' fe' ∧ fe'.inode = i'
  faults : ∀ m fe, Walking v c m fe → fe.inode = i → ¬ (∀ b ∈ l, InGroup c b) →
    ∃ e, part fe h m = .error e

section

variable {first second part : FileEnt → Drv (List UInt32 × FileEnt)}

theorem Yields.andThen (h₁ : Yields h v c i first l i') (h₂ : Yields h v c i' second l' i'') :
    Yields h v c i (andThen first second) (l ++ l') i'' where
  returns m fe hw hi hall := by
    simp only [List.mem_append, or_imp, forall_and] at hall
    obtain ⟨m₁, fe₁, hrun₁, hw₁, hi₁⟩ := h₁.returns m fe hw hi hall.1
    obtain ⟨m₂, fe₂, hrun₂, hw₂, hi₂⟩ := h₂.returns m₁ fe₁ hw₁ hi₁ hall.2
    refine ⟨m₂, fe₂, ?_, hw₂, hi₂⟩
    unfold Embext.andThen
    rw [Prog.bind_ok hrun₁]
    exact Prog.bind_ok hrun₂
  faults m fe hw hi hall := by
    unfold Embext.andThen
    by_cases hfirst : ∀ b ∈ l, InGroup c b
    · obtain ⟨m₁, fe₁, hrun₁, hw₁, hi₁⟩ := h₁.returns m fe hw hi hfirst
      obtain ⟨e, hrun₂⟩ := h₂.faults m₁ fe₁ hw₁ hi₁ fun hsecond => hall fun b hb =>
        (List.mem_append.1 hb).elim (hfirst b) (hsecond b)
      refine ⟨e, ?_⟩
      rw [Prog.bind_ok hrun₁]
      exact Prog.bind_error hrun₂
    · obtain ⟨e, hrun₁⟩ := h₁.faults m fe hw hi hfirst
      exact ⟨e, Prog.bind_error hrun₁⟩

theorem yields_nil : Yields h v c i (fun fe => pure ([], fe)) [] i where
  returns m fe hw hi _ := ⟨m, fe, rfl, hw, hi⟩
  faults m fe hw hi hall := absurd (by simp) hall

/-- The part is looked at in the state it starts from. -/
theorem Yields.congr (hy : Yields h v c i second l i') (heq : ∀ fe, fe.inode = i → first fe = second fe) :
    Yields h v c i first l i' where
  returns m fe hw hi := by
    rw [heq fe hi]
    exact hy.returns m fe hw hi
  faults m fe hw hi := by
    rw [heq fe hi]
    exact hy.faults m fe hw hi

end

/-- A slot of `i_block` set to 0. -/
def Inode.cleared (i : Inode) (k : Fin 15) : Inode :=
  { i with iBlock := Function.update i.iBlock k 0 }

theorem iBlock_foldl_cleared (ks : List (Fin 15)) : ∀ (i : Inode) (k : Fin 15),
    (k ∈ ks → (ks.foldl Inode.cleared i).iBlock k = 0) ∧
      (k ∉ ks → (ks.foldl Inode.cleared i).iBlock k = i.iBlock k) := by
  induction ks with
  | nil => exact fun i k => ⟨fun hk => absurd hk List.not_mem_nil, fun _ => rfl⟩
  | cons j rest ih =>
    intro i k
    obtain ⟨hin, hout⟩ := ih (i.cleared j) k
    rw [List.foldl_cons]
    refine ⟨fun hk => ?_, fun hk => ?_⟩
    · by_cases hrest : k ∈ rest
      · exact hin hrest
      · obtain rfl := (List.mem_cons.1 hk).resolve_right hrest
        rw [hout hrest]
        simp [Inode.cleared]
    · obtain ⟨hne, hrest⟩ := not_or.1 (mt List.mem_cons.2 hk)
      rw [hout hrest]
      simp [Inode.cleared, hne]

section

variable {part : FileEnt → Drv (List UInt32 × FileEnt)} {k : Fin 15}

/-- The handle of a state of the walk may drop a pointer. -/
theorem Walking.setBlock (hw : Walking v c m fe) : Walking v c m (fe.setBlock k 0) :=
  ⟨hw.volume, hw.view, hw.descriptors⟩

theorem Yields.setBlock (hy : Yields h v c (i.cleared k) part l i') :
    Yields h v c i (fun fe => part (fe.setBlock k 0)) l i' where
  returns m fe hw hi := hy.returns m _ hw.setBlock (by rw [← hi]; rfl)
  faults m fe hw hi := hy.faults m _ hw.setBlock (by rw [← hi]; rfl)

theorem Yields.thenSetBlock (hy : Yields h v c i part l i') (k : Fin 15) :
    Yields h v c i (fun fe => part fe >>= fun x => pure (x.1, x.2.setBlock k 0)) l
      (i'.cleared k) where
  returns m fe hw hi hall := by
    obtain ⟨m', fe', hrun, hw', hi'⟩ := hy.returns m fe hw hi hall
    exact ⟨m', fe'.setBlock k 0, Prog.bind_ok hrun, hw'.setBlock, by rw [← hi']; rfl⟩
  faults m fe hw hi hall := by
    obtain ⟨e, hrun⟩ := hy.faults m fe hw hi hall
    exact ⟨e, Prog.bind_error hrun⟩

end

/-! ### One call -/

/-- A sector the device keeps is kept in the view. -/
theorem view_sector_congr {s : UInt32} (hdisk : m'.disk s = m.disk s)
    (hps : m'.ctx.partStart = m.ctx.partStart) : view m' fe s = view m fe s := by
  unfold view
  rw [hps]
  split
  · simp only [Function.update_apply, hdisk]
  · exact hdisk

theorem Walking.sane (hw : Walking v c m fe) (hs : c.SaneBlockSize) : m.ctx.SaneBlockSize := by
  unfold Ext2Context.SaneBlockSize at hs ⊢
  rw [hw.volume]
  exact hs

theorem Walking.codePlace_eq (hw : Walking v c m fe) {b : UInt32} (hb : InGroup c b) :
    codePlace m.disk m.ctx b = codePlace v c b := by
  have hctx : codePlace m.disk m.ctx b = codePlace m.disk c b := by
    rw [hw.volume]
    rfl
  rw [hctx]
  unfold codePlace
  rw [hw.descriptors _ hb.2]

/-- A change of one bit that some block has. -/
theorem Walking.mark (hw : Walking v c m fe)
    (hdesc : ∀ g < c.numBlockgroups.toNat, Unmarked v c (descriptorSector c g)) {b : UInt32}
    (hb : InGroup c b) (hvol : m.ctx.SameVolume m'.ctx)
    (hdisk : ∀ s, s ≠ (codePlace v c b).sector → m'.disk s = m.disk s) : Walking v c m' fe where
  volume := hw.volume.trans hvol
  view s hs := by
    have hps : m'.ctx.partStart = m.ctx.partStart := by rw [hvol]
    rw [view_sector_congr (hdisk s (hs b hb)) hps]
    exact hw.view s hs
  descriptors g hg := by
    rw [descriptorAt_congr (hdisk _ (hdesc g hg b hb))]
    exact hw.descriptors g hg

section

variable (hh : h.Reliable) (hs : c.SaneBlockSize)
  (hdesc : ∀ g < c.numBlockgroups.toNat, Unmarked v c (descriptorSector c g))
include hh hs hdesc

theorem yields_deallocate (isdir : Bool) (b : UInt32) :
    Yields h v c i (deallocateCalls isdir b) [b] i where
  returns m fe hw hi hall := by
    have hb : InGroup c b := hall b (List.mem_singleton_self b)
    have hper : m.ctx.superblock.sBlocksPerGroup.toNat ≠ 0 := by
      rw [hw.volume]
      exact hb.1
    have hgroup : b.toNat / m.ctx.superblock.sBlocksPerGroup.toNat
        < m.ctx.numBlockgroups.toNat := by
      rw [hw.volume]
      exact hb.2
    obtain ⟨r, m', hrun, hdisk⟩ : ∃ r m', ext2ChangeAllocated b false isdir h m = .ok (r, m') ∧
        ∀ s, s ≠ (codePlace v c b).sector → m'.disk s = m.disk s := by
      rcases ext2ChangeAllocated_ok hh (hw.sane hs) hper hgroup false isdir with
        ⟨-, m', hrun, hb'⟩ | ⟨-, m', hrun, hm⟩
      · exact ⟨_, m', hrun, fun s _ => congrFun hb'.disk s⟩
      · refine ⟨_, m', hrun, fun s hne => ?_⟩
        rw [hm.disk, hw.codePlace_eq hb]
        exact BitPlace.put_other hne
    have hvol : m.ctx.SameVolume m'.ctx :=
      (show Steps True _ from steps_ext2ChangeAllocated b false isdir).sameVolume hrun
    refine ⟨m', fe, ?_, hw.mark hdesc hb hvol hdisk, hi⟩
    unfold deallocateCalls ext2Deallocate
    rw [bind_assoc]
    exact Prog.bind_ok hrun
  faults m fe hw hi hall := by
    have hb : ¬ InGroup c b := fun hb => hall fun b' hb' => (List.mem_singleton.1 hb') ▸ hb
    have hout : ∃ e, ext2ChangeAllocated b false isdir h m = .error e := by
      by_cases hper : c.superblock.sBlocksPerGroup.toNat = 0
      · refine ⟨.divByZero, ?_⟩
        have hper' : m.ctx.superblock.sBlocksPerGroup.toNat = 0 := by
          rw [hw.volume]
          exact hper
        unfold ext2ChangeAllocated
        rw [Prog.bind_ok getCtx_apply]
        exact Prog.bind_error (by unfold udiv; rw [if_pos hper']; rfl)
      · refine ⟨.uninitialized, ext2ChangeAllocated_outside ?_ ?_⟩
        · rw [hw.volume]
          exact hper
        · rw [hw.volume]
          exact Nat.not_lt.1 fun hlt => hb ⟨hper, hlt⟩
    obtain ⟨e, hrun⟩ := hout
    refine ⟨e, ?_⟩
    unfold deallocateCalls ext2Deallocate
    rw [bind_assoc]
    exact Prog.bind_error hrun

/-- Reading a pointer of a table that no mark reaches. -/
theorem Yields.read {t : UInt32} {k : Nat} (hk : k < c.blockSize / 4)
    (htab : ∀ j < c.blockSize / 4, Unmarked v c (blockSector c t (j * 4)))
    (rest : UInt32 → FileEnt → Drv (List UInt32 × FileEnt))
    (hrest : Yields h v c i (rest (pointerAt v c t k)) l i') :
    Yields h v c i (fun fe => ext2ReadPointer fe t k >>= fun x => rest x.1 x.2) l i' := by
  have hread : ∀ {m fe}, Walking v c m fe → fe.inode = i → ∃ m' fe',
      ext2ReadPointer fe t k h m = .ok ((pointerAt v c t k, fe'), m') ∧ Walking v c m' fe' ∧
      fe'.inode = i := by
    intro m fe hw hi
    have hle := blockSize_le hs
    obtain ⟨m', fe', hrun, hl⟩ := ext2ReadPointer_ok fe hh (hw.sane hs) t (i := k) (by omega)
    have hptr : pointerAt (Embext.view m fe) m.ctx t k = pointerAt v c t k := by
      have hctx : pointerAt (Embext.view m fe) m.ctx t k = pointerAt (Embext.view m fe) c t k := by
        rw [hw.volume]
        rfl
      rw [hctx]
      apply Packed.get_congr
      intro j hj
      have hj4 : j < 4 := hj
      have hsec : blockSector c t (k * 4 + j) = blockSector c t (k * 4) := by
        unfold blockSector
        congr 3
        omega
      unfold blockByte
      rw [hsec, hw.view _ (htab k hk)]
    have hclean := (of_ext2ReadPointer_ok hh (hw.sane hs) hrun).1
    have hdisk : m'.disk = Embext.view m fe := by
      rw [← hl.view_eq]
      simp [Embext.view, hclean]
    rw [hptr] at hrun
    refine ⟨m', fe', hrun, ⟨?_, fun s hs => ?_, fun g hg => ?_⟩, ?_⟩
    · rw [hl.ctx_eq]
      exact hw.volume
    · rw [hl.view_eq]
      exact hw.view s hs
    · rw [hdisk]
      exact descriptorAt_congr (hw.view _ (hdesc g hg))
    · rw [hl.handle]
      exact hi
  constructor
  · intro m fe hw hi hall
    obtain ⟨m₁, fe₁, hrun, hw₁, hi₁⟩ := hread hw hi
    obtain ⟨m₂, fe₂, hrun₂, hres⟩ := hrest.returns m₁ fe₁ hw₁ hi₁ hall
    exact ⟨m₂, fe₂, (Prog.bind_ok hrun).trans hrun₂, hres⟩
  · intro m fe hw hi hall
    obtain ⟨m₁, fe₁, hrun, hw₁, hi₁⟩ := hread hw hi
    obtain ⟨e, herr⟩ := hrest.faults m₁ fe₁ hw₁ hi₁ hall
    exact ⟨e, (Prog.bind_ok hrun).trans herr⟩

theorem yields_forPointers_from {t : UInt32}
    (htab : ∀ j < c.blockSize / 4, Unmarked v c (blockSector c t (j * 4)))
    {body : UInt32 → FileEnt → Drv (List UInt32 × FileEnt)} {f : UInt32 → List UInt32} (n : Nat) :
    ∀ k, k + n = c.blockSize / 4 →
      (∀ b ∈ ((List.range' k n).map (pointerAt v c t)).takeWhile isSet,
        Yields h v c i (body b) (f b) i) →
      Yields h v c i (forPointersCalls t body n k)
        ((((List.range' k n).map (pointerAt v c t)).takeWhile isSet).flatMap f) i := by
  induction n with
  | zero => exact fun k _ _ => yields_nil
  | succ n ih =>
    intro k hk hbody
    rw [List.range'_succ, List.map_cons, List.takeWhile_cons] at hbody ⊢
    refine (Yields.read hh hs hdesc (by omega) htab (fun block fe =>
      if block ≠ 0 then andThen (body block) (forPointersCalls t body n (k + 1)) fe
      else pure ([], fe)) ?_).congr fun fe _ => rfl
    by_cases hb : pointerAt v c t k = 0
    · have hset : isSet (pointerAt v c t k) = false := by simp [isSet, hb]
      rw [hset]
      exact yields_nil.congr fun fe _ => if_neg (not_not.2 hb)
    · have hset : isSet (pointerAt v c t k) = true := by simp [isSet, hb]
      rw [hset] at hbody ⊢
      simp only [if_true, List.mem_cons, forall_eq_or_imp, List.flatMap_cons] at hbody ⊢
      exact (hbody.1.andThen (ih (k + 1) (by omega) hbody.2)).congr fun fe _ => if_pos hb

/-- The loop over a table goes through the pointers before its first zero. -/
theorem yields_forPointers {t : UInt32}
    (htab : ∀ j < c.blockSize / 4, Unmarked v c (blockSector c t (j * 4)))
    {body : UInt32 → FileEnt → Drv (List UInt32 × FileEnt)} {f : UInt32 → List UInt32}
    (hbody : ∀ b ∈ reached v c t, Yields h v c i (body b) (f b) i) :
    Yields h v c i (forPointersCalls t body (c.blockSize / 4) 0) ((reached v c t).flatMap f) i := by
  unfold reached tableEntries at hbody ⊢
  rw [List.range_eq_range'] at hbody ⊢
  exact yields_forPointers_from hh hs hdesc htab _ 0 (Nat.zero_add _) hbody

/-! ### The whole walk -/

theorem yields_direct (isdir : Bool) (ks : List (Fin 15)) : ∀ i : Inode, ks.Nodup →
    Yields h v c i (truncateDirectCalls isdir ks) ((ks.map i.iBlock).filter isSet)
      (ks.foldl Inode.cleared i) := by
  induction ks with
  | nil => exact fun i _ => yields_nil
  | cons k rest ih =>
    intro i hnodup
    obtain ⟨hk, hrest⟩ := List.nodup_cons.1 hnodup
    have hmap : rest.map (i.cleared k).iBlock = rest.map i.iBlock := by
      refine List.map_congr_left fun j hj => ?_
      have hne : j ≠ k := by
        rintro rfl
        exact hk hj
      exact Function.update_of_ne hne _ _
    have hafter := (ih (i.cleared k) hrest).setBlock
    rw [hmap] at hafter
    rw [List.map_cons, List.foldl_cons]
    by_cases hb : i.iBlock k = 0
    · have hset : isSet (i.iBlock k) = false := by simp [isSet, hb]
      rw [List.filter_cons_of_neg (by simp [hset])]
      refine hafter.congr fun fe hi => ?_
      rw [truncateDirectCalls, hi, if_neg (not_not.2 hb)]
    · have hset : isSet (i.iBlock k) = true := by simp [isSet, hb]
      rw [List.filter_cons_of_pos hset]
      refine ((yields_deallocate hh hs hdesc isdir (i.iBlock k)).andThen hafter).congr fun fe hi => ?_
      rw [truncateDirectCalls, hi, if_pos hb]

/-- A slot is freed with what hangs below it. -/
theorem yields_slot (isdir : Bool) (k : Fin 15) {walk : FileEnt → Drv (List UInt32 × FileEnt)}
    {f : UInt32 → List UInt32}
    (hwalk : i.iBlock k ≠ 0 → Yields h v c i walk (f (i.iBlock k)) i) :
    Yields h v c i (truncateSlotCalls isdir k walk) (belowSlot i (fun b => f b ++ [b]) k)
      (i.cleared k) := by
  unfold belowSlot
  by_cases hb : i.iBlock k = 0
  · rw [if_neg (not_not.2 hb)]
    have hsame : i.cleared k = i := by
      unfold Inode.cleared
      rw [← hb, Function.update_eq_self]
    rw [hsame]
    refine yields_nil.congr fun fe hi => ?_
    unfold truncateSlotCalls
    rw [hi, if_neg (not_not.2 hb)]
  · rw [if_pos hb]
    have hroot : Yields h v c i (fun fe => deallocateCalls isdir (fe.inode.iBlock k) fe)
        [i.iBlock k] i :=
      (yields_deallocate hh hs hdesc isdir (i.iBlock k)).congr fun fe hi => by rw [hi]
    refine (((hwalk hb).andThen hroot).thenSetBlock k).congr fun fe hi => ?_
    unfold truncateSlotCalls
    rw [hi, if_pos hb]

end

/-! ## What a truncation frees -/

/-- The tables the walk reads. -/
def walkedTables (v : UInt32 → Sector) (c : Ext2Context) (inode : Inode) : List UInt32 :=
  belowSlot inode (fun b => [b]) 12 ++ (belowSlot inode (fun b => b :: reached v c b) 13 ++
    belowSlot inode (fun _ => 0 :: reached v c 0) 14)

/-- No bit that `ext2_change_allocated` can change lies in a descriptor or in a table of the walk, and
    what waits in the handle's buffer is no descriptor. -/
structure TablesApart (m : Machine) (fe : FileEnt) : Prop where
  buffer : ∀ g < m.ctx.numBlockgroups.toNat,
    descriptorAt m.disk m.ctx g = descriptorAt (view m fe) m.ctx g
  descriptors : ∀ g < m.ctx.numBlockgroups.toNat,
    Unmarked (view m fe) m.ctx (descriptorSector m.ctx g)
  tables : ∀ t ∈ walkedTables (view m fe) m.ctx fe.inode, ∀ j < m.ctx.blockSize / 4,
    Unmarked (view m fe) m.ctx (blockSector m.ctx t (j * 4))

/-- The inode without its pointers. -/
def Inode.emptied (i : Inode) : Inode :=
  (((directSlots.foldl Inode.cleared i).cleared 12).cleared 13).cleared 14

theorem emptied_iBlock (i : Inode) (k : Fin 15) : i.emptied.iBlock k = 0 := by
  have hall : ∀ k : Fin 15, k ∈ directSlots ∨ k = 12 ∨ k = 13 ∨ k = 14 := by decide
  unfold Inode.emptied
  rcases hall k with hk | rfl | rfl | rfl
  · have hdirect : (directSlots.foldl Inode.cleared i).iBlock k = 0 := by
      exact (iBlock_foldl_cleared _ _ _).1 hk
    simp only [Inode.cleared, Function.update_apply, hdirect, ite_self]
  · simp [Inode.cleared]
  · simp [Inode.cleared]
  · simp [Inode.cleared]

/-- What hangs below a slot depends on its pointer. -/
theorem belowSlot_congr {f : UInt32 → List UInt32} {k : Fin 15} (hk : i'.iBlock k = i.iBlock k) :
    belowSlot i' f k = belowSlot i f k := by
  unfold belowSlot
  rw [hk]

theorem mem_belowSlot {f : UInt32 → List UInt32} {k : Fin 15} {b : UInt32}
    (hk : i.iBlock k ≠ 0) (hb : b ∈ f (i.iBlock k)) : b ∈ belowSlot i f k := by
  unfold belowSlot
  rw [if_pos hk]
  exact hb

/-- **The walk.** From an inode whose tables no mark reaches it calls for the blocks of `freed`, and
    leaves no pointer. -/
theorem yields_truncate (hh : h.Reliable) (hs : c.SaneBlockSize)
    (hdesc : ∀ g < c.numBlockgroups.toNat, Unmarked v c (descriptorSector c g))
    (htab : ∀ t ∈ walkedTables v c i, ∀ j < c.blockSize / 4, Unmarked v c (blockSector c t (j * 4)))
    (isdir : Bool) :
    Yields h v c i (andThen (truncateDirectCalls isdir directSlots)
      (andThen (truncateSlotCalls isdir 12 (singleCalls isdir (c.blockSize / 4)))
        (andThen (truncateSlotCalls isdir 13 (doubleCalls isdir (c.blockSize / 4)))
          (truncateSlotCalls isdir 14 (tripleCalls isdir (c.blockSize / 4))))))
      (freed v c i) i.emptied := by
  obtain ⟨i₁, hi₁⟩ : ∃ i₁, i₁ = directSlots.foldl Inode.cleared i := ⟨_, rfl⟩
  have hkeep : ∀ k, k ∉ directSlots → i₁.iBlock k = i.iBlock k := by
    intro k hk
    rw [hi₁]
    exact (iBlock_foldl_cleared _ _ _).2 hk
  have h₁₂ : i₁.iBlock 12 = i.iBlock 12 := hkeep 12 (by decide)
  have h₁₃ : (i₁.cleared 12).iBlock 13 = i.iBlock 13 := hkeep 13 (by decide)
  have h₁₄ : ((i₁.cleared 12).cleared 13).iBlock 14 = i.iBlock 14 := hkeep 14 (by decide)
  have hzero : ((i₁.cleared 12).cleared 13).iBlock 13 = 0 :=
    Function.update_self 13 0 (i₁.cleared 12).iBlock
  have hfree : ∀ (i : Inode) (b : UInt32), Yields h v c i (deallocateCalls isdir b) [b] i :=
    fun i b => yields_deallocate hh hs hdesc isdir b
  have hdirect : Yields h v c i (truncateDirectCalls isdir directSlots) (directBlocks i) i₁ := by
    rw [hi₁]
    exact yields_direct hh hs hdesc isdir directSlots i (by decide)
  have hsingle : Yields h v c i₁ (truncateSlotCalls isdir 12 (singleCalls isdir (c.blockSize / 4)))
      (belowSlot i (cut (tableEntries v c) isSet 1) 12) (i₁.cleared 12) := by
    rw [← belowSlot_congr h₁₂]
    refine yields_slot hh hs hdesc isdir 12 (f := fun b => (reached v c b).flatMap
      (cut (tableEntries v c) isSet 0)) fun hne => ?_
    refine (yields_forPointers hh hs hdesc (htab _ ?_) fun b _ => hfree i₁ b).congr
      fun fe hi => by unfold singleCalls; rw [hi]
    rw [h₁₂] at hne ⊢
    exact List.mem_append_left _ (mem_belowSlot hne (List.mem_singleton_self _))
  have hdouble : Yields h v c (i₁.cleared 12)
      (truncateSlotCalls isdir 13 (doubleCalls isdir (c.blockSize / 4)))
      (belowSlot i (cut (tableEntries v c) isSet 2) 13) ((i₁.cleared 12).cleared 13) := by
    rw [← belowSlot_congr h₁₃]
    refine yields_slot hh hs hdesc isdir 13 (f := fun b => (reached v c b).flatMap
      (cut (tableEntries v c) isSet 1)) fun hne => ?_
    rw [h₁₃] at hne ⊢
    have hmem : ∀ b ∈ i.iBlock 13 :: reached v c (i.iBlock 13), b ∈ walkedTables v c i :=
      fun b hb => List.mem_append_right _ (List.mem_append_left _ (mem_belowSlot hne hb))
    refine (yields_forPointers hh hs hdesc (htab _ (hmem _ List.mem_cons_self)) fun b hb =>
      (yields_forPointers hh hs hdesc (htab _ (hmem _ (List.mem_cons_of_mem _ hb)))
        fun b' _ => hfree _ b').andThen (hfree _ b)).congr fun fe hi => ?_
    unfold doubleCalls
    rw [hi, h₁₃]
  have htriple : Yields h v c ((i₁.cleared 12).cleared 13)
      (truncateSlotCalls isdir 14 (tripleCalls isdir (c.blockSize / 4)))
      (belowSlot i (fun b => strayed v c ++ [b]) 14) (((i₁.cleared 12).cleared 13).cleared 14) := by
    rw [← belowSlot_congr h₁₄]
    refine yields_slot hh hs hdesc isdir 14 (f := fun _ => strayed v c) fun hne => ?_
    rw [h₁₄] at hne
    have hmem : ∀ b ∈ 0 :: reached v c 0, b ∈ walkedTables v c i :=
      fun b hb => List.mem_append_right _ (List.mem_append_right _ (mem_belowSlot hne hb))
    have hinner : ∀ block ∈ reached v c 0, ∀ block2,
        Yields h v c ((i₁.cleared 12).cleared 13)
          (andThen (forPointersCalls block (deallocateCalls isdir) (c.blockSize / 4) 0)
            (deallocateCalls isdir block2)) (reached v c block ++ [block2])
          ((i₁.cleared 12).cleared 13) := by
      intro block hblock block2
      have hloop := yields_forPointers hh hs hdesc (htab _ (hmem _ (List.mem_cons_of_mem _ hblock)))
        fun b _ => hfree ((i₁.cleared 12).cleared 13) b
      rw [List.flatMap_singleton'] at hloop
      exact hloop.andThen (hfree _ block2)
    refine (yields_forPointers hh hs hdesc (htab _ (hmem _ List.mem_cons_self)) fun block hblock =>
      (yields_forPointers hh hs hdesc (htab _ (hmem _ (List.mem_cons_of_mem _ hblock)))
        fun block2 _ => hinner block hblock block2).andThen (hfree _ block)).congr fun fe hi => ?_
    unfold tripleCalls
    rw [hi, hzero]
  unfold freed Inode.emptied
  rw [← hi₁]
  exact hdirect.andThen (hsingle.andThen (hdouble.andThen htriple))

/-- The truncation returns, having called `ext2_change_allocated` once for each block of the file's
    tree and for no other, and leaves no pointer, size or block count. -/
def FreesOnce (h : Host) (m : Machine) (fe : FileEnt) : Prop :=
  ∃ l m' fe', ext2TruncateFile fe h m = .ok ((0, fe'), m') ∧
    truncateCalls fe h m = .ok ((l, fe'), m') ∧
    l.Perm (fileTree (view m fe) m.ctx fe.inode) ∧
    (∀ k, fe'.inode.iBlock k = 0) ∧ fe'.inode.iSize = 0 ∧ fe'.inode.iBlocks = 0

/-- The walk leaves out what it frees instead, usually nothing, and all blocks of the file are in
    known groups. -/
structure TreeWalked (v : UInt32 → Sector) (c : Ext2Context) (inode : Inode) : Prop where
  missed : (belowSlot inode (fun _ => strayed v c) 14).Perm (missed v c inode)
  known : ∀ b ∈ fileTree v c inode, InGroup c b

/-- The calls of a truncation are those for the blocks of `freed`. -/
theorem truncateCalls_outcome (hh : h.Reliable) (hs : m.ctx.SaneBlockSize)
    (hapart : TablesApart m fe) :
    ((∀ b ∈ freed (view m fe) m.ctx fe.inode, InGroup m.ctx b) → ∃ m' fe',
      truncateCalls fe h m = .ok ((freed (view m fe) m.ctx fe.inode, fe'), m') ∧
      (∀ k, fe'.inode.iBlock k = 0) ∧ fe'.inode.iSize = 0 ∧ fe'.inode.iBlocks = 0) ∧
    (¬ (∀ b ∈ freed (view m fe) m.ctx fe.inode, InGroup m.ctx b) →
      ∃ e, truncateCalls fe h m = .error e) := by
  have hy := yields_truncate hh hs hapart.descriptors hapart.tables
    (decide (fe.inode.iMode &&& ext2SIfdir ≠ 0))
  have hw : Walking (view m fe) m.ctx m fe := ⟨.refl _, fun _ _ => rfl, hapart.buffer⟩
  unfold truncateCalls
  rw [Prog.bind_ok (ext2BlockSize_ok hs)]
  constructor
  · intro hall
    obtain ⟨m', fe', hrun, -, hi⟩ := hy.returns m fe hw rfl hall
    refine ⟨m', _, Prog.bind_ok hrun, fun k => ?_, rfl, rfl⟩
    show fe'.inode.iBlock k = 0
    rw [hi]
    exact emptied_iBlock _ k
  · intro hall
    obtain ⟨e, hrun⟩ := hy.faults m fe hw rfl hall
    exact ⟨e, Prog.bind_error hrun⟩

/-- A truncation that frees the file's blocks leaves none of them out. -/
theorem FreesOnce.missed_perm (hh : h.Reliable) (hs : m.ctx.SaneBlockSize)
    (hapart : TablesApart m fe) (hfrees : FreesOnce h m fe) :
    (belowSlot fe.inode (fun _ => strayed (view m fe) m.ctx) 14).Perm
      (missed (view m fe) m.ctx fe.inode) := by
  obtain ⟨hreturns, hfaults⟩ := truncateCalls_outcome hh hs hapart
  obtain ⟨l, m₁, fe₁, -, hrun₁, hperm, -⟩ := hfrees
  by_cases hall : ∀ b ∈ freed (view m fe) m.ctx fe.inode, InGroup m.ctx b
  · obtain ⟨m', fe', hrun, -⟩ := hreturns hall
    rw [hrun] at hrun₁
    cases hrun₁
    exact freed_perm_iff.1 hperm
  · obtain ⟨e, hrun⟩ := hfaults hall
    rw [hrun] at hrun₁
    cases hrun₁

/-- **What a truncation frees.** For every inode, with holes anywhere, the truncation frees exactly
    the file's blocks if and only if the walk leaves none of them out, or exactly as many times as it
    frees them by way of block 0. -/
theorem freesOnce_iff (hh : h.Reliable) (hs : m.ctx.SaneBlockSize) (hapart : TablesApart m fe) :
    FreesOnce h m fe ↔ TreeWalked (view m fe) m.ctx fe.inode := by
  obtain ⟨hreturns, hfaults⟩ := truncateCalls_outcome hh hs hapart
  by_cases hall : ∀ b ∈ freed (view m fe) m.ctx fe.inode, InGroup m.ctx b
  · obtain ⟨m', fe', hrun, hempty⟩ := hreturns hall
    constructor
    · rintro ⟨l, m₁, fe₁, -, hrun₁, hperm, -⟩
      rw [hrun] at hrun₁
      cases hrun₁
      exact ⟨freed_perm_iff.1 hperm, fun b hb => hall b (hperm.mem_iff.2 hb)⟩
    · intro htree
      refine ⟨_, m', fe', ?_, hrun, freed_perm_iff.2 htree.missed, hempty⟩
      rw [ext2TruncateFile_eq_truncateCalls]
      exact Prog.bind_ok hrun
  · obtain ⟨e, hrun⟩ := hfaults hall
    constructor
    · rintro ⟨l, m₁, fe₁, -, hrun₁, -⟩
      rw [hrun] at hrun₁
      cases hrun₁
    · intro htree
      refine absurd (fun b hb => htree.known b ?_) hall
      exact (freed_perm_iff.2 htree.missed).mem_iff.1 hb

namespace SmallVolume

set_option maxRecDepth 4000

/-- The one bitmap is looked for in sector 3. -/
theorem unmarked_of_ne {v : UInt32 → Sector} {s : UInt32}
    (hv : (descriptorAt v machine.ctx 0).bgBlockBitmap = 3) (hs : s ≠ 3) :
    Unmarked v machine.ctx s := by
  intro b hb heq
  have hper : machine.ctx.superblock.sBlocksPerGroup.toNat = 64 := by decide
  have hgroups : machine.ctx.numBlockgroups.toNat = 1 := by decide
  have hpart : machine.ctx.partStart = 0 := by decide
  obtain ⟨-, hgroup⟩ := hb
  rw [hper, hgroups] at hgroup
  have hsector : (codePlace v machine.ctx b).sector = 3 := by
    unfold codePlace
    simp only [hper, hpart]
    rw [show b.toNat / 64 = 0 by omega, hv, show b.toNat % 64 / 8 / 512 = 0 by omega]
    decide
  exact hs (heq.trans hsector)

/-- A file with the pointers 21, 0 and 22 in its table, block 20. -/
def handleGap : FileEnt :=
  { handleF with inode := { fInode with iBlock := fun k => if k = 12 then 20 else 0 } }

def gapMachine : Machine :=
  { machine with disk := Function.update machine.disk 40 (sectorOf [(0, [21]), (8, [22])]) }

theorem gapMachine_apart : TablesApart gapMachine handleGap where
  buffer g _ := rfl
  descriptors g hg := by
    have hgroups : gapMachine.ctx.numBlockgroups.toNat = 1 := by decide
    obtain rfl : g = 0 := by omega
    exact unmarked_of_ne (by decide) (by decide)
  tables t ht j hj := by
    have htables : walkedTables (view gapMachine handleGap) gapMachine.ctx handleGap.inode = [20] := rfl
    rw [htables, List.mem_singleton] at ht
    subst ht
    have hsectors : ∀ j < gapMachine.ctx.blockSize / 4, blockSector gapMachine.ctx 20 (j * 4) ≠ 3 := by
      decide
    exact unmarked_of_ne (by decide) (hsectors j hj)

/-- Block 22 stays allocated. -/
theorem freesOnce_fails : host.Reliable ∧ gapMachine.ctx.SaneBlockSize ∧
    TablesApart gapMachine handleGap ∧ ¬ FreesOnce host gapMachine handleGap := by
  have hs : gapMachine.ctx.SaneBlockSize := machine_sane
  refine ⟨host_reliable, hs, gapMachine_apart, fun hfrees => ?_⟩
  have hperm := hfrees.missed_perm host_reliable hs gapMachine_apart
  have hmissed : missed (view gapMachine handleGap) gapMachine.ctx handleGap.inode = [22] := by
    decide
  rw [hmissed] at hperm
  exact absurd hperm.length_eq (by decide)

theorem handleF_apart : TablesApart machine handleF where
  buffer g _ := rfl
  descriptors g hg := by
    have hgroups : machine.ctx.numBlockgroups.toNat = 1 := by decide
    obtain rfl : g = 0 := by omega
    exact unmarked_of_ne (by decide) (by decide)
  tables t ht := by
    have htables : walkedTables (view machine handleF) machine.ctx handleF.inode = [] := rfl
    rw [htables] at ht
    cases ht

/-- `/f`, with its one direct block, is freed. -/
theorem freesOnce_f : FreesOnce host machine handleF := by
  refine (freesOnce_iff host_reliable machine_sane handleF_apart).2 ⟨.refl [], fun b hb => ?_⟩
  have htree : fileTree (view machine handleF) machine.ctx handleF.inode = [8] := rfl
  rw [htree, List.mem_singleton] at hb
  subst hb
  exact ⟨by decide, by decide⟩

end SmallVolume

end Embext
