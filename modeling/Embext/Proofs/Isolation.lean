import Embext.Library.Interleave
import Embext.Proofs.Layout
import Embext.Proofs.Persist

set_option autoImplicit false

/-! # Several files at once

Handles on different files of a volume share the device, the context and nothing else. As long as the
files lie apart, calls through them can be interleaved in any order: every handle sees its own calls on
its own file, and a close leaves that file on the device whatever the others do before and after. -/

namespace Embext

variable {h : Host} {v w : UInt32 → Sector} {c : Ext2Context} {n i j : Nat} {f : Nat → FileEnt}
  {m m' b : Machine} {fe fe' : FileEnt} {d d' : FileBytes}

/-! ## Files that lie apart -/

/-- The sector `s` holds bytes of file `i`. -/
def Owns (v : UInt32 → Sector) (c : Ext2Context) (f : Nat → FileEnt) (i : Nat) (s : UInt32) : Prop :=
  ∃ p, Mapped v c (f i).inode p ∧ s = byteSector v c (f i).inode p

/-- The device `w` is `v` but for the sectors of the files and the sectors of their inodes. -/
def Background (v : UInt32 → Sector) (c : Ext2Context) (n : Nat) (f : Nat → FileEnt)
    (w : UInt32 → Sector) : Prop :=
  ∀ s, (∀ j < n, ¬ Owns v c f j s) → (∀ j < n, s ≠ slotSector v c (f j).inodeNumber) → w s = v s

/-- `n` files with different inodes: no sector holds bytes of two blocks or of two files, and none of
    a file is used for an inode, a descriptor or a table of block numbers. -/
structure Separate (v : UInt32 → Sector) (c : Ext2Context) (n : Nat) (f : Nat → FileEnt) : Prop where
  tables : InodeTables v c
  counted : ∀ i < n, CountedInode c (f i).inodeNumber
  numbers : ∀ i < n, ∀ j < n, (f i).inodeNumber = (f j).inodeNumber → i = j
  once : ∀ i < n, ∀ p q, Mapped v c (f i).inode p → Mapped v c (f i).inode q →
    byteSector v c (f i).inode p = byteSector v c (f i).inode q → p / 512 = q / 512
  disjoint : ∀ i < n, ∀ j < n, ∀ s, Owns v c f i s → Owns v c f j s → i = j
  slot : ∀ i < n, ∀ j < n, ∀ s, Owns v c f i s → s ≠ slotSector v c (f j).inodeNumber
  descriptor : ∀ i < n, ∀ s, Owns v c f i s → ∀ g < c.numBlockgroups.toNat, s ≠ descriptorSector c g
  map : ∀ w, Background v c n f w → ∀ i < n, ∀ k,
    fileBlock w c (f i).inode k = fileBlock v c (f i).inode k

/-! ## The buffer of the context plays no part -/

theorem owns_sysbuf (v : UInt32 → Sector) (c : Ext2Context) (s : Sector) (f : Nat → FileEnt) :
    Owns v { c with sysbuf := s } f = Owns v c f := by
  funext i x
  unfold Owns
  rw [mapped_sysbuf, byteSector_sysbuf]

theorem background_sysbuf (v : UInt32 → Sector) (c : Ext2Context) (s : Sector) (n : Nat)
    (f : Nat → FileEnt) : Background v { c with sysbuf := s } n f = Background v c n f := by
  funext w
  unfold Background
  rw [owns_sysbuf]
  rfl

theorem Separate.sysbuf (hsep : Separate v c n f) (s : Sector) :
    Separate v { c with sysbuf := s } n f where
  tables := ⟨hsep.tables.slotted.of_sameVolume (Ext2Context.SameButSysbuf.sameVolume rfl),
    hsep.tables.fitsDescriptors, hsep.tables.fitsTables,
    hsep.tables.apart, hsep.tables.clear⟩
  counted i hi := ⟨(hsep.counted i hi).isInode, (hsep.counted i hi).group⟩
  numbers := hsep.numbers
  once := by
    simp only [mapped_sysbuf, byteSector_sysbuf]
    exact hsep.once
  disjoint := by
    rw [owns_sysbuf]
    exact hsep.disjoint
  slot := by
    rw [owns_sysbuf]
    exact hsep.slot
  descriptor := by
    rw [owns_sysbuf]
    exact hsep.descriptor
  map := by
    intro w hw i hi k
    rw [background_sysbuf] at hw
    rw [fileBlock_withSysbuf w, fileBlock_withSysbuf v]
    exact hsep.map w hw i hi k

/-! ## Files over a changing background -/

section

variable (hsep : Separate v c n f) (hw : Background v c n f w)
include hsep hw

theorem Separate.mapped_eq (hi : i < n) : Mapped w c (f i).inode = Mapped v c (f i).inode := by
  funext p
  unfold Mapped
  rw [hsep.map w hw i hi]

theorem Separate.byteSector_eq (hi : i < n) :
    byteSector w c (f i).inode = byteSector v c (f i).inode := by
  funext p
  unfold byteSector
  rw [hsep.map w hw i hi]

theorem Separate.descriptorAt_eq {g : Nat} (hg : g < c.numBlockgroups.toNat) :
    descriptorAt w c g = descriptorAt v c g := by
  refine descriptorAt_congr (hw _ ?_ ?_)
  · exact fun j hj hown => hsep.descriptor j hj _ hown g hg rfl
  · exact fun j hj => (hsep.tables.slot_ne_descriptor (hsep.counted j hj) hg).symm

theorem Separate.slotSector_eq (hi : i < n) :
    slotSector w c (f i).inodeNumber = slotSector v c (f i).inodeNumber :=
  slotSector_congr (hsep.descriptorAt_eq hw (hsep.counted i hi).group)

theorem Separate.tables_eq : InodeTables w c where
  slotted := hsep.tables.slotted
  fitsDescriptors := hsep.tables.fitsDescriptors
  fitsTables g hg := by
    rw [hsep.descriptorAt_eq hw hg]
    exact hsep.tables.fitsTables g hg
  apart g hg g' hg' := by
    rw [hsep.descriptorAt_eq hw hg, hsep.descriptorAt_eq hw hg']
    exact hsep.tables.apart g hg g' hg'
  clear g hg := by
    rw [hsep.descriptorAt_eq hw hg]
    exact hsep.tables.clear g hg

/-- Each of the files lies apart as a single file does. -/
theorem Separate.fileApart (hi : i < n) : FileApart w c (f i).inodeNumber (f i).inode := by
  have hmap := hsep.mapped_eq hw hi
  have hsec := hsep.byteSector_eq hw hi
  have hslot := hsep.slotSector_eq hw hi
  have hgroup := (hsep.counted i hi).group
  constructor
  · rw [hmap, hsec]
    exact hsep.once i hi
  · intro w' hw' k
    rw [hmap, hsec, hslot] at hw'
    rw [hsep.map w hw i hi]
    refine hsep.map w' (fun s hs hslots => ?_) i hi k
    rw [hw' s (hslots i hi) fun p hp heq => hs i hi ⟨p, hp, heq⟩]
    exact hw s hs hslots
  · intro p hp
    rw [hmap] at hp
    rw [hsec, hslot]
    exact hsep.slot i hi i hi _ ⟨p, hp, rfl⟩
  · intro p hp
    rw [hmap] at hp
    rw [hsec]
    exact hsep.descriptor i hi _ ⟨p, hp, rfl⟩ _ hgroup
  · rw [hslot]
    exact hsep.tables.slot_ne_descriptor (hsep.counted i hi) hgroup

/-- The bytes of a file by the sectors of it. -/
theorem Separate.fileByte_eq (hi : i < n) (p : Nat) : fileByte w c (f i).inode p =
    Window.item (w (byteSector v c (f i).inode p)) (p % 512) :=
  Embext.fileByte_eq (hsep.map w hw i hi _)

end

/-! ## An open file among others -/

/-- File `i`, open as `fe`, has become `d` by edits that began at `b`: the device as the other files now
    leave it, with its own sectors as they were. -/
structure Begun (v : UInt32 → Sector) (n : Nat) (f : Nat → FileEnt) (i : Nat) (d : FileBytes)
    (m : Machine) (fe : FileEnt) (b : Machine) : Prop where
  ctx : b.ctx = m.ctx
  background : Background v m.ctx n f b.disk
  owned : ∀ s, Owns v m.ctx f i s → b.disk s = v s
  editing : Editing b (f i) d m fe

/-- File `i` is open as `fe` and has become `d`. -/
structure Held (v : UInt32 → Sector) (n : Nat) (f : Nat → FileEnt) (i : Nat) (d : FileBytes)
    (m : Machine) (fe : FileEnt) : Prop where
  begun : ∃ b, Begun v n f i d m fe b
  buffer : fe.buffer.dirty = true → Owns v m.ctx f i (fe.buffer.lbaBlock + m.ctx.partStart)
  stored : fe.flags.fsDirty = false →
    fe.buffer.dirty = false ∧ inodeAt m.disk m.ctx (f i).inodeNumber = fe.inode

/-- File `i` is closed and on the device as `d`. -/
structure PutAway (v : UInt32 → Sector) (f : Nat → FileEnt) (i : Nat) (d : FileBytes) (m : Machine) :
    Prop where
  map : (inodeAt m.disk m.ctx (f i).inodeNumber).iBlock = (f i).inode.iBlock
  size : (inodeAt m.disk m.ctx (f i).inodeNumber).iSize.toNat = d.size
  bytes : ∀ p, Mapped v m.ctx (f i).inode p → fileByte m.disk m.ctx (f i).inode p = d.byte p

/-- What a call on another file may do: the sectors of file `i` and its inode stay. -/
structure Foreign (v : UInt32 → Sector) (n : Nat) (f : Nat → FileEnt) (i : Nat) (m m' : Machine) :
    Prop where
  ctx : ∃ s, m'.ctx = { m.ctx with sysbuf := s }
  owned : ∀ s, Owns v m.ctx f i s → m'.disk s = m.disk s
  background : Background v m.ctx n f m'.disk
  slot : inodeAt m'.disk m.ctx (f i).inodeNumber = inodeAt m.disk m.ctx (f i).inodeNumber

theorem PutAway.foreign (hsep : Separate v m.ctx n f) (hi : i < n) (hs : PutAway v f i d m)
    (hbg : Background v m.ctx n f m.disk) (hf : Foreign v n f i m m') : PutAway v f i d m' := by
  obtain ⟨s, hctx⟩ := hf.ctx
  have hslot : inodeAt m'.disk m'.ctx (f i).inodeNumber =
      inodeAt m.disk m.ctx (f i).inodeNumber := by
    rw [hctx, inodeAt_sysbuf, hf.slot]
  refine ⟨by rw [hslot, hs.map], by rw [hslot, hs.size], fun p hp => ?_⟩
  rw [hctx, mapped_sysbuf] at hp
  rw [hctx, fileByte_withSysbuf, hsep.fileByte_eq hf.background hi,
    hf.owned _ ⟨p, hp, rfl⟩, ← hsep.fileByte_eq hbg hi]
  exact hs.bytes p hp

theorem view_of_clean (hclean : fe.buffer.dirty = false) : view m fe = m.disk := by
  rw [view, if_neg (by rw [hclean]; decide)]

namespace Begun

variable (hsep : Separate v m.ctx n f) (hi : i < n) (hclean : (f i).buffer.dirty = false)
  (hb : Begun v n f i d m fe b)
include hsep hi hclean hb

theorem apart : FileApart (view b (f i)) b.ctx (f i).inodeNumber (f i).inode := by
  rw [view_of_clean hclean, hb.ctx]
  exact hsep.fileApart hb.background hi

theorem mapped_eq : Mapped (view b (f i)) b.ctx (f i).inode = Mapped v m.ctx (f i).inode := by
  rw [view_of_clean hclean, hb.ctx]
  exact hsep.mapped_eq hb.background hi

theorem byteSector_eq :
    byteSector (view b (f i)) b.ctx (f i).inode = byteSector v m.ctx (f i).inode := by
  rw [view_of_clean hclean, hb.ctx]
  exact hsep.byteSector_eq hb.background hi

/-- Outside the sectors of the file nothing has changed. -/
theorem frame {s : UInt32} (hs : ¬ Owns v m.ctx f i s) : view m fe s = b.disk s := by
  rw [hb.editing.frame s, view_of_clean hclean]
  rw [hb.mapped_eq hsep hi hclean, hb.byteSector_eq hsep hi hclean]
  exact fun p hp heq => hs ⟨p, hp, heq⟩

end Begun

/-- A file that is seen through a buffer of its own looks on the rest of the device as it is. -/
theorem Held.view_eq (hh : Held v n f i d m fe) {s : UInt32} (hs : ¬ Owns v m.ctx f i s) :
    view m fe s = m.disk s := by
  unfold view
  by_cases hdirty : fe.buffer.dirty = true
  · rw [if_pos hdirty, Function.update_of_ne]
    rintro rfl
    exact hs (hh.buffer hdirty)
  · rw [if_neg hdirty]

theorem Held.background (hh : Held v n f i d m fe) (hi : i < n)
    (hbg : Background v m.ctx n f m.disk) : Background v m.ctx n f (view m fe) := fun s hs hslots =>
  (hh.view_eq (hs i hi)).trans (hbg s hs hslots)

open Classical in
/-- What it looks on after a call on another file: its own sectors are as they were. -/
theorem Held.view_foreign (hh : Held v n f i d m fe) (hf : Foreign v n f i m m') (s : UInt32) :
    view m' fe s = if Owns v m.ctx f i s then view m fe s else m'.disk s := by
  obtain ⟨s₀, hctx⟩ := hf.ctx
  have hps : m'.ctx.partStart = m.ctx.partStart := by rw [hctx]
  unfold view
  rw [hps]
  by_cases hdirty : fe.buffer.dirty = true
  · rw [if_pos hdirty, if_pos hdirty]
    have hown := hh.buffer hdirty
    by_cases heq : s = fe.buffer.lbaBlock + m.ctx.partStart
    · rw [heq, if_pos hown, Function.update_self, Function.update_self]
    · rw [Function.update_of_ne heq, Function.update_of_ne heq]
      by_cases hs : Owns v m.ctx f i s
      · rw [if_pos hs, hf.owned s hs]
      · rw [if_neg hs]
  · rw [if_neg hdirty, if_neg hdirty]
    by_cases hs : Owns v m.ctx f i s
    · rw [if_pos hs, hf.owned s hs]
    · rw [if_neg hs]

theorem Held.foreign (hsep : Separate v m.ctx n f) (hi : i < n)
    (hclean : (f i).buffer.dirty = false) (hh : Held v n f i d m fe)
    (hbg : Background v m.ctx n f m.disk) (hf : Foreign v n f i m m') : Held v n f i d m' fe := by
  classical
  obtain ⟨b, hb⟩ := hh.begun
  have hview := hh.view_foreign hf
  obtain ⟨s₀, hctx⟩ := hf.ctx
  have hbgview : Background v m.ctx n f (view m' fe) := fun s hs hslots => by
    rw [hview, if_neg (hs i hi)]
    exact hf.background s hs hslots
  -- the edits could have begun at the device as the other file has left it
  let b' : Machine := { b with
    ctx := m'.ctx, disk := fun s => if Owns v m.ctx f i s then b.disk s else m'.disk s }
  have hbg' : Background v m.ctx n f b'.disk := fun s hs hslots =>
    (if_neg (hs i hi)).trans (hf.background s hs hslots)
  have hmapped : Mapped (view b' (f i)) m'.ctx (f i).inode = Mapped v m.ctx (f i).inode := by
    rw [view_of_clean hclean, hctx, mapped_sysbuf, hsep.mapped_eq hbg' hi]
  have hsector : byteSector (view b' (f i)) m'.ctx (f i).inode = byteSector v m.ctx (f i).inode := by
    rw [view_of_clean hclean, hctx, byteSector_sysbuf, hsep.byteSector_eq hbg' hi]
  have he := hb.editing
  have hb' : Begun v n f i d m' fe b' := by
    refine ⟨rfl, ?_, fun s hs => ?_, rfl, he.magic, he.number, he.mode, he.inode, fun s hs => ?_,
      he.size, fun p hp => ?_⟩
    · rw [hctx, background_sysbuf]
      exact hbg'
    · rw [hctx, owns_sysbuf] at hs
      exact (if_pos hs).trans (hb.owned s hs)
    · change ∀ p, Mapped (view b' (f i)) m'.ctx (f i).inode p →
        s ≠ byteSector (view b' (f i)) m'.ctx (f i).inode p at hs
      rw [hmapped, hsector] at hs
      have hout : ¬ Owns v m.ctx f i s := fun ⟨p, hp, heq⟩ => hs p hp heq
      rw [view_of_clean hclean, hview, if_neg hout]
      exact (if_neg hout).symm
    · change Mapped (view b' (f i)) m'.ctx (f i).inode p at hp
      change fileByte (view m' fe) m'.ctx (f i).inode p = d.byte p
      rw [hmapped] at hp
      have hbytes := he.bytes p (by rw [hb.mapped_eq hsep hi hclean]; exact hp)
      rw [hb.ctx, hsep.fileByte_eq (hh.background hi hbg) hi] at hbytes
      rw [hctx, fileByte_withSysbuf, hsep.fileByte_eq hbgview hi, hview, if_pos ⟨p, hp, rfl⟩]
      exact hbytes
  refine ⟨⟨b', hb'⟩, fun hdirty => ?_, fun hflag => ?_⟩
  · rw [hctx, owns_sysbuf]
    exact hh.buffer hdirty
  · obtain ⟨hbuf, hslot⟩ := hh.stored hflag
    refine ⟨hbuf, ?_⟩
    rw [hctx, inodeAt_sysbuf, hf.slot, hslot]

/-! ## What a call on one file is to the others -/

/-- A call on file `i` that only writes to its sectors. -/
structure Moved (v : UInt32 → Sector) (f : Nat → FileEnt) (i : Nat) (m m' : Machine) : Prop where
  ctx : m'.ctx = m.ctx
  disk : ∀ s, ¬ Owns v m.ctx f i s → m'.disk s = m.disk s

theorem Foreign.trans {m₁ m₂ m₃ : Machine} (h₁ : Foreign v n f i m₁ m₂) (h₂ : Foreign v n f i m₂ m₃) :
    Foreign v n f i m₁ m₃ := by
  obtain ⟨s₁, hctx₁⟩ := h₁.ctx
  obtain ⟨s₂, hctx₂⟩ := h₂.ctx
  obtain ⟨-, howned, hbg, hslot⟩ := h₂
  rw [hctx₁, owns_sysbuf] at howned
  rw [hctx₁, background_sysbuf] at hbg
  rw [hctx₁, inodeAt_sysbuf, inodeAt_sysbuf] at hslot
  refine ⟨⟨s₂, by rw [hctx₂, hctx₁]⟩, fun s hs => ?_, hbg, hslot.trans h₁.slot⟩
  rw [howned s hs, h₁.owned s hs]

theorem Moved.foreign (hsep : Separate v m.ctx n f) (hi : i < n) (hj : j < n) (hne : i ≠ j)
    (hbg : Background v m.ctx n f m.disk) (hm : Moved v f i m m') : Foreign v n f j m m' := by
  have hgroup := (hsep.counted j hj).group
  refine ⟨⟨m.ctx.sysbuf, hm.ctx⟩, fun s hs => ?_, fun s hs hslots => ?_, ?_⟩
  · exact hm.disk s fun hown => hne (hsep.disjoint i hi j hj s hown hs)
  · rw [hm.disk s (hs i hi)]
    exact hbg s hs hslots
  · refine inodeAt_congr (descriptorAt_congr (hm.disk _ fun hown => ?_)) (hm.disk _ fun hown => ?_)
    · exact hsep.descriptor i hi _ hown _ hgroup rfl
    · rw [hsep.slotSector_eq hbg hj] at hown
      exact hsep.slot i hi j hj _ hown rfl

/-- What a call on file `i` is to the rest of the volume. -/
structure Spares (v : UInt32 → Sector) (n : Nat) (f : Nat → FileEnt) (i : Nat) (m m' : Machine) :
    Prop where
  ctx : ∃ s, m'.ctx = { m.ctx with sysbuf := s }
  background : Background v m.ctx n f m'.disk
  others : ∀ j < n, i ≠ j → Foreign v n f j m m'

theorem Moved.spares (hsep : Separate v m.ctx n f) (hi : i < n)
    (hbg : Background v m.ctx n f m.disk) (hm : Moved v f i m m') : Spares v n f i m m' := by
  refine ⟨⟨m.ctx.sysbuf, hm.ctx⟩, fun s hs hslots => ?_, fun j hj hne =>
    hm.foreign hsep hi hj hne hbg⟩
  rw [hm.disk s (hs i hi)]
  exact hbg s hs hslots

/-- The inode of file `i` is written. -/
theorem Separate.spares_put (hsep : Separate v m.ctx n f) (hi : i < n)
    (hbg : Background v m.ctx n f m.disk) (hctx : ∃ s, m'.ctx = { m.ctx with sysbuf := s })
    {inode : Inode} (hdisk : m'.disk = putInode m.disk m.ctx (f i).inodeNumber inode) :
    Spares v n f i m m' := by
  have hslot := hsep.slotSector_eq hbg hi
  have hbg' : Background v m.ctx n f m'.disk := fun s hs hslots => by
    rw [hdisk, putInode, hslot, Function.update_of_ne (hslots i hi)]
    exact hbg s hs hslots
  refine ⟨hctx, hbg', fun j hj hne => ⟨hctx, fun s hs => ?_, hbg', ?_⟩⟩
  · rw [hdisk, putInode, hslot, Function.update_of_ne (hsep.slot j hj i hi s hs)]
  · rw [hdisk]
    exact (hsep.tables_eq hbg).inodeAt_putInode_ne (hsep.counted i hi) (hsep.counted j hj)
      (fun heq => hne (hsep.numbers i hi j hj heq)) inode

theorem Spares.trans {m₁ m₂ m₃ : Machine} (h₁ : Spares v n f i m₁ m₂) (h₂ : Spares v n f i m₂ m₃) :
    Spares v n f i m₁ m₃ := by
  obtain ⟨s₁, hctx₁⟩ := h₁.ctx
  obtain ⟨s₂, hctx₂⟩ := h₂.ctx
  refine ⟨⟨s₂, by rw [hctx₂, hctx₁]⟩, ?_, fun j hj hne => (h₁.others j hj hne).trans (h₂.others j hj hne)⟩
  have hbg := h₂.background
  rw [hctx₁, background_sysbuf] at hbg
  exact hbg

/-! ## Calls on the file itself -/

/-- An edit of file `i` through its handle. -/
theorem Held.step (hsep : Separate v m.ctx n f) (hi : i < n) (hclean : (f i).buffer.dirty = false)
    (hh : Held v n f i d m fe) (hb : Begun v n f i d m fe b) (he : Editing b (f i) d' m' fe')
    (hbuffer : fe'.buffer.dirty = true → Owns v m.ctx f i (fe'.buffer.lbaBlock + m.ctx.partStart))
    (hstored : fe'.flags.fsDirty = false → fe'.buffer.dirty = false ∧
      inodeAt m'.disk m.ctx (f i).inodeNumber = fe'.inode) :
    Held v n f i d' m' fe' ∧ Moved v f i m m' := by
  have hctx : m'.ctx = m.ctx := he.ctx.trans hb.ctx
  have hb' : Begun v n f i d' m' fe' b := by
    refine ⟨hb.ctx.trans hctx.symm, ?_, ?_, he⟩
    · rw [hctx]
      exact hb.background
    · rw [hctx]
      exact hb.owned
  have hh' : Held v n f i d' m' fe' := by
    refine ⟨⟨b, hb'⟩, ?_, ?_⟩
    · rw [hctx]
      exact hbuffer
    · rw [hctx]
      exact hstored
  refine ⟨hh', hctx, fun s hs => ?_⟩
  have hs' : ¬ Owns v m'.ctx f i s := by
    rw [hctx]
    exact hs
  have hsep' : Separate v m'.ctx n f := by
    rw [hctx]
    exact hsep
  rw [← hh'.view_eq hs', hb'.frame hsep' hi hclean hs', ← hb.frame hsep hi hclean hs, hh.view_eq hs]

/-- A seek, successful or not. -/
theorem Held.moved (hh : Held v n f i d m fe) (c : Int) (e : Errno) :
    Held v n f i d { m with rerrno := e } { fe with cursor := c } := by
  obtain ⟨b, hb⟩ := hh.begun
  have he := hb.editing
  exact ⟨⟨b, hb.ctx, hb.background, hb.owned, he.ctx, he.magic, he.number, he.mode, he.inode, he.frame,
    he.size, he.bytes⟩, hh.buffer, hh.stored⟩

/-- The view of the handle and its inode are on the device. -/
theorem Held.putAway (hsep : Separate v m.ctx n f) (hi : i < n) (hclean : (f i).buffer.dirty = false)
    (hh : Held v n f i d m fe) (hbg : Background v m.ctx n f m.disk)
    (hbg' : Background v m.ctx n f m'.disk) (hctx : ∃ s, m'.ctx = { m.ctx with sysbuf := s })
    (howned : ∀ s, Owns v m.ctx f i s → m'.disk s = view m fe s)
    (hslot : inodeAt m'.disk m.ctx (f i).inodeNumber = fe.inode) : PutAway v f i d m' := by
  obtain ⟨s, hctx⟩ := hctx
  obtain ⟨b, hb⟩ := hh.begun
  have he := hb.editing
  have hinode : inodeAt m'.disk m'.ctx (f i).inodeNumber = fe.inode := by
    rw [hctx, inodeAt_sysbuf, hslot]
  refine ⟨by rw [hinode, he.inode], by rw [hinode, he.size], fun p hp => ?_⟩
  rw [hctx, mapped_sysbuf] at hp
  have hbytes := he.bytes p (by rw [hb.mapped_eq hsep hi hclean]; exact hp)
  rw [hb.ctx, hsep.fileByte_eq (hh.background hi hbg) hi] at hbytes
  rw [hctx, fileByte_withSysbuf, hsep.fileByte_eq hbg' hi, howned _ ⟨p, hp, rfl⟩]
  exact hbytes

/-- A close of a handle that has nothing to store. -/
theorem ext2Close_stored (hmagic : fe.magic = embextMagic) (hbuf : fe.buffer.dirty = false)
    (hdirty : fe.flags.fsDirty = false) : ext2Close fe h m = .ok ((0, { fe with magic := 0 }), m) := by
  have hstore : (if fe.buffer.dirty then ext2StoreBuffer fe else pure (0, fe) :
      Drv (Int × FileEnt)) h m = .ok ((0, fe), m) := by
    rw [hbuf]
    rfl
  have hflush : (if fe.flags.fsDirty then ext2FlushInode fe else pure (0, fe) :
      Drv (Int × FileEnt)) h m = .ok ((0, fe), m) := by
    rw [hdirty]
    rfl
  unfold ext2Close
  rw [if_neg (not_not.2 hmagic), Prog.bind_ok hstore]
  dsimp only
  rw [if_neg (not_not.2 rfl), Prog.bind_ok hflush]
  rfl

/-- A close puts the file away. -/
theorem Held.close (hsep : Separate v m.ctx n f) (hi : i < n) (hclean : (f i).buffer.dirty = false)
    (hheld : Held v n f i d m fe) (hbg : Background v m.ctx n f m.disk) (hh : h.Reliable) :
    ∃ m' fe', ext2Close fe h m = .ok ((0, fe'), m') ∧ PutAway v f i d m' ∧ Spares v n f i m m' := by
  obtain ⟨b, hb⟩ := hheld.begun
  have he := hb.editing
  have hgroup := (hsep.counted i hi).group
  have hbgview := hheld.background hi hbg
  cases hdirty : fe.flags.fsDirty with
  | true =>
    obtain ⟨m', fe', hrun, hctx, hdisk⟩ := ext2Close_ok hh hsep.tables.slotted he.magic hdirty
      (by rw [he.number]; exact hgroup)
    rw [he.number] at hdisk
    -- the buffer is stored, then the inode
    let m₁ : Machine := { m with disk := view m fe }
    have hstored : Spares v n f i m m₁ :=
      Moved.spares hsep hi hbg ⟨rfl, fun s hs => hheld.view_eq hs⟩
    have hput : Spares v n f i m₁ m' := Separate.spares_put (m := m₁) hsep hi hbgview hctx hdisk
    refine ⟨m', fe', hrun, ?_, hstored.trans hput⟩
    refine hheld.putAway hsep hi hclean hbg hput.background hctx (fun s hs => ?_) ?_
    · rw [hdisk, putInode, hsep.slotSector_eq hbgview hi,
        Function.update_of_ne (hsep.slot i hi i hi s hs)]
    · rw [hdisk]
      exact (hsep.tables_eq hbgview).inodeAt_putInode (hsep.counted i hi) _
  | false =>
    obtain ⟨hbuf, hslot⟩ := hheld.stored hdirty
    refine ⟨m, { fe with magic := 0 }, ?_, ?_, Moved.spares hsep hi hbg ⟨rfl, fun s _ => rfl⟩⟩
    · exact ext2Close_stored he.magic hbuf hdirty
    · refine hheld.putAway hsep hi hclean hbg hbg ⟨m.ctx.sysbuf, rfl⟩ (fun s _ => ?_) hslot
      rw [view_of_clean hbuf]

end Embext
