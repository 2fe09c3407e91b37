import Embext.Proofs.Calls
import Embext.Proofs.FailedSelection

set_option autoImplicit false

/-! # Two handles on one inode

Each handle has its own copy of the inode, and `ext2_close` writes the whole copy back when the
handle is marked dirty, which a read does for the access time. So the copy on disk is that of the
handle closed last among those that were marked. With one handle `a` that only reads and one handle
`b` that writes, the size, the pointers and the modification time of `b` stay on disk when `a` is
closed first, or has delivered nothing. -/

namespace Embext

variable {h : Host} {m m' : Machine} {fe fe' : FileEnt}

/-! ## The calls of the two handles -/

/-- The same size, pointers and modification time. -/
def Inode.SameData (i j : Inode) : Prop :=
  i.iSize = j.iSize ∧ i.iBlock = j.iBlock ∧ i.iMtime = j.iMtime

theorem Inode.SameData.refl (i : Inode) : i.SameData i := ⟨rfl, rfl, rfl⟩

theorem Inode.SameData.trans {i j k : Inode} (h₁ : i.SameData j) (h₂ : j.SameData k) :
    i.SameData k := ⟨h₁.1.trans h₂.1, h₁.2.1.trans h₂.2.1, h₁.2.2.trans h₂.2.2⟩

/-- A later state of a handle whose inode has still to be written back with the data it had. -/
structure FileEnt.Carries (fe fe' : FileEnt) : Prop where
  number : fe'.inodeNumber = fe.inodeNumber
  flush : fe'.flags.fsDirty = true
  data : fe'.inode.SameData fe.inode

/-- A read never leaves an idle handle with something to store; one that delivers nothing has
    written nothing and marked nothing. -/
theorem ext2Read_idle (hh : h.Reliable) (hnum : m.ctx.Numbered) {count : Nat} {r : Int}
    {bytes : List UInt8} (hclean : fe.buffer.dirty = false)
    (hrun : ext2Read fe count h m = .ok ((r, bytes, fe'), m')) : fe'.buffer.dirty = false ∧
      (r ≤ 0 → m'.disk = m.disk ∧ fe'.flags = fe.flags) := by
  rcases ext2Read_outcome hh hrun with ⟨e, hle⟩ | ⟨hr, hsel, -⟩ | ⟨hn, hS, -, -⟩
  · exact ⟨hclean, fun _ => ⟨rfl, rfl⟩⟩
  · obtain ⟨hq, hfe'⟩ := quiet_ext2SelectBuffer_failed hnum (F := fun f => f = fe.flags)
      ⟨hclean, rfl⟩ m _ _ (.refl m) hsel hr
    exact ⟨hfe'.clean, fun _ => ⟨hq.disk, hfe'.flags⟩⟩
  · exact ⟨hS.clean, fun hle => absurd hn (by omega)⟩

/-- A read inside the mapped part of the file keeps what the handle carries. -/
theorem ext2Read_carries (hh : h.Reliable) (hs : m.ctx.SaneBlockSize) {count : Nat} {r : Int}
    {bytes : List UInt8} (hmap : cursorBlock m fe ≠ 0 ∨ (fe.inode.iSize.toNat : Int) ≤ fe.cursor)
    (hflush : fe.flags.fsDirty = true)
    (hrun : ext2Read fe count h m = .ok ((r, bytes, fe'), m')) : fe.Carries fe' := by
  rcases ext2Read_outcome hh hrun with ⟨e, hle⟩ | ⟨hr, hsel, hend⟩ | ⟨hn, hS, hend, -⟩
  · exact ⟨rfl, hflush, .refl _⟩
  · have hb := hmap.resolve_right (Int.not_le.2 hend)
    obtain ⟨m₁, fe₁, hok, -⟩ := ext2SelectBuffer_mapped hh hs hb
    rw [hok] at hsel
    cases hsel
    exact absurd rfl hr
  · have hino := hS.mapped (hmap.resolve_right (Int.not_le.2 hend))
    refine ⟨?_, rfl, ?_⟩
    · rw [hS.handle]
      rfl
    · unfold FileEnt.advanced
      rw [hino]
      exact ⟨rfl, rfl, rfl⟩

/-- A write that wrote nothing keeps what the handle carries. -/
theorem ext2Write_carries (hh : h.Reliable) {data : List UInt8} {r : Int} (hr : r ≤ 0)
    (hflush : fe.flags.fsDirty = true)
    (hrun : ext2Write fe data h m = .ok ((r, fe'), m')) : fe.Carries fe' := by
  rcases ext2Write_outcome hh hrun with ⟨c, e, hle⟩ | ⟨hr', hsel⟩ | ⟨hne, -, hS, -⟩
  · exact ⟨rfl, hflush, .refl _⟩
  · have hsame : fe.writeStart.SameFile fe' := (keeps_ext2SelectBuffer _ m _ _ trivial hsel).2 hr'
    rw [writeStart_eq] at hsame
    rw [hsame]
    exact ⟨rfl, hflush, .refl _⟩
  · exact absurd hr (by
      have := List.length_pos_iff.2 hne
      omega)

/-- A write that wrote something marks the handle. -/
theorem ext2Write_marks (hh : h.Reliable) {data : List UInt8} {r : Int} (hr : 0 < r)
    (hrun : ext2Write fe data h m = .ok ((r, fe'), m')) : fe'.flags.fsDirty = true := by
  rcases ext2Write_outcome hh hrun with ⟨c, e, hle⟩ | ⟨hr', hsel⟩ | ⟨hne, -, hS, -⟩
  · exact absurd hr (Int.not_lt.2 hle)
  · exact absurd hr (by decide)
  · rfl

/-- A close that fails does nothing. -/
theorem of_ext2Close_ne (hh : h.Reliable) {r : Int} (hr : r ≠ 0)
    (hrun : ext2Close fe h m = .ok ((r, fe'), m')) :
    fe' = fe ∧ ∃ e, m' = { m with rerrno := e } := by
  unfold ext2Close at hrun
  by_cases hmagic : fe.magic ≠ embextMagic
  · rw [if_pos hmagic] at hrun
    cases hrun
    exact ⟨rfl, .ebadf, rfl⟩
  · rw [if_neg hmagic] at hrun
    obtain ⟨⟨r₁, fe₁⟩, m₁, hstore, hrun⟩ := Prog.of_bind_ok hrun
    have hr₁ : r₁ = 0 := by
      by_cases hd : fe.buffer.dirty = true
      · rw [if_pos hd, ext2StoreBuffer_ok hh] at hstore
        cases hstore
        rfl
      · rw [if_neg hd] at hstore
        cases hstore
        rfl
    dsimp only at hrun
    rw [if_neg (not_not.2 hr₁)] at hrun
    obtain ⟨⟨r₂, fe₂⟩, m₂, hflush, hrun⟩ := Prog.of_bind_ok hrun
    have hr₂ : r₂ = 0 := by
      by_cases hd : fe₁.flags.fsDirty = true
      · rw [if_pos hd] at hflush
        exact (ext2FlushInode_ret fe₁ m₁ _ m₂ trivial hflush).2
      · rw [if_neg hd] at hflush
        cases hflush
        rfl
    dsimp only at hrun
    rw [if_neg (not_not.2 hr₂)] at hrun
    cases hrun
    exact absurd rfl hr

/-- Closing an unmarked idle handle writes nothing. -/
theorem ext2Close_idle (hh : h.Reliable) {r : Int} (hclean : fe.buffer.dirty = false)
    (hflush : fe.flags.fsDirty = false) (hrun : ext2Close fe h m = .ok ((r, fe'), m')) :
    m'.disk = m.disk := by
  by_cases hr : r = 0
  · subst hr
    obtain ⟨fe₁, m₁, hstore, -, hnone⟩ := of_ext2Close_ok hrun
    obtain ⟨-, -, hm₁, -⟩ := of_closeStore hstore
    rw [hnone hflush, hm₁, view, if_neg (by rw [hclean]; decide)]
  · obtain ⟨-, e, rfl⟩ := of_ext2Close_ne hh hr hrun
    rfl

theorem inodeAt_sameVolume {v : UInt32 → Sector} {c c' : Ext2Context} (hvol : c.SameVolume c')
    (ino : UInt32) : inodeAt v c' ino = inodeAt v c ino := by
  unfold Ext2Context.SameVolume at hvol
  rw [hvol]
  rfl

/-- A marked handle that is closed leaves its inode in its slot. -/
theorem ext2Close_inodeAt (hh : h.Reliable) (hs : m.ctx.Slotted) (hflush : fe.flags.fsDirty = true)
    (hslot : slotSector (view m fe) m.ctx fe.inodeNumber
      ≠ descriptorSector m.ctx (inodeGroup m.ctx fe.inodeNumber))
    (hrun : ext2Close fe h m = .ok ((0, fe'), m')) :
    inodeAt m'.disk m'.ctx fe.inodeNumber = fe.inode := by
  obtain ⟨fe₁, m₁, hstore, hfl, -⟩ := of_ext2Close_ok hrun
  obtain ⟨hfe₁, hclean, hm₁, -⟩ := of_closeStore hstore
  obtain ⟨r, fe₂, hrun₂⟩ := hfl hflush
  have hctx : m₁.ctx = m.ctx := by rw [hm₁]
  have hdisk : m₁.disk = view m fe := by rw [hm₁]
  have hino : fe₁.inodeNumber = fe.inodeNumber := by rw [hfe₁]
  have hinode : fe₁.inode = fe.inode := by rw [hfe₁]
  have hflush₁ : fe₁.flags.fsDirty = true := by
    rw [hfe₁]
    exact hflush
  rw [← hino, ← hinode]
  refine (ext2FlushInode_inodeAt hh ?_ hclean hflush₁ ?_ hrun₂).2
  · rw [hctx]
    exact hs
  · rw [hctx, hdisk, hino]
    exact hslot

/-! ## Interleavings -/

/-- A call that only reads through handle `fd`. -/
def Call.ReadsOnly (fd : Nat) : Call → Prop
  | .read g _ => g = fd
  | .lseek g _ _ => g = fd
  | .close g => g = fd
  | _ => False

/-- A call that reads or writes through handle `fd`. -/
def Call.ReadsWrites (fd : Nat) : Call → Prop
  | .write g _ => g = fd
  | call => call.ReadsOnly fd

variable {a b : Nat} {quiet : Prop} {files files' : Files} {reply : Reply} {call : Call}

/-- A call through one handle leaves the others alone, and does not return once it is freed. -/
theorem readsWrites_other (hcall : call.ReadsWrites b)
    (hexec : execCall call files h m = .ok ((reply, files'), m')) :
    files[b]? ≠ some none ∧ ∀ k, k ≠ b → files'[k]? = files[k]? := by
  have key : ∀ {null : Reply} {body : FileEnt → Drv (Reply × Option FileEnt)},
      withHandle files b null body h m = .ok ((reply, files'), m') →
      files[b]? ≠ some none ∧ ∀ k, k ≠ b → files'[k]? = files[k]? := by
    intro null body hrun
    rcases of_withHandle_ok hrun with ⟨hnone, rfl, -⟩ | ⟨fe, o, hfe, -, rfl⟩
    · exact ⟨by rw [hnone]; simp, fun k _ => rfl⟩
    · exact ⟨by rw [hfe]; simp, fun k hk => List.getElem?_set_ne hk.symm⟩
  cases call with
  | read g count | write g data | lseek g offset whence | close g =>
    obtain rfl : g = b := hcall
    exact key hexec
  | «open» | readdir | fstat | isatty => exact absurd hcall id

theorem Call.ReadsOnly.readsWrites (hcall : call.ReadsOnly a) : call.ReadsWrites a := by
  cases call with
  | write => exact absurd hcall id
  | read | lseek | close | «open» | readdir | fstat | isatty => exact hcall

/-- Handle `a` has nothing to store, and is unmarked as long as it has delivered nothing. -/
def ReaderIdle (a : Nat) (quiet : Prop) (files : Files) : Prop :=
  ∀ fe, files[a]? = some (some fe) →
    fe.buffer.dirty = false ∧ (quiet → fe.flags.fsDirty = false)

/-- One call of the reading handle. If it delivers nothing it writes nothing. -/
theorem readerIdle_step (hh : h.Reliable) (hnum : m.ctx.Numbered) (hcall : call.ReadsOnly a)
    (hexec : execCall call files h m = .ok ((reply, files'), m'))
    (hquiet : quiet → ∀ count k bytes, call = .read a count → reply = .data k bytes → k ≤ 0)
    (hidle : ReaderIdle a quiet files) :
    ReaderIdle a quiet files' ∧ (quiet → m'.disk = m.disk) := by
  have key : ∀ {null : Reply} {body : FileEnt → Drv (Reply × Option FileEnt)},
      withHandle files a null body h m = .ok ((reply, files'), m') →
      (∀ fe o, fe.buffer.dirty = false → (quiet → fe.flags.fsDirty = false) →
        body fe h m = .ok ((reply, o), m') → (quiet → m'.disk = m.disk) ∧
        ∀ fe', o = some fe' → fe'.buffer.dirty = false ∧ (quiet → fe'.flags.fsDirty = false)) →
      ReaderIdle a quiet files' ∧ (quiet → m'.disk = m.disk) := by
    intro null body hrun hbody
    rcases of_withHandle_ok hrun with ⟨-, rfl, rfl⟩ | ⟨fe, o, hfe, hb, rfl⟩
    · exact ⟨hidle, fun _ => rfl⟩
    · obtain ⟨hclean, hflush⟩ := hidle fe hfe
      obtain ⟨hdisk, ho⟩ := hbody fe o hclean hflush hb
      refine ⟨fun fe' hfe' => ho fe' ?_, hdisk⟩
      rw [List.getElem?_set_self (List.getElem?_eq_some_iff.1 hfe).1] at hfe'
      exact Option.some.inj hfe'
  cases call with
  | read g count =>
    obtain rfl : g = a := hcall
    refine key hexec fun fe o hclean hflush hb => ?_
    obtain ⟨⟨r, bytes, fe₁⟩, m₁, hread, hb⟩ := Prog.of_bind_ok hb
    cases hb
    obtain ⟨hclean', hle⟩ := ext2Read_idle hh hnum hclean hread
    have hr : quiet → r ≤ 0 := fun hq => hquiet hq count r bytes rfl rfl
    refine ⟨fun hq => (hle (hr hq)).1, fun fe' hfe' => ?_⟩
    cases hfe'
    exact ⟨hclean', fun hq => by rw [(hle (hr hq)).2]; exact hflush hq⟩
  | lseek g offset whence =>
    obtain rfl : g = a := hcall
    refine key hexec fun fe o hclean hflush hb => ?_
    obtain ⟨⟨r, fe₁⟩, m₁, hseek, hb⟩ := Prog.of_bind_ok hb
    cases hb
    obtain ⟨c, e, rfl, rfl⟩ := of_ext2Lseek_ok hseek
    refine ⟨fun _ => rfl, fun fe' hfe' => ?_⟩
    cases hfe'
    exact ⟨hclean, hflush⟩
  | close g =>
    obtain rfl : g = a := hcall
    refine key hexec fun fe o hclean hflush hb => ?_
    obtain ⟨⟨r, fe₁⟩, m₁, hclose, hb⟩ := Prog.of_bind_ok hb
    cases hb
    refine ⟨fun hq => ext2Close_idle hh hclean (hflush hq) hclose, fun fe' hfe' => ?_⟩
    by_cases hr : r = 0
    · rw [if_pos hr] at hfe'
      cases hfe'
    · rw [if_neg hr] at hfe'
      cases hfe'
      obtain ⟨rfl, -⟩ := of_ext2Close_ne hh hr hclose
      exact ⟨hclean, hflush⟩
  | «open» | write | readdir | fstat | isatty => exact absurd hcall id

/-- The data of `fb` are with the open handle `b`, or on disk with nothing to come after them. -/
def Carried (a b : Nat) (quiet : Prop) (fb : FileEnt) (files : Files) (m : Machine) : Prop :=
  (∃ fe, files[b]? = some (some fe) ∧ fb.Carries fe) ∨
  files[b]? = some none ∧ (inodeAt m.disk m.ctx fb.inodeNumber).SameData fb.inode ∧
    (quiet ∨ files[a]? = some none)

theorem FileEnt.Carries.trans {fe₁ fe₂ fe₃ : FileEnt} (h₁ : fe₁.Carries fe₂)
    (h₂ : fe₂.Carries fe₃) : fe₁.Carries fe₃ :=
  ⟨h₂.number.trans h₁.number, h₂.flush, h₂.data.trans h₁.data⟩

variable {fb : FileEnt}

/-- A call of the reading handle leaves the data where they are. -/
theorem carried_reader (hab : a ≠ b) (hcall : call.ReadsOnly a)
    (hexec : execCall call files h m = .ok ((reply, files'), m'))
    (hdisk : quiet → m'.disk = m.disk) (hc : Carried a b quiet fb files m) :
    Carried a b quiet fb files' m' := by
  obtain ⟨hopen, hother⟩ := readsWrites_other hcall.readsWrites hexec
  rcases hc with ⟨fe, hfe, hcar⟩ | ⟨hfreed, hdata, hq | hfreed'⟩
  · exact .inl ⟨fe, by rw [hother b hab.symm]; exact hfe, hcar⟩
  · refine .inr ⟨by rw [hother b hab.symm]; exact hfreed, ?_, .inl hq⟩
    rw [hdisk hq, inodeAt_sameVolume ((steps_execCall call files).sameVolume hexec)]
    exact hdata
  · exact absurd hfreed' hopen

/-- What the writing handle must not do after the last write, for its data to stay: write again,
    read where the block map has a hole, or close while the marked handle `a` is open or over a
    descriptor table that its inode's slot overlaps. -/
structure Executed.Spares (c : Executed) (a b : Nat) (quiet : Prop) : Prop where
  write : ∀ data k, c.call = .write b data → c.reply = .ret k → k ≤ 0
  read : ∀ count fe, c.call = .read b count → c.files[b]? = some (some fe) →
    cursorBlock c.before fe ≠ 0 ∨ (fe.inode.iSize.toNat : Int) ≤ fe.cursor
  slot : ∀ fe, c.call = .close b → c.files[b]? = some (some fe) →
    slotSector (view c.before fe) c.before.ctx fe.inodeNumber
      ≠ descriptorSector c.before.ctx (inodeGroup c.before.ctx fe.inodeNumber)
  order : c.call = .close b → quiet ∨ c.files[a]? = some none

theorem spares_of_close_other {c : Executed} {g : Nat} (hcall : c.call = .close g) (hg : g ≠ b) :
    c.Spares a b quiet where
  write data k h := by rw [hcall] at h; cases h
  read count fe h := by rw [hcall] at h; cases h
  slot fe h := by rw [hcall] at h; cases h; exact absurd rfl hg
  order h := by rw [hcall] at h; cases h; exact absurd rfl hg

theorem spares_of_close {c : Executed} (hcall : c.call = .close b)
    (hslot : ∀ fe, c.files[b]? = some (some fe) →
      slotSector (view c.before fe) c.before.ctx fe.inodeNumber
        ≠ descriptorSector c.before.ctx (inodeGroup c.before.ctx fe.inodeNumber))
    (horder : quiet ∨ c.files[a]? = some none) : c.Spares a b quiet where
  write data k h := by rw [hcall] at h; cases h
  read count fe h := by rw [hcall] at h; cases h
  slot fe _ := hslot fe
  order _ := horder

/-- A call of the writing handle keeps the data, and its close puts them on disk. -/
theorem carried_writer (hh : h.Reliable) {c : Executed} (hs : c.before.ctx.Sane) (hab : a ≠ b)
    (hcall : c.call.ReadsWrites b)
    (hexec : execCall c.call c.files h c.before = .ok ((c.reply, c.files'), c.after))
    (hsp : c.Spares a b quiet) (hc : Carried a b quiet fb c.files c.before) :
    Carried a b quiet fb c.files' c.after := by
  obtain ⟨hopen, hother⟩ := readsWrites_other hcall hexec
  rcases hc with ⟨fe, hfe, hcar⟩ | ⟨hfreed, -⟩
  swap
  · exact absurd hfreed hopen
  have hlt := (List.getElem?_eq_some_iff.1 hfe).1
  rcases hcc : c.call with _ | g | ⟨g, count⟩ | ⟨g, data⟩ | ⟨g, offset, whence⟩ | g | g | g
  · rw [hcc] at hcall
    exact absurd hcall id
  · rw [hcc] at hcall hexec
    obtain rfl : g = b := hcall
    obtain ⟨o, hbody, hset⟩ := of_withHandle_open hfe hexec
    obtain ⟨⟨r, fe₁⟩, m₁, hclose, hbody⟩ := Prog.of_bind_ok hbody
    simp only [Prog.pure_apply, Except.ok.injEq, Prod.mk.injEq] at hbody
    obtain ⟨⟨-, rfl⟩, rfl⟩ := hbody
    rw [hset]
    by_cases hr : r = 0
    · subst hr
      refine .inr ⟨by rw [List.getElem?_set_self hlt, if_pos rfl], ?_, ?_⟩
      · rw [← hcar.number, ext2Close_inodeAt hh hs.slotted hcar.flush (hsp.slot fe hcc hfe) hclose]
        exact hcar.data
      · rw [List.getElem?_set_ne hab.symm]
        exact hsp.order hcc
    · obtain ⟨rfl, -⟩ := of_ext2Close_ne hh hr hclose
      exact .inl ⟨fe₁, by rw [List.getElem?_set_self hlt, if_neg hr], hcar⟩
  · rw [hcc] at hcall hexec
    obtain rfl : g = b := hcall
    obtain ⟨o, hbody, hset⟩ := of_withHandle_open hfe hexec
    obtain ⟨⟨r, bytes, fe₁⟩, m₁, hread, hbody⟩ := Prog.of_bind_ok hbody
    simp only [Prog.pure_apply, Except.ok.injEq, Prod.mk.injEq] at hbody
    obtain ⟨⟨-, rfl⟩, rfl⟩ := hbody
    rw [hset]
    exact .inl ⟨fe₁, List.getElem?_set_self hlt, hcar.trans
      (ext2Read_carries hh hs.block (hsp.read count fe hcc hfe) hcar.flush hread)⟩
  · rw [hcc] at hcall hexec
    obtain rfl : g = b := hcall
    obtain ⟨o, hbody, hset⟩ := of_withHandle_open hfe hexec
    obtain ⟨⟨r, fe₁⟩, m₁, hwrite, hbody⟩ := Prog.of_bind_ok hbody
    simp only [Prog.pure_apply, Except.ok.injEq, Prod.mk.injEq] at hbody
    obtain ⟨⟨hr, rfl⟩, rfl⟩ := hbody
    rw [hset]
    exact .inl ⟨fe₁, List.getElem?_set_self hlt, hcar.trans
      (ext2Write_carries hh (hsp.write data r hcc hr.symm) hcar.flush hwrite)⟩
  · rw [hcc] at hcall hexec
    obtain rfl : g = b := hcall
    obtain ⟨o, hbody, hset⟩ := of_withHandle_open hfe hexec
    obtain ⟨⟨r, fe₁⟩, m₁, hseek, hbody⟩ := Prog.of_bind_ok hbody
    simp only [Prog.pure_apply, Except.ok.injEq, Prod.mk.injEq] at hbody
    obtain ⟨⟨-, rfl⟩, -⟩ := hbody
    obtain ⟨cur, e, rfl, -⟩ := of_ext2Lseek_ok hseek
    rw [hset]
    exact .inl ⟨_, List.getElem?_set_self hlt, hcar.number, hcar.flush, hcar.data⟩
  all_goals
    rw [hcc] at hcall
    exact absurd hcall id

theorem Ext2Context.Numbered.of_sameVolume {c c' : Ext2Context} (hn : c.Numbered)
    (hvol : c.SameVolume c') : c'.Numbered := by
  unfold SameVolume at hvol
  rw [hvol]
  exact hn

variable {run : List Executed}

/-- `a` stays idle over a run of both handles. -/
theorem readerIdle_run (hh : h.Reliable) (hab : a ≠ b) (hrun : Run h files m run files' m')
    (hnum : m.ctx.Numbered)
    (hcalls : ∀ c ∈ run, c.call.ReadsOnly a ∨ c.call.ReadsWrites b)
    (hquiet : quiet → ∀ c ∈ run, ∀ count k bytes, c.call = .read a count →
      c.reply = .data k bytes → k ≤ 0)
    (hidle : ReaderIdle a quiet files) : ReaderIdle a quiet files' := by
  induction hrun with
  | nil => exact hidle
  | cons c exec rest ih =>
    refine ih (hnum.of_sameVolume ((steps_execCall _ _).sameVolume exec))
      (fun d hd => hcalls d (List.mem_cons_of_mem _ hd))
      (fun hq d hd => hquiet hq d (List.mem_cons_of_mem _ hd)) ?_
    rcases hcalls c List.mem_cons_self with hcall | hcall
    · exact (readerIdle_step hh hnum hcall exec (fun hq => hquiet hq c List.mem_cons_self) hidle).1
    · intro fe hfe
      rw [(readsWrites_other hcall exec).2 a hab] at hfe
      exact hidle fe hfe

/-- The data of the last write stay where they belong over the rest of the run. -/
theorem carried_run (hh : h.Reliable) (hab : a ≠ b) (hrun : Run h files m run files' m')
    (hs : m.ctx.Sane) (hnum : m.ctx.Numbered)
    (hcalls : ∀ c ∈ run, c.call.ReadsOnly a ∨ c.call.ReadsWrites b)
    (hquiet : quiet → ∀ c ∈ run, ∀ count k bytes, c.call = .read a count →
      c.reply = .data k bytes → k ≤ 0)
    (hsp : ∀ c ∈ run, c.Spares a b quiet) (hidle : ReaderIdle a quiet files)
    (hc : Carried a b quiet fb files m) : Carried a b quiet fb files' m' := by
  induction hrun with
  | nil => exact hc
  | cons c exec rest ih =>
    have hvol := (steps_execCall _ _).sameVolume exec
    have hmem : ∀ l : List Executed, c ∈ c :: l := fun _ => List.mem_cons_self
    refine ih (hs.of_sameVolume hvol) (hnum.of_sameVolume hvol)
      (fun d hd => hcalls d (List.mem_cons_of_mem _ hd))
      (fun hq d hd => hquiet hq d (List.mem_cons_of_mem _ hd))
      (fun d hd => hsp d (List.mem_cons_of_mem _ hd)) ?_ ?_
    · exact readerIdle_run hh hab (.cons c exec (.nil _ _)) hnum
        (fun d hd => hcalls d (List.mem_singleton.1 hd ▸ hmem _))
        (fun hq d hd => hquiet hq d (List.mem_singleton.1 hd ▸ hmem _)) hidle
    · rcases hcalls c (hmem _) with hcall | hcall
      · exact carried_reader hab hcall exec (readerIdle_step hh hnum hcall exec
          (fun hq => hquiet hq c (hmem _)) hidle).2 hc
      · exact carried_writer hh hs hab hcall exec (hsp c (hmem _)) hc

/-- No read through handle `a` delivers a byte. -/
def DeliversNothing (a : Nat) (run : List Executed) : Prop :=
  ∀ c ∈ run, ∀ count k bytes, c.call = .read a count → c.reply = .data k bytes → k ≤ 0

/-- **The last write's metadata stay on disk.** Handle `a` only reads, `b` reads and writes, `w` is
    the last successful write through `b`, which leaves the handle as `fb`. Once `b` is closed, the
    size, pointers and modification time on disk are those of `fb`, provided that `a` delivered
    nothing or was closed before `b` (`Executed.Spares`). -/
theorem update_kept (hh : h.Reliable) (hs : m.ctx.Sane) (hnum : m.ctx.Numbered) (hab : a ≠ b)
    {fa : FileEnt} (ha : files[a]? = some (some fa)) (hclean : fa.buffer.dirty = false)
    (hflush : fa.flags.fsDirty = false) {before after : List Executed} {w : Executed}
    {data : List UInt8} {n : Int} (hrun : Run h files m (before ++ w :: after) files' m')
    (hcalls : ∀ c ∈ before ++ w :: after, c.call.ReadsOnly a ∨ c.call.ReadsWrites b)
    (hwrite : w.call = .write b data) (hn : w.reply = .ret n) (hpos : 0 < n)
    (hfb : w.files'[b]? = some (some fb))
    (hsp : ∀ c ∈ after, c.Spares a b (DeliversNothing a (before ++ w :: after)))
    (hclosed : files'[b]? = some none) :
    (inodeAt m'.disk m'.ctx fb.inodeNumber).SameData fb.inode := by
  have hidle₀ : ReaderIdle a (DeliversNothing a (before ++ w :: after)) files := by
    intro fe hfe
    rw [ha] at hfe
    cases hfe
    exact ⟨hclean, fun _ => hflush⟩
  obtain ⟨files₁, m₁, hbefore, hrest⟩ := hrun.of_append
  obtain ⟨rfl, rfl, exec, hafter⟩ := hrest.of_cons
  have hs₁ := hs.of_sameVolume hbefore.sameVolume
  have hnum₁ := hnum.of_sameVolume hbefore.sameVolume
  have hvol := (steps_execCall _ _).sameVolume exec
  have hmem : ∀ {c}, c ∈ before ++ [w] → c ∈ before ++ w :: after := by
    intro c hc
    rw [List.append_cons]
    exact List.mem_append_left _ hc
  have hmem' : ∀ {c}, c ∈ after → c ∈ before ++ w :: after := fun hc =>
    List.mem_append_right _ (List.mem_cons_of_mem _ hc)
  -- up to the write `a` stays idle, and the write marks `b`
  have hidle : ReaderIdle a (DeliversNothing a (before ++ w :: after)) w.files' :=
    readerIdle_run hh hab (hbefore.append (.cons w exec (.nil _ _))) hnum
      (fun c hc => hcalls c (hmem hc)) (fun hq c hc => hq c (hmem hc)) hidle₀
  have hmarked : fb.flags.fsDirty = true := by
    rw [hwrite] at exec
    rcases of_withHandle_ok exec with ⟨hnone, hfiles, -⟩ | ⟨fe, o, hfe, hbody, hset⟩
    · rw [hfiles, hnone] at hfb
      cases hfb
    · obtain ⟨⟨r, fe₁⟩, m₂, hrunw, hbody⟩ := Prog.of_bind_ok hbody
      simp only [Prog.pure_apply, Except.ok.injEq, Prod.mk.injEq] at hbody
      obtain ⟨⟨hr, rfl⟩, rfl⟩ := hbody
      rw [hset, List.getElem?_set_self (List.getElem?_eq_some_iff.1 hfe).1] at hfb
      cases hfb
      rw [hn] at hr
      cases hr
      exact ext2Write_marks hh hpos hrunw
  rcases carried_run hh hab hafter (hs₁.of_sameVolume hvol) (hnum₁.of_sameVolume hvol)
    (fun c hc => hcalls c (hmem' hc)) (fun hq c hc => hq c (hmem' hc)) hsp hidle
    (.inl ⟨fb, hfb, rfl, hmarked, .refl _⟩) with ⟨fe, hfe, -⟩ | ⟨-, hdata, -⟩
  · rw [hclosed] at hfe
    cases hfe
  · exact hdata

namespace SmallVolume

/-- A handle on `f` for reading and writing, with its cursor at the end. -/
def handleFEnd : FileEnt := { handleF with flags := ⟨true, true, false, false⟩, cursor := 1000 }

theorem machine_numbered : machine.ctx.Numbered := by
  unfold Ext2Context.Numbered
  decide +kernel

def freed (files : Files) (fd : Nat) : Bool :=
  match files[fd]? with
  | some none => true
  | _ => false

theorem of_freed {files : Files} {fd : Nat} (hf : freed files fd = true) :
    files[fd]? = some none := by
  unfold freed at hf
  split at hf
  · next hfd => exact hfd
  · cases hf

/-- A read through handle 0 before the write, which both closes follow, the writer's first. -/
def lostCalls : List Call := [.read 0 4, .write 1 [7], .close 1, .close 0]

/-- At the end the size on disk is not the one the write left in handle 1. -/
def losesSize (m' : Machine) (files' : Files) : List Executed → Bool
  | [_, ⟨.write 1 [7], _, _, .ret 1, filesW, _⟩, _, _] =>
    freed files' 0 && freed files' 1 && match filesW[1]?.join with
      | some fb => (inodeAt m'.disk m'.ctx fb.inodeNumber).iSize != fb.inode.iSize
      | none => false
  | _ => false

/-- The handle closed last writes back the size from before the write. -/
theorem update_lost : host.Reliable ∧ machine.ctx.Sane ∧ machine.ctx.Numbered ∧
    ∃ before w after files' m' fb,
      Run host [some handleF, some handleFEnd] machine (before ++ w :: after) files' m' ∧
      (before ++ w :: after).map (·.call) = lostCalls ∧
      w.call = .write 1 [7] ∧ w.reply = .ret 1 ∧ w.files'[1]? = some (some fb) ∧
      files'[0]? = some none ∧ files'[1]? = some none ∧
      ¬ (inodeAt m'.disk m'.ctx fb.inodeNumber).SameData fb.inode := by
  refine ⟨host_reliable, machine_ctx_sane, machine_numbered, ?_⟩
  have hf : (match trace lostCalls [some handleF, some handleFEnd] host machine with
    | .ok ((run, files'), m') => losesSize m' files' run
    | .error _ => false) = true := by decide +kernel
  rcases hrun : trace lostCalls [some handleF, some handleFEnd] host machine
    with e | ⟨⟨run, files'⟩, m'⟩
  · rw [hrun] at hf
    cases hf
  rw [hrun] at hf
  obtain ⟨hR, hcalls⟩ := run_of_trace _ hrun
  dsimp only at hf
  unfold losesSize at hf
  split at hf
  · next c₁ files before filesW after c₃ c₄ =>
    split at hf
    · next fb hfb =>
      simp only [Bool.and_eq_true, bne_iff_ne] at hf
      obtain ⟨⟨h₀, h₁⟩, hne⟩ := hf
      exact ⟨[c₁], _, [c₃, c₄], files', m', fb, hR, hcalls, rfl, rfl, Option.join_eq_some_iff.1 hfb,
        of_freed h₀, of_freed h₁, fun hsame => hne hsame.1⟩
    · simp at hf
  · cases hf

/-- The write, and both closes, the reader's first. -/
def keptCalls : List Call := [.write 1 [7], .close 0, .close 1]

/-- The reader is closed when the writer closes, over a slot apart from the descriptors. -/
def closesLast (files' : Files) : List Executed → Bool
  | [⟨.write 1 [7], _, _, .ret 1, filesW, _⟩, ⟨.close 0, _, _, _, _, _⟩,
      ⟨.close 1, files, before, _, _, _⟩] =>
    (filesW[1]?.join).isSome && freed files 0 && freed files' 1 && match files[1]?.join with
      | some fe => slotSector (view before fe) before.ctx fe.inodeNumber
          != descriptorSector before.ctx (inodeGroup before.ctx fe.inodeNumber)
      | none => true
  | _ => false

/-- With the reader closed first the size on disk is the writer's. -/
theorem update_kept_readerFirst : ∃ run files' m' w fb,
    Run host [some handleF, some handleFEnd] machine run files' m' ∧
    run.map (·.call) = keptCalls ∧ run.head? = some w ∧ w.files'[1]? = some (some fb) ∧
    (inodeAt m'.disk m'.ctx fb.inodeNumber).SameData fb.inode := by
  have hf : (match trace keptCalls [some handleF, some handleFEnd] host machine with
    | .ok ((run, files'), _) => closesLast files' run
    | .error _ => false) = true := by decide +kernel
  rcases hrun : trace keptCalls [some handleF, some handleFEnd] host machine
    with e | ⟨⟨run, files'⟩, m'⟩
  · rw [hrun] at hf
    cases hf
  rw [hrun] at hf
  obtain ⟨hR, hcalls⟩ := run_of_trace _ hrun
  dsimp only at hf
  unfold closesLast at hf
  split at hf
  · next files₀ before₀ filesW after₀ files₁ before₁ reply₁ files₁' after₁ files₂ before₂ reply₂
      files₂' after₂ =>
    simp only [Bool.and_eq_true, Option.isSome_iff_exists, Option.join_eq_some_iff] at hf
    obtain ⟨⟨⟨⟨fb, hfb⟩, h₀⟩, h₁⟩, hslot⟩ := hf
    have ha : ([some handleF, some handleFEnd] : Files)[0]? = some (some handleF) := rfl
    generalize hw : (⟨.write 1 [7], files₀, before₀, .ret 1, filesW, after₀⟩ : Executed) = w at hR
    generalize hc₁ : (⟨.close 0, files₁, before₁, reply₁, files₁', after₁⟩ : Executed) = c₁ at hR
    generalize hc₂ : (⟨.close 1, files₂, before₂, reply₂, files₂', after₂⟩ : Executed) = c₂ at hR
    have hwcall : w.call = .write 1 [7] := by rw [← hw]
    have hwreply : w.reply = .ret 1 := by rw [← hw]
    have hwfiles : w.files' = filesW := by rw [← hw]
    have hcall₁ : c₁.call = .close 0 := by rw [← hc₁]
    have hcall₂ : c₂.call = .close 1 := by rw [← hc₂]
    have hR' : Run host [some handleF, some handleFEnd] machine ([] ++ w :: [c₁, c₂]) files' m' := hR
    have hboth : ∀ c ∈ [] ++ w :: [c₁, c₂], c.call.ReadsOnly 0 ∨ c.call.ReadsWrites 1 := by
      intro c hc
      simp only [List.nil_append, List.mem_cons, List.not_mem_nil, or_false] at hc
      rcases hc with rfl | rfl | rfl
      · rw [hwcall]
        exact .inr rfl
      · rw [hcall₁]
        exact .inl rfl
      · rw [hcall₂]
        exact .inr rfl
    have hsp : ∀ c ∈ [c₁, c₂], c.Spares 0 1 (DeliversNothing 0 ([] ++ w :: [c₁, c₂])) := by
      intro c hc
      simp only [List.mem_cons, List.not_mem_nil, or_false] at hc
      rcases hc with rfl | rfl
      · exact spares_of_close_other hcall₁ Nat.zero_ne_one
      · have hfiles₂ : c.files = files₂ := by rw [← hc₂]
        have hbefore₂ : c.before = before₂ := by rw [← hc₂]
        refine spares_of_close hcall₂ (fun fe hfe => ?_) (.inr (hfiles₂ ▸ of_freed h₀))
        rw [hfiles₂] at hfe
        rw [Option.join_eq_some_iff.2 hfe] at hslot
        rw [hbefore₂]
        exact bne_iff_ne.1 hslot
    refine ⟨_, files', m', w, fb, hR, ?_, rfl, hwfiles ▸ hfb, ?_⟩
    · rw [List.map_cons, List.map_cons, List.map_cons, hwcall, hcall₁, hcall₂]
      rfl
    · exact update_kept host_reliable machine_ctx_sane machine_numbered Nat.zero_ne_one ha rfl rfl
        hR' hboth hwcall hwreply (by decide) (hwfiles ▸ hfb) hsp (of_freed h₁)
  · cases hf

end SmallVolume

end Embext
