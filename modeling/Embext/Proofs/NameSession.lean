import Embext.Proofs.NewFile
import Embext.Proofs.ReadSession

set_option autoImplicit false

/-! # A session on the directory tree

A program that opens files, creates some of them, reads through its handles and closes them, in any
order, sees a tree of directories: every call does to the volume what the abstract session below does to
its tree. The opens ask for no write access, so nothing but `ext2_open` with `O_CREAT` and the access
times that `ext2_close` puts back is written. -/

namespace Embext

/-! ## The abstract session -/

/-- The tree, and for each handle in the order of opening the node it is on; `none` is a closed one. -/
structure NameState where
  tree : DirTree UInt32 (List UInt8)
  handles : List (Option UInt32)

namespace NameState

/-- Node `n` is no directory, no entry leads to it and no handle is on it. -/
structure Fresh (s : NameState) (n : UInt32) : Prop where
  file : n ∉ s.tree.dirs
  entry : ∀ x ∈ s.tree.dirs, ∀ a, (a, n) ∉ s.tree.entries x
  handle : some n ∉ s.handles

/-- What opening a path does, and whether there is a handle. -/
inductive Opens (s : NameState) (path : List (List UInt8)) (flags : OpenFlags) :
    Bool → NameState → Prop where
  | found {n : UInt32} (leads : s.tree.Leads ext2RootIno path n)
      (kept : ¬ (flags.creat = true ∧ flags.excl = true)) :
      Opens s path flags true { s with handles := s.handles ++ [some n] }
  | present {n : UInt32} (leads : s.tree.Leads ext2RootIno path n) (creat : flags.creat = true)
      (excl : flags.excl = true) : Opens s path flags false s
  | missing (misses : s.tree.Misses ext2RootIno path) (kept : flags.creat = false) :
      Opens s path flags false s
  | created {front : List (List UInt8)} {d n : UInt32} {name : List UInt8}
      (last : path = front ++ [name]) (parent : s.tree.Leads ext2RootIno front d)
      (dir : d ∈ s.tree.dirs) (absent : ∀ z, (name, z) ∉ s.tree.entries d) (fresh : s.Fresh n)
      (creat : flags.creat = true) :
      Opens s path flags true ⟨s.tree.insert d name n, s.handles ++ [some n]⟩
  | full (misses : s.tree.Misses ext2RootIno path) (creat : flags.creat = true) :
      Opens s path flags false s

/-- What a call does, and its reply. -/
inductive Step (s : NameState) : Call → Reply → NameState → Prop where
  | opened {path : List UInt8} {flags : OpenFlags} {mode : Nat} {success : Bool} {s' : NameState}
      (opens : s.Opens (pathElements path) flags success s') :
      Step s (.open path flags mode) (.opened success) s'
  | closed {fd : Nat} {n : UInt32} (handle : s.handles[fd]? = some (some n)) :
      Step s (.close fd) (.ret 0) { s with handles := s.handles.set fd none }
  | null {fd : Nat} (handle : s.handles[fd]? = none) : Step s (.close fd) (.ret (-1)) s
  | other {fd : Nat} {call : Call} {reply : Reply} (on : call.InSession fd) : Step s call reply s

/-- A run of calls. -/
inductive Run : NameState → List Executed → NameState → Prop where
  | nil (s : NameState) : Run s [] s
  | cons {s s₁ s' : NameState} {run : List Executed} (c : Executed) (step : s.Step c.call c.reply s₁)
      (rest : Run s₁ run s') : Run s (c :: run) s'

end NameState

variable {h : Host} {m m' : Machine} {fe fe' : FileEnt} {files files' : Files} {dirs : Set UInt32}
  {recs : UInt32 → List DirRecord} {reply : Reply} {call : Call} {fd : Nat}

/-! ## The volume during a session -/

/-- A handle that only reads, on an inode in use: of its copy at most the access time is new. -/
structure OnFile (m : Machine) (fe : FileEnt) : Prop where
  magic : fe.magic = embextMagic
  reader : fe.Reader
  isInode : IsInode m.ctx fe.inodeNumber
  used : inodeUsed m.disk m.ctx fe.inodeNumber = true
  inode : ∃ t, fe.inode = { inodeAt m.disk m.ctx fe.inodeNumber with iAtime := t }

/-- The directories of a writable volume are a tree, every entry leads to an inode in use, and the handles
    are on files. -/
structure Settled (dirs : Set UInt32) (recs : UInt32 → List DirRecord) (files : Files) (m : Machine) :
    Prop where
  tree : Tree m.disk m.ctx dirs recs
  writable : m.ctx.readOnly = false
  targets : ∀ d ∈ dirs, ∀ r ∈ recs d,
    IsInode m.ctx r.hdr.inode ∧ inodeUsed m.disk m.ctx r.hdr.inode = true
  handles : ∀ fe, some fe ∈ files → OnFile m fe

/-- The abstract state of a volume. -/
def nameState (dirs : Set UInt32) (recs : UInt32 → List DirRecord) (files : Files) : NameState :=
  ⟨names dirs recs, files.map (Option.map FileEnt.inodeNumber)⟩

theorem OnFile.same (ho : OnFile m fe) (hdisk : m'.disk = m.disk) (hvol : m.ctx.SameVolume m'.ctx) :
    OnFile m' fe := by
  refine ⟨ho.magic, ho.reader, ?_, ?_, ?_⟩
  · rw [hvol]
    exact ho.isInode
  · rw [hdisk, inodesUsed_sameVolume hvol]
    exact ho.used
  · rw [hdisk, inodes_sameVolume hvol]
    exact ho.inode

namespace Settled

variable (hs : Settled dirs recs files m)
include hs

/-- A step that leaves the device alone. -/
theorem same (hdisk : m'.disk = m.disk) (hvol : m.ctx.SameVolume m'.ctx) :
    Settled dirs recs files m' := by
  refine ⟨?_, ?_, ?_, fun fe hfe => (hs.handles fe hfe).same hdisk hvol⟩
  · rw [hdisk]
    exact hs.tree.sameVolume hvol
  · rw [hvol]
    exact hs.writable
  · rw [hdisk, inodesUsed_sameVolume hvol, hvol]
    exact hs.targets

theorem quiet (hq : Quiet m m') : Settled dirs recs files m' := hs.same hq.disk hq.ctx.sameVolume

/-- The same volume with other handles. -/
theorem withFiles (hfiles : ∀ fe, some fe ∈ files' → some fe ∈ files ∨ OnFile m fe) :
    Settled dirs recs files' m :=
  ⟨hs.tree, hs.writable, hs.targets, fun fe hfe => (hfiles fe hfe).elim (hs.handles fe) id⟩

theorem opened (hfe : OnFile m fe) : Settled dirs recs (files ++ [some fe]) m := by
  refine hs.withFiles fun f hf => ?_
  rcases List.mem_append.1 hf with hf | hf
  · exact .inl hf
  · obtain rfl := Option.some.inj (List.mem_singleton.1 hf)
    exact .inr hfe

theorem put {o : Option FileEnt} (ho : ∀ fe, o = some fe → OnFile m fe) :
    Settled dirs recs (files.set fd o) m := by
  refine hs.withFiles fun f hf => ?_
  rcases List.mem_or_eq_of_mem_set hf with hf | hf
  · exact .inl hf
  · exact .inr (ho f hf.symm)

/-- A path leads to an inode in use. -/
theorem reached {x n : UInt32} {els : List (List UInt8)} (hleads : (names dirs recs).Leads x els n)
    (hx : IsInode m.ctx x ∧ inodeUsed m.disk m.ctx x = true) :
    IsInode m.ctx n ∧ inodeUsed m.disk m.ctx n = true := by
  induction hleads with
  | here x => exact hx
  | entry dir mem _ ih =>
    obtain ⟨r, hr, -, -, rfl⟩ := mem_names.1 mem
    exact ih (hs.targets _ dir r hr)

theorem leads_isInode {n : UInt32} {els : List (List UInt8)}
    (hleads : (names dirs recs).Leads ext2RootIno els n) :
    IsInode m.ctx n ∧ inodeUsed m.disk m.ctx n = true :=
  hs.reached hleads ⟨hs.tree.placed.inodes _ hs.tree.root, hs.tree.placed.used _ hs.tree.root⟩

/-- The access time of an inode is put back. -/
theorem touched {x : UInt32} (hx : IsInode m.ctx x) {t : UInt32}
    (hdisk : m'.disk = putInode m.disk m.ctx x { inodeAt m.disk m.ctx x with iAtime := t })
    (hvol : m.ctx.SameVolume m'.ctx) : Settled dirs recs files m' := by
  have hp := hs.tree.placed
  have hcx := hp.counted hx
  obtain ⟨i, hi⟩ : ∃ i, i = { inodeAt m.disk m.ctx x with iAtime := t } := ⟨_, rfl⟩
  obtain ⟨w, hw⟩ : ∃ w, w = putInode m.disk m.ctx x i := ⟨_, rfl⟩
  rw [← hi, ← hw] at hdisk
  have hk : KeepsPlaces m.disk m.ctx dirs w := by
    rw [hw]
    exact hp.keepsPlaces_putInode i hcx fun _ => by rw [hi]
  have hinode : ∀ y, IsInode m.ctx y → ∃ t, inodeAt w m.ctx y = { inodeAt m.disk m.ctx y with iAtime := t } := by
    intro y hy
    rw [hw]
    by_cases hxy : x = y
    · subst hxy
      exact ⟨t, by rw [hp.layout.inodeTables.inodeAt_putInode hcx, hi]⟩
    · exact ⟨(inodeAt m.disk m.ctx y).iAtime,
        hp.layout.inodeTables.inodeAt_putInode_ne hcx (hp.counted hy) hxy i⟩
  have hused : ∀ y, IsInode m.ctx y → inodeUsed w m.ctx y = inodeUsed m.disk m.ctx y := fun y hy => by
    rw [hw]
    exact hp.inodeUsed_putInode i hcx (hp.counted hy)
  have htree : Tree w m.ctx dirs recs := by
    refine ⟨hp.step hk, hs.tree.root, fun d hd => ?_, hs.tree.plain, fun d hd r hr hout hino => ?_⟩
    · obtain ⟨t, ht⟩ := hinode d (hp.inodes d hd)
      refine hk.directory hp hd (hs.tree.directory d hd) (by rw [ht]) (by rw [ht]) fun s hbytes => ?_
      rw [hw]
      exact hp.putInode_data i hcx (hp.data d hd s hbytes)
    · obtain ⟨t, ht⟩ := hinode _ hino
      rw [ht]
      exact hs.tree.closed d hd r hr hout hino
  have hsettled : Settled dirs recs files { m with disk := w } := by
    refine ⟨htree, hs.writable, fun d hd r hr => ?_, fun fe hfe => ?_⟩
    · obtain ⟨hino, hbit⟩ := hs.targets d hd r hr
      exact ⟨hino, (hused _ hino).trans hbit⟩
    · have ho := hs.handles fe hfe
      obtain ⟨t₁, h₁⟩ := ho.inode
      obtain ⟨t₂, h₂⟩ := hinode _ ho.isInode
      exact ⟨ho.magic, ho.reader, ho.isInode, (hused _ ho.isInode).trans ho.used, ⟨t₁, by rw [h₁, h₂]⟩⟩
  exact hsettled.same hdisk hvol

/-- Closing a handle. -/
theorem close (hh : h.Reliable) (hfe : OnFile m fe) : ∃ fe' m',
    ext2Close fe h m = .ok ((0, fe'), m') ∧ Settled dirs recs files m' := by
  have hlay := hs.tree.placed.layout
  by_cases hflush : fe.flags.fsDirty = true
  · obtain ⟨m', fe', hrun, ⟨s, hctx⟩, hdisk⟩ := ext2Close_ok hh hlay.sane.slotted hfe.magic hflush
      (hs.tree.placed.counted hfe.isInode).group
    obtain ⟨t, hinode⟩ := hfe.inode
    rw [view, if_neg (by rw [hfe.reader.clean]; decide), hinode] at hdisk
    refine ⟨fe', m', hrun, hs.touched hfe.isInode hdisk ?_⟩
    rw [hctx]
    rfl
  · exact ⟨_, m, ext2Close_stored hfe.magic hfe.reader.clean (by simpa using hflush), hs⟩

end Settled

/-! ## The calls on a handle -/

/-- A write through a handle that only reads is refused. -/
theorem magic_ext2Write (hw : fe.flags.write = false) (data : List UInt8) {r : Int}
    (hrun : ext2Write fe data h m = .ok ((r, fe'), m')) : fe'.magic = fe.magic := by
  have hfail : (do setErrno .ebadf; pure (-1, fe) : Drv (Int × FileEnt)) h m = .ok ((r, fe'), m') →
      fe'.magic = fe.magic := by
    intro hrun
    cases hrun
    rfl
  unfold ext2Write at hrun
  rw [Prog.ite_apply, Prog.ite_apply] at hrun
  split at hrun
  · exact hfail hrun
  · rw [hw, if_pos (by decide)] at hrun
    exact hfail hrun

/-- Every call but `ext2_open` and `ext2_close` puts a handle back. -/
theorem execCall_inSession (hh : h.Reliable) (files : Files) (hcall : call.InSession fd) : ∃ null body,
    execCall call files = withHandle files fd null body ∧ ∀ {fe : FileEnt} {m m' : Machine} {reply : Reply}
      {o : Option FileEnt}, fe.flags.write = false → body fe h m = .ok ((reply, o), m') →
      ∃ fe', o = some fe' ∧ fe'.magic = fe.magic := by
  cases call with
  | «open» => exact hcall.elim
  | close => exact hcall.elim
  | read g count =>
    obtain rfl : g = fd := hcall
    refine ⟨_, _, rfl, fun {fe m} _ _ _ _ hbody => ?_⟩
    obtain ⟨⟨r, bytes, fe'⟩, m₁, hread, hbody⟩ := Prog.of_bind_ok hbody
    cases hbody
    exact ⟨fe', rfl, (magic_ext2Read hh fe count m _ _ trivial hread).2⟩
  | write g data =>
    obtain rfl : g = fd := hcall
    refine ⟨_, _, rfl, fun {fe m} _ _ _ hw hbody => ?_⟩
    obtain ⟨⟨r, fe'⟩, m₁, hwrite, hbody⟩ := Prog.of_bind_ok hbody
    cases hbody
    exact ⟨fe', rfl, magic_ext2Write hw data hwrite⟩
  | lseek g offset whence =>
    obtain rfl : g = fd := hcall
    refine ⟨_, _, rfl, fun {fe m} _ _ _ _ hbody => ?_⟩
    obtain ⟨⟨r, fe'⟩, m₁, hseek, hbody⟩ := Prog.of_bind_ok hbody
    cases hbody
    exact ⟨fe', rfl, (magic_ext2Lseek fe offset whence m _ _ trivial hseek).2⟩
  | readdir g =>
    obtain rfl : g = fd := hcall
    refine ⟨_, _, rfl, fun {fe m} _ _ _ _ hbody => ?_⟩
    obtain ⟨⟨de, fe'⟩, m₁, hread, hbody⟩ := Prog.of_bind_ok hbody
    cases hbody
    exact ⟨fe', rfl, (magic_ext2Readdir hh fe m _ _ trivial hread).2⟩
  | fstat g =>
    obtain rfl : g = fd := hcall
    refine ⟨_, _, rfl, fun {fe m} _ _ _ _ hbody => ?_⟩
    obtain ⟨⟨r, st⟩, m₁, -, hbody⟩ := Prog.of_bind_ok hbody
    cases hbody
    exact ⟨fe, rfl, rfl⟩
  | isatty g =>
    obtain rfl : g = fd := hcall
    refine ⟨_, _, rfl, fun {fe m} _ _ _ _ hbody => ?_⟩
    obtain ⟨r, m₁, -, hbody⟩ := Prog.of_bind_ok hbody
    cases hbody
    exact ⟨fe, rfl, rfl⟩

/-! ## One call -/

/-- An open asks for no write access, and its path leads somewhere or misses in a directory; if it is to
    create the file, the directory takes the entry and no handle is on the directory. -/
def Executed.InScope (dirs : Set UInt32) (e : Executed) : Prop :=
  ∀ path flags mode, e.call = .open path flags mode → flags.wronly = false ∧ flags.rdwr = false ∧
    ∀ recs, Tree e.before.disk e.before.ctx dirs recs →
      (∃ n, (names dirs recs).Leads ext2RootIno (pathElements path) n) ∨
      ((names dirs recs).Misses ext2RootIno (pathElements path) ∧ (flags.creat = true → ∃ d name,
        Creatable e.before.disk e.before.ctx dirs recs path d name ∧
          ∀ fe, some fe ∈ e.files → fe.inodeNumber ≠ d))

theorem nameState_handle (fd : Nat) : (nameState dirs recs files).handles[fd]?
    = (files[fd]?).map (Option.map FileEnt.inodeNumber) := List.getElem?_map ..

/-- A call on the NULL pointer replies what it is to reply. -/
theorem withHandle_null {null : Reply} {body : FileEnt → Drv (Reply × Option FileEnt)}
    (hfd : files[fd]? = none) (hrun : withHandle files fd null body h m = .ok ((reply, files'), m')) :
    reply = null := by
  unfold withHandle at hrun
  rw [hfd] at hrun
  cases hrun
  rfl

namespace Settled

variable (hs : Settled dirs recs files m) (hh : h.Reliable)
include hs hh

/-- What the call does to the tree. -/
theorem execCall_close (hrun : execCall (.close fd) files h m = .ok ((reply, files'), m')) :
    Settled dirs recs files' m' ∧
      (nameState dirs recs files).Step (.close fd) reply (nameState dirs recs files') := by
  rcases of_withHandle_ok hrun with ⟨hfd, rfl, rfl⟩ | ⟨fe, o, hfe, hbody, rfl⟩
  · obtain rfl := withHandle_null hfd hrun
    exact ⟨hs.same rfl rfl, .null (by rw [nameState_handle, hfd]; rfl)⟩
  · obtain ⟨fe', m₁, hclose, hs'⟩ := hs.close hh (hs.handles fe (List.mem_of_getElem? hfe))
    rw [Prog.bind_ok hclose] at hbody
    cases hbody
    refine ⟨hs'.put (by simp), ?_⟩
    have hstep : (nameState dirs recs files).Step (.close fd) (.ret 0) _ :=
      .closed (by rw [nameState_handle, hfe]; rfl)
    unfold nameState
    rw [List.map_set]
    exact hstep

theorem execCall_other (hcall : call.InSession fd)
    (hrun : execCall call files h m = .ok ((reply, files'), m')) :
    Settled dirs recs files' m' ∧ nameState dirs recs files' = nameState dirs recs files := by
  obtain ⟨null, body, heq, hbody⟩ := execCall_inSession hh files hcall
  have hwith := hrun
  rw [heq] at hwith
  rcases of_withHandle_ok hwith with ⟨-, rfl, rfl⟩ | ⟨fe, o, hfd, hok, rfl⟩
  · exact ⟨hs.same rfl rfl, rfl⟩
  have ho := hs.handles fe (List.mem_of_getElem? hfd)
  obtain ⟨fe', rfl, hmagic⟩ := hbody ho.reader.flags hok
  obtain ⟨hq, fe₁, hfe₁, hreader, hon⟩ := session_step hfd ho.reader hcall hrun
  have hlt : fd < files.length := (List.getElem?_eq_some_iff.1 hfd).1
  rw [List.getElem?_set_self hlt] at hfe₁
  obtain rfl := Option.some.inj (Option.some.inj hfe₁)
  have ho' := ho.same hq.disk hq.ctx.sameVolume
  obtain ⟨t₁, h₁⟩ := ho'.inode
  obtain ⟨t₂, h₂⟩ := hon.inode
  refine ⟨(hs.quiet hq).put fun f hf => ?_, ?_⟩
  · obtain rfl := Option.some.inj hf
    refine ⟨hmagic.trans ho.magic, hreader, ?_, ?_, ⟨t₂, ?_⟩⟩
    · rw [hon.number]
      exact ho'.isInode
    · rw [hon.number]
      exact ho'.used
    · rw [h₂, h₁, hon.number]
  · -- the handle is on the file it was on
    unfold nameState
    rw [List.map_set, Option.map_some, hon.number]
    congr 1
    refine List.ext_getElem? fun k => ?_
    by_cases hk : fd = k
    · subst hk
      rw [List.getElem?_set_self (by simpa using hlt), List.getElem?_map, hfd]
      rfl
    · rw [List.getElem?_set_ne hk]

/-- The path leads to a file. -/
theorem ext2Open_found {path : List UInt8} {flags : OpenFlags} (mode : Nat) {n : UInt32}
    (hpat : 2 ^ 29 ≤ h.patience) (hwronly : flags.wronly = false) (hrdwr : flags.rdwr = false)
    (hleads : (names dirs recs).Leads ext2RootIno (pathElements path) n) : ∃ fe m₁,
    ext2Open path flags mode h m = (if flags.creat ∧ flags.excl then do
        setErrno .eexist
        pure none
      else pure (some fe) : Drv (Option FileEnt)) h m₁ ∧
      Settled dirs recs files m₁ ∧ OnFile m₁ fe ∧ fe.inodeNumber = n := by
  have hsane := hs.tree.placed.layout.sane
  obtain ⟨hino, hused⟩ := hs.leads_isInode hleads
  obtain ⟨m₁, fe₁, heq, hb, hinode, hnumber, -, hflags⟩ :=
    (hs.tree.leads hleads).ext2Open_eq hh hsane hpat hino.1 hino.2 flags mode
  obtain ⟨s, hctx⟩ := hb.ctx
  have hvol : m.ctx.SameVolume m₁.ctx := by
    rw [hctx]
    rfl
  refine ⟨{ fe₁ with flags := openedFlags fe₁.flags flags }, m₁, ?_, hs.same hb.disk hvol, ?_, hnumber⟩
  · rw [heq]
    unfold ext2OpenExisting
    rw [if_pos (show ¬ flags.wronly = true ∧ ¬ flags.rdwr = true by simp [hwronly, hrdwr])]
  · have hno : ¬ flags.wronly = true ∧ ¬ flags.rdwr = true := by simp [hwronly, hrdwr]
    refine OnFile.same (m := m) ⟨hb.magic, ⟨hb.clean, ?_⟩, ?_, ?_, ?_⟩ hb.disk hvol
    · exact openedFlags_write _ _ (by rw [hflags]) hno.1 hno.2
    · exact hnumber ▸ hino
    · exact hnumber ▸ hused
    · exact ⟨(inodeAt m.disk m.ctx n).iAtime, by rw [hinode, hnumber]⟩

omit hh in
/-- The file has been created. -/
theorem created {flags : OpenFlags} {mode : Nat} {d : UInt32} {name : List UInt8}
    {recs' : UInt32 → List DirRecord} (hwronly : flags.wronly = false) (hrdwr : flags.rdwr = false)
    (hnot : ∀ fe, some fe ∈ files → fe.inodeNumber ≠ d) (hfresh : FreshHandle m' flags fe)
    (hc : Created h m dirs recs d fe.inodeNumber name mode recs' m') :
    Settled dirs recs' (files ++ [some fe]) m' ∧
      (nameState dirs recs files).Fresh fe.inodeNumber := by
  have hino : ∀ y, IsInode m'.ctx y ↔ IsInode m.ctx y := fun y => by
    rw [hc.volume]
    rfl
  have hkept : ∀ y, IsInode m.ctx y → inodeUsed m.disk m.ctx y = true →
      inodeUsed m'.disk m'.ctx y = true := fun y hy hused => by
    rw [hc.bits y hy, hused]
    rfl
  have hnew : inodeUsed m'.disk m'.ctx fe.inodeNumber = true := by
    rw [hc.bits _ hc.isInode]
    simp
  -- whatever is in use is another inode
  have hne : ∀ y, inodeUsed m.disk m.ctx y = true → y ≠ fe.inodeNumber := by
    rintro y hused rfl
    rw [hc.free] at hused
    cases hused
  refine ⟨⟨hc.tree, ?_, fun x hx r hr => ?_, fun f hf => ?_⟩, ⟨?_, ?_, ?_⟩⟩
  · rw [hc.volume]
    exact hs.writable
  · have hmem : (r.name, r.hdr.inode) ∈ (names dirs recs').entries x :=
      mem_names.2 ⟨r, hr, (hc.tree.plain x hx r hr).live, rfl, rfl⟩
    rw [hc.entry, DirTree.mem_entries_insert] at hmem
    rcases hmem with hold | ⟨-, -, heq⟩
    · obtain ⟨r₀, hr₀, -, -, heq⟩ := mem_names.1 hold
      obtain ⟨hi, hused⟩ := hs.targets x hx r₀ hr₀
      rw [← heq]
      exact ⟨(hino _).2 hi, hkept _ hi hused⟩
    · rw [heq]
      exact ⟨(hino _).2 hc.isInode, hnew⟩
  · rcases List.mem_append.1 hf with hf | hf
    · have ho := hs.handles f hf
      refine ⟨ho.magic, ho.reader, (hino _).2 ho.isInode, hkept _ ho.isInode ho.used, ?_⟩
      rw [hc.others _ ho.isInode (hnot f hf) (hne _ ho.used)]
      exact ho.inode
    · obtain rfl := Option.some.inj (List.mem_singleton.1 hf)
      refine ⟨hfresh.magic, ⟨hfresh.clean, ?_⟩, (hino _).2 hc.isInode, hnew, ?_⟩
      · show f.flags.write = false
        rw [hfresh.writes, hwronly, hrdwr]
        rfl
      · exact ⟨f.inode.iAtime, by rw [hfresh.inode]⟩
  · exact fun hmem => hne _ (hs.tree.placed.used _ hmem) rfl
  · intro x hx a hmem
    obtain ⟨r, hr, -, -, heq⟩ := mem_names.1 hmem
    exact hne _ (hs.targets x hx r hr).2 heq
  · intro hmem
    obtain ⟨o, ho, heq⟩ := List.mem_map.1 hmem
    obtain ⟨f, rfl, hnumber⟩ := Option.map_eq_some_iff.1 heq
    exact hne _ (hs.handles f ho).used hnumber

theorem execCall_open {path : List UInt8} {flags : OpenFlags} {mode : Nat} (hpat : 2 ^ 29 ≤ h.patience)
    (hwronly : flags.wronly = false) (hrdwr : flags.rdwr = false)
    (hpath : (∃ n, (names dirs recs).Leads ext2RootIno (pathElements path) n) ∨
      ((names dirs recs).Misses ext2RootIno (pathElements path) ∧ (flags.creat = true → ∃ d name,
        Creatable m.disk m.ctx dirs recs path d name ∧ ∀ fe, some fe ∈ files → fe.inodeNumber ≠ d)))
    (hrun : execCall (.open path flags mode) files h m = .ok ((reply, files'), m')) : ∃ recs',
    Settled dirs recs' files' m' ∧
      (nameState dirs recs files).Step (.open path flags mode) reply (nameState dirs recs' files') := by
  obtain ⟨o, m₁, hopen, hrun⟩ := Prog.of_bind_ok hrun
  have hnull : ∀ {m₂ : Machine}, Settled dirs recs files m₂ → o = none → m₁.disk = m₂.disk →
      m₂.ctx.SameVolume m₁.ctx → (nameState dirs recs files).Opens (pathElements path) flags false
        (nameState dirs recs files) → ∃ recs', Settled dirs recs' files' m' ∧
          (nameState dirs recs files).Step (.open path flags mode) reply (nameState dirs recs' files') := by
    rintro m₂ hs₂ rfl hdisk hvol hopens
    cases hrun
    exact ⟨recs, hs₂.same hdisk hvol, .opened hopens⟩
  have hhandle : ∀ recs', Settled dirs recs' (files ++ o.toList.map some) m₁ → ∀ fe, o = some fe →
      (nameState dirs recs files).Opens (pathElements path) flags true
        ⟨names dirs recs', (nameState dirs recs files).handles ++ [some fe.inodeNumber]⟩ →
      ∃ recs', Settled dirs recs' files' m' ∧
        (nameState dirs recs files).Step (.open path flags mode) reply (nameState dirs recs' files') := by
    rintro recs' hs' fe rfl hopens
    cases hrun
    refine ⟨recs', hs', .opened ?_⟩
    simpa only [nameState, List.map_append, List.map_cons, List.map_nil, Option.map_some] using hopens
  rcases hpath with ⟨n, hleads⟩ | ⟨hmiss, hcreatable⟩
  · obtain ⟨fe, m₂, heq, hs₂, ho, hnumber⟩ := hs.ext2Open_found hh mode hpat hwronly hrdwr hleads
    rw [heq] at hopen
    by_cases hboth : flags.creat = true ∧ flags.excl = true
    · rw [if_pos hboth] at hopen
      cases hopen
      exact hnull hs₂ rfl rfl (.refl _) (.present hleads hboth.1 hboth.2)
    · rw [if_neg hboth] at hopen
      cases hopen
      exact hhandle recs (hs₂.opened ho) fe rfl (hnumber ▸ .found hleads hboth)
  · by_cases hcreat : flags.creat = true
    · obtain ⟨d, name, hc, hnot⟩ := hcreatable hcreat
      obtain ⟨hfull, hgiven⟩ := hs.tree.ext2Open_creates mode hh hpat hs.writable hc hcreat
      by_cases hout : OutOfInodes m.disk m.ctx
      · obtain ⟨m₂, hnone, hq⟩ := hfull hout
        rw [hnone] at hopen
        cases hopen
        exact hnull hs rfl hq.disk hq.ctx.sameVolume (.full hmiss hcreat)
      · obtain ⟨fe, m₂, recs', hsome, hfresh, hcreated⟩ := hgiven hout
        rw [hsome] at hopen
        cases hopen
        obtain ⟨hs', hf⟩ := hs.created hwronly hrdwr hnot hfresh hcreated
        obtain ⟨front, -, hlast, hparent⟩ := hc.split
        refine hhandle recs' hs' fe rfl ?_
        rw [hcreated.entry]
        exact .created hlast hparent hc.enters.dir hc.enters.absent hf hcreat
    · obtain ⟨m₂, fe, heq, hq, -⟩ := hs.tree.ext2Open_misses hh hpat mode flags hmiss
      rw [heq, if_pos hcreat] at hopen
      cases hopen
      exact hnull hs rfl hq.disk hq.ctx.sameVolume (.missing hmiss (by simpa using hcreat))

end Settled

/-! ## Runs -/

/-- One call in scope. -/
theorem session_call {e : Executed} (hh : h.Reliable) (hpat : 2 ^ 29 ≤ h.patience)
    (hs : Settled dirs recs e.files e.before) (hscope : e.InScope dirs)
    (hexec : execCall e.call e.files h e.before = .ok ((e.reply, e.files'), e.after)) : ∃ recs',
    Settled dirs recs' e.files' e.after ∧
      (nameState dirs recs e.files).Step e.call e.reply (nameState dirs recs' e.files') := by
  obtain ⟨call, files, before, reply, files', after⟩ := e
  have hother : ∀ fd, call.InSession fd → ∃ recs', Settled dirs recs' files' after ∧
      (nameState dirs recs files).Step call reply (nameState dirs recs' files') := by
    intro fd hcall
    obtain ⟨hs', heq⟩ := hs.execCall_other hh hcall hexec
    exact ⟨recs, hs', heq ▸ .other hcall⟩
  cases call with
  | «open» path flags mode =>
    obtain ⟨hwronly, hrdwr, hpath⟩ := hscope path flags mode rfl
    exact hs.execCall_open hh hpat hwronly hrdwr (hpath recs hs.tree) hexec
  | close fd => exact ⟨recs, hs.execCall_close hh hexec⟩
  | read fd count => exact hother fd rfl
  | write fd data => exact hother fd rfl
  | lseek fd offset whence => exact hother fd rfl
  | readdir fd => exact hother fd rfl
  | fstat fd => exact hother fd rfl
  | isatty fd => exact hother fd rfl

namespace SmallVolume

set_option maxRecDepth 4000

theorem root_settled : Settled {2} (fun _ => rootRecords machine) [] machine where
  tree := root_tree
  writable := rfl
  targets := by
    rintro d -
    have hall : ∀ r ∈ rootRecords machine, (r.hdr.inode ≠ 0 ∧
        r.hdr.inode.toNat ≤ machine.ctx.superblock.sInodesCount.toNat) ∧
          inodeUsed machine.disk machine.ctx r.hdr.inode = true := by decide
    exact hall
  handles := by simp

/-- `O_RDONLY | O_CREAT` -/
def oRdonlyCreat : OpenFlags := { oRdonly with creat := true }

/-- `"/n"` is created, read and closed. -/
def namingCalls : List Call := [.open pathSlashN oRdonlyCreat 0o644, .read 0 4, .close 0]

/-- The calls return. -/
def namingReturns : Bool :=
  match trace namingCalls [] patientHost machine with
  | .ok _ => true
  | .error _ => false

theorem of_namingReturns (hok : namingReturns = true) : ∃ run files' m',
    trace namingCalls [] patientHost machine = .ok ((run, files'), m') := by
  unfold namingReturns at hok
  split at hok
  · next x hrun => exact ⟨x.1.1, x.1.2, x.2, hrun⟩
  · cases hok

end SmallVolume

end Embext
