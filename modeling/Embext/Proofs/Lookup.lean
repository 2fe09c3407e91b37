import Embext.Proofs.Enumeration
import Embext.Proofs.Inode
import Embext.Proofs.Paths
import Mathlib.Data.List.Nodup

set_option autoImplicit false

/-! # Looking a path up

A path leads from the root directory through one live entry for each of its components.
`ext2_lookup_path` follows it as long as neither limit cuts the path, each inode it searches is a
directory, and the listing of that directory (see `Enumeration`) gets as far as the entry. -/

namespace Embext

variable {h : Host} {m m' : Machine} {fe fe' : FileEnt} {v : UInt32 → Sector} {c : Ext2Context}
  {ino n n' : UInt32} {name : List UInt8} {rest : List (List UInt8)} {recs recs' : List DirRecord}

/-! ## The directory tree -/

/-- The bytes of the file of an inode. -/
def inodeBytes (v : UInt32 → Sector) (c : Ext2Context) (inode : Inode) : FileBytes :=
  ⟨inode.iSize.toNat, fileByte v c inode⟩

/-- Inode `ino` is a directory of the volume with these records. -/
structure Directory (v : UInt32 → Sector) (c : Ext2Context) (ino : UInt32) (recs : List DirRecord) :
    Prop where
  positive : ino ≠ 0
  known : ino.toNat ≤ c.superblock.sInodesCount.toNat
  mode : (inodeAt v c ino).iMode &&& 0xF000 = ext2SIfdir
  noHole : NoHole v c (inodeAt v c ino)
  records : (inodeBytes v c (inodeAt v c ino)).WellFormed c.blockSize recs
  distinct : ((live recs).map DirRecord.name).Nodup

/-- From inode `ino` the components lead to inode `n`. -/
inductive Resolves (v : UInt32 → Sector) (c : Ext2Context) :
    UInt32 → List (List UInt8) → UInt32 → Prop where
  | here (ino : UInt32) : Resolves v c ino [] ino
  | entry {ino n : UInt32} {path : List (List UInt8)} {recs : List DirRecord} {r : DirRecord}
      (dir : Directory v c ino recs) (mem : r ∈ recs) (live : r.Live)
      (rest : Resolves v c r.hdr.inode path n) : Resolves v c ino (r.name :: path) n

/-- The records of a directory are determined by its bytes. -/
theorem FileBytes.Records.unique {d : FileBytes} {bs p : Nat} (hrecs : d.Records bs p recs) :
    ∀ {recs' : List DirRecord}, d.Records bs p recs' → recs = recs' := by
  induction hrecs with
  | done =>
    intro recs' hrecs'
    generalize hp : d.size = p at hrecs'
    cases hrecs' with
    | done => rfl
    | record covers _ _ rest =>
      have hle := rest.le_size
      omega
  | @record p recs covers aligned inside rest ih =>
    intro recs' hrecs'
    have hle := rest.le_size
    generalize hr : d.record p = r
    cases hrecs' with
    | done => omega
    | record _ _ _ rest' => rw [← hr, ih rest']

/-- Two entries of one name are one. -/
theorem eq_of_name_eq {r r' : DirRecord} (hnodup : ((live recs).map DirRecord.name).Nodup)
    (hr : r ∈ recs) (hr' : r' ∈ recs) (hl : r.Live) (hl' : r'.Live) (hname : r.name = r'.name) :
    r = r' := by
  have hmem : ∀ {x : DirRecord}, x ∈ recs → x.Live → x ∈ live recs := fun hx hlive =>
    List.mem_filter.2 ⟨hx, by simpa using hlive⟩
  exact List.inj_on_of_nodup_map hnodup (hmem hr hl) (hmem hr' hl') hname

/-- A path leads to one inode. -/
theorem Resolves.unique {path : List (List UInt8)} (hres : Resolves v c ino path n) :
    Resolves v c ino path n' → n = n' := by
  induction hres with
  | here ino =>
    intro hres'
    cases hres'
    rfl
  | @entry ino n path recs r dir mem live _ ih =>
    intro hres'
    generalize hname : r.name = name at hres'
    cases hres' with
    | @entry _ _ _ recs' r' dir' mem' live' rest' =>
      obtain rfl := dir.records.records.unique dir'.records.records
      obtain rfl := eq_of_name_eq dir.distinct mem mem' live live' hname
      exact ih rest'

/-! ## Searching one directory -/

/-- The listing gets as far as it needs to in a search for `name`: records are plain up to the entry
    of that name, or up to the record the driver takes for the end, with no such entry behind. -/
inductive Searchable (name : List UInt8) : List DirRecord → Prop where
  | nil : Searchable name []
  | ended {r : DirRecord} {rest : List DirRecord}
      (stop : ¬ (0 < r.hdr.inode.toNat ∧ r.hdr.inode.toNat < 2 ^ 31))
      (absent : ∀ r' ∈ r :: rest, r'.Live → r'.name ≠ name) : Searchable name (r :: rest)
  | found {r : DirRecord} {rest : List DirRecord} (plain : r.Plain) (eq : r.name = name) :
      Searchable name (r :: rest)
  | passed {r : DirRecord} {recs : List DirRecord} (plain : r.Plain) (ne : r.name ≠ name)
      (rest : Searchable name recs) : Searchable name (r :: recs)

/-- What a search should come to. -/
inductive Search (name : List UInt8) (recs : List DirRecord) : Option UInt32 → Prop where
  | found {r : DirRecord} (mem : r ∈ recs) (plain : r.Plain) (eq : r.name = name) :
      Search name recs (some r.hdr.inode)
  | missing (absent : ∀ r ∈ recs, r.Live → r.name ≠ name) : Search name recs none

theorem Search.cons {r : DirRecord} {o : Option UInt32} (hne : r.name ≠ name)
    (hs : Search name recs o) : Search name (r :: recs) o := by
  cases hs with
  | found mem plain eq => exact .found (List.mem_cons_of_mem _ mem) plain eq
  | missing absent =>
    refine .missing fun r' hr' hl => ?_
    rcases List.mem_cons.1 hr' with rfl | hr'
    · exact hne
    · exact absent r' hr' hl

/-- The search finds what is there. -/
theorem findEntry_searchable (hh : h.Reliable) {d : FileBytes} {bs p : Nat}
    (hrecs : d.Records bs p recs) : Searchable name recs → ∀ {m : Machine} {fe : FileEnt} {rounds : Nat},
    Readable m fe → fileBytes m fe = d → fe.cursor = p → 4 ∣ p → recs.length < rounds →
    ∃ o m' fe', findEntry name rounds fe h m = .ok ((o, fe'), m') ∧ Reading m fe m' fe' ∧
      Search name recs o := by
  induction hrecs with
  | done =>
    intro _ m fe rounds hfe hd hcur _ hrounds
    obtain ⟨k, rfl⟩ := Nat.exists_eq_add_of_lt hrounds
    obtain ⟨m₁, fe₁, hrun, hr⟩ := ext2Readdir_null hh hfe hcur (by rw [hd]; exact d.entry_size _)
    refine ⟨none, m₁, fe₁, ?_, hr, .missing (by simp)⟩
    rw [findEntry, Prog.bind_ok hrun]
    rfl
  | @record p recs covers aligned inside rest ih =>
    intro hsearch m fe rounds hfe hd hcur hp hrounds
    rw [List.length_cons] at hrounds
    obtain ⟨k, rfl⟩ := Nat.exists_eq_add_of_lt hrounds
    have hsize := rest.le_size
    generalize hr : d.record p = r at hsearch
    cases hsearch with
    | ended stop absent =>
      subst hr
      obtain ⟨m₁, fe₁, hrun, hr⟩ := ext2Readdir_null hh hfe hcur
        (by rw [hd]; exact FileBytes.entry_end hp (by omega) stop _)
      refine ⟨none, m₁, fe₁, ?_, hr, .missing absent⟩
      rw [findEntry, Prog.bind_ok hrun]
      rfl
    | found plain eq =>
      subst hr
      obtain ⟨m₁, fe₁, hrun, hr, -⟩ := ext2Readdir_plain hh hfe hd hcur hp hsize covers plain
      refine ⟨some (d.record p).hdr.inode, m₁, fe₁, ?_, hr, .found List.mem_cons_self plain eq⟩
      rw [findEntry, Prog.bind_ok hrun]
      exact (Prog.ite_apply _ _ _ _ _).trans (if_pos eq)
    | passed plain ne rest' =>
      subst hr
      obtain ⟨m₁, fe₁, hrun, hr, hcur₁⟩ := ext2Readdir_plain hh hfe hd hcur hp hsize covers plain
      have hfuel : recs.length < recs.length + 1 + k := by omega
      obtain ⟨o, m₂, fe₂, hrun₂, hr₂, hres⟩ := ih rest' (hr.readable hfe)
        (hr.fileBytes_eq.trans hd) hcur₁ (Nat.dvd_add hp aligned) hfuel
      refine ⟨o, m₂, fe₂, ?_, hr.trans hr₂, hres.cons ne⟩
      rw [findEntry, Prog.bind_ok hrun]
      exact ((Prog.ite_apply _ _ _ _ _).trans (if_neg ne)).trans hrun₂

/-! ## Opening a directory -/

/-- An inode of the volume is opened on what is in its slot. -/
theorem ext2OpenInode_ok (fe : FileEnt) (hh : h.Reliable) (hs : m.ctx.Sane) (hpos : ino ≠ 0)
    (hknown : ino.toNat ≤ m.ctx.superblock.sInodesCount.toNat) : ∃ s l,
    ext2OpenInode fe ino h m = .ok ((0, fe.openedOn (inodeAt m.disk m.ctx ino) ino),
      { m with ctx := { m.ctx with sysbuf := s }, log := l }) := by
  have hgroup := hs.covered ino hpos hknown
  have hgroups := hs.groups
  rw [← openedInode_eq hs.slotted (by omega)]
  exact ext2OpenInode_opened fe hh hs.slotted hpos hknown

theorem patience_apply (h : Host) (m : Machine) : patience h m = .ok (h.patience, m) := rfl

/-- A state of the lookup: the volume is as it was. -/
structure Browsing (v : UInt32 → Sector) (c : Ext2Context) (m : Machine) (fe : FileEnt) : Prop where
  disk : m.disk = v
  ctx : ∃ s, m.ctx = { c with sysbuf := s }
  magic : fe.magic = embextMagic
  clean : fe.buffer.dirty = false

theorem Browsing.view_eq (hb : Browsing v c m fe) : view m fe = v := by
  simp [view, hb.clean, hb.disk]

theorem Browsing.reading (hb : Browsing v c m fe) (hr : Reading m fe m' fe') :
    Browsing v c m' fe' := by
  have hclean := hr.clean hb.clean
  refine ⟨?_, ?_, hr.magic.trans hb.magic, hclean⟩
  · have hview := hr.view
    rw [hb.view_eq] at hview
    simpa [view, hclean] using hview
  · rw [hr.ctx]
    exact hb.ctx

/-- Opening an inode in such a state. -/
theorem Browsing.openInode (hh : h.Reliable) (hs : c.Sane) (hb : Browsing v c m fe) (hpos : ino ≠ 0)
    (hknown : ino.toNat ≤ c.superblock.sInodesCount.toNat) : ∃ m₁ fe₁,
    ext2OpenInode fe ino h m = .ok ((0, fe₁), m₁) ∧ Browsing v c m₁ fe₁ ∧
      fe₁ = fe.openedOn (inodeAt v c ino) ino ∧
      fileBytes m₁ fe₁ = inodeBytes v c (inodeAt v c ino) ∧
      (NoHole v c (inodeAt v c ino) → Readable m₁ fe₁) := by
  obtain ⟨s, hctx⟩ := hb.ctx
  have hs' : m.ctx.Sane := by
    rw [hctx]
    exact ⟨hs.block, hs.first, hs.size, hs.perGroup, hs.groups, hs.covered⟩
  obtain ⟨s', l, hrun⟩ := ext2OpenInode_ok fe hh hs' hpos (by rw [hctx]; exact hknown)
  have hinode : inodeAt m.disk m.ctx ino = inodeAt v c ino := by
    rw [hb.disk, hctx]
    rfl
  rw [hinode] at hrun
  obtain ⟨m₁, hm₁⟩ : ∃ m₁ : Machine, m₁ = { m with ctx := { m.ctx with sysbuf := s' }, log := l } :=
    ⟨_, rfl⟩
  obtain ⟨fe₁, hfe₁⟩ : ∃ fe₁, fe₁ = fe.openedOn (inodeAt v c ino) ino := ⟨_, rfl⟩
  have hctx₁ : m₁.ctx = { c with sysbuf := s' } := by
    rw [hm₁, hctx]
  have hb₁ : Browsing v c m₁ fe₁ := by
    refine ⟨?_, ⟨s', hctx₁⟩, ?_, ?_⟩
    · rw [hm₁]
      exact hb.disk
    · rw [hfe₁]
      exact hb.magic
    · rw [hfe₁]
      exact hb.clean
  have hinode₁ : fe₁.inode = inodeAt v c ino := by rw [hfe₁]; rfl
  refine ⟨m₁, fe₁, by rw [hm₁, hfe₁]; exact hrun, hb₁, hfe₁, ?_, fun hhole => ⟨?_, hb₁.magic, ?_⟩⟩
  · unfold fileBytes inodeBytes
    rw [hb₁.view_eq, hinode₁, fileByte_sysbuf v c _ (by rw [hctx₁]) (by rw [hctx₁])]
  · rw [hctx₁]
    exact hs.block
  · intro p hp
    rw [hinode₁] at hp ⊢
    rw [hb₁.view_eq, fileBlock_sysbuf v c _ _ (by rw [hctx₁]) (by rw [hctx₁]), hctx₁]
    exact hhole p hp

/-! ## The path -/

/-- The search of every inode on the way gets as far as it needs to: it is a directory, listed up to
    the component, or there is nothing to be read or opened. -/
inductive Searched (v : UInt32 → Sector) (c : Ext2Context) : UInt32 → List (List UInt8) → Prop where
  | done (ino : UInt32) : Searched v c ino []
  | directory {ino : UInt32} {name : List UInt8} {path : List (List UInt8)} {recs : List DirRecord}
      (dir : Directory v c ino recs) (searchable : Searchable name recs)
      (next : ∀ r ∈ recs, r.Live → r.name = name → Searched v c r.hdr.inode path) :
      Searched v c ino (name :: path)
  | outside {ino : UInt32} (name : List UInt8) (path : List (List UInt8))
      (out : c.superblock.sInodesCount.toNat < ino.toNat ∨ ino = 0) : Searched v c ino (name :: path)
  | empty {ino : UInt32} (name : List UInt8) (path : List (List UInt8)) (positive : ino ≠ 0)
      (known : ino.toNat ≤ c.superblock.sInodesCount.toNat) (size : (inodeAt v c ino).iSize = 0) :
      Searched v c ino (name :: path)

/-- What the walk over the components should come to. -/
inductive Walked (v : UInt32 → Sector) (c : Ext2Context) (ino : UInt32) (path : List (List UInt8))
    (m : Machine) : Option UInt32 → Prop where
  | found {n : UInt32} (res : Resolves v c ino path n) (small : n.toNat < 2 ^ 31) :
      Walked v c ino path m (some n)
  | missing (unresolved : ∀ n, ¬ Resolves v c ino path n) (error : m.rerrno = .enoent) :
      Walked v c ino path m none

theorem lookupElements_searched (hh : h.Reliable) (hs : c.Sane) (hpat : 2 ^ 29 ≤ h.patience)
    {path : List (List UInt8)} (hsearched : Searched v c ino path) :
    ∀ {m : Machine} {fe : FileEnt}, Browsing v c m fe → ino.toNat < 2 ^ 31 → ∃ o m' fe',
      lookupElements path ino fe h m = .ok ((o, fe'), m') ∧ Browsing v c m' fe' ∧
        Walked v c ino path m' o := by
  induction hsearched with
  | done ino =>
    intro m fe hb hsmall
    exact ⟨some ino, m, fe, rfl, hb, .found (.here ino) hsmall⟩
  | @outside ino name path out =>
    intro m fe hb _
    obtain ⟨s, hctx⟩ := hb.ctx
    have hrun : ext2OpenInode fe ino h m = .ok ((-1, fe), m) :=
      ext2OpenInode_missing (by rw [hctx]; exact hs.perGroup) (by rw [hctx]; exact out)
    refine ⟨none, { m with rerrno := .enoent }, fe, ?_, ⟨hb.disk, hb.ctx, hb.magic, hb.clean⟩,
      .missing (fun n hres => ?_) rfl⟩
    · rw [lookupElements, Prog.bind_ok hrun]
      rfl
    · cases hres with
      | entry dir => exact out.elim (fun hlt => absurd dir.known (by omega)) dir.positive
  | @empty ino name path positive known size =>
    intro m fe hb _
    obtain ⟨m₁, fe₁, hrun, hb₁, hfe₁, hbytes, hread⟩ := hb.openInode hh hs positive known
    have hzero : (inodeBytes v c (inodeAt v c ino)).size = 0 := by
      unfold inodeBytes
      rw [size]
      rfl
    have hreadable : Readable m₁ fe₁ := by
      refine hread fun p hp => ?_
      rw [size] at hp
      exact absurd hp (Nat.not_lt_zero p)
    have hcur : fe₁.cursor = (0 : Nat) := by
      rw [hfe₁]
      rfl
    have hend : (fileBytes m₁ fe₁).entry 0 m₁.dName = .ok none := by
      rw [hbytes, ← hzero]
      exact FileBytes.entry_size _
    obtain ⟨m₂, fe₂, hnull, hr⟩ := ext2Readdir_null hh hreadable hcur hend
    obtain ⟨k, hk⟩ : ∃ k, h.patience = k + 1 := ⟨h.patience - 1, by omega⟩
    have hfind : findEntry name (k + 1) fe₁ h m₁ = .ok ((none, fe₂), m₂) := by
      rw [findEntry, Prog.bind_ok hnull]
      rfl
    have hb₂ := hb₁.reading hr
    refine ⟨none, { m₂ with rerrno := .enoent }, fe₂, ?_,
      ⟨hb₂.disk, hb₂.ctx, hb₂.magic, hb₂.clean⟩, .missing (fun n hres => ?_) rfl⟩
    · rw [lookupElements, Prog.bind_ok hrun]
      dsimp only
      rw [if_neg (not_not.2 rfl), Prog.bind_ok (patience_apply h m₁), hk, Prog.bind_ok hfind]
      rfl
    · cases hres with
      | entry dir => exact absurd hzero (Nat.pos_iff_ne_zero.1 dir.records.nonempty)
  | @directory ino name path recs dir searchable next ih =>
    intro m fe hb _
    obtain ⟨m₁, fe₁, hrun, hb₁, hfe₁, hbytes, hread⟩ := hb.openInode hh hs dir.positive dir.known
    have hcur : fe₁.cursor = (0 : Nat) := by
      rw [hfe₁]
      rfl
    have hrounds : recs.length < h.patience := by
      have hlen := dir.records.records.length_le
      have hsize : (inodeBytes v c (inodeAt v c ino)).size < 2 ^ 32 :=
        (inodeAt v c ino).iSize.toNat_lt
      omega
    obtain ⟨o, m₂, fe₂, hfind, hr, hsearch⟩ := findEntry_searchable hh dir.records.records searchable
      (hread dir.noHole) hbytes hcur (Nat.dvd_zero 4) hrounds
    have hb₂ := hb₁.reading hr
    rw [lookupElements, Prog.bind_ok hrun]
    dsimp only
    rw [if_neg (not_not.2 rfl), Prog.bind_ok (patience_apply h m₁), Prog.bind_ok hfind]
    cases hsearch with
    | missing absent =>
      refine ⟨none, { m₂ with rerrno := .enoent }, fe₂, rfl,
        ⟨hb₂.disk, hb₂.ctx, hb₂.magic, hb₂.clean⟩, .missing (fun n hres => ?_) rfl⟩
      cases hres with
      | entry dir' mem live _ =>
        obtain rfl := dir.records.records.unique dir'.records.records
        exact absent _ mem live rfl
    | @found r mem plain eq =>
      obtain ⟨o, m₃, fe₃, hrest, hb₃, hwalked⟩ := ih r mem plain.live eq hb₂ plain.positive
      refine ⟨o, m₃, fe₃, hrest, hb₃, ?_⟩
      cases hwalked with
      | found res small =>
        subst eq
        exact .found (.entry dir mem plain.live res) small
      | missing unresolved error =>
        refine .missing (fun n hres => ?_) error
        generalize hname : name = x at hres
        cases hres with
        | @entry _ _ _ recs' r' dir' mem' live' rest' =>
          obtain rfl := dir.records.records.unique dir'.records.records
          obtain rfl := eq_of_name_eq dir.distinct mem mem' plain.live live' (eq.trans hname)
          exact unresolved n rest'

/-! ## What a lookup returns -/

/-- The path is cut by neither limit. -/
structure WithinLimits (path : List UInt8) : Prop where
  bytes : path.length < maxPathLen
  levels : (strtok path).length ≤ maxPathLevels

/-- The path is within the limits, and its components lead from the root directory to inode `n`. -/
structure Names (m : Machine) (path : List UInt8) (n : UInt32) : Prop where
  limits : WithinLimits path
  resolves : Resolves m.disk m.ctx ext2RootIno (strtok path) n

/-- The call returns inode `n` exactly when the path names it, and -1 with an error code when the path
    names nothing. -/
structure LooksUp (h : Host) (m : Machine) (fe : FileEnt) (path : List UInt8) : Prop where
  exact : ∀ n, n ≠ 0xFFFFFFFF →
    ((∃ m' fe', ext2LookupPath fe path h m = .ok ((n, fe'), m')) ↔ Names m path n)
  missing : (∀ n, ¬ Names m path n) →
    ∃ m' fe', ext2LookupPath fe path h m = .ok ((0xFFFFFFFF, fe'), m') ∧ m'.rerrno ≠ .other 0

theorem WithinLimits.pathElements_eq {path : List UInt8} (hlim : WithinLimits path) :
    pathElements path = strtok path := pathElements_of_short hlim.bytes hlim.levels

/-- **Looking a path up.** On a path along which the searches get as far as they need to, a lookup is
    exact if and only if neither limit cuts the path, or what is left of it leads nowhere. -/
theorem looksUp_iff (hh : h.Reliable) (hs : m.ctx.Sane) (hpat : 2 ^ 29 ≤ h.patience)
    (hmagic : fe.magic = embextMagic) (hclean : fe.buffer.dirty = false) {path : List UInt8}
    (hsearched : Searched m.disk m.ctx ext2RootIno (pathElements path)) :
    LooksUp h m fe path ↔
      WithinLimits path ∨ ∀ n, ¬ Resolves m.disk m.ctx ext2RootIno (pathElements path) n := by
  have hb : Browsing m.disk m.ctx m fe := ⟨rfl, ⟨m.ctx.sysbuf, rfl⟩, hmagic, hclean⟩
  obtain ⟨o, m', fe', hrun, -, hwalked⟩ :=
    lookupElements_searched hh hs hpat hsearched hb (by decide)
  have hlookup : ext2LookupPath fe path h m = .ok ((o.getD 0xFFFFFFFF, fe'), m') := by
    unfold ext2LookupPath
    rw [Prog.bind_ok hrun]
    rfl
  cases hwalked with
  | @found n res small =>
    have hne : n ≠ 0xFFFFFFFF := by
      rintro rfl
      exact absurd small (by decide)
    constructor
    · intro hlook
      exact .inl ((hlook.exact n hne).1 ⟨m', fe', hlookup⟩).limits
    · intro hlim
      have hlim := hlim.resolve_right fun hnone => hnone n res
      rw [hlim.pathElements_eq] at res
      refine ⟨fun n' _ => ?_, fun hnone => absurd ⟨hlim, res⟩ (hnone n)⟩
      rw [hlookup]
      constructor
      · rintro ⟨m₁, fe₁, heq⟩
        cases heq
        exact ⟨hlim, res⟩
      · intro hnames
        obtain rfl := res.unique hnames.resolves
        exact ⟨m', fe', rfl⟩
  | missing unresolved error =>
    refine ⟨fun _ => .inr unresolved, fun _ => ?_⟩
    have hnone : ∀ n, ¬ Names m path n := by
      intro n hnames
      have hres := hnames.resolves
      rw [← hnames.limits.pathElements_eq] at hres
      exact unresolved n hres
    refine ⟨fun n' hne => ?_, fun _ => ⟨m', fe', hlookup, ?_⟩⟩
    · rw [hlookup]
      constructor
      · rintro ⟨m₁, fe₁, heq⟩
        cases heq
        exact absurd rfl hne
      · exact fun hnames => absurd hnames (hnone n')
    · rw [error]
      decide

namespace SmallVolume

set_option maxRecDepth 4000

/-- The driver over the small volume with loops followed to their end. -/
def patientHost : Host := { host with patience := 2 ^ 29 }

/-- `"//.../f"`, 1024 bytes long. -/
def pathLong : List UInt8 := List.replicate 1023 47 ++ [102]

theorem length_pathLong : pathLong.length = 1024 := by
  rw [pathLong, List.length_append, List.length_replicate, List.length_singleton]

/-- The name is cut off, and the call returns the root directory. -/
theorem looksUp_fails : patientHost.Reliable ∧ machine.ctx.Sane ∧
    ¬ LooksUp patientHost machine FileEnt.fresh pathLong := by
  refine ⟨fun _ => rfl, machine_ctx_sane, fun hlook => ?_⟩
  have hlong : ¬ pathLong.length < 1024 := by rw [length_pathLong]; exact Nat.lt_irrefl _
  obtain ⟨m', fe', hrun, -⟩ := hlook.missing fun n hnames => hlong hnames.limits.bytes
  have hroot : ((ext2LookupPath FileEnt.fresh pathLong patientHost machine).map fun r => r.1.1)
      = .ok 2 := by decide
  rw [hrun] at hroot
  simp only [Except.map, Except.ok.injEq] at hroot
  exact absurd hroot (by decide)

/-- The root inode depends on its slot and the descriptor alone. -/
theorem root_inode_of {v : UInt32 → Sector} (hdesc : v 4 = machine.disk 4)
    (hslot : v 10 = machine.disk 10) : inodeAt v machine.ctx 2 = rootInode := by
  have htable : descriptorSector machine.ctx (inodeGroup machine.ctx 2) = 4 := by decide
  have hsector : slotSector v machine.ctx 2 = 10 := by
    have hknown : slotSector machine.disk machine.ctx 2 = 10 := by decide
    rw [← hknown, slotSector, slotSector, descriptorAt, descriptorAt, htable, hdesc]
  have hoffset : slotOffset machine.ctx 2 = 128 := by decide
  have hbytes : machine.disk 10 = sectorOf [(128, Inode.packed.bytes rootInode)] := rfl
  rw [inodeAt, hsector, hoffset, hslot, hbytes, sectorOf, List.foldl_cons, List.foldl_nil]
  have hfit : 128 + Inode.packed.size ≤ 512 := by decide
  rw [Packed.get_patch Inode.packed (fun _ => 0) rootInode hfit]

theorem root_inode : inodeAt machine.disk machine.ctx 2 = rootInode := root_inode_of rfl rfl

theorem root_directory : Directory machine.disk machine.ctx 2 (rootRecords machine) where
  positive := by decide
  known := by decide
  mode := by
    rw [root_inode]
    decide
  noHole := by
    rw [root_inode]
    exact (handleRoot_readable (m := machine) rfl).noHole
  records := by
    rw [root_inode]
    exact ⟨by decide, by decide, .of_chained [0, 12, 24, 36] 0 (by decide)⟩
  distinct := by decide

/-- `f` is found. -/
theorem looksUp_f : LooksUp patientHost machine FileEnt.fresh pathF := by
  have hplain := rootRecords_plain
  have hsearch : Searchable [102] (rootRecords machine) := by
    refine .passed (hplain _ (by simp [rootRecords])) (by decide)
      (.passed (hplain _ (by simp [rootRecords])) (by decide)
        (.found (hplain _ (by simp [rootRecords])) (by decide)))
  have hsearched : Searched machine.disk machine.ctx ext2RootIno (pathElements pathF) :=
    .directory root_directory hsearch fun r _ _ _ => .done _
  exact (looksUp_iff (fun _ => rfl) machine_ctx_sane (Nat.le_refl _) rfl rfl hsearched).2
    (.inl ⟨by decide, by decide⟩)

end SmallVolume

end Embext
