import Embext.Proofs.Directory
import Mathlib.Data.List.TakeWhile

set_option autoImplicit false

/-! # Listing a directory

The records of a well-formed directory and what `ext2_readdir` makes of each of them. An unused
record, or an inode number that is negative as an `int`, ends the listing; a name that leaves its
sector copies past the end of the buffer. So a directory is listed in full exactly when neither
comes before its last live record. -/

namespace Embext

/-! ## Records -/

/-- A directory record: where it starts, its header and its name. -/
structure DirRecord where
  off : Nat
  hdr : Ext2DirHeader
  name : List UInt8

namespace DirRecord

/-- A record that stands for an entry. -/
def Live (r : DirRecord) : Prop := r.hdr.inode ≠ 0

instance (r : DirRecord) : Decidable r.Live := inferInstanceAs (Decidable (_ ≠ _))

/-- The entry it stands for. -/
def dirent (r : DirRecord) : Dirent := ⟨r.hdr.inode, r.name⟩

/-- `ext2_readdir` returns the entry: the inode number is positive as an `int`, the name lies in one
    sector, and it is all of the C string. -/
structure Plain (r : DirRecord) : Prop where
  live : r.Live
  positive : r.hdr.inode.toNat < 2 ^ 31
  sector : (r.off + 8) % 512 + r.hdr.nameLen.toNat ≤ 512
  string : 0 ∉ r.name

instance (r : DirRecord) : Decidable r.Plain :=
  decidable_of_iff (r.Live ∧ r.hdr.inode.toNat < 2 ^ 31 ∧
    (r.off + 8) % 512 + r.hdr.nameLen.toNat ≤ 512 ∧ 0 ∉ r.name)
    ⟨fun ⟨a, b, c, d⟩ => ⟨a, b, c, d⟩, fun ⟨a, b, c, d⟩ => ⟨a, b, c, d⟩⟩

end DirRecord

/-- The live records of a directory. -/
def live (recs : List DirRecord) : List DirRecord := recs.filter fun r => r.Live

namespace FileBytes

/-- The header at `p`. -/
def header (d : FileBytes) (p : Nat) : Ext2DirHeader :=
  Ext2DirHeader.packed.get fun k => d.byte (p + k)

/-- The name behind it. -/
def name (d : FileBytes) (p : Nat) : List UInt8 := d.slice (p + 8) (d.header p).nameLen.toNat

def record (d : FileBytes) (p : Nat) : DirRecord := ⟨p, d.header p, d.name p⟩

/-- The records from `p` to the end of a directory with blocks of `bs` bytes: each length is a
    multiple of 4, covers header and name, and stays inside the block. -/
inductive Records (d : FileBytes) (bs : Nat) : Nat → List DirRecord → Prop where
  | done : Records d bs d.size []
  | record {p : Nat} {recs : List DirRecord}
      (covers : 8 + (d.header p).nameLen.toNat ≤ (d.header p).recLen.toNat)
      (aligned : 4 ∣ (d.header p).recLen.toNat)
      (inside : p % bs + (d.header p).recLen.toNat ≤ bs)
      (rest : Records d bs (p + (d.header p).recLen.toNat) recs) :
      Records d bs p (d.record p :: recs)

/-- A directory of whole blocks, at least one, filled by its records. -/
structure WellFormed (d : FileBytes) (bs : Nat) (recs : List DirRecord) : Prop where
  nonempty : 0 < d.size
  blocks : bs ∣ d.size
  records : d.Records bs 0 recs

variable {d : FileBytes} {bs p : Nat} {recs : List DirRecord}

theorem Records.le_size (hrecs : d.Records bs p recs) : p ≤ d.size := by
  induction hrecs with
  | done => exact Nat.le_refl _
  | record _ _ _ _ ih => omega

/-- Each record takes at least 8 bytes. -/
theorem Records.length_le (hrecs : d.Records bs p recs) :
    p + 8 * recs.length ≤ d.size := by
  induction hrecs with
  | done => simp
  | record covers _ _ _ ih =>
    rw [List.length_cons]
    omega

/-- Whether the records from `p` on start at the offsets given. -/
def chained (d : FileBytes) (bs : Nat) : Nat → List Nat → Bool
  | p, [] => p = d.size
  | p, q :: offs => p = q ∧ 8 + (d.header p).nameLen.toNat ≤ (d.header p).recLen.toNat ∧
      4 ∣ (d.header p).recLen.toNat ∧ p % bs + (d.header p).recLen.toNat ≤ bs ∧
      d.chained bs (p + (d.header p).recLen.toNat) offs

theorem Records.of_chained (offs : List Nat) : ∀ p, d.chained bs p offs = true →
    d.Records bs p (offs.map d.record) := by
  induction offs with
  | nil =>
    intro p hchain
    obtain rfl : p = d.size := by simpa [chained] using hchain
    exact .done
  | cons q offs ih =>
    intro p hchain
    simp only [chained, Bool.decide_and, Bool.and_eq_true, decide_eq_true_eq] at hchain
    obtain ⟨rfl, covers, aligned, inside, rest⟩ := hchain
    exact .record covers aligned inside (ih _ rest)

/-! ## One record -/

theorem get_slice {α : Type} (c : Packed α) {n : Nat} (hc : c.size = n) (q : Nat) :
    c.ofList (d.slice q n) = c.get fun k => d.byte (q + k) := by
  apply c.get_congr
  intro k hk
  rw [List.getD_eq_getElem?_getD, List.getElem?_eq_getElem (by simpa [hc] using hk)]
  simp [slice]

theorem inode_ofList : Packed.u32.ofList (d.slice p 4) = (d.header p).inode := get_slice _ rfl p

theorem recLen_ofList : Packed.u16.ofList (d.slice (p + 4) 2) = (d.header p).recLen :=
  get_slice _ rfl (p + 4)

theorem nameLen_ofList : Packed.u8.ofList (d.slice (p + 6) 1) = (d.header p).nameLen :=
  get_slice _ rfl (p + 6)

/-- The header of an aligned record is read field by field, each inside a sector. -/
theorem entry_aligned (hp : 4 ∣ p) (hsize : p + 8 ≤ d.size) (old : Fin 256 → UInt8) :
    d.entry p old
      = if 0 < (d.header p).inode.toNat ∧ (d.header p).inode.toNat < 2 ^ 31 then do
          let name ← d.fetch (p + 8) (d.header p).nameLen.toNat
          let dName := Window.patch (Window.patch old 0 name) (d.header p).nameLen.toNat [0]
          pure (some (⟨(d.header p).inode, cString dName⟩, seekFrom (p + 8 + name.length)
            (((d.header p).recLen.toNat : Int) - 8 - (d.header p).nameLen.toNat), dName))
        else pure none := by
  obtain ⟨q, rfl⟩ := hp
  unfold entry
  rw [fetch_inside (by omega) (by omega), fetch_inside (by omega) (by omega),
    fetch_inside (by omega) (by omega), fetch_inside (by omega) (by omega)]
  dsimp only [bind, Except.bind]
  simp only [length_slice, Nat.lt_irrefl, if_false, inode_ofList, recLen_ofList, nameLen_ofList]

/-- A record `ext2_readdir` takes for the end. -/
theorem entry_end (hp : 4 ∣ p) (hsize : p + 8 ≤ d.size)
    (hend : ¬ (0 < (d.header p).inode.toNat ∧ (d.header p).inode.toNat < 2 ^ 31))
    (old : Fin 256 → UInt8) : d.entry p old = .ok none := by
  rw [entry_aligned hp hsize, if_neg hend]
  rfl

/-- The end of the directory. -/
theorem entry_size (old : Fin 256 → UInt8) : d.entry d.size old = .ok none := by
  have hfetch : d.fetch d.size 4 = .ok [] := by
    unfold fetch
    rw [Nat.sub_self, Nat.min_zero, if_pos (by omega)]
    rfl
  unfold entry
  rw [hfetch]
  rfl

end FileBytes

/-- A C string ends at its first NUL. -/
theorem takeWhile_append_zero (rest : List UInt8) : ∀ l : List UInt8,
    (l ++ 0 :: rest).takeWhile (· ≠ 0) = l.takeWhile (· ≠ 0) := by
  intro l
  induction l with
  | nil => rfl
  | cons c l ih =>
    rw [List.cons_append, List.takeWhile_cons, List.takeWhile_cons, ih]

/-- A name stored to `d_name` with its NUL reads as the bytes before its first NUL. -/
theorem cString_patch (old : Fin 256 → UInt8) {name : List UInt8} (hlen : name.length ≤ 255) :
    cString (Window.patch (Window.patch old 0 name) name.length [0]) = name.takeWhile (· ≠ 0) := by
  have hname : Window.slice (Window.patch (Window.patch old 0 name) name.length [0]) 0 name.length
      = name := by
    rw [Window.slice_patch_disjoint _ (by omega) (.inl (by omega))]
    exact Window.slice_patch_self old (by omega)
  have hnul : Window.item (Window.patch (Window.patch old 0 name) name.length [0]) name.length = 0 := by
    rw [Window.item_patch_inside _ (by simp; omega) (Nat.le_refl _) (by simp)]
    simp
  generalize Window.patch (Window.patch old 0 name) name.length [0] = d at hname hnul ⊢
  obtain ⟨k, hk⟩ : ∃ k, 256 = name.length + (1 + k) := ⟨255 - name.length, by omega⟩
  have hall : Window.slice d 0 256 = name ++ 0 :: Window.slice d (name.length + 1) k := by
    refine (congrArg (Window.slice d 0) hk).trans ?_
    rw [Window.slice_add, hname, Nat.zero_add, Window.slice_add, Window.slice_one, hnul]
    rfl
  unfold cString
  rw [Window.ofFn_eq_slice, hall, takeWhile_append_zero]

/-! ## What `ext2_readdir` makes of a record -/

namespace FileBytes

variable {d : FileBytes} {bs p : Nat} {recs : List DirRecord}

theorem length_name (d : FileBytes) (p : Nat) : (d.name p).length = (d.header p).nameLen.toNat :=
  d.length_slice _ _

/-- A live record whose name leaves the sector. -/
theorem entry_cross (hp : 4 ∣ p) (hsize : p + 8 + (d.header p).nameLen.toNat ≤ d.size)
    (hlive : (d.header p).inode ≠ 0) (hpos : (d.header p).inode.toNat < 2 ^ 31)
    (hcross : 512 < (p + 8) % 512 + (d.header p).nameLen.toNat) (old : Fin 256 → UInt8) :
    d.entry p old = .error .outOfBounds := by
  have h0 : (d.header p).inode.toNat ≠ 0 := fun h0 => hlive (UInt32.toNat_inj.1 h0)
  have hfetch : d.fetch (p + 8) (d.header p).nameLen.toNat = .error .outOfBounds := by
    unfold fetch
    rw [if_neg (by omega)]
  rw [entry_aligned hp (by omega), if_pos ⟨by omega, hpos⟩, hfetch]
  rfl

/-- A live record whose name stays in it: its entry, up to a NUL in the name, and the next record's
    offset. -/
theorem entry_inside (hp : 4 ∣ p) (hsize : p + 8 + (d.header p).nameLen.toNat ≤ d.size)
    (hcovers : 8 + (d.header p).nameLen.toNat ≤ (d.header p).recLen.toNat)
    (hlive : (d.header p).inode ≠ 0) (hpos : (d.header p).inode.toNat < 2 ^ 31)
    (hfit : (p + 8) % 512 + (d.header p).nameLen.toNat ≤ 512) (old : Fin 256 → UInt8) : ∃ old',
    d.entry p old = .ok (some (⟨(d.header p).inode, (d.name p).takeWhile (· ≠ 0)⟩,
      p + (d.header p).recLen.toNat, old')) := by
  have h0 : (d.header p).inode.toNat ≠ 0 := fun h0 => hlive (UInt32.toNat_inj.1 h0)
  have hlen := length_name d p
  have h255 := (d.header p).nameLen.toNat_lt
  have hstring := cString_patch old (show (d.name p).length ≤ 255 by omega)
  rw [hlen] at hstring
  have hseek : seekFrom (p + 8 + (d.name p).length)
      (((d.header p).recLen.toNat : Int) - 8 - (d.header p).nameLen.toNat)
      = p + (d.header p).recLen.toNat := by
    unfold seekFrom
    rw [hlen, if_neg (by omega)]
    omega
  refine ⟨Window.patch (Window.patch old 0 (d.name p)) (d.header p).nameLen.toNat [0], ?_⟩
  rw [entry_aligned hp (by omega), if_pos ⟨by omega, hpos⟩, fetch_inside hsize hfit]
  change Except.ok (some (_, seekFrom (p + 8 + (d.name p).length) _, _)) = _
  rw [hseek]
  change Except.ok (some ((⟨_, cString (Window.patch (Window.patch old 0 (d.name p)) _ [0])⟩ : Dirent),
    _, _)) = _
  rw [hstring]
  rfl

end FileBytes

/-! ## Repeated calls -/

/-- `n` calls of `ext2_readdir`. -/
def readdirs : Nat → FileEnt → Drv (List (Option Dirent) × FileEnt)
  | 0, fe => pure ([], fe)
  | n + 1, fe => do
    let (de, fe) ← ext2Readdir fe
    let (rest, fe) ← readdirs n fe
    pure (de :: rest, fe)

/-- The calls return the live records in order, each with its inode number and name, and then
    NULL. -/
def Enumerates (h : Host) (m : Machine) (fe : FileEnt) (recs : List DirRecord) : Prop :=
  ∃ m' fe', readdirs ((live recs).length + 1) fe h m
    = .ok ((((live recs).map fun r => some r.dirent) ++ [none], fe'), m')

/-- Up to the last live record every record is plain. -/
def Enumerable (recs : List DirRecord) : Prop :=
  ∀ front r back, recs = front ++ r :: back → (∃ l ∈ r :: back, l.Live) → r.Plain

theorem enumerable_cons {r : DirRecord} {recs : List DirRecord} : Enumerable (r :: recs) ↔
    ((∃ l ∈ r :: recs, l.Live) → r.Plain) ∧ Enumerable recs := by
  constructor
  · intro hall
    refine ⟨hall [] r recs rfl, fun front r' back heq => hall (r :: front) r' back ?_⟩
    rw [heq]
    rfl
  · rintro ⟨hfirst, hrest⟩ front r' back heq
    cases front with
    | nil =>
      cases heq
      exact hfirst
    | cons r₀ front =>
      cases heq
      exact hrest front r' back rfl

theorem live_eq_nil {recs : List DirRecord} : live recs = [] ↔ ¬ ∃ l ∈ recs, l.Live := by
  unfold live
  rw [List.filter_eq_nil_iff]
  simp

theorem Enumerable.of_forall {recs : List DirRecord} (hall : ∀ r ∈ recs, r.Plain) :
    Enumerable recs := by
  rintro front r back rfl -
  exact hall r (by simp)

/-- Nothing is asked of a directory without live records. -/
theorem Enumerable.of_live_eq_nil {recs : List DirRecord} (hnone : live recs = []) :
    Enumerable recs := by
  rintro front r back rfl ⟨l, hl, hlive⟩
  refine absurd ⟨l, ?_, hlive⟩ (live_eq_nil.1 hnone)
  exact List.mem_append_right front hl

variable {h : Host} {m m' : Machine} {fe fe' : FileEnt} {d : FileBytes} {p : Nat}
  {recs : List DirRecord}

/-- The call on a plain record. -/
theorem ext2Readdir_plain (hh : h.Reliable) (hfe : Readable m fe) (hd : fileBytes m fe = d)
    (hcur : fe.cursor = p) (hp : 4 ∣ p)
    (hsize : p + (d.header p).recLen.toNat ≤ d.size)
    (hcovers : 8 + (d.header p).nameLen.toNat ≤ (d.header p).recLen.toNat)
    (hplain : (d.record p).Plain) : ∃ m' fe',
    ext2Readdir fe h m = .ok ((some (d.record p).dirent, fe'), m') ∧ Reading m fe m' fe' ∧
      fe'.cursor = (p + (d.header p).recLen.toNat : Nat) := by
  obtain ⟨old', hentry⟩ := FileBytes.entry_inside hp (by omega) hcovers hplain.live hplain.positive
    hplain.sector m.dName
  have hname : (d.name p).takeWhile (· ≠ 0) = d.name p := by
    rw [List.takeWhile_eq_self_iff]
    intro c hc
    simpa using fun h0 : c = 0 => hplain.string (h0 ▸ hc)
  rw [hname, ← hd] at hentry
  obtain ⟨m', fe', hrun, hr, hcur', -⟩ := ext2Readdir_entry hh hfe hcur hentry
  rw [hd] at hrun hcur'
  exact ⟨m', fe', hrun, hr, hcur'⟩

/-- A call that returns an entry has found a live record and read its name. -/
theorem of_ext2Readdir_some (hh : h.Reliable) (hfe : Readable m fe) (hd : fileBytes m fe = d)
    (hcur : fe.cursor = p) (hp : 4 ∣ p)
    (hsize : p + (d.header p).recLen.toNat ≤ d.size)
    (hcovers : 8 + (d.header p).nameLen.toNat ≤ (d.header p).recLen.toNat) {de : Dirent}
    (hrun : ext2Readdir fe h m = .ok ((some de, fe'), m')) :
    (d.record p).Live ∧ (d.header p).inode.toNat < 2 ^ 31 ∧
      (p + 8) % 512 + (d.header p).nameLen.toNat ≤ 512 ∧
      de = ⟨(d.header p).inode, (d.name p).takeWhile (· ≠ 0)⟩ := by
  subst hd
  by_cases hend : 0 < ((fileBytes m fe).header p).inode.toNat ∧
      ((fileBytes m fe).header p).inode.toNat < 2 ^ 31
  swap
  · obtain ⟨m₁, fe₁, hnull, -⟩ := ext2Readdir_null hh hfe hcur
      (FileBytes.entry_end hp (by omega) hend m.dName)
    rw [hrun] at hnull
    cases hnull
  have hlive : ((fileBytes m fe).header p).inode ≠ 0 := by
    intro h0
    rw [h0] at hend
    exact absurd hend.1 (by decide)
  by_cases hfit : (p + 8) % 512 + ((fileBytes m fe).header p).nameLen.toNat ≤ 512
  · obtain ⟨old', hentry⟩ := FileBytes.entry_inside hp (by omega) hcovers hlive hend.2 hfit m.dName
    obtain ⟨m₁, fe₁, hrun₁, -⟩ := ext2Readdir_entry hh hfe hcur hentry
    rw [hrun] at hrun₁
    simp only [Except.ok.injEq, Prod.mk.injEq, Option.some.injEq] at hrun₁
    exact ⟨hlive, hend.2, hfit, hrun₁.1.1⟩
  · rw [ext2Readdir_error hh hfe hcur (FileBytes.entry_cross hp (by omega) hlive hend.2
      (Nat.not_le.1 hfit) m.dName)] at hrun
    cases hrun

/-- After the first entry the rest of the records is listed. -/
theorem enumerates_cons {r : DirRecord} (hlive : r.Live)
    (hrun : ext2Readdir fe h m = .ok ((some r.dirent, fe'), m')) :
    Enumerates h m fe (r :: recs) ↔ Enumerates h m' fe' recs := by
  have hcons : live (r :: recs) = r :: live recs := List.filter_cons_of_pos (by simpa using hlive)
  unfold Enumerates
  rw [hcons, List.length_cons, List.map_cons, List.cons_append]
  constructor
  · rintro ⟨m₁, fe₁, hall⟩
    rw [readdirs, Prog.bind_ok hrun] at hall
    obtain ⟨⟨des, fe₂⟩, m₂, hrest, hall⟩ := Prog.of_bind_ok hall
    simp only [Prog.pure_apply, Except.ok.injEq, Prod.mk.injEq, List.cons.injEq, true_and] at hall
    obtain ⟨⟨rfl, rfl⟩, rfl⟩ := hall
    exact ⟨_, _, hrest⟩
  · rintro ⟨m₁, fe₁, hrest⟩
    refine ⟨m₁, fe₁, ?_⟩
    rw [readdirs, Prog.bind_ok hrun]
    exact Prog.bind_ok hrest

/-- A listing that finds something has found a plain record. -/
theorem Enumerates.plain (hh : h.Reliable) (hfe : Readable m fe) (hd : fileBytes m fe = d)
    (hcur : fe.cursor = p) (hp : 4 ∣ p)
    (hsize : p + (d.header p).recLen.toNat ≤ d.size)
    (hcovers : 8 + (d.header p).nameLen.toNat ≤ (d.header p).recLen.toNat)
    (hall : Enumerates h m fe (d.record p :: recs)) (hany : live (d.record p :: recs) ≠ []) :
    (d.record p).Plain := by
  obtain ⟨m₁, fe₁, hall⟩ := hall
  obtain ⟨r, rest, hr⟩ := List.exists_cons_of_ne_nil hany
  rw [hr, List.length_cons, List.map_cons, List.cons_append, readdirs] at hall
  obtain ⟨⟨de, fe₂⟩, m₂, hfirst, hall⟩ := Prog.of_bind_ok hall
  obtain ⟨⟨des, fe₃⟩, m₃, -, hall⟩ := Prog.of_bind_ok hall
  simp only [Prog.pure_apply, Except.ok.injEq, Prod.mk.injEq, List.cons.injEq] at hall
  obtain ⟨⟨⟨rfl, -⟩, -⟩, -⟩ := hall
  obtain ⟨hlive, hpos, hfit, hde⟩ := of_ext2Readdir_some hh hfe hd hcur hp hsize hcovers hfirst
  have hcons : live (d.record p :: recs) = d.record p :: live recs :=
    List.filter_cons_of_pos (by simpa using hlive)
  rw [hcons] at hr
  obtain ⟨rfl, -⟩ := List.cons.inj hr
  have hname : d.name p = (d.name p).takeWhile (· ≠ 0) := congrArg Dirent.dName hde
  refine ⟨hlive, hpos, hfit, fun hmem => ?_⟩
  have hall := (List.takeWhile_eq_self_iff.1 hname.symm) 0 hmem
  exact absurd hall (by decide)

/-- From any record on. -/
theorem enumerates_from (hh : h.Reliable) {bs : Nat} (hrecs : d.Records bs p recs) :
    ∀ {m : Machine} {fe : FileEnt}, Readable m fe → fileBytes m fe = d → fe.cursor = p → 4 ∣ p →
      (Enumerates h m fe recs ↔ Enumerable recs) := by
  induction hrecs with
  | done =>
    intro m fe hfe hd hcur _
    obtain ⟨m₁, fe₁, hrun, -⟩ := ext2Readdir_null hh hfe hcur (by rw [hd]; exact d.entry_size _)
    exact ⟨fun _ => .of_live_eq_nil rfl, fun _ => ⟨m₁, fe₁, Prog.bind_ok hrun⟩⟩
  | @record p recs covers aligned inside rest ih =>
    intro m fe hfe hd hcur hp
    have hsize := rest.le_size
    by_cases hany : live (d.record p :: recs) = []
    · -- nothing is left to be found: the record is unused, which ends the listing
      have hend : ¬ (0 < (d.header p).inode.toNat ∧ (d.header p).inode.toNat < 2 ^ 31) := by
        intro hlive
        refine live_eq_nil.1 hany ⟨d.record p, List.mem_cons_self, fun h0 => ?_⟩
        have h0' : (d.header p).inode = 0 := h0
        rw [h0'] at hlive
        exact absurd hlive.1 (by decide)
      obtain ⟨m₁, fe₁, hrun, -⟩ := ext2Readdir_null hh hfe hcur
        (by rw [hd]; exact FileBytes.entry_end hp (by omega) hend _)
      refine ⟨fun _ => .of_live_eq_nil hany, fun _ => ⟨m₁, fe₁, ?_⟩⟩
      rw [hany]
      exact Prog.bind_ok hrun
    have hlive : ∃ l ∈ d.record p :: recs, l.Live := not_not.1 fun hno => hany (live_eq_nil.2 hno)
    -- either way the first record is plain, and what is listed behind it decides
    have hrest : (d.record p).Plain →
        (Enumerates h m fe (d.record p :: recs) ↔ Enumerable recs) := by
      intro hplain
      obtain ⟨m₁, fe₁, hrun, hr, hcur₁⟩ :=
        ext2Readdir_plain hh hfe hd hcur hp hsize covers hplain
      rw [enumerates_cons hplain.live hrun]
      exact ih (hr.readable hfe) (hr.fileBytes_eq.trans hd) hcur₁ (Nat.dvd_add hp aligned)
    rw [enumerable_cons]
    constructor
    · intro hall
      have hplain := hall.plain hh hfe hd hcur hp hsize covers hany
      exact ⟨fun _ => hplain, (hrest hplain).1 hall⟩
    · rintro ⟨hfirst, hbehind⟩
      exact (hrest (hfirst hlive)).2 hbehind

/-- **Listing a directory.** On a well-formed directory repeated calls from the start return every
    live entry once and in order, and NULL only then, if and only if up to the last live record no
    record is unused or has a negative inode number, and every name lies in one sector. -/
theorem enumerates_iff (hh : h.Reliable) (hfe : Readable m fe) (hcur : fe.cursor = 0)
    (hwf : (fileBytes m fe).WellFormed m.ctx.blockSize recs) :
    Enumerates h m fe recs ↔ Enumerable recs :=
  enumerates_from hh hwf.records hfe rfl hcur (Nat.dvd_zero 4)

namespace SmallVolume

set_option maxRecDepth 4000

/-- A handle on the root directory, as `ext2_open` leaves it for reading. -/
def handleRoot : FileEnt :=
  { FileEnt.fresh with inode := rootInode, inodeNumber := 2, flags := ⟨true, false, false, false⟩ }

/-- The volume after `f` has been deleted from the root directory: its record is unused. -/
def deletedMachine : Machine :=
  { machine with
    disk := Function.update machine.disk 14 (sectorOf [(0, dirRecord 2 12 [46]),
      (12, dirRecord 2 12 [46, 46]), (24, dirRecord 0 12 [102]), (36, dirRecord 12 988 [101])]) }

/-- The records of a root directory with four records of these lengths. -/
def rootRecords (m : Machine) : List DirRecord :=
  [0, 12, 24, 36].map (fileBytes m handleRoot).record

theorem handleRoot_readable {m : Machine} (hctx : m.ctx = machine.ctx) : Readable m handleRoot where
  sane := by
    rw [hctx]
    exact machine_sane
  magic := rfl
  noHole := by
    intro p hp
    have hsize : handleRoot.inode.iSize.toNat = 1024 := rfl
    have hbs := blockSize_ge m.ctx
    rw [Nat.div_eq_of_lt (by omega)]
    show (7 : UInt32) ≠ 0
    decide

/-- A record the driver takes for the end hides `e`. -/
theorem enumerates_fails : host.Reliable ∧ Readable deletedMachine handleRoot ∧
    handleRoot.cursor = 0 ∧ (fileBytes deletedMachine handleRoot).WellFormed
      deletedMachine.ctx.blockSize (rootRecords deletedMachine) ∧
    ¬ Enumerates host deletedMachine handleRoot (rootRecords deletedMachine) := by
  refine ⟨host_reliable, handleRoot_readable rfl, rfl,
    ⟨by decide, by decide, .of_chained _ 0 (by decide)⟩, ?_⟩
  intro hall
  have hrecs : (fileBytes deletedMachine handleRoot).Records deletedMachine.ctx.blockSize 0
      (rootRecords deletedMachine) := .of_chained [0, 12, 24, 36] 0 (by decide)
  have hfe : Readable deletedMachine handleRoot := handleRoot_readable rfl
  have henum := (enumerates_from host_reliable hrecs hfe rfl (show handleRoot.cursor = 0 from rfl)
    (by decide)).1 hall
  have hplain := henum ([0, 12].map (fileBytes deletedMachine handleRoot).record)
    ((fileBytes deletedMachine handleRoot).record 24)
    [(fileBytes deletedMachine handleRoot).record 36] rfl
    ⟨(fileBytes deletedMachine handleRoot).record 36, by simp, by decide⟩
  exact absurd hplain.live (by decide)

theorem rootRecords_plain : ∀ r ∈ rootRecords machine, r.Plain :=
  @of_decide_eq_true _ (List.decidableBAll (fun r : DirRecord => r.Plain) (rootRecords machine))
    (by decide)

/-- The root directory is listed in full. -/
theorem enumerates_root : Enumerates host machine handleRoot (rootRecords machine) :=
  (enumerates_iff host_reliable (handleRoot_readable rfl) rfl
    ⟨by decide, by decide, .of_chained _ 0 (by decide)⟩).2
    (.of_forall rootRecords_plain)

end SmallVolume

end Embext
