import Embext.Proofs.Lookup
import Embext.Proofs.ScanEnds
import Embext.Proofs.Writing

set_option autoImplicit false

/-! # Appending to a directory

`ext2_append_to_directory` walks the last block to its last record and puts the new one behind it, in
what the old one does not need or in a block of its own. The driver copies past the end of its
buffer when a header or the name leaves a sector, and it cannot add a block to a directory, so an
entry arrives exactly when its record fits the sectors, as long as the next block is there where it
is needed. -/

namespace Embext

/-! ## Chains of records -/

namespace FileBytes

variable {d d' : FileBytes} {bs p q : Nat} {recs recs' : List DirRecord}

/-- The bytes before offset `q`. -/
def upto (d : FileBytes) (q : Nat) : FileBytes := { d with size := q }

theorem Records.append (hrecs : (d.upto q).Records bs p recs) (hrecs' : d.Records bs q recs') :
    d.Records bs p (recs ++ recs') := by
  induction hrecs with
  | done => exact hrecs'
  | record covers aligned inside _ ih => exact .record covers aligned inside ih

/-- A chain is cut behind any of its records. -/
theorem Records.split : ∀ {p : Nat}, d.Records bs p (recs ++ recs') →
    ∃ q, (d.upto q).Records bs p recs ∧ d.Records bs q recs' := by
  induction recs with
  | nil => exact fun {p} hrecs => ⟨p, .done, hrecs⟩
  | cons r recs ih =>
    intro p hrecs
    generalize hall : (r :: recs) ++ recs' = all at hrecs
    cases hrecs with
    | done => cases hall
    | record covers aligned inside rest =>
      cases hall
      obtain ⟨q, hfirst, hsecond⟩ := ih rest
      exact ⟨q, .record covers aligned inside hfirst, hsecond⟩

/-- A chain passes through the start of every block. -/
theorem Records.block (hrecs : d.Records bs p recs) (hq : bs ∣ q) (hle : p ≤ q) (hsize : q ≤ d.size) :
    ∃ recs₁ recs₂, recs = recs₁ ++ recs₂ ∧ (d.upto q).Records bs p recs₁ ∧ d.Records bs q recs₂ := by
  induction hrecs with
  | done =>
    obtain rfl : q = d.size := Nat.le_antisymm hsize hle
    exact ⟨[], [], rfl, .done, .done⟩
  | @record p recs covers aligned inside rest ih =>
    rcases Nat.eq_or_lt_of_le hle with rfl | hlt
    · exact ⟨[], _, rfl, .done, .record covers aligned inside rest⟩
    have hnext : p + (d.header p).recLen.toNat ≤ q := by
      obtain ⟨j, rfl⟩ := hq
      have hdiv : p / bs < j := by
        by_contra hge
        have := Nat.mul_le_mul_left bs (Nat.not_lt.1 hge)
        have := Nat.mul_div_le p bs
        omega
      have hmul := Nat.mul_le_mul_left bs hdiv
      have hmod := Nat.div_add_mod p bs
      rw [Nat.succ_eq_add_one, Nat.mul_add, Nat.mul_one] at hmul
      omega
    obtain ⟨recs₁, recs₂, rfl, hfirst, hsecond⟩ := ih hnext
    exact ⟨d.record p :: recs₁, recs₂, rfl, .record covers aligned inside hfirst, hsecond⟩

/-- A chain lies in the bytes it covers. -/
theorem Records.congr (hrecs : d.Records bs p recs) (hsize : d'.size = d.size)
    (hbytes : ∀ k, p ≤ k → k < d.size → d'.byte k = d.byte k) : d'.Records bs p recs := by
  induction hrecs with
  | done => exact hsize ▸ .done
  | @record p recs covers aligned inside rest ih =>
    have hle := rest.le_size
    have hheader : d'.header p = d.header p :=
      Ext2DirHeader.packed.get_congr fun k hk => by
        have h8 : k < 8 := hk
        exact hbytes _ (by omega) (by omega)
    have hname : d'.name p = d.name p := by
      unfold name
      rw [hheader]
      exact slice_congr fun k hk hk' => hbytes k (by omega) (by omega)
    have hrecord : d'.record p = d.record p := by
      unfold FileBytes.record
      rw [hheader, hname]
    rw [← hrecord]
    rw [← hheader] at covers aligned inside ih
    exact .record covers aligned inside (ih fun k hk => hbytes k (by omega))

/-! ## Writing a record -/

variable {data : List UInt8}

theorem header_write (d : FileBytes) (p : Nat) (hdr : Ext2DirHeader) :
    (d.write p (Ext2DirHeader.packed.bytes hdr)).header p = hdr := by
  have hself : (d.write p (Ext2DirHeader.packed.bytes hdr)).slice p (Ext2DirHeader.packed.bytes hdr).length
      = Ext2DirHeader.packed.bytes hdr := slice_write_self
  rw [Packed.length_bytes] at hself
  have hget : Ext2DirHeader.packed.ofList
      ((d.write p (Ext2DirHeader.packed.bytes hdr)).slice p Ext2DirHeader.packed.size)
      = (d.write p (Ext2DirHeader.packed.bytes hdr)).header p := get_slice _ rfl p
  rw [hself, Packed.ofList_bytes] at hget
  exact hget.symm

theorem header_write_outside (hout : q + 8 ≤ p ∨ p + data.length ≤ q) :
    (d.write p data).header q = d.header q :=
  Ext2DirHeader.packed.get_congr fun k hk => by
    have h8 : k < 8 := hk
    exact byte_write_outside (by omega)

end FileBytes

/-- A new header; `rec_len` has 16 bits and `name_len` 8. -/
def newHeader (inode : UInt32) (len : Nat) (name : List UInt8) : Ext2DirHeader where
  inode := inode
  recLen := UInt16.ofNat len
  nameLen := UInt8.ofNat name.length
  fileType := 0

/-- The last two writes of either branch. -/
def putRecord (fe : FileEnt) (hdr : Ext2DirHeader) (name : List UInt8) : Drv FileEnt := do
  let (_, fe) ← ext2Write fe (Ext2DirHeader.packed.bytes hdr)
  let (_, fe) ← ext2Write fe name
  pure fe

/-- The bytes with a record put at `p`. -/
def FileBytes.writeRecord (d : FileBytes) (p : Nat) (hdr : Ext2DirHeader) (name : List UInt8) :
    FileBytes := (d.write p (Ext2DirHeader.packed.bytes hdr)).write (p + 8) name

section

variable {h : Host} {m₀ m m' : Machine} {fe₀ fe fe' : FileEnt} {d : FileBytes} {p : Nat}

/-- The seek to an offset. -/
theorem Editing.lseek (he : Editing m₀ fe₀ d m fe) {offset : Int} (hoffset : offset = p)
    (hlt : p < 2 ^ 31) : ext2Lseek fe offset .set h m = .ok ((p, { fe with cursor := p }), m) := by
  rw [hoffset]
  exact ext2Lseek_set he.magic hlt

variable (ha : FileApart (view m₀ fe₀) m₀.ctx fe₀.inodeNumber fe₀.inode) (hs : m₀.ctx.SaneBlockSize)
  (hmode : fe₀.flags.write = true ∧ fe₀.flags.append = false) (he : Editing m₀ fe₀ d m fe)
include ha hs hmode he

theorem Editing.put (hh : h.Reliable) (hcur : fe.cursor = p)
    (hmap : Mapped (view m₀ fe₀) m₀.ctx fe₀.inode p)
    (hmap' : Mapped (view m₀ fe₀) m₀.ctx fe₀.inode (p + 8)) (hdr : Ext2DirHeader)
    {name : List UInt8} (hname : name ≠ []) (hlt : p + 8 + name.length < 2 ^ 32)
    (hfit : p % 512 + 8 ≤ 512) (hfit' : (p + 8) % 512 + name.length ≤ 512) : ∃ m' fe',
    putRecord fe hdr name h m = .ok (fe', m') ∧ Editing m₀ fe₀ (d.writeRecord p hdr name) m' fe' ∧
      fe'.flags.fsDirty = true := by
  have hlen : (Ext2DirHeader.packed.bytes hdr).length = 8 := Packed.length_bytes _ _
  have hne : Ext2DirHeader.packed.bytes hdr ≠ [] := List.ne_nil_of_length_pos (by omega)
  obtain ⟨m₁, fe₁, hrun₁, he₁, hcur₁, -⟩ := he.write ha hs hmode hcur hmap hh hne (by omega) (by omega)
  rw [hlen] at hcur₁
  obtain ⟨m₂, fe₂, hrun₂, he₂, -, hdirty⟩ := he₁.write ha hs hmode hcur₁ hmap' hh hname hlt hfit'
  refine ⟨m₂, fe₂, ?_, he₂, hdirty⟩
  unfold putRecord
  rw [Prog.bind_ok hrun₁]
  exact Prog.bind_ok hrun₂

theorem Editing.put_cross (hh : h.Reliable) (hcur : fe.cursor = p)
    (hmap : Mapped (view m₀ fe₀) m₀.ctx fe₀.inode p)
    (hmap' : Mapped (view m₀ fe₀) m₀.ctx fe₀.inode (p + 8)) (hdr : Ext2DirHeader)
    {name : List UInt8} (hname : name ≠ [])
    (hcross : ¬ (p % 512 + 8 ≤ 512 ∧ (p + 8) % 512 + name.length ≤ 512)) :
    putRecord fe hdr name h m = .error .outOfBounds := by
  have hlen : (Ext2DirHeader.packed.bytes hdr).length = 8 := Packed.length_bytes _ _
  have hne : Ext2DirHeader.packed.bytes hdr ≠ [] := List.ne_nil_of_length_pos (by omega)
  unfold putRecord
  by_cases hfit : p % 512 + 8 ≤ 512
  · obtain ⟨m₁, fe₁, hrun₁, he₁, hcur₁, -⟩ := he.write ha hs hmode hcur hmap hh hne
      (by have := hmap'.1; omega) (by omega)
    rw [hlen] at hcur₁
    rw [Prog.bind_ok hrun₁]
    refine Prog.bind_error ?_
    exact he₁.write_cross ha hs hmode hcur₁ hmap' hh hname (by omega)
  · refine Prog.bind_error ?_
    exact he.write_cross ha hs hmode hcur hmap hh hne (by omega)

/-! ## The two branches -/

/-- The old record is shrunk, and the new one is put behind it. -/
theorem Editing.slackBranch (hh : h.Reliable) (base bs this minOld : Nat) (hold : minOld < 2 ^ 16)
    (hlt : base + this + minOld + 8 < 2 ^ 31)
    (hmap : Mapped (view m₀ fe₀) m₀.ctx fe₀.inode (base + this))
    (hfit : (base + this) % 512 + 8 ≤ 512) (hdr : Ext2DirHeader) (inode : UInt32) (name : List UInt8) :
    ∃ m₁ fe₁, Editing m₀ fe₀ (d.write (base + this)
      (Ext2DirHeader.packed.bytes { hdr with recLen := UInt16.ofNat minOld })) m₁ fe₁ ∧
    fe₁.cursor = (base + this + minOld : Nat) ∧
    appendInSlack fe base bs this minOld hdr inode name h m = putRecord fe₁
      (newHeader inode (((bs : Int) - (this + minOld : Nat)) % 2 ^ 16).toNat name) name h m₁ := by
  obtain ⟨old, hhdr⟩ : ∃ old : Ext2DirHeader, old = { hdr with recLen := UInt16.ofNat minOld } :=
    ⟨_, rfl⟩
  have hlen : (Ext2DirHeader.packed.bytes old).length = 8 := Packed.length_bytes _ _
  have hne : Ext2DirHeader.packed.bytes old ≠ [] := List.ne_nil_of_length_pos (by omega)
  have hrec : (UInt16.ofNat minOld).toNat = minOld := UInt16.toNat_ofNat_of_lt' hold
  have hseek : ext2Lseek fe ((this : Int) + base) .set h m
      = .ok (((base + this : Nat), { fe with cursor := (base + this : Nat) }), m) :=
    he.lseek (by omega) (by omega)
  obtain ⟨m₁, fe₁, hrun₁, he₁, -⟩ := (he.seek (base + this : Nat)).write ha hs hmode rfl hmap hh hne
    (by omega) (by omega)
  have hseek₁ : ext2Lseek fe₁ (((this + minOld : Nat) : Int) + base) .set h m₁
      = .ok (((base + this + minOld : Nat), { fe₁ with cursor := (base + this + minOld : Nat) }), m₁) :=
    he₁.lseek (by omega) (by omega)
  rw [← hhdr]
  refine ⟨m₁, _, he₁.seek (base + this + minOld : Nat), rfl, ?_⟩
  unfold appendInSlack
  dsimp only
  rw [← hhdr, hrec, Prog.bind_ok hseek]
  dsimp only
  rw [Prog.bind_ok hrun₁]
  dsimp only
  rw [Prog.bind_ok hseek₁]
  rfl

omit he in
/-- Zeros behind the end of the file. -/
theorem Editing.zeros (hh : h.Reliable) {size : Nat} : ∀ (n : Nat) {m : Machine} {fe : FileEnt}
    {d : FileBytes}, Editing m₀ fe₀ d m fe → fe.cursor = d.size → 128 ∣ d.size → size ≤ d.size →
    d.size + 128 * n < 2 ^ 32 →
    (∀ p, d.size ≤ p → p < d.size + 128 * n → Mapped (view m₀ fe₀) m₀.ctx fe₀.inode p) →
    ∃ d' m' fe', writeZeros n fe h m = .ok (fe', m') ∧ Editing m₀ fe₀ d' m' fe' ∧
      d'.size = d.size + 128 * n ∧ ∀ k < size, d'.byte k = d.byte k := by
  intro n
  induction n with
  | zero => exact fun he _ _ _ _ _ => ⟨_, _, _, rfl, he, by simp, fun _ _ => rfl⟩
  | succ n ih =>
    intro m fe d he hcur hdvd hsize hlt hmap
    obtain ⟨zeros, hzeros⟩ : ∃ zeros : List UInt8, zeros = List.replicate 128 0 := ⟨_, rfl⟩
    have hlen : zeros.length = 128 := by
      rw [hzeros]
      exact List.length_replicate
    have hne : zeros ≠ [] := List.ne_nil_of_length_pos (by omega)
    obtain ⟨m₁, fe₁, hrun₁, he₁, hcur₁, -⟩ := he.write ha hs hmode hcur
      (hmap _ (Nat.le_refl _) (by omega)) hh hne (by omega) (by omega)
    have hgrown : (d.write d.size zeros).size = d.size + 128 := by
      show max d.size (d.size + zeros.length) = d.size + 128
      omega
    obtain ⟨d', m₂, fe₂, hrun₂, he₂, hsize₂, hbytes₂⟩ := ih he₁ (by rw [hcur₁, hgrown, hlen])
      (by omega) (by omega) (by omega) fun p hp hp' => hmap p (by omega) (by omega)
    refine ⟨d', m₂, fe₂, ?_, he₂, by omega, fun k hk => ?_⟩
    · rw [writeZeros, ← hzeros, Prog.bind_ok hrun₁]
      exact hrun₂
    · rw [hbytes₂ k hk, FileBytes.byte_write_outside (by omega)]

/-- Zeros for a block, and the record at its start. -/
theorem Editing.blockBranch (hh : h.Reliable) (bs : Nat) (hbs : 128 ∣ bs) (hdvd : bs ∣ d.size) (hlt : d.size + bs < 2 ^ 32)
    (hmap : ∀ p, d.size ≤ p → p < d.size + bs → Mapped (view m₀ fe₀) m₀.ctx fe₀.inode p)
    (inode : UInt32) (name : List UInt8) :
    ∃ d' m₁ fe₁, Editing m₀ fe₀ d' m₁ fe₁ ∧ fe₁.cursor = d.size ∧ d'.size = d.size + bs ∧
    (∀ k < d.size, d'.byte k = d.byte k) ∧
    appendInNewBlock fe bs inode name h m = putRecord fe₁ (newHeader inode bs name) name h m₁ := by
  have hblock : d.size + 128 * (bs / 128) = d.size + bs := by rw [Nat.mul_div_cancel' hbs]
  have hseek : ext2Lseek fe 0 .end h m
      = .ok ((toInt32 d.size, { fe with cursor := (d.size : Nat) }), m) :=
    ext2Lseek_end he.magic (by omega) (by rw [he.size, Int.add_zero])
  obtain ⟨d', m₁, fe₁, hrun₁, he₁, hsize, hbytes⟩ := Editing.zeros ha hs hmode hh (bs / 128)
    (he.seek d.size) rfl (hbs.trans hdvd) (Nat.le_refl _) (by omega)
    fun p hp hp' => hmap p hp (by omega)
  have hseek₁ : ext2Lseek fe₁ (-bs) .end h m₁
      = .ok ((toInt32 d.size, { fe₁ with cursor := (d.size : Nat) }), m₁) :=
    ext2Lseek_end he₁.magic (by omega) (by rw [he₁.size]; omega)
  refine ⟨d', m₁, _, he₁.seek d.size, rfl, by omega, hbytes, ?_⟩
  unfold appendInNewBlock
  rw [Prog.bind_ok hseek]
  dsimp only
  rw [Prog.bind_ok hrun₁, Prog.bind_ok hseek₁]
  rfl

end

/-! ## The last record of a directory -/

/-- The headers of these records can be read: each lies in one sector. -/
def HeadersFit (recs : List DirRecord) : Prop := ∀ r ∈ recs, r.off % 512 + 8 ≤ 512

section

variable {h : Host} {m m' : Machine} {fe fe' : FileEnt} {d : FileBytes} {base bs p q n this : Nat}
  {recs : List DirRecord} {last : DirRecord} {hdr : Ext2DirHeader}

/-- Over the records of the last block the scan comes to the last one, unless a header on the way
    leaves its sector. -/
theorem lastRecord_last (hh : h.Reliable) (hend : base + bs = d.size)
    (hlt : d.size ≤ 2 ^ 31) {all : List DirRecord} (hrecs : d.Records bs p all) :
    ∀ {recs : List DirRecord} {m : Machine} {fe : FileEnt} {this q n : Nat} {hdr : Ext2DirHeader},
    all = recs ++ [last] → p = base + q → Readable m fe → fileBytes m fe = d →
    this + hdr.recLen.toNat = q → all.length ≤ n →
    (HeadersFit all → ∃ m' fe', lastRecord base bs n this hdr fe h m
      = .ok ((some (last.off - base, last.hdr), fe'), m') ∧ Reading m fe m' fe') ∧
    (¬ HeadersFit all → lastRecord base bs n this hdr fe h m = .error .outOfBounds) := by
  induction hrecs with
  | done =>
    intro recs m fe this q n hdr hall
    exact absurd hall (by simp)
  | @record p tail covers aligned inside rest ih =>
    intro recs m fe this q n hdr hall hp hfe hd hq hn
    subst hp
    have hle := rest.le_size
    obtain ⟨n, rfl⟩ : ∃ k, n = k + 1 := ⟨n - 1, by rw [List.length_cons] at hn; omega⟩
    by_cases hfit : (base + q) % 512 + 8 ≤ 512
    swap
    · refine ⟨fun hall => absurd (hall _ List.mem_cons_self) hfit, fun _ => ?_⟩
      exact lastRecord_cross hh hfe hd hq (by omega) (by omega) (by omega)
    obtain ⟨m₁, fe₁, hr, hrun⟩ := lastRecord_header hh bs n hfe hd hq (by omega) (by omega) hfit
    rw [hrun]
    cases recs with
    | nil =>
      -- the last record ends the block
      obtain ⟨rfl, rfl⟩ := List.cons.inj (hall : _ :: tail = last :: [])
      have hstop : base + q + (d.header (base + q)).recLen.toNat = d.size := by
        generalize base + q + (d.header (base + q)).recLen.toNat = e at rest
        cases rest with
        | done => rfl
      rw [if_neg (by omega)]
      refine ⟨fun _ => ⟨m₁, fe₁, ?_, hr⟩, fun hno => absurd (fun r hmem => ?_) hno⟩
      · have hoff : (d.record (base + q)).off - base = q := Nat.add_sub_cancel_left base q
        rw [hoff]
        rfl
      · rw [List.mem_singleton.1 hmem]
        exact hfit
    | cons r recs =>
      rw [List.cons_append] at hall
      obtain ⟨-, rfl⟩ := List.cons.inj hall
      have hmore := rest.length_le
      rw [List.length_append, List.length_singleton] at hmore
      rw [if_pos (by omega)]
      have hfuel : (recs ++ [last]).length ≤ n := by
        rw [List.length_cons] at hn
        omega
      obtain ⟨hok, hcross⟩ := ih rfl (Nat.add_assoc base q _) (hr.readable hfe)
        (hr.fileBytes_eq.trans hd) rfl hfuel
      have hheaders : HeadersFit (d.record (base + q) :: (recs ++ [last]))
          ↔ HeadersFit (recs ++ [last]) := by
        constructor
        · exact fun hall r' hr' => hall r' (List.mem_cons_of_mem _ hr')
        · intro hall r' hr'
          rcases List.mem_cons.1 hr' with rfl | hr'
          · exact hfit
          · exact hall r' hr'
      rw [hheaders]
      refine ⟨fun hall => ?_, hcross⟩
      obtain ⟨m₂, fe₂, hrun₂, hr₂⟩ := hok hall
      exact ⟨m₂, fe₂, hrun₂, hr.trans hr₂⟩

end

/-! ## The records afterwards -/

theorem le_entryLen (n : Nat) : n + 8 ≤ entryLen n := by
  unfold entryLen
  split <;> omega

theorem entryLen_le (n : Nat) : entryLen n ≤ n + 11 := by
  unfold entryLen
  split <;> omega

theorem four_dvd_entryLen (n : Nat) : 4 ∣ entryLen n := by
  unfold entryLen
  omega

namespace FileBytes

variable {d d' : FileBytes} {bs p x : Nat} {recs : List DirRecord} {last : DirRecord}
  {inode : UInt32} {name : List UInt8} {len : Nat}

/-- The last record of a chain. -/
theorem Records.of_last (hrecs : d.Records bs p (recs ++ [last])) :
    (d.upto last.off).Records bs p recs ∧ last = d.record last.off ∧
      8 + last.hdr.nameLen.toNat ≤ last.hdr.recLen.toNat ∧ 4 ∣ last.hdr.recLen.toNat ∧
      last.off % bs + last.hdr.recLen.toNat ≤ bs ∧ last.off + last.hdr.recLen.toNat = d.size := by
  obtain ⟨q, hfirst, hlast⟩ := hrecs.split
  generalize hall : [last] = all at hlast
  cases hlast with
  | done => cases hall
  | record covers aligned inside rest =>
    obtain ⟨rfl, rfl⟩ := List.cons.inj hall
    refine ⟨hfirst, rfl, covers, aligned, inside, ?_⟩
    generalize hend : (d.record q).off + (d.record q).hdr.recLen.toNat = e
    have hrest : d.Records bs e [] := hend ▸ rest
    cases hrest with
    | done => rfl

theorem byte_writeRecord {hdr : Ext2DirHeader} {k : Nat} (hk : k < x) :
    (d.writeRecord x hdr name).byte k = d.byte k := by
  have hlen : (Ext2DirHeader.packed.bytes hdr).length = 8 := Packed.length_bytes _ _
  unfold writeRecord
  rw [byte_write_outside (by omega), byte_write_outside (by omega)]

theorem header_writeRecord (hdr : Ext2DirHeader) : (d.writeRecord x hdr name).header x = hdr := by
  unfold writeRecord
  rw [header_write_outside (by omega), header_write]

theorem size_writeRecord {hdr : Ext2DirHeader} (hfit : x + 8 + name.length ≤ d.size) :
    (d.writeRecord x hdr name).size = d.size := by
  have hlen : (Ext2DirHeader.packed.bytes hdr).length = 8 := Packed.length_bytes _ _
  show max (max d.size _) _ = d.size
  omega

/-- The record that was put. -/
theorem record_writeRecord (hname : name.length ≤ 255) :
    (d.writeRecord x (newHeader inode len name) name).record x = ⟨x, newHeader inode len name, name⟩ := by
  have hlen : (newHeader inode len name).nameLen.toNat = name.length :=
    UInt8.toNat_ofNat_of_lt' (Nat.lt_succ_of_le hname)
  have hslice : (d.writeRecord x (newHeader inode len name) name).name x = name := by
    unfold FileBytes.name
    rw [header_writeRecord, hlen]
    exact slice_write_self
  unfold FileBytes.record
  rw [header_writeRecord, hslice]

end FileBytes

namespace DirRecord

/-- What a record takes up at least. -/
def minLen (r : DirRecord) : Nat := entryLen r.hdr.nameLen.toNat

/-- The record cut down to that. -/
def shrunk (r : DirRecord) : DirRecord := { r with hdr := { r.hdr with recLen := UInt16.ofNat r.minLen } }

/-- The record behind it. -/
def behind (r : DirRecord) (inode : UInt32) (name : List UInt8) : DirRecord :=
  ⟨r.off + r.minLen, newHeader inode (r.hdr.recLen.toNat - r.minLen) name, name⟩

/-- The record leaves more room than the new one needs. -/
def Roomy (r : DirRecord) (name : List UInt8) : Prop :=
  entryLen name.length + r.minLen < r.hdr.recLen.toNat

theorem minLen_le (r : DirRecord) : r.minLen ≤ 266 := by
  have hlt := r.hdr.nameLen.toNat_lt
  have hle := entryLen_le r.hdr.nameLen.toNat
  unfold minLen
  omega

theorem shrunk_recLen (r : DirRecord) : r.shrunk.hdr.recLen.toNat = r.minLen :=
  UInt16.toNat_ofNat_of_lt' (lt_of_le_of_lt r.minLen_le (by decide))

end DirRecord

namespace FileBytes

variable {d : FileBytes} {bs p x : Nat} {recs : List DirRecord} {last : DirRecord}
  {inode : UInt32} {name : List UInt8} {len : Nat}

/-- The directory with `last` shrunk and a record behind it. -/
def splitLast (d : FileBytes) (last : DirRecord) (inode : UInt32) (name : List UInt8) : FileBytes :=
  (d.write last.off (Ext2DirHeader.packed.bytes last.shrunk.hdr)).writeRecord (last.off + last.minLen)
    (newHeader inode (last.hdr.recLen.toNat - last.minLen) name) name

/-- The record behind the last one ends where that did. -/
theorem WellFormed.size_splitLast (hwf : d.WellFormed bs (recs ++ [last])) (hroom : last.Roomy name) :
    (d.splitLast last inode name).size = d.size := by
  obtain ⟨-, -, covers, -, -, hend⟩ := hwf.records.of_last
  have hnew := le_entryLen name.length
  have hlen : (Ext2DirHeader.packed.bytes last.shrunk.hdr).length = 8 := Packed.length_bytes _ _
  have hshrunk : (d.write last.off (Ext2DirHeader.packed.bytes last.shrunk.hdr)).size = d.size := by
    show max d.size _ = d.size
    omega
  unfold DirRecord.Roomy at hroom
  unfold FileBytes.splitLast
  rw [size_writeRecord (by omega), hshrunk]

theorem WellFormed.splitLast (inode : UInt32) (hwf : d.WellFormed bs (recs ++ [last]))
    (hroom : last.Roomy name) (hname : name.length ≤ 255) : (d.splitLast last inode name).WellFormed bs
      (recs ++ [last.shrunk, last.behind inode name]) := by
  obtain ⟨hfirst, hlast, covers, aligned, inside, hend⟩ := hwf.records.of_last
  have hold := le_entryLen last.hdr.nameLen.toNat
  have hnew := le_entryLen name.length
  have hrec := last.hdr.recLen.toNat_lt
  have hmin : last.minLen = entryLen last.hdr.nameLen.toNat := rfl
  have hlen : (Ext2DirHeader.packed.bytes last.shrunk.hdr).length = 8 := Packed.length_bytes _ _
  unfold DirRecord.Roomy at hroom
  have hsize : (d.splitLast last inode name).size = d.size := hwf.size_splitLast hroom
  have hrecLen : (newHeader inode (last.hdr.recLen.toNat - last.minLen) name).recLen.toNat
      = last.hdr.recLen.toNat - last.minLen := UInt16.toNat_ofNat_of_lt' (by show _ < 2 ^ 16; omega)
  have hnameLen : (newHeader inode (last.hdr.recLen.toNat - last.minLen) name).nameLen.toNat
      = name.length := UInt8.toNat_ofNat_of_lt' (Nat.lt_succ_of_le hname)
  have hbefore : ∀ k < last.off, (d.splitLast last inode name).byte k = d.byte k := by
    intro k hk
    unfold FileBytes.splitLast
    rw [byte_writeRecord (by omega), byte_write_outside (by omega)]
  have hshrunk : (d.splitLast last inode name).record last.off = last.shrunk := by
    have hheader : (d.splitLast last inode name).header last.off = last.shrunk.hdr := by
      have hput : (d.write last.off (Ext2DirHeader.packed.bytes last.shrunk.hdr)).header last.off
          = last.shrunk.hdr := header_write _ _ _
      rw [← hput]
      refine Ext2DirHeader.packed.get_congr fun k hk => ?_
      have h8 : k < 8 := hk
      exact byte_writeRecord (by omega)
    have hkept : (d.splitLast last inode name).name last.off = last.name := by
      have hread : last.name = d.name last.off := congrArg DirRecord.name hlast
      have hhdr : last.hdr = d.header last.off := congrArg DirRecord.hdr hlast
      rw [hread]
      unfold FileBytes.name
      rw [hheader, ← hhdr]
      refine slice_congr fun k hk hk' => ?_
      have hlt : k < last.off + 8 + last.hdr.nameLen.toNat := hk'
      unfold FileBytes.splitLast
      rw [byte_writeRecord (by omega), byte_write_outside (by omega)]
    unfold FileBytes.record
    rw [hheader, hkept]
    rfl
  have hbehind : (d.splitLast last inode name).record (last.off + last.minLen)
      = last.behind inode name := record_writeRecord hname
  have hheader : (d.splitLast last inode name).header last.off = last.shrunk.hdr :=
    congrArg DirRecord.hdr hshrunk
  have hheader' : (d.splitLast last inode name).header (last.off + last.minLen)
      = newHeader inode (last.hdr.recLen.toNat - last.minLen) name := congrArg DirRecord.hdr hbehind
  have hnext : ((d.splitLast last inode name).header last.off).recLen.toNat = last.minLen := by
    rw [hheader, DirRecord.shrunk_recLen]
  have hnext' : ((d.splitLast last inode name).header (last.off + last.minLen)).recLen.toNat
      = last.hdr.recLen.toNat - last.minLen := by
    rw [hheader', hrecLen]
  have hmod : (last.off + last.minLen) % bs = last.off % bs + last.minLen := by
    rw [← Nat.mod_add_mod, Nat.mod_eq_of_lt (by omega)]
  have hfour : 4 ∣ last.minLen := four_dvd_entryLen _
  refine ⟨by rw [hsize]; exact hwf.nonempty, by rw [hsize]; exact hwf.blocks, ?_⟩
  have hprefix : ((d.splitLast last inode name).upto last.off).Records bs 0 recs :=
    hfirst.congr rfl fun k _ hk => hbefore k hk
  refine hprefix.append ?_
  rw [← hshrunk, ← hbehind]
  refine .record ?_ ?_ ?_ ?_
  · rw [hnext, hheader]
    show 8 + last.hdr.nameLen.toNat ≤ last.minLen
    omega
  · rw [hnext]
    exact hfour
  · rw [hnext]
    omega
  · rw [hnext]
    refine .record ?_ ?_ ?_ ?_
    · rw [hnext', hheader', hnameLen]
      omega
    · rw [hnext']
      exact Nat.dvd_sub aligned hfour
    · rw [hnext', hmod]
      omega
    · rw [hnext', show last.off + last.minLen + (last.hdr.recLen.toNat - last.minLen)
        = (d.splitLast last inode name).size by omega]
      exact .done

theorem WellFormed.congr {d' : FileBytes} (hwf : d.WellFormed bs recs) (hsize : d'.size = d.size)
    (hbytes : ∀ k < d.size, d'.byte k = d.byte k) : d'.WellFormed bs recs :=
  ⟨hsize ▸ hwf.nonempty, hsize ▸ hwf.blocks, hwf.records.congr hsize fun k _ hk => hbytes k hk⟩

/-- A directory with a block for one more record. -/
theorem WellFormed.addBlock {d' : FileBytes} (inode : UInt32) (hwf : d.WellFormed bs recs)
    (hbs : 1024 ≤ bs) (hfour : 4 ∣ bs) (hsmall : bs < 2 ^ 16) (hsize : d'.size = d.size + bs)
    (hbytes : ∀ k < d.size, d'.byte k = d.byte k) (hname : name.length ≤ 255) :
    (d'.writeRecord d.size (newHeader inode bs name) name).WellFormed bs
      (recs ++ [⟨d.size, newHeader inode bs name, name⟩]) := by
  have hrecLen : (newHeader inode bs name).recLen.toNat = bs := UInt16.toNat_ofNat_of_lt' hsmall
  have hnameLen : (newHeader inode bs name).nameLen.toNat = name.length :=
    UInt8.toNat_ofNat_of_lt' (Nat.lt_succ_of_le hname)
  have hgrown : (d'.writeRecord d.size (newHeader inode bs name) name).size = d.size + bs := by
    rw [size_writeRecord (by omega), hsize]
  have hrecord : (d'.writeRecord d.size (newHeader inode bs name) name).record d.size
      = ⟨d.size, newHeader inode bs name, name⟩ := record_writeRecord hname
  have hprefix : ((d'.writeRecord d.size (newHeader inode bs name) name).upto d.size).Records bs 0 recs :=
    hwf.records.congr rfl fun k _ hk => (byte_writeRecord hk).trans (hbytes k hk)
  refine ⟨by omega, ?_, hprefix.append ?_⟩
  · rw [hgrown]
    exact Nat.dvd_add hwf.blocks (dvd_refl bs)
  rw [← hrecord]
  refine .record ?_ ?_ ?_ ?_
  all_goals rw [header_writeRecord, hrecLen]
  · rw [hnameLen]
    omega
  · exact hfour
  · rw [Nat.mod_eq_zero_of_dvd hwf.blocks, Nat.zero_add]
  · rw [← hgrown]
    exact .done

/-- A header whose length has wrapped to 0 breaks the chain. -/
theorem WellFormed.not_zero (hwf : d.WellFormed bs recs) (hx : bs ∣ x) (hlt : x < d.size) :
    (d.header x).recLen.toNat ≠ 0 := by
  obtain ⟨-, recs', -, -, hrest⟩ := hwf.records.block hx (Nat.zero_le x) hlt.le
  generalize hp : x = p at hrest
  cases hrest with
  | done => omega
  | record covers => omega

end FileBytes

/-! ## Entries -/

/-- The live entries of some records, in order. -/
def entries (recs : List DirRecord) : List Dirent := (live recs).map DirRecord.dirent

theorem entries_append (recs recs' : List DirRecord) :
    entries (recs ++ recs') = entries recs ++ entries recs' := by
  simp [entries, live, List.filter_append]

theorem entries_live {recs : List DirRecord} {e : Dirent} (he : e ∈ entries recs) : e.dIno ≠ 0 := by
  obtain ⟨r, hr, rfl⟩ := List.mem_map.1 he
  exact of_decide_eq_true (List.mem_filter.1 hr).2

theorem entries_new {r : DirRecord} (hlive : r.hdr.inode ≠ 0) : entries [r] = [r.dirent] := by
  simp [entries, live, DirRecord.Live, hlive]

theorem entries_shrunk (last : DirRecord) : entries [last.shrunk] = entries [last] := by
  by_cases hlive : last.hdr.inode ≠ 0
  · exact (entries_new (r := last.shrunk) hlive).trans (entries_new hlive).symm
  · simp [entries, live, DirRecord.Live, DirRecord.shrunk, not_not.1 hlive]

theorem entries_behind {inode : UInt32} (hlive : inode ≠ 0) (recs : List DirRecord) (last : DirRecord)
    (name : List UInt8) : entries (recs ++ [last.shrunk, last.behind inode name])
      = entries (recs ++ [last]) ++ [⟨inode, name⟩] := by
  have hpair : [last.shrunk, last.behind inode name] = [last.shrunk] ++ [last.behind inode name] := rfl
  have hnew : entries [last.behind inode name] = [⟨inode, name⟩] := entries_new hlive
  rw [hpair, entries_append, entries_append, entries_append, entries_shrunk, hnew, List.append_assoc]

/-! ## The directory on the device -/

/-- Inode `ino` is a directory with these records. -/
structure Listing (v : UInt32 → Sector) (c : Ext2Context) (ino : UInt32) (recs : List DirRecord) :
    Prop where
  noHole : NoHole v c (inodeAt v c ino)
  records : (inodeBytes v c (inodeAt v c ino)).WellFormed c.blockSize recs

variable {h : Host} {m m₁ m' : Machine} {fe : FileEnt} {d : FileBytes} {recs : List DirRecord}
  {last : DirRecord} {inode : UInt32} {name : List UInt8}

theorem Readable.mapped (hfe : Readable m fe) :
    ∀ p < (fileBytes m fe).size, Mapped (view m fe) m.ctx fe.inode p := fun p hp =>
  ⟨lt_trans hp fe.inode.iSize.toNat_lt, hfe.noHole p hp⟩

namespace Opened

variable {flags : OpenFlags} (ho : Opened m flags m₁ fe)
include ho

theorem blockSize_eq : m₁.ctx.blockSize = m.ctx.blockSize := by
  rw [ho.ctx]
  rfl

theorem slotted (hs : m.ctx.Sane) : m₁.ctx.Slotted := by
  rw [ho.ctx]
  exact ⟨hs.block, hs.size, hs.perGroup⟩

theorem inGroup (hs : m.ctx.Sane) :
    inodeGroup m₁.ctx fe.inodeNumber < m₁.ctx.numBlockgroups.toNat := by
  rw [ho.ctx]
  exact hs.covered _ ho.positive ho.known

theorem fileApart
    (hapart : FileApart m.disk m.ctx fe.inodeNumber (inodeAt m.disk m.ctx fe.inodeNumber)) :
    FileApart (view m₁ fe) m₁.ctx fe.inodeNumber fe.inode := by
  rw [ho.view_eq, ho.inode]
  exact hapart.sameVolume ho.ctx.sameVolume

theorem fileBlock_eq (k : Nat) : fileBlock (view m₁ fe) m₁.ctx fe.inode k
    = fileBlock m.disk m.ctx (inodeAt m.disk m.ctx fe.inodeNumber) k := by
  rw [ho.view_eq, ho.inode, fileBlock_sysbuf m.disk m.ctx _ k (by rw [ho.ctx]) (by rw [ho.ctx])]

/-- The handle reads the bytes of its inode on the volume. -/
theorem fileBytes_eq :
    fileBytes m₁ fe = inodeBytes m.disk m.ctx (inodeAt m.disk m.ctx fe.inodeNumber) := by
  unfold fileBytes inodeBytes
  rw [ho.view_eq, ho.inode, fileByte_sysbuf m.disk m.ctx _ (by rw [ho.ctx]) (by rw [ho.ctx])]

theorem readable (hs : m.ctx.SaneBlockSize)
    (hhole : NoHole m.disk m.ctx (inodeAt m.disk m.ctx fe.inodeNumber)) : Readable m₁ fe := by
  refine ⟨by rw [ho.ctx]; exact hs, ho.magic, fun p hp => ?_⟩
  rw [ho.fileBlock_eq, ho.blockSize_eq]
  rw [ho.inode] at hp
  exact hhole p hp

end Opened

/-- A file that was saved is a directory when its bytes are one. -/
theorem Saved.listing_iff {m₀ : Machine} {fe₀ : FileEnt} {i : Inode} (hsaved : Saved m₀ fe₀ d i m')
    (hmap : ∀ p < d.size, Mapped (view m₀ fe₀) m₀.ctx fe₀.inode p) :
    Listing m'.disk m'.ctx fe₀.inodeNumber recs ↔ d.WellFormed m₀.ctx.blockSize recs := by
  have hbs : m'.ctx.blockSize = m₀.ctx.blockSize := by
    obtain ⟨s, hs⟩ := hsaved.ctx
    rw [hs]
    rfl
  have hbytes : ∀ k < d.size, fileByte m'.disk m'.ctx i k = d.byte k := fun k hk =>
    hsaved.bytes k (hmap k hk)
  constructor
  · intro hl
    have hwf := hl.records
    rw [hsaved.slot, hbs] at hwf
    exact hwf.congr hsaved.size.symm fun k hk =>
      (hbytes k (lt_of_lt_of_eq hk hsaved.size)).symm
  · intro hwf
    refine ⟨?_, ?_⟩
    · rw [hsaved.slot]
      intro p hp
      rw [hsaved.size] at hp
      rw [hsaved.block, hbs]
      exact (hmap p hp).2
    · rw [hsaved.slot, hbs]
      exact hwf.congr hsaved.size hbytes

/-- A block of 64 KiB or more has length 0 in `rec_len`. -/
theorem recLen_wraps {c : Ext2Context} (hlarge : 2 ^ 16 ≤ c.blockSize) :
    (UInt16.ofNat c.blockSize).toNat = 0 := by
  have hpow : c.blockSize = 2 ^ (10 + c.superblock.sLogBlockSize.toNat) := by
    unfold Ext2Context.blockSize
    rw [Nat.pow_add]
  rw [hpow] at hlarge
  have hlog : 16 ≤ 10 + c.superblock.sLogBlockSize.toNat :=
    (Nat.pow_le_pow_iff_right (by decide)).1 hlarge
  rw [UInt16.toNat_ofNat', hpow]
  exact Nat.mod_eq_zero_of_dvd (Nat.pow_dvd_pow 2 hlog)

/-- The bytes of the next block. -/
theorem mapped_next {v : UInt32 → Sector} {c : Ext2Context} {i : Inode} {size : Nat}
    (hdvd : c.blockSize ∣ size) (hlt : size + c.blockSize ≤ 2 ^ 32)
    (hnext : fileBlock v c i (size / c.blockSize) ≠ 0) :
    ∀ p, size ≤ p → p < size + c.blockSize → Mapped v c i p := by
  intro p hlo hhi
  have hbs := blockSize_ge c
  obtain ⟨k, rfl⟩ := hdvd
  rw [Nat.mul_div_cancel_left k (by omega)] at hnext
  have hdiv : p / c.blockSize = k :=
    Nat.div_eq_of_lt_le (by rw [Nat.mul_comm]; exact hlo)
      (by rw [Nat.succ_mul, Nat.mul_comm]; exact hhi)
  refine ⟨by omega, ?_⟩
  rw [hdiv]
  exact hnext

theorem mapped_grown {v : UInt32 → Sector} {c : Ext2Context} {i : Inode} {size : Nat}
    (hdvd : c.blockSize ∣ size) (hlt : size + c.blockSize ≤ 2 ^ 32)
    (hnext : fileBlock v c i (size / c.blockSize) ≠ 0) (hmap : ∀ p < size, Mapped v c i p) :
    ∀ p < size + c.blockSize, Mapped v c i p := by
  intro p hp
  rcases Nat.lt_or_ge p size with hold | hnew
  · exact hmap p hold
  · exact mapped_next hdvd hlt hnext p hnew hp

/-! ## The whole call -/

/-- The headers of the last block can be read. -/
def LastBlockReads (d : FileBytes) (bs : Nat) (recs : List DirRecord) : Prop :=
  ∀ r ∈ recs, d.size ≤ r.off + bs → r.off % 512 + 8 ≤ 512

theorem FileBytes.Records.off_lt {bs p : Nat} (hrecs : d.Records bs p recs) :
    ∀ r ∈ recs, p ≤ r.off ∧ r.off < d.size := by
  induction hrecs with
  | done => simp
  | @record p recs covers aligned inside rest ih =>
    have hle := rest.le_size
    intro r hr
    rcases List.mem_cons.1 hr with rfl | hr
    · exact ⟨Nat.le_refl _, show p < d.size by omega⟩
    · obtain ⟨hlo, hhi⟩ := ih r hr
      exact ⟨by omega, hhi⟩

/-- The headers the scan reads are those of the last block. -/
theorem FileBytes.WellFormed.lastBlock {bs : Nat} (hwf : d.WellFormed bs (recs ++ [last])) :
    ∃ recs₁ recs₂, d.Records bs (d.size - bs) (recs₂ ++ [last]) ∧ recs = recs₁ ++ recs₂ ∧
      (HeadersFit (recs₂ ++ [last]) ↔ LastBlockReads d bs (recs ++ [last])) := by
  have hle := Nat.le_of_dvd hwf.nonempty hwf.blocks
  have hbase : bs ∣ d.size - bs := Nat.dvd_sub hwf.blocks (dvd_refl bs)
  have hpos : 0 < bs := Nat.pos_of_dvd_of_pos hwf.blocks hwf.nonempty
  obtain ⟨recs₁, all, hall, hfirst, hsecond⟩ :=
    hwf.records.block hbase (Nat.zero_le _) (Nat.sub_le _ _)
  obtain rfl | ⟨recs₂, x, rfl⟩ := all.eq_nil_or_concat'
  · generalize hp : d.size - bs = p at hsecond
    cases hsecond with
    | done => omega
  rw [← List.append_assoc] at hall
  obtain ⟨rfl, rfl⟩ := List.append_singleton_inj.1 hall
  refine ⟨recs₁, recs₂, hsecond, rfl, ?_⟩
  constructor
  · intro hfit r hr hoff
    rw [List.append_assoc] at hr
    rcases List.mem_append.1 hr with hr | hr
    · have hlt : r.off < d.size - bs := (hfirst.off_lt r hr).2
      omega
    · exact hfit r hr
  · intro hread r hr
    have hge := (hsecond.off_lt r hr).1
    refine hread r ?_ (by omega)
    rw [List.append_assoc]
    exact List.mem_append_right _ hr

section

variable {directory : List UInt8} (inode name) (hh : h.Reliable) (hs : m.ctx.Sane)
  (hopen : ext2OpenPlain directory oRdwr 0o1777 h m = .ok (some fe, m₁))
include hh hs hopen

/-- A directory of 2 GiB or more is given up, since its length is negative as an `int`. -/
theorem ext2AppendToDirectory_large (hblocks : m.ctx.blockSize ∣ fe.inode.iSize.toNat)
    (hlarge : 2 ^ 31 ≤ fe.inode.iSize.toNat) :
    ∃ m', ext2AppendToDirectory directory inode name h m = .ok (-1, m') := by
  have ho := of_ext2OpenPlain_rdwr hh hs hopen
  have hsize := fe.inode.iSize.toNat_lt
  have hle := blockSize_le hs.block
  have hint : toInt32 (fe.inode.iSize.toNat : Nat) = (fe.inode.iSize.toNat : Int) - 2 ^ 32 := by
    unfold toInt32
    omega
  have hseek : ext2Lseek fe 0 .end h m₁ = .ok ((toInt32 (fe.inode.iSize.toNat : Nat),
      { fe with cursor := (fe.inode.iSize.toNat : Nat) }), m₁) :=
    ext2Lseek_end ho.magic (by omega) (by omega)
  have hdvd : (m.ctx.blockSize : Int) ∣ (fe.inode.iSize.toNat : Int) - 2 ^ 32 :=
    Int.dvd_sub (Int.natCast_dvd_natCast.2 hblocks) 
      (by exact_mod_cast blockSize_dvd_pow hs.block (show 30 ≤ 32 by decide))
  have hwhole : ((fe.inode.iSize.toNat : Int) - 2 ^ 32).tmod m.ctx.blockSize = 0 :=
    Int.tmod_eq_zero_of_dvd hdvd
  have hclose : ∀ c m, ∃ x, ext2Close { fe with cursor := c } h m = .ok x := by
    intro c m
    have hdirty : fe.flags.fsDirty = false := by
      rw [ho.mode]
      rfl
    unfold ext2Close
    rw [if_neg (not_not.2 ho.magic), if_neg (by rw [ho.clean]; decide), Prog.bind_ok rfl]
    dsimp only
    rw [if_neg (not_not.2 rfl), if_neg (by rw [hdirty]; decide), Prog.bind_ok rfl]
    exact ⟨_, rfl⟩
  unfold ext2AppendToDirectory
  rw [Prog.bind_ok (ext2BlockSize_ok hs.block), Prog.bind_ok hopen]
  dsimp only
  rw [Prog.bind_ok hseek]
  dsimp only
  rw [hint, if_neg (not_not.2 hwhole), if_pos (by omega)]
  obtain ⟨⟨x, m₂⟩, hx⟩ := hclose (fe.inode.iSize.toNat : Nat) { m₁ with rerrno := .eio }
  rw [Prog.bind_ok (setErrno_apply .eio), Prog.bind_ok hx]
  exact ⟨m₂, rfl⟩

/-- The scan of the last block, which starts at `base`. -/
theorem ext2AppendToDirectory_scan (hpat : 2 ^ 29 ≤ h.patience) (hfe : Readable m₁ fe)
    (hwf : (fileBytes m₁ fe).WellFormed m.ctx.blockSize (recs ++ [last])) {base : Nat}
    (hbase : base + m.ctx.blockSize = fe.inode.iSize.toNat) (hsmall : fe.inode.iSize.toNat < 2 ^ 31) :
    (LastBlockReads (fileBytes m₁ fe) m.ctx.blockSize (recs ++ [last]) →
      ∃ m₂ fe₂, Editing m₁ fe (fileBytes m₁ fe) m₂ fe₂ ∧
      ext2AppendToDirectory directory inode name h m = (do
        let fe ← appendRecord fe₂ base m.ctx.blockSize (last.off - base) last.hdr inode name
        let _ ← ext2Close fe
        pure 0 : Drv Int) h m₂) ∧
    (¬ LastBlockReads (fileBytes m₁ fe) m.ctx.blockSize (recs ++ [last]) →
      ext2AppendToDirectory directory inode name h m = .error .outOfBounds) := by
  have ho := of_ext2OpenPlain_rdwr hh hs hopen
  have hsize : (fileBytes m₁ fe).size = fe.inode.iSize.toNat := rfl
  have hseek : ext2Lseek fe 0 .end h m₁ = .ok ((toInt32 (fe.inode.iSize.toNat : Nat),
      { fe with cursor := (fe.inode.iSize.toNat : Nat) }), m₁) :=
    ext2Lseek_end ho.magic (by omega) (by omega)
  have hwhole : ((fe.inode.iSize.toNat : Nat) : Int).tmod m.ctx.blockSize = 0 :=
    Int.tmod_eq_zero_of_dvd (Int.natCast_dvd_natCast.2 hwf.blocks)
  have hlow : ((fe.inode.iSize.toNat : Nat) : Int) - m.ctx.blockSize = (base : Nat) := by omega
  -- the records of the last block
  obtain ⟨recs₁, recs₂, hlast, -, hheaders⟩ := hwf.lastBlock
  rw [hsize, ← hbase, Nat.add_sub_cancel] at hlast
  have hlen := hlast.length_le
  have hseeked : Reading m₁ fe m₁ { fe with cursor := (fe.inode.iSize.toNat : Nat) } := .seek _
  have hstart : 0 + (⟨0, 0, 0, 0⟩ : Ext2DirHeader).recLen.toNat = 0 := rfl
  have hbound : (recs₂ ++ [last]).length ≤ h.patience := by omega
  obtain ⟨hok, hcross⟩ := lastRecord_last hh (hbase.trans hsize.symm) hsmall.le hlast rfl
    (Nat.add_zero base).symm (hseeked.readable hfe) hseeked.fileBytes_eq hstart hbound
  rw [← hheaders]
  unfold ext2AppendToDirectory
  rw [Prog.bind_ok (ext2BlockSize_ok hs.block), Prog.bind_ok hopen]
  dsimp only
  rw [Prog.bind_ok hseek]
  dsimp only
  rw [toInt32_of_lt hsmall, if_neg (not_not.2 hwhole), hlow, if_neg (by omega),
    Prog.bind_ok (patience_apply h m₁)]
  refine ⟨fun hall => ?_, fun hall => Prog.bind_error (hcross hall)⟩
  obtain ⟨m₂, fe₂, hrun, hr⟩ := hok hall
  refine ⟨m₂, fe₂, (Editing.refl ho.magic).read (hseeked.trans hr), ?_⟩
  rw [Prog.bind_ok hrun]

end

section

variable {m₂ : Machine} {fe₂ : FileEnt} {base : Nat} (inode)
  (ha : FileApart (view m₁ fe) m₁.ctx fe.inodeNumber fe.inode) (hs : m₁.ctx.SaneBlockSize)
  (hmode : fe.flags.write = true ∧ fe.flags.append = false) (he : Editing m₁ fe d m₂ fe₂)
  (hwf : d.WellFormed m₁.ctx.blockSize (recs ++ [last])) (hsmall : d.size < 2 ^ 31)
  (hbase : base + m₁.ctx.blockSize = d.size)
  (hmap : ∀ p < d.size, Mapped (view m₁ fe) m₁.ctx fe.inode p)
  (hheader : last.off % 512 + 8 ≤ 512) (hname : name ≠ []) (hlen : name.length ≤ 255)
include ha hs hmode he hwf hsmall hbase hmap hheader hname hlen

theorem appendRecord_slack (hh : h.Reliable) (hroom : last.Roomy name) :
    ((last.off + last.minLen) % 512 + 8 ≤ 512 ∧ (last.off + last.minLen + 8) % 512 + name.length ≤ 512 →
      ∃ m' fe', appendRecord fe₂ base m₁.ctx.blockSize (last.off - base) last.hdr inode name h m₂
        = .ok (fe', m') ∧ Editing m₁ fe (d.splitLast last inode name) m' fe' ∧ fe'.flags.fsDirty = true) ∧
    (¬ ((last.off + last.minLen) % 512 + 8 ≤ 512 ∧
        (last.off + last.minLen + 8) % 512 + name.length ≤ 512) →
      appendRecord fe₂ base m₁.ctx.blockSize (last.off - base) last.hdr inode name h m₂
        = .error .outOfBounds) := by
  obtain ⟨hfirst, hlast, covers, aligned, inside, hend⟩ := hwf.records.of_last
  have hold := le_entryLen last.hdr.nameLen.toNat
  have hnew := le_entryLen name.length
  have hle := last.minLen_le
  have hmin : last.minLen = entryLen last.hdr.nameLen.toNat := rfl
  have hrec := last.hdr.recLen.toNat_lt
  unfold DirRecord.Roomy at hroom
  have hthis : base + (last.off - base) = last.off := by omega
  have hbranch : appendRecord fe₂ base m₁.ctx.blockSize (last.off - base) last.hdr inode name h m₂
      = appendInSlack fe₂ base m₁.ctx.blockSize (last.off - base) last.minLen last.hdr inode name h m₂ := by
    unfold appendRecord
    exact (Prog.ite_apply _ _ _ _ _).trans (if_pos (by omega))
  obtain ⟨m₃, fe₃, he₃, hcur, hrun⟩ := he.slackBranch ha hs hmode hh base m₁.ctx.blockSize
    (last.off - base) last.minLen (by omega) (by omega) (by rw [hthis]; exact hmap _ (by omega))
    (by rw [hthis]; exact hheader) last.hdr inode name
  rw [hthis] at he₃ hcur
  have hlen' : (((m₁.ctx.blockSize : Int) - (last.off - base + last.minLen : Nat)) % 2 ^ 16).toNat
      = last.hdr.recLen.toNat - last.minLen := by omega
  rw [hlen'] at hrun
  rw [hbranch, hrun]
  refine ⟨fun hfit => ?_, fun hcross => ?_⟩
  · exact he₃.put ha hs hmode hh hcur (hmap _ (by omega)) (hmap _ (by omega)) _ hname (by omega)
      hfit.1 hfit.2
  · exact he₃.put_cross ha hs hmode hh hcur (hmap _ (by omega)) (hmap _ (by omega)) _ hname hcross

omit hmap hheader in
theorem appendRecord_block (hh : h.Reliable) (hfull : ¬ last.Roomy name)
    (hnext : fileBlock (view m₁ fe) m₁.ctx fe.inode (d.size / m₁.ctx.blockSize) ≠ 0) :
    ∃ (d' : FileBytes) (m' : Machine) (fe' : FileEnt),
    appendRecord fe₂ base m₁.ctx.blockSize (last.off - base) last.hdr inode name h m₂ = .ok (fe', m') ∧
      Editing m₁ fe (d'.writeRecord d.size (newHeader inode m₁.ctx.blockSize name) name) m' fe' ∧
      fe'.flags.fsDirty = true ∧ d'.size = d.size + m₁.ctx.blockSize ∧
      ∀ k < d.size, d'.byte k = d.byte k := by
  obtain ⟨-, -, covers, -, -, -⟩ := hwf.records.of_last
  have hold := le_entryLen last.hdr.nameLen.toNat
  have hmin : last.minLen = entryLen last.hdr.nameLen.toNat := rfl
  have hbs := blockSize_ge m₁.ctx
  have hle := blockSize_le hs
  have hmul := blockSize_eq_mul m₁.ctx
  unfold DirRecord.Roomy at hfull
  have hbranch : appendRecord fe₂ base m₁.ctx.blockSize (last.off - base) last.hdr inode name h m₂
      = appendInNewBlock fe₂ m₁.ctx.blockSize inode name h m₂ := by
    unfold appendRecord
    exact (Prog.ite_apply _ _ _ _ _).trans (if_neg (by omega))
  have hnew := mapped_next hwf.blocks (by omega) hnext
  have hsector : d.size % 512 = 0 :=
    Nat.mod_eq_zero_of_dvd (dvd_trans ⟨_, hmul⟩ hwf.blocks)
  obtain ⟨d', m₃, fe₃, he₃, hcur, hsize, hbytes, hrun⟩ := he.blockBranch ha hs hmode hh
    m₁.ctx.blockSize ⟨4 * (m₁.ctx.blockSize / 512), by omega⟩ hwf.blocks (by omega) hnew inode name
  obtain ⟨m₄, fe₄, hput, he₄, hdirty⟩ := he₃.put ha hs hmode hh hcur (hnew _ (by omega) (by omega))
    (hnew _ (by omega) (by omega)) (newHeader inode m₁.ctx.blockSize name) hname (by omega) (by omega)
    (by omega)
  exact ⟨d', m₄, fe₄, by rw [hbranch, hrun, hput], he₄, hdirty, hsize, hbytes⟩

end

/-! ## When an entry arrives -/

/-- The call returns, and if it returns 0 the entry has been added behind the others. -/
def AppendsEntry (h : Host) (m : Machine) (directory : List UInt8) (inode : UInt32)
    (name : List UInt8) (ino : UInt32) (recs : List DirRecord) : Prop :=
  ∃ r m', ext2AppendToDirectory directory inode name h m = .ok (r, m') ∧ (r = 0 →
    ∃ recs', Listing m'.disk m'.ctx ino recs' ∧ entries recs' = entries recs ++ [⟨inode, name⟩])

/-- The block behind the last one of a directory. -/
def nextBlock (v : UInt32 → Sector) (c : Ext2Context) (ino : UInt32) : UInt32 :=
  fileBlock v c (inodeAt v c ino) ((inodeAt v c ino).iSize.toNat / c.blockSize)

/-- Where the record goes: behind the last one, with its header and the name in one sector each, or
    to the next block, when that is mapped already and `rec_len` can hold its size. -/
inductive TakesRecord (v : UInt32 → Sector) (c : Ext2Context) (ino : UInt32) (last : DirRecord)
    (name : List UInt8) : Prop where
  | behind (room : last.Roomy name) (header : (last.off + last.minLen) % 512 + 8 ≤ 512)
      (tail : (last.off + last.minLen + 8) % 512 + name.length ≤ 512)
  | block (full : ¬ last.Roomy name) (mapped : nextBlock v c ino ≠ 0) (small : c.blockSize < 2 ^ 16)

/-- The entry fits the directory. -/
structure Appendable (v : UInt32 → Sector) (c : Ext2Context) (ino : UInt32) (recs : List DirRecord)
    (last : DirRecord) (inode : UInt32) (name : List UInt8) : Prop where
  live : inode ≠ 0
  reads : LastBlockReads (inodeBytes v c (inodeAt v c ino)) c.blockSize recs
  takes : TakesRecord v c ino last name

/-- What has been written is a directory with the entry. -/
theorem appended_iff {m₀ : Machine} {fe₀ : FileEnt} {i : Inode} {d' : FileBytes}
    {recs' : List DirRecord} (hsaved : Saved m₀ fe₀ d' i m')
    (hmap : ∀ p < d'.size, Mapped (view m₀ fe₀) m₀.ctx fe₀.inode p)
    (hwf : d'.WellFormed m₀.ctx.blockSize recs')
    (hentries : inode ≠ 0 → entries recs' = entries recs ++ [⟨inode, name⟩]) :
    (∃ recs', Listing m'.disk m'.ctx fe₀.inodeNumber recs' ∧
      entries recs' = entries recs ++ [⟨inode, name⟩]) ↔ inode ≠ 0 := by
  constructor
  · rintro ⟨recs', -, heq⟩
    exact entries_live (by rw [heq]; simp : ⟨inode, name⟩ ∈ entries recs')
  · intro hlive
    exact ⟨recs', (hsaved.listing_iff hmap).2 hwf, hentries hlive⟩

theorem appendsEntry_of_ok {directory : List UInt8} {ino : UInt32}
    (hrun : ext2AppendToDirectory directory inode name h m = .ok (0, m')) :
    AppendsEntry h m directory inode name ino recs ↔ ∃ recs', Listing m'.disk m'.ctx ino recs' ∧
      entries recs' = entries recs ++ [⟨inode, name⟩] := by
  unfold AppendsEntry
  rw [hrun]
  constructor
  · rintro ⟨r, m₁, heq, himp⟩
    cases heq
    exact himp rfl
  · exact fun hlisting => ⟨0, m', rfl, fun _ => hlisting⟩

section

variable {directory : List UInt8} (hh : h.Reliable) (hs : m.ctx.Sane) (hpat : 2 ^ 29 ≤ h.patience)
  (hopen : ext2OpenPlain directory oRdwr 0o1777 h m = .ok (some fe, m₁))
  (hdir : Listing m.disk m.ctx fe.inodeNumber (recs ++ [last]))
  (hapart : FileApart m.disk m.ctx fe.inodeNumber (inodeAt m.disk m.ctx fe.inodeNumber))
  (hname : 0 < name.length) (hlen : name.length ≤ 255)
include hh hs hpat hopen hdir hapart hname hlen

/-- The call on a directory that it gives up as too large, or whose last record has room or whose next
    block is there. -/
theorem appendsEntry_iff_of_room (hroom : 2 ^ 31 ≤ (inodeAt m.disk m.ctx fe.inodeNumber).iSize.toNat ∨
      last.Roomy name ∨ nextBlock m.disk m.ctx fe.inodeNumber ≠ 0) :
    AppendsEntry h m directory inode name fe.inodeNumber (recs ++ [last]) ↔
      2 ^ 31 ≤ (inodeAt m.disk m.ctx fe.inodeNumber).iSize.toNat ∨
        Appendable m.disk m.ctx fe.inodeNumber (recs ++ [last]) last inode name := by
  have ho := of_ext2OpenPlain_rdwr hh hs hopen
  have hbs := ho.blockSize_eq
  have hslotted := ho.slotted hs
  have ha := ho.fileApart hapart
  have hbytes := ho.fileBytes_eq
  have hfe := ho.readable hs.block hdir.noHole
  have hmap := hfe.mapped
  have hwf : (fileBytes m₁ fe).WellFormed m₁.ctx.blockSize (recs ++ [last]) := by
    rw [hbytes, hbs]
    exact hdir.records
  have hsize : (fileBytes m₁ fe).size = fe.inode.iSize.toNat := rfl
  have hmode : fe.flags.write = true ∧ fe.flags.append = false := by
    rw [ho.mode]
    exact ⟨rfl, rfl⟩
  rw [← ho.inode] at hroom ⊢
  by_cases hlarge : 2 ^ 31 ≤ fe.inode.iSize.toNat
  · have hdvd : m.ctx.blockSize ∣ fe.inode.iSize.toNat := by
      rw [← hbs]
      exact hwf.blocks
    obtain ⟨m', hrun⟩ := ext2AppendToDirectory_large inode name hh hs hopen hdvd hlarge
    exact iff_of_true ⟨-1, m', hrun, fun h0 => absurd h0 (by decide)⟩ (.inl hlarge)
  rw [or_iff_right hlarge]
  have hroom := hroom.resolve_left hlarge
  have hle := Nat.le_of_dvd hwf.nonempty hwf.blocks
  obtain ⟨base, hbase⟩ : ∃ base, base + m₁.ctx.blockSize = (fileBytes m₁ fe).size :=
    ⟨_, Nat.sub_add_cancel hle⟩
  obtain ⟨hscan, hcross⟩ := ext2AppendToDirectory_scan inode name hh hs hopen hpat hfe
    (by rw [← hbs]; exact hwf) (by rw [← hbs]; exact hbase) (Nat.not_le.1 hlarge)
  rw [hbytes] at hscan hcross
  by_cases hreads : LastBlockReads (inodeBytes m.disk m.ctx (inodeAt m.disk m.ctx fe.inodeNumber))
      m.ctx.blockSize (recs ++ [last])
  swap
  · refine iff_of_false ?_ fun happ => hreads happ.reads
    rintro ⟨r, m', hrun, -⟩
    rw [hcross hreads] at hrun
    cases hrun
  obtain ⟨m₂, fe₂, he, hcall⟩ := hscan hreads
  rw [← hbytes] at he
  -- the last record is one of those that were read
  have hheader : last.off % 512 + 8 ≤ 512 := by
    obtain ⟨-, -, -, -, hinside, hend⟩ := hwf.records.of_last
    refine hreads last (by simp) ?_
    rw [← hbytes, ← hbs]
    omega
  have hne : name ≠ [] := List.ne_nil_of_length_pos hname
  have hclose : ∀ {d' m₃ fe₃}, appendRecord fe₂ base m₁.ctx.blockSize (last.off - base) last.hdr inode
      name h m₂ = .ok (fe₃, m₃) → Editing m₁ fe d' m₃ fe₃ → fe₃.flags.fsDirty = true →
      ∃ m' i, ext2AppendToDirectory directory inode name h m = .ok (0, m') ∧ Saved m₁ fe d' i m' := by
    intro d' m₃ fe₃ hrun he₃ hdirty
    obtain ⟨m', fe', hclosed, hsaved⟩ := he₃.close hh ha hslotted (ho.inGroup hs) hdirty
    refine ⟨m', fe₃.inode, ?_, hsaved⟩
    rw [hcall, ← hbs, Prog.bind_ok hrun, Prog.bind_ok hclosed]
    rfl
  by_cases hrm : last.Roomy name
  · obtain ⟨hok, hout⟩ := appendRecord_slack inode ha hslotted.block hmode he hwf (Nat.not_le.1 hlarge)
      hbase hmap hheader hne hlen hh hrm
    by_cases hfit : (last.off + last.minLen) % 512 + 8 ≤ 512 ∧
        (last.off + last.minLen + 8) % 512 + name.length ≤ 512
    · obtain ⟨m₃, fe₃, hrun, he₃, hdirty⟩ := hok hfit
      obtain ⟨m', i, hret, hsaved⟩ := hclose hrun he₃ hdirty
      have hsplit := hwf.splitLast inode hrm hlen
      rw [appendsEntry_of_ok hret, appended_iff hsaved ?_ hsplit ?_]
      · exact ⟨fun hlive => ⟨hlive, hreads, .behind hrm hfit.1 hfit.2⟩, fun happ => happ.live⟩
      · rw [hwf.size_splitLast hrm]
        exact hmap
      · exact fun hlive => entries_behind hlive recs last name
    · refine iff_of_false ?_ fun happ => ?_
      · rintro ⟨r, m', hrun, -⟩
        rw [hcall, ← hbs, Prog.bind_error (hout hfit)] at hrun
        cases hrun
      · cases happ.takes with
        | behind _ header tail => exact hfit ⟨header, tail⟩
        | block full _ _ => exact full hrm
  · have hnext : fileBlock (view m₁ fe) m₁.ctx fe.inode ((fileBytes m₁ fe).size / m₁.ctx.blockSize) ≠ 0 := by
      rw [ho.fileBlock_eq, hbs, hsize, ho.inode]
      exact hroom.resolve_left hrm
    obtain ⟨d', m₃, fe₃, hrun, he₃, hdirty, hgrown, hkept⟩ := appendRecord_block inode ha hslotted.block
      hmode he hwf (Nat.not_le.1 hlarge) hbase hne hlen hh hrm hnext
    obtain ⟨m', i, hret, hsaved⟩ := hclose hrun he₃ hdirty
    have hbs₁ := blockSize_ge m₁.ctx
    have hle₁ := blockSize_le hslotted.block
    have hmul := blockSize_eq_mul m₁.ctx
    have hwritten : (d'.writeRecord (fileBytes m₁ fe).size
        (newHeader inode m₁.ctx.blockSize name) name).size = (fileBytes m₁ fe).size + m₁.ctx.blockSize := by
      rw [FileBytes.size_writeRecord (by omega), hgrown]
    have hmap' := mapped_grown hwf.blocks (by omega) hnext hmap
    by_cases hfits : m₁.ctx.blockSize < 2 ^ 16
    · have hadded := hwf.addBlock inode hbs₁ ⟨128 * (m₁.ctx.blockSize / 512), by omega⟩ hfits
        hgrown hkept hlen
      rw [appendsEntry_of_ok hret, appended_iff hsaved (by rw [hwritten]; exact hmap') hadded ?_]
      · exact ⟨fun hlive => ⟨hlive, hreads, .block hrm (hroom.resolve_left hrm) (by rw [← hbs]; exact hfits)⟩,
          fun happ => happ.live⟩
      · intro hlive
        rw [entries_append _ [_], entries_new hlive]
        rfl
    · -- the length of the record wraps to 0
      refine iff_of_false ?_ fun happ => ?_
      · rw [appendsEntry_of_ok hret]
        rintro ⟨recs', hlisting, -⟩
        have hbroken := ((hsaved.listing_iff (by rw [hwritten]; exact hmap')).1 hlisting).not_zero
          hwf.blocks (by omega)
        refine hbroken ?_
        rw [FileBytes.header_writeRecord]
        exact recLen_wraps (Nat.not_lt.1 hfits)
      · cases happ.takes with
        | behind room => exact hrm room
        | block _ _ small => exact hfits (by rw [hbs]; exact small)

end

namespace SmallVolume

set_option maxRecDepth 4000

/-- The small volume with the block of its root directory full to the end. -/
def filledMachine : Machine :=
  { machine with
    disk := fun s =>
      if s = 14 then sectorOf [(0, dirRecord 2 12 [46]), (12, dirRecord 2 12 [46, 46]),
        (24, dirRecord 11 988 [102])]
      else if s = 15 then sectorOf [(500, dirRecord 12 12 [101])]
      else machine.disk s }

def filledRecords : List DirRecord := [0, 12, 24, 1012].map (fileBytes filledMachine handleRoot).record

theorem filled_listing : Listing filledMachine.disk filledMachine.ctx 2 filledRecords := by
  have hroot : inodeAt filledMachine.disk filledMachine.ctx 2 = rootInode := root_inode_of rfl rfl
  constructor
  · rw [hroot]
    exact (handleRoot_readable (m := filledMachine) rfl).noHole
  · rw [hroot]
    exact ⟨by decide, by decide, .of_chained [0, 12, 24, 1012] 0 (by decide)⟩

/-- Whether appending `"n"` as inode 13 to the root directory returns 0 with a machine that passes the
    test. -/
def appends (m : Machine) (test : Machine → Bool) : Bool :=
  match ext2AppendToDirectory [47] 13 [110] patientHost m with
  | .ok (r, m') => r == 0 && test m'
  | .error _ => false

theorem of_appends {m : Machine} {test : Machine → Bool} (hok : appends m test = true) :
    ∃ m', ext2AppendToDirectory [47] 13 [110] patientHost m = .ok (0, m') ∧ test m' = true := by
  unfold appends at hok
  split at hok
  · next r m' hrun =>
    rw [Bool.and_eq_true, beq_iff_eq] at hok
    obtain ⟨rfl, htest⟩ := hok
    exact ⟨m', hrun, htest⟩
  · cases hok

/-- Whether `"/"` opens for reading and writing as inode 2. -/
def opensRoot : Bool :=
  match ext2OpenPlain [47] oRdwr 0o1777 patientHost machine with
  | .ok (some fe, _) => fe.inodeNumber == 2
  | _ => false

theorem of_opensRoot (hok : opensRoot = true) : ∃ fe m₁,
    ext2OpenPlain [47] oRdwr 0o1777 patientHost machine = .ok (some fe, m₁) ∧ fe.inodeNumber = 2 := by
  unfold opensRoot at hok
  split at hok
  · next fe m₁ hrun => exact ⟨fe, m₁, hrun, beq_iff_eq.1 hok⟩
  · cases hok

section

variable {v : UInt32 → Sector} {inode : Inode} {b ino : UInt32} {p : Nat}

theorem fileBlock_single (hblocks : inode.iBlock = fun k => if k = 0 then b else 0)
    (w : UInt32 → Sector) (k : Nat) :
    fileBlock w machine.ctx inode k = if k = 0 then b else 0 := by
  rw [fileBlock_direct (by rw [hblocks]; rfl) (by rw [hblocks]; rfl) (by rw [hblocks]; rfl), hblocks]
  by_cases hk : k < 12
  · rw [if_pos hk]
    have hslot : Fin.ofNat 15 k = 0 ↔ k = 0 := by
      rw [Fin.ext_iff, Fin.val_ofNat, Fin.val_zero, Nat.mod_eq_of_lt (by omega)]
    simp only [hslot]
  · rw [if_neg hk, if_neg (by omega)]

/-- The bytes of a file of one block. -/
theorem byteSector_single (hblocks : inode.iBlock = fun k => if k = 0 then b else 0)
    (hp : Mapped v machine.ctx inode p) : p < 1024 ∧ b ≠ 0 ∧
      byteSector v machine.ctx inode p = UInt32.ofNat (2 * b.toNat + p / 512) := by
  have hbs : machine.ctx.blockSize = 1024 := by decide
  have hstart : machine.ctx.partStart = 0 := by decide
  obtain ⟨-, hne⟩ := hp
  rw [fileBlock_single hblocks, hbs] at hne
  have hk : p / 1024 = 0 := by
    by_contra hk
    exact hne (if_neg hk)
  rw [if_pos hk] at hne
  have hlt : p < 1024 := by omega
  refine ⟨hlt, hne, ?_⟩
  rw [byteSector, blockSector, fileBlock_single hblocks, hbs, hk, hstart, Nat.mod_eq_of_lt hlt,
    UInt32.add_zero, if_pos rfl, Nat.mul_comm 2]

/-- A file of one block lies apart when both sectors of the block do. -/
theorem apart_single (hblocks : inode.iBlock = fun k => if k = 0 then b else 0)
    (hb : 2 * b.toNat + 1 < 2 ^ 32) {slot : UInt32} (hslot : slotSector v machine.ctx ino = slot)
    (hdesc : descriptorSector machine.ctx (inodeGroup machine.ctx ino) = 4) (hne : slot ≠ 4)
    (hapart : b ≠ 0 → 4 < 2 * b.toNat ∧ slot.toNat < 2 * b.toNat) :
    FileApart v machine.ctx ino inode := by
  have hsector : ∀ p, Mapped v machine.ctx inode p →
      (byteSector v machine.ctx inode p).toNat = 2 * b.toNat + p / 512 ∧ p < 1024 ∧
        4 < 2 * b.toNat ∧ slot.toNat < 2 * b.toNat := by
    intro p hp
    obtain ⟨hlt, hb0, heq⟩ := byteSector_single hblocks hp
    rw [heq]
    exact ⟨UInt32.toNat_ofNat_of_lt' (by show _ < 2 ^ 32; omega), hlt, hapart hb0⟩
  constructor
  · intro p q hp hq heq
    have := congrArg UInt32.toNat heq
    rw [(hsector p hp).1, (hsector q hq).1] at this
    omega
  · intro w _ k
    rw [fileBlock_single hblocks, fileBlock_single hblocks]
  · intro p hp heq
    obtain ⟨hsec, -, -, hlt⟩ := hsector p hp
    rw [heq, hslot] at hsec
    omega
  · intro p hp heq
    obtain ⟨hsec, -, hlt, -⟩ := hsector p hp
    rw [heq, hdesc] at hsec
    have : (4 : UInt32).toNat = 4 := rfl
    omega
  · rw [hslot, hdesc]
    exact hne

end

theorem root_apart : FileApart machine.disk machine.ctx 2 rootInode :=
  apart_single (b := 7) rfl (by decide) (show slotSector machine.disk machine.ctx 2 = 10 by decide)
    (by decide) (by decide) (by decide)

end SmallVolume

end Embext
