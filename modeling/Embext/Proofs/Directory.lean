import Embext.Proofs.Seek

set_option autoImplicit false

/-! # A file as a sequence of bytes

Over reliable transfers and a block map without holes, what a handle reads is determined by the
bytes of its file. `FileBytes.fetch` is `ext2_read` seen that way, and `FileBytes.entry` is
`ext2_readdir`: the record at an offset, the offset the next call starts from, and what the static
`d_name` then holds. -/

namespace Embext

variable {h : Host} {m m' : Machine} {fe fe' : FileEnt}

/-! ## Bytes -/

structure FileBytes where
  size : Nat
  byte : Nat → UInt8

/-- The bytes of the file behind a handle. -/
def fileBytes (m : Machine) (fe : FileEnt) : FileBytes where
  size := fe.inode.iSize.toNat
  byte := fileByte (view m fe) m.ctx fe.inode

namespace FileBytes

/-- The `n` bytes from `p` on. -/
def slice (d : FileBytes) (p n : Nat) : List UInt8 := (List.range n).map fun k => d.byte (p + k)

/-- What a read of `n` bytes at `p` delivers. One that leaves the sector of `p` copies past the end
    of the buffer. -/
def fetch (d : FileBytes) (p n : Nat) : Except Fault (List UInt8) :=
  if p % 512 + min n (d.size - p) ≤ 512 then .ok (d.slice p (min n (d.size - p)))
  else .error .outOfBounds

@[simp] theorem length_slice (d : FileBytes) (p n : Nat) : (d.slice p n).length = n := by
  simp [slice]

/-- A fetch that stays in the file and the sector. -/
theorem fetch_inside {d : FileBytes} {p n : Nat} (hsize : p + n ≤ d.size) (hfit : p % 512 + n ≤ 512) :
    d.fetch p n = .ok (d.slice p n) := by
  have hmin : min n (d.size - p) = n := by omega
  unfold fetch
  rw [hmin, if_pos hfit]

theorem length_of_fetch {d : FileBytes} {p n : Nat} {l : List UInt8} (hf : d.fetch p n = .ok l) :
    l.length = min n (d.size - p) := by
  unfold fetch at hf
  split at hf
  · cases hf
    exact d.length_slice _ _
  · cases hf

end FileBytes

/-! ## Reading -/

/-- What the reads of a handle rely on. -/
structure Readable (m : Machine) (fe : FileEnt) : Prop where
  sane : m.ctx.SaneBlockSize
  magic : fe.magic = embextMagic
  noHole : NoHole (view m fe) m.ctx fe.inode

/-- The state after some reads and seeks: the file is the same, up to its access time. -/
structure Reading (m : Machine) (fe : FileEnt) (m' : Machine) (fe' : FileEnt) : Prop where
  view : view m' fe' = view m fe
  ctx : m'.ctx = m.ctx
  magic : fe'.magic = fe.magic
  inode : fe'.inode = { fe.inode with iAtime := fe'.inode.iAtime }
  number : fe'.inodeNumber = fe.inodeNumber
  mode : fe'.flags = { fe.flags with fsDirty := fe'.flags.fsDirty }
  clean : fe.buffer.dirty = false → fe'.buffer.dirty = false

theorem Reading.refl (m : Machine) (fe : FileEnt) : Reading m fe m fe :=
  ⟨rfl, rfl, rfl, rfl, rfl, rfl, fun h => h⟩

theorem Reading.trans {m₁ m₂ m₃ : Machine} {fe₁ fe₂ fe₃ : FileEnt} (h₁ : Reading m₁ fe₁ m₂ fe₂)
    (h₂ : Reading m₂ fe₂ m₃ fe₃) : Reading m₁ fe₁ m₃ fe₃ where
  view := h₂.view.trans h₁.view
  ctx := h₂.ctx.trans h₁.ctx
  magic := h₂.magic.trans h₁.magic
  inode := by rw [h₂.inode, h₁.inode]
  number := h₂.number.trans h₁.number
  mode := by rw [h₂.mode, h₁.mode]
  clean h := h₂.clean (h₁.clean h)

theorem Reading.fileBytes_eq (hr : Reading m fe m' fe') : fileBytes m' fe' = fileBytes m fe := by
  unfold fileBytes
  rw [hr.view, hr.ctx, hr.inode]
  rfl

theorem Reading.readable (hr : Reading m fe m' fe') (hfe : Readable m fe) : Readable m' fe' := by
  refine ⟨by rw [hr.ctx]; exact hfe.sane, hr.magic.trans hfe.magic, ?_⟩
  rw [hr.view, hr.ctx, hr.inode]
  exact hfe.noHole

/-- Where the file is read. -/
theorem Reading.seek (c : Int) : Reading m fe m { fe with cursor := c } :=
  ⟨rfl, rfl, rfl, rfl, rfl, rfl, fun h => h⟩

theorem Reading.errno (e : Errno) : Reading m fe { m with rerrno := e } fe :=
  ⟨rfl, rfl, rfl, rfl, rfl, rfl, fun h => h⟩

section

variable {p n : Nat}

theorem readLength_at (hcur : fe.cursor = p) :
    readLength fe n = min n ((fileBytes m fe).size - p) := by
  simp only [readLength, fileBytes, hcur]
  omega

/-- Below the end of the file the walk finds a block. -/
theorem cursorBlock_ne_zero (hfe : Readable m fe) (hcur : fe.cursor = p)
    (hlt : p < fe.inode.iSize.toNat) :
    fileBlock (view m fe) m.ctx fe.inode (fe.cursor.toNat / m.ctx.blockSize) ≠ 0 ∧
      cursorBlock m fe ≠ 0 := by
  have hmap := hfe.noHole p hlt
  have hsize := fe.inode.iSize.toNat_lt
  have hp : fe.cursor.toNat = p := by omega
  rw [← hp] at hmap
  refine ⟨hmap, ?_⟩
  rw [cursorBlock_eq (by omega) (by omega) hmap]
  exact hmap

/-- `ext2_read` is `fetch`. -/
theorem ext2Read_fetch (hh : h.Reliable) (hfe : Readable m fe) (hcur : fe.cursor = p)
    {l : List UInt8} (hf : (fileBytes m fe).fetch p n = .ok l) :
    ∃ m' fe', ext2Read fe n h m = .ok ((l.length, l, fe'), m') ∧ Reading m fe m' fe' ∧
      fe'.cursor = p + l.length ∧ m'.dName = m.dName := by
  have hlen := readLength_at (m := m) (n := n) hcur
  have hl := FileBytes.length_of_fetch hf
  rw [← hlen] at hl
  unfold FileBytes.fetch at hf
  rw [← hlen] at hf
  rcases Nat.eq_zero_or_pos (readLength fe n) with hz | hpos
  · have hnil : l = [] := List.eq_nil_of_length_eq_zero (hl.trans hz)
    subst hnil
    exact ⟨m, fe, ext2Read_zero hfe.magic hz, .refl m fe, by simpa using hcur, rfl⟩
  have hfit : p % 512 + readLength fe n ≤ 512 := by
    by_contra hcross
    rw [if_neg hcross] at hf
    cases hf
  rw [if_pos hfit] at hf
  cases hf
  have hp : fe.cursor.toNat = p := by omega
  have hlt : p < fe.inode.iSize.toNat := by
    unfold readLength at hpos
    omega
  have hsize := fe.inode.iSize.toNat_lt
  obtain ⟨hmap, hb⟩ := cursorBlock_ne_zero hfe hcur hlt
  obtain ⟨m₁, fe₁, hrun, hl, -, hclean, -⟩ := ext2Read_inside hh hfe.sane hfe.magic (by omega) hpos hb
    (by rw [hp]; exact hfit)
  rw [sectorBytes_eq (by omega) (by omega) hmap (by rw [hp]; exact hfit)] at hrun
  have hbytes : bytesAhead m fe (readLength fe n) = (fileBytes m fe).slice p (readLength fe n) := by
    unfold bytesAhead
    rw [hp]
    rfl
  rw [hbytes] at hrun
  simp only [FileBytes.length_slice]
  refine ⟨_, _, hrun, ?_, ?_, ?_⟩
  · refine ⟨hl.view_eq, hl.ctx_eq, ?_, ?_, ?_, ?_, fun _ => hclean⟩
    all_goals
      rw [hl.handle]
      rfl
  · rw [hl.handle, ← hcur]
    rfl
  · rw [hl.machine]

theorem ext2Read_fetch_error (hh : h.Reliable) (hfe : Readable m fe) (hcur : fe.cursor = p)
    {e : Fault} (hf : (fileBytes m fe).fetch p n = .error e) : ext2Read fe n h m = .error e := by
  have hlen := readLength_at (m := m) (n := n) hcur
  have hp : fe.cursor.toNat = p := by omega
  unfold FileBytes.fetch at hf
  rw [← hlen] at hf
  by_cases hfit : p % 512 + readLength fe n ≤ 512
  · rw [if_pos hfit] at hf
    cases hf
  rw [if_neg hfit] at hf
  cases hf
  have hlt : p < fe.inode.iSize.toNat := by
    unfold readLength at hfit
    omega
  obtain ⟨-, hb⟩ := cursorBlock_ne_zero hfe hcur hlt
  exact ext2Read_cross hh hfe.sane hfe.magic (by omega) hb (by rw [hp]; omega)

end

/-! ## Directory records -/

/-- Where `ext2_lseek` relative to offset `c` leads; one to before the start leaves the cursor. -/
def seekFrom (c : Nat) (offset : Int) : Nat := if (c : Int) + offset < 0 then c else (c + offset).toNat

/-- What `ext2_readdir` makes of the record at `p`: the entry, the offset it leaves the handle at and
    the new `d_name`, which keeps bytes of `old` behind a name that ends with the file. -/
def FileBytes.entry (d : FileBytes) (p : Nat) (old : Fin 256 → UInt8) :
    Except Fault (Option (Dirent × Nat × (Fin 256 → UInt8))) := do
  let ino ← d.fetch p 4
  if ino.length < 4 then pure none
  else
    let recLen ← d.fetch (p + 4) 2
    if recLen.length < 2 then pure none
    else
      let nameLen ← d.fetch (p + 6) 1
      if nameLen.length < 1 then pure none
      else
        let fileType ← d.fetch (p + 7) 1
        if fileType.length < 1 then pure none
        else
          let dIno := Packed.u32.ofList ino
          let recLen := (Packed.u16.ofList recLen).toNat
          let nameLen := (Packed.u8.ofList nameLen).toNat
          if 0 < dIno.toNat ∧ dIno.toNat < 2 ^ 31 then
            let name ← d.fetch (p + 8) nameLen
            let dName := Window.patch (Window.patch old 0 name) nameLen [0]
            pure (some (⟨dIno, cString dName⟩,
              seekFrom (p + 8 + name.length) ((recLen : Int) - 8 - nameLen), dName))
          else pure none

/-- A run of `ext2_readdir` ends as the bytes say. -/
inductive EntryOutcome (m : Machine) (fe : FileEnt) :
    Except Fault ((Option Dirent × FileEnt) × Machine) →
    Except Fault (Option (Dirent × Nat × (Fin 256 → UInt8))) → Prop where
  | fault (e : Fault) : EntryOutcome m fe (.error e) (.error e)
  | null (m' : Machine) (fe' : FileEnt) (reading : Reading m fe m' fe') :
      EntryOutcome m fe (.ok ((none, fe'), m')) (.ok none)
  | entry (m' : Machine) (fe' : FileEnt) (de : Dirent) (p' : Nat) (reading : Reading m fe m' fe')
      (cursor : fe'.cursor = p') :
      EntryOutcome m fe (.ok ((some de, fe'), m')) (.ok (some (de, p', m'.dName)))

/-- The seek to the next record. -/
theorem ext2Lseek_cur (hmagic : fe.magic = embextMagic) {c : Nat} (hcur : fe.cursor = c)
    {offset : Int} (hle : offset ≤ int64Max - c) : ∃ r m',
    ext2Lseek fe offset .cur h m = .ok ((r, { fe with cursor := seekFrom c offset }), m') ∧
      Reading m fe m' { fe with cursor := seekFrom c offset } ∧ m'.dName = m.dName := by
  have hbase : Whence.base fe .cur = some (c : Int) := congrArg some hcur
  unfold seekFrom
  rw [ext2Lseek_eq hmagic hbase (by omega), if_neg (by omega)]
  by_cases hneg : (c : Int) + offset < 0
  · rw [if_pos hneg, if_pos hneg]
    refine ⟨-1, _, ?_, (Reading.errno .einval).trans (.seek _), rfl⟩
    rw [← hcur]
    rfl
  · rw [if_neg hneg, if_neg hneg]
    refine ⟨toInt32 (c + offset), m, ?_, .seek _, rfl⟩
    rw [Int.toNat_of_nonneg (Int.not_lt.1 hneg)]
    rfl

/-- The call and the bytes go on from what a read delivers. -/
theorem EntryOutcome.read (hh : h.Reliable) {m₀ : Machine} {fe₀ : FileEnt} (hr : Reading m₀ fe₀ m fe)
    (hfe : Readable m fe) {p n : Nat} (hcur : fe.cursor = p)
    {k : Int × List UInt8 × FileEnt → Drv (Option Dirent × FileEnt)}
    {k' : List UInt8 → Except Fault (Option (Dirent × Nat × (Fin 256 → UInt8)))}
    (hk : ∀ l m₁ fe₁, l.length = min n ((fileBytes m₀ fe₀).size - p) → Reading m₀ fe₀ m₁ fe₁ →
      Readable m₁ fe₁ → fe₁.cursor = (p + l.length : Nat) → m₁.dName = m.dName →
      EntryOutcome m₀ fe₀ (k (l.length, l, fe₁) h m₁) (k' l)) :
    EntryOutcome m₀ fe₀ ((ext2Read fe n >>= k) h m) ((fileBytes m₀ fe₀).fetch p n >>= k') := by
  rw [← hr.fileBytes_eq]
  cases hf : (fileBytes m fe).fetch p n with
  | error e =>
    rw [Prog.bind_error (ext2Read_fetch_error hh hfe hcur hf)]
    exact .fault e
  | ok l =>
    obtain ⟨m₁, fe₁, hrun, hr₁, hcur₁, hname⟩ := ext2Read_fetch hh hfe hcur hf
    rw [Prog.bind_ok hrun]
    have hlen := FileBytes.length_of_fetch hf
    rw [hr.fileBytes_eq] at hlen
    exact hk l m₁ fe₁ hlen (hr.trans hr₁) (hr₁.readable hfe) (by omega) hname

/-- One field of the header: it must be complete. -/
theorem EntryOutcome.field (hh : h.Reliable) {m₀ : Machine} {fe₀ : FileEnt} (hr : Reading m₀ fe₀ m fe)
    (hfe : Readable m fe) {p n : Nat} (hcur : fe.cursor = p)
    {k : Int × List UInt8 × FileEnt → Drv (Option Dirent × FileEnt)}
    {k' : List UInt8 → Except Fault (Option (Dirent × Nat × (Fin 256 → UInt8)))}
    (hshort : ∀ (l : List UInt8) (fe : FileEnt), l.length < n → k (l.length, l, fe) = pure (none, fe))
    (hshort' : ∀ l : List UInt8, l.length < n → k' l = .ok none)
    (hk : ∀ l m₁ fe₁, l.length = n → n ≤ (fileBytes m₀ fe₀).size - p → Reading m₀ fe₀ m₁ fe₁ →
      Readable m₁ fe₁ → fe₁.cursor = (p + n : Nat) → m₁.dName = m.dName →
      EntryOutcome m₀ fe₀ (k (l.length, l, fe₁) h m₁) (k' l)) :
    EntryOutcome m₀ fe₀ ((ext2Read fe n >>= k) h m) ((fileBytes m₀ fe₀).fetch p n >>= k') := by
  refine .read hh hr hfe hcur fun l m₁ fe₁ hle hr₁ hfe₁ hcur₁ hname => ?_
  by_cases hlt : l.length < n
  · rw [hshort l fe₁ hlt, hshort' l hlt]
    exact .null _ _ hr₁
  · have hlen : l.length = n := by omega
    exact hk l m₁ fe₁ hlen (by omega) hr₁ hfe₁ (by rw [hcur₁, hlen]) hname

/-- **`ext2_readdir` by the bytes of the directory.** -/
theorem ext2Readdir_outcome (hh : h.Reliable) (hfe : Readable m fe) {p : Nat} (hcur : fe.cursor = p) :
    EntryOutcome m fe (ext2Readdir fe h m) ((fileBytes m fe).entry p m.dName) := by
  unfold ext2Readdir FileBytes.entry
  refine .field hh (.refl m fe) hfe hcur (fun l fe hl => if_pos (by omega)) (fun l hl => if_pos hl)
    fun ino m₁ fe₁ hl₁ hp hr₁ hfe₁ hcur₁ hn₁ => ?_
  dsimp only
  rw [if_neg (show ¬ (ino.length : Int) < 4 by omega), if_neg (show ¬ ino.length < 4 by omega)]
  refine .field hh hr₁ hfe₁ hcur₁ (fun l fe hl => if_pos (by omega)) (fun l hl => if_pos hl)
    fun recLen m₂ fe₂ hl₂ _ hr₂ hfe₂ hcur₂ hn₂ => ?_
  dsimp only
  rw [if_neg (show ¬ (recLen.length : Int) < 2 by omega), if_neg (show ¬ recLen.length < 2 by omega)]
  refine .field hh hr₂ hfe₂ hcur₂ (fun l fe hl => if_pos (by omega)) (fun l hl => if_pos hl)
    fun nameLen m₃ fe₃ hl₃ _ hr₃ hfe₃ hcur₃ hn₃ => ?_
  dsimp only
  rw [if_neg (show ¬ (nameLen.length : Int) < 1 by omega), if_neg (show ¬ nameLen.length < 1 by omega)]
  refine .field hh hr₃ hfe₃ hcur₃ (fun l fe hl => if_pos (by omega)) (fun l hl => if_pos hl)
    fun fileType m₄ fe₄ hl₄ _ hr₄ hfe₄ hcur₄ hn₄ => ?_
  dsimp only
  rw [if_neg (show ¬ (fileType.length : Int) < 1 by omega),
    if_neg (show ¬ fileType.length < 1 by omega)]
  by_cases hlive : 0 < (Packed.u32.ofList ino).toNat ∧ (Packed.u32.ofList ino).toNat < 2 ^ 31
  swap
  · rw [if_neg hlive, if_neg hlive]
    exact .null _ _ hr₄
  rw [if_pos hlive, if_pos hlive]
  refine .read hh hr₄ hfe₄ hcur₄ fun name m₅ fe₅ hl₅ hr₅ hfe₅ hcur₅ hn₅ => ?_
  have hname : m₅.dName = m.dName := by rw [hn₅, hn₄, hn₃, hn₂, hn₁]
  have hsize : (fileBytes m fe).size < 2 ^ 32 := fe.inode.iSize.toNat_lt
  have hrec := (Packed.u16.ofList recLen).toNat_lt
  -- the seek stays far below `INT64_MAX`
  have hfar : ((Packed.u16.ofList recLen).toNat : Int) - 8 - (Packed.u8.ofList nameLen).toNat
      ≤ int64Max - (p + 4 + 2 + 1 + 1 + name.length : Nat) := by
    unfold int64Max
    omega
  obtain ⟨m₆, hm₆⟩ : ∃ m₆ : Machine, m₆ = { m₅ with
      dName := Window.patch (Window.patch m₅.dName 0 name) (Packed.u8.ofList nameLen).toNat [0] } :=
    ⟨_, rfl⟩
  have hr₆ : Reading m fe m₆ fe₅ := by
    rw [hm₆]
    exact ⟨hr₅.view, hr₅.ctx, hr₅.magic, hr₅.inode, hr₅.number, hr₅.mode, hr₅.clean⟩
  obtain ⟨r, m₇, hseek, hr₇, hn₇⟩ := ext2Lseek_cur (h := h) (m := m₆) hfe₅.magic hcur₅ hfar
  dsimp only
  rw [Prog.bind_ok (Prog.modify_apply _ _ _), ← hm₆, Prog.bind_ok hseek,
    Prog.bind_ok (Prog.get_apply _ _), ← hname]
  have hd₇ : Window.patch (Window.patch m₅.dName 0 name) (Packed.u8.ofList nameLen).toNat [0]
      = m₇.dName := by
    rw [hn₇, hm₆]
  rw [hd₇]
  exact .entry _ _ _ _ (hr₆.trans hr₇) rfl

section

variable (hh : h.Reliable) (hfe : Readable m fe) {p : Nat} (hcur : fe.cursor = p)
include hh hfe hcur

theorem ext2Readdir_error {e : Fault} (he : (fileBytes m fe).entry p m.dName = .error e) :
    ext2Readdir fe h m = .error e := by
  have hout := ext2Readdir_outcome hh hfe hcur
  rw [he] at hout
  generalize ext2Readdir fe h m = run at hout
  cases hout
  rfl

theorem ext2Readdir_null (he : (fileBytes m fe).entry p m.dName = .ok none) :
    ∃ m' fe', ext2Readdir fe h m = .ok ((none, fe'), m') ∧ Reading m fe m' fe' := by
  have hout := ext2Readdir_outcome hh hfe hcur
  rw [he] at hout
  generalize ext2Readdir fe h m = run at hout
  cases hout with
  | null m' fe' reading => exact ⟨m', fe', rfl, reading⟩

theorem ext2Readdir_entry {de : Dirent} {p' : Nat} {d' : Fin 256 → UInt8}
    (he : (fileBytes m fe).entry p m.dName = .ok (some (de, p', d'))) :
    ∃ m' fe', ext2Readdir fe h m = .ok ((some de, fe'), m') ∧ Reading m fe m' fe' ∧
      fe'.cursor = p' ∧ m'.dName = d' := by
  have hout := ext2Readdir_outcome hh hfe hcur
  rw [he] at hout
  generalize ext2Readdir fe h m = run at hout
  cases hout with
  | entry m' fe' de p' reading cursor => exact ⟨m', fe', rfl, reading, cursor, rfl⟩

end

end Embext
