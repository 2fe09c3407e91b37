import Embext.Proofs.Isolation

set_option autoImplicit false

/-! # Calls on several files

Reads, writes, seeks and closes on `n` handles in any order give each handle what the same calls give an
array of bytes with a cursor, and leave on the device, for every handle that is closed, the array that
its own calls have made. -/

namespace Embext

variable {h : Host} {v : UInt32 → Sector} {n i : Nat} {f : Nat → FileEnt} {m m' : Machine}
  {fe fe' : FileEnt} {d d' : FileBytes}

/-! ## What the user of a file sees -/

/-- A call on an open file. -/
inductive FileCall where
  | read (count : Nat)
  | write (data : List UInt8)
  | seek (offset : Int) (whence : Whence)
  | close

/-- The call on the handle with index `fd`. -/
def FileCall.on (fd : Nat) : FileCall → Call
  | .read count => .read fd count
  | .write data => .write fd data
  | .seek offset whence => .lseek fd offset whence
  | .close => .close fd

/-- A file as its user sees it: an array with `room` bytes of blocks, whether it is open, and what the
    handle is for. -/
structure UserFile where
  array : ArrayFile
  room : Nat
  writable : Bool
  append : Bool
  opened : Bool

/-- The call on a handle that is not NULL. -/
def FileCall.exec : FileCall → FileEnt → Drv (Reply × Option FileEnt)
  | .read count, fe => do
    let (r, bytes, fe) ← ext2Read fe count
    pure (.data r bytes, some fe)
  | .write data, fe => do
    let (r, fe) ← ext2Write fe data
    pure (.ret r, some fe)
  | .seek offset whence, fe => do
    let (r, fe) ← ext2Lseek fe offset whence
    pure (.ret r, some fe)
  | .close, fe => do
    let (r, fe) ← ext2Close fe
    pure (.ret r, if r = 0 then none else some fe)

theorem execCall_on {files : Files} {fd : Nat} (hfd : files[fd]? = some (some fe))
    (call : FileCall) : execCall (call.on fd) files h m = (do
      let (reply, ofe) ← call.exec fe
      pure (reply, files.set fd ofe)) h m := by
  cases call <;> simp only [FileCall.on, execCall, withHandle, hfd] <;> rfl

namespace UserFile

/-- The bytes that a read of `count` delivers. -/
def ahead (u : UserFile) (count : Nat) : List UInt8 :=
  (u.array.bytes.drop u.array.cursor.toNat).take count

/-- Where a write begins. -/
def start (u : UserFile) : Nat :=
  if u.append then u.array.bytes.length else u.array.cursor.toNat

theorem write_eq {u : UserFile} (h0 : 0 ≤ u.array.cursor) {data : List UInt8} (hne : data ≠ []) :
    u.array.write u.append data =
      ⟨overwrite u.array.bytes u.start data, (u.start + data.length : Nat)⟩ := by
  have hstart : (if u.append then (u.array.bytes.length : Int) else u.array.cursor) = u.start := by
    unfold start
    split
    · rfl
    · exact (Int.toNat_of_nonneg h0).symm
  simp only [ArrayFile.write, hstart, if_neg hne, Int.toNat_natCast, Nat.cast_add]

/-- A call on the array. -/
def step : FileCall → UserFile → Reply × UserFile
  | .read count, u => (.data (u.ahead count).length (u.ahead count),
    { u with array := { u.array with cursor := u.array.cursor + (u.ahead count).length } })
  | .write data, u => (.ret data.length, { u with array := u.array.write u.append data })
  | .seek offset whence, u =>
    match u.array.base whence with
    | none => (.ret (-1), u)
    | some base => (if int64Max < base + offset ∨ base + offset < 0 then .ret (-1)
        else .ret (toInt32 (base + offset)), { u with array := u.array.seek offset whence })
  | .close, u => (.ret 0, { u with opened := false })

/-- The call is on an open file. What a read delivers and what a write puts lies in one sector, a write
    leaves no gap and stays in the room of the file, and a seek from the end does not pass 4 GiB. -/
def Fits : FileCall → UserFile → Prop
  | .read count, u => u.opened = true ∧ u.array.cursor.toNat % 512 + (u.ahead count).length ≤ 512
  | .write data, u => u.opened = true ∧ u.writable = true ∧ data ≠ [] ∧
    u.start ≤ u.array.bytes.length ∧ u.start % 512 + data.length ≤ 512 ∧
    u.start + data.length ≤ u.room
  | .seek offset whence, u => u.opened = true ∧ offset ≤ int64Max ∧ (whence = .end →
    u.array.bytes.length + offset < 2 ^ 32 ∨ int64Max < u.array.bytes.length + offset)
  | .close, u => u.opened = true

end UserFile

/-! ## Arrays and bytes of a file -/

namespace FileBytes

variable {p k : Nat} {data : List UInt8}

/-- The bytes as an array. -/
def toList (d : FileBytes) : List UInt8 := d.slice 0 d.size

@[simp]
theorem length_toList (d : FileBytes) : d.toList.length = d.size := d.length_slice 0 d.size

@[simp]
theorem getElem_toList {q : Nat} (hq : q < d.toList.length) : d.toList[q] = d.byte q := by
  simp [toList, slice]

theorem take_drop_toList (d : FileBytes) (p count : Nat) :
    (d.toList.drop p).take count = d.slice p (min count (d.size - p)) := by
  apply List.ext_getElem
  · simp
  · intro k hk hk'
    simp [slice]

/-- A write into the bytes is one into the array. -/
theorem toList_write (hp : p ≤ d.size) : (d.write p data).toList = overwrite d.toList p data := by
  apply List.ext_getElem
  · simp [overwrite, write]
  · intro k hk hk'
    have hlt : k < max d.size (p + data.length) := by simpa [write] using hk
    rw [getElem_toList]
    simp only [overwrite, List.getElem_map, List.getElem_range]
    by_cases hin : p ≤ k ∧ k < p + data.length
    · rw [if_pos hin]
      exact if_pos hin
    · have hsize : k < d.toList.length := by
        rw [length_toList]
        omega
      rw [if_neg hin, byte_write_outside (by omega), List.getD_eq_getElem?_getD,
        List.getElem?_eq_getElem hsize, Option.getD_some, getElem_toList]

end FileBytes

/-! ## One call -/

/-- The handle `fe` on a file with the bytes `d` is what its user sees: every byte up to the room of the
    file has a block. -/
structure Shows (v : UInt32 → Sector) (c : Ext2Context) (fe₀ : FileEnt) (u : UserFile) (d : FileBytes)
    (fe : FileEnt) : Prop where
  opened : u.opened = true
  bytes : u.array.bytes = d.toList
  cursor : u.array.cursor = fe.cursor
  nonneg : 0 ≤ fe.cursor
  append : u.append = fe₀.flags.append
  write : u.writable = true → fe₀.flags.write = true
  inside : d.size ≤ u.room
  bounded : u.room < 2 ^ 32
  mapped : ∀ q < u.room, Mapped v c fe₀.inode q

/-- A read in one sector delivers nothing, or marks the handle and leaves its buffer clean. -/
theorem ext2Read_marks (hh : h.Reliable) (hread : Readable m fe) (h0 : 0 ≤ fe.cursor) {count : Nat}
    (hfit : fe.cursor.toNat % 512 + readLength fe count ≤ 512) {r : Int} {l : List UInt8}
    (hrun : ext2Read fe count h m = .ok ((r, l, fe'), m')) :
    (m' = m ∧ fe' = fe) ∨ (fe'.buffer.dirty = false ∧ fe'.flags.fsDirty = true) := by
  rcases Nat.eq_zero_or_pos (readLength fe count) with hz | hpos
  · rw [ext2Read_zero hread.magic hz] at hrun
    cases hrun
    exact .inl ⟨rfl, rfl⟩
  · have hlt : fe.cursor.toNat < fe.inode.iSize.toNat := by
      unfold readLength at hpos
      omega
    obtain ⟨-, hb⟩ := cursorBlock_ne_zero hread (Int.toNat_of_nonneg h0).symm hlt
    obtain ⟨m₁, fe₁, hrun₁, -, -, hclean, -⟩ := ext2Read_inside hh hread.sane hread.magic h0 hpos hb hfit
    rw [hrun₁] at hrun
    cases hrun
    exact .inr ⟨hclean, rfl⟩

/-- A write in one sector leaves it in the buffer. -/
theorem Editing.writeFrom_sector {m₀ : Machine} {fe₀ : FileEnt} {p : Nat} {data : List UInt8}
    (ha : FileApart (view m₀ fe₀) m₀.ctx fe₀.inodeNumber fe₀.inode) (he : Editing m₀ fe₀ d m fe)
    (hs : m.ctx.SaneBlockSize) (hh : h.Reliable) (hcur : fe.cursor = p)
    (hmap : Mapped (view m₀ fe₀) m₀.ctx fe₀.inode p) (hne : data ≠ []) {r : Int}
    (hrun : ext2WriteFrom fe data h m = .ok ((r, fe'), m')) :
    fe'.buffer.lbaBlock + m.ctx.partStart = byteSector (view m₀ fe₀) m₀.ctx fe₀.inode p := by
  obtain ⟨hb, hsector⟩ := he.sector_eq ha hcur hmap
  obtain ⟨m₁, fe₁, -, -, hlba, -, hrun₁⟩ := ext2WriteFrom_mapped hh hs hb hne
  rw [hrun₁] at hrun
  split at hrun
  · cases hrun
    rw [← hsector, ← hlba]
    rfl
  · cases hrun

section

variable {u : UserFile} (hsep : Separate v m.ctx n f) (hi : i < n)
  (hclean : (f i).buffer.dirty = false) (hheld : Held v n f i d m fe)
  (hshows : Shows v m.ctx (f i) u d fe) (hh : h.Reliable) (hs : m.ctx.SaneBlockSize)
include hsep hi hclean hheld hshows

include hs in
theorem Held.readable : Readable m fe := by
  obtain ⟨b, hb⟩ := hheld.begun
  have he := hb.editing
  refine ⟨hs, he.magic, fun p hp => ?_⟩
  rw [he.size] at hp
  have hmapped := hshows.mapped p (by have := hshows.inside; omega)
  rw [← hb.mapped_eq hsep hi hclean] at hmapped
  rw [he.fileBlock_eq (hb.apart hsep hi hclean), he.ctx]
  exact hmapped.2

theorem Held.fetch_eq (p count : Nat) : (fileBytes m fe).fetch p count = d.fetch p count := by
  obtain ⟨b, hb⟩ := hheld.begun
  have he := hb.editing
  have hsize : (fileBytes m fe).size = d.size := he.size
  unfold FileBytes.fetch
  rw [hsize]
  refine ite_congr rfl (fun _ => congrArg Except.ok (FileBytes.slice_congr fun q hp hq => ?_)) fun _ => rfl
  have hmapped := hshows.mapped q (by have := hshows.inside; omega)
  rw [← hb.mapped_eq hsep hi hclean] at hmapped
  show fileByte (view m fe) m.ctx fe.inode q = d.byte q
  rw [← he.bytes q hmapped, he.ctx, he.inode]
  rfl

include hh hs

/-- A read delivers the bytes at the cursor. -/
theorem Held.read {count : Nat} (hfit : u.Fits (.read count)) : ∃ m' fe',
    ext2Read fe count h m = .ok (((u.ahead count).length, u.ahead count, fe'), m') ∧
      Held v n f i d m' fe' ∧ Moved v f i m m' ∧ fe'.cursor = fe.cursor + (u.ahead count).length := by
  obtain ⟨b, hb⟩ := hheld.begun
  have hread := hheld.readable hsep hi hclean hshows hs
  have hnonneg := hshows.nonneg
  obtain ⟨p, hp⟩ := Int.eq_ofNat_of_zero_le hnonneg
  have hahead : u.ahead count = d.slice p (min count (d.size - p)) := by
    rw [UserFile.ahead, hshows.bytes, hshows.cursor, hp, FileBytes.take_drop_toList]
    rfl
  have hinside : p % 512 + min count (d.size - p) ≤ 512 := by
    have hfits := hfit.2
    rw [hshows.cursor, hp, hahead, FileBytes.length_slice] at hfits
    exact hfits
  have hfetch : (fileBytes m fe).fetch p count = .ok (u.ahead count) := by
    rw [hheld.fetch_eq hsep hi hclean hshows, FileBytes.fetch, if_pos hinside, hahead]
  obtain ⟨m', fe', hrun, hreading, hend, -⟩ := ext2Read_fetch hh hread hp hfetch
  have he' := hb.editing.read hreading
  have hlength : fe.cursor.toNat % 512 + readLength fe count ≤ 512 := by
    have hsize : (fileBytes m fe).size = d.size := hb.editing.size
    rw [readLength_at (m := m) hp, hsize, hp]
    exact hinside
  have hkept : Held v n f i d m' fe' ∧ Moved v f i m m' := by
    rcases ext2Read_marks hh hread hnonneg hlength hrun with ⟨rfl, rfl⟩ | ⟨hbuf, hdirty⟩
    · exact hheld.step hsep hi hclean hb he' hheld.buffer hheld.stored
    · refine hheld.step hsep hi hclean hb he' (fun hd => ?_) fun hd => ?_
      · rw [hbuf] at hd
        cases hd
      · rw [hdirty] at hd
        cases hd
  exact ⟨m', fe', hrun, hkept.1, hkept.2, by rw [hend, hp]⟩

/-- A write puts its bytes where the array has them. -/
theorem Held.write {data : List UInt8} (hfit : u.Fits (.write data)) : ∃ m' fe',
    ext2Write fe data h m = .ok ((data.length, fe'), m') ∧
      Held v n f i (d.write u.start data) m' fe' ∧ Moved v f i m m' ∧
      fe'.cursor = (u.start + data.length : Nat) := by
  obtain ⟨-, hwritable, hne, hgap, hsector, hroom⟩ := hfit
  obtain ⟨b, hb⟩ := hheld.begun
  have he := hb.editing
  have ha := hb.apart hsep hi hclean
  have hsize : d.size = fe.inode.iSize.toNat := he.size.symm
  have hbounded := hshows.bounded
  have hpos := List.length_pos_of_ne_nil hne
  rw [hshows.bytes, FileBytes.length_toList] at hgap
  have happend : fe.flags.append = u.append := by
    rw [he.mode, hshows.append]
  have hstart : fe.writeStart.cursor = u.start := by
    unfold FileEnt.writeStart UserFile.start
    rw [happend, hshows.bytes, FileBytes.length_toList, hsize, hshows.cursor]
    split
    · rfl
    · exact (Int.toNat_of_nonneg hshows.nonneg).symm
  have haccepts : fe.Accepts := by
    refine ⟨he.magic, ?_, fun happ => ?_⟩
    · rw [he.mode]
      exact hshows.write hwritable
    · have hend : u.start = d.size := by
        rw [UserFile.start, ← happend, if_pos happ, hshows.bytes, FileBytes.length_toList]
      unfold toInt32
      omega
  have he₀ : Editing b (f i) d m fe.writeStart := by
    rw [writeStart_eq]
    exact he.seek _
  have hmap := hshows.mapped u.start (by omega)
  have hmap₀ := hmap
  rw [← hb.mapped_eq hsep hi hclean] at hmap₀
  obtain ⟨m', fe', hrun, he', hend, hdirty⟩ :=
    he₀.writeFrom ha (by rw [hb.ctx]; exact hs) hstart hmap₀ hh hne (by omega) hsector
  have hlba := he₀.writeFrom_sector ha hs hh hstart hmap₀ hne hrun
  have hkept := hheld.step hsep hi hclean hb he'
    (fun _ => ⟨u.start, hmap, by rw [hlba, hb.byteSector_eq hsep hi hclean]⟩) fun hd => by
      rw [hdirty] at hd
      cases hd
  exact ⟨m', fe', haccepts.ext2Write_eq.trans hrun, hkept.1, hkept.2, hend⟩

omit hsep hi hclean hh hs in
/-- A seek moves the cursor as it does on the array. -/
theorem Held.seek {offset : Int} {whence : Whence} (hfit : u.Fits (.seek offset whence)) :
    ∃ e r c, ext2Lseek fe offset whence h m =
        .ok ((r, { fe with cursor := c }), { m with rerrno := e }) ∧ 0 ≤ c ∧
      u.step (.seek offset whence) = (.ret r, { u with array := { u.array with cursor := c } }) := by
  obtain ⟨-, hoffset, hend⟩ := hfit
  obtain ⟨b, hb⟩ := hheld.begun
  have he := hb.editing
  have hsize : u.array.bytes.length = fe.inode.iSize.toNat := by
    rw [hshows.bytes, FileBytes.length_toList]
    exact he.size.symm
  have hbase : u.array.base whence = whence.base fe := by
    cases whence with
    | «end» => exact congrArg (fun k : Nat => some (k : Int)) hsize
    | cur => exact congrArg some hshows.cursor
    | set => rfl
    | other => rfl
  have hstay : { u with array := { u.array with cursor := fe.cursor } } = u := by
    rw [← hshows.cursor]
  cases hwhence : whence.base fe with
  | none =>
    refine ⟨.einval, -1, fe.cursor, ?_, hshows.nonneg, ?_⟩
    · rw [ext2Lseek_other he.magic hwhence]
      rfl
    · simp only [UserFile.step, hbase, hwhence, hstay]
  | some base =>
    have heq := ext2Lseek_eq he.magic hwhence hoffset
    by_cases hfar : int64Max < base + offset
    · refine ⟨.eoverflow, -1, fe.cursor, ?_, hshows.nonneg, ?_⟩
      · rw [heq, if_pos hfar]
        rfl
      · simp only [UserFile.step, ArrayFile.seek, hbase, hwhence, hfar, true_or, if_true, hstay]
    · by_cases hneg : base + offset < 0
      · refine ⟨.einval, -1, fe.cursor, ?_, hshows.nonneg, ?_⟩
        · rw [heq, if_neg hfar, if_pos hneg]
          rfl
        · simp only [UserFile.step, ArrayFile.seek, hbase, hwhence, hneg, or_true, if_true, hstay]
      · have hland : whence.landing (base + offset) = base + offset := by
          cases whence with
          | «end» =>
            cases hwhence
            rw [hsize] at hend
            exact Whence.landing_of_lt (Int.not_lt.1 hneg) ((hend rfl).resolve_right hfar)
          | set => rfl
          | cur => rfl
          | other => rfl
        refine ⟨m.rerrno, toInt32 (base + offset), base + offset, ?_, Int.not_lt.1 hneg, ?_⟩
        · rw [heq, if_neg hfar, if_neg hneg, hland]
          rfl
        · simp only [UserFile.step, ArrayFile.seek, hbase, hwhence, hfar, hneg, or_self, if_false]

end

/-! ## What its user sees after a call -/

/-- File `i` as its user sees it: open behind a handle, or closed and on the device. -/
inductive Seen (v : UInt32 → Sector) (n : Nat) (f : Nat → FileEnt) (i : Nat) (u : UserFile)
    (m : Machine) : Option FileEnt → Prop
  | opened {fe : FileEnt} {d : FileBytes} (held : Held v n f i d m fe)
      (shown : Shows v m.ctx (f i) u d fe) : Seen v n f i u m (some fe)
  | closed {d : FileBytes} (away : PutAway v f i d m) (shut : u.opened = false)
      (bytes : u.array.bytes = d.toList) (inside : d.size ≤ u.room)
      (mapped : ∀ q < u.room, Mapped v m.ctx (f i).inode q) : Seen v n f i u m none

variable {u : UserFile} {call : FileCall} {ofe : Option FileEnt}

theorem Shows.sysbuf {c : Ext2Context} {fe₀ : FileEnt} (hshows : Shows v c fe₀ u d fe) (s : Sector) :
    Shows v { c with sysbuf := s } fe₀ u d fe := by
  refine { hshows with mapped := ?_ }
  rw [mapped_sysbuf]
  exact hshows.mapped

theorem Seen.foreign (hsep : Separate v m.ctx n f) (hi : i < n) (hclean : (f i).buffer.dirty = false)
    (hbg : Background v m.ctx n f m.disk) (hf : Foreign v n f i m m')
    (hseen : Seen v n f i u m ofe) : Seen v n f i u m' ofe := by
  obtain ⟨s, hctx⟩ := hf.ctx
  cases hseen with
  | opened held shown =>
    refine .opened (held.foreign hsep hi hclean hbg hf) ?_
    rw [hctx]
    exact shown.sysbuf s
  | closed away shut bytes inside mapped =>
    refine .closed (away.foreign hsep hi hbg hf) shut bytes inside ?_
    rw [hctx, mapped_sysbuf]
    exact mapped

/-- A call gives what it gives on the array. -/
theorem Seen.exec (hsep : Separate v m.ctx n f) (hi : i < n) (hclean : (f i).buffer.dirty = false)
    (hbg : Background v m.ctx n f m.disk) (hh : h.Reliable) (hs : m.ctx.SaneBlockSize)
    (hseen : Seen v n f i u m (some fe)) (hfit : u.Fits call) : ∃ ofe m',
    call.exec fe h m = .ok (((u.step call).1, ofe), m') ∧ Seen v n f i (u.step call).2 m' ofe ∧
      Spares v n f i m m' := by
  cases hseen with
  | @opened _ d held shown =>
    cases call with
    | read count =>
      obtain ⟨m', fe', hrun, hheld, hmoved, hend⟩ := held.read hsep hi hclean shown hh hs hfit
      have hshown : Shows v m'.ctx (f i) (u.step (.read count)).2 d fe' := by
        refine { shown with cursor := ?_, nonneg := ?_, mapped := ?_ }
        · rw [hend, ← shown.cursor]
          rfl
        · have := shown.nonneg
          omega
        · rw [hmoved.ctx]
          exact shown.mapped
      refine ⟨some fe', m', ?_, .opened hheld hshown, hmoved.spares hsep hi hbg⟩
      rw [FileCall.exec, Prog.bind_ok hrun]
      rfl
    | write data =>
      obtain ⟨m', fe', hrun, hheld, hmoved, hend⟩ := held.write hsep hi hclean shown hh hs hfit
      obtain ⟨-, -, hne, hgap, -, hroom⟩ := hfit
      have hnonneg : 0 ≤ u.array.cursor := by
        rw [shown.cursor]
        exact shown.nonneg
      have hstep : u.step (.write data) = (.ret data.length, { u with
          array := ⟨overwrite u.array.bytes u.start data, (u.start + data.length : Nat)⟩ }) := by
        rw [UserFile.step, UserFile.write_eq hnonneg hne]
      have hshown : Shows v m'.ctx (f i) (u.step (.write data)).2 (d.write u.start data) fe' := by
        rw [hstep]
        refine { shown with bytes := ?_, cursor := ?_, nonneg := ?_, inside := ?_, mapped := ?_ }
        · rw [shown.bytes, FileBytes.length_toList] at hgap
          rw [FileBytes.toList_write hgap, shown.bytes]
        · exact hend.symm
        · rw [hend]
          exact Int.natCast_nonneg _
        · exact Nat.max_le.2 ⟨shown.inside, hroom⟩
        · rw [hmoved.ctx]
          exact shown.mapped
      refine ⟨some fe', m', ?_, .opened hheld hshown, hmoved.spares hsep hi hbg⟩
      rw [FileCall.exec, Prog.bind_ok hrun, hstep]
      rfl
    | seek offset whence =>
      obtain ⟨e, r, c, hrun, hnonneg, hstep⟩ := held.seek (h := h) shown hfit
      have hmoved : Moved v f i m { m with rerrno := e } := ⟨rfl, fun _ _ => rfl⟩
      rw [hstep]
      refine ⟨_, _, ?_, .opened (held.moved c e) { shown with cursor := rfl, nonneg := hnonneg },
        hmoved.spares hsep hi hbg⟩
      rw [FileCall.exec, Prog.bind_ok hrun]
      rfl
    | close =>
      obtain ⟨m', fe', hrun, haway, hspares⟩ := held.close hsep hi hclean hbg hh
      obtain ⟨s, hctx⟩ := hspares.ctx
      refine ⟨none, m', ?_, .closed haway rfl shown.bytes shown.inside ?_, hspares⟩
      · rw [FileCall.exec, Prog.bind_ok hrun]
        rfl
      · rw [hctx, mapped_sysbuf]
        exact shown.mapped

/-! ## Runs of calls -/

/-- A table of handles, one for each of `n` files that lie apart, and what their users see. -/
structure Desk (v : UInt32 → Sector) (n : Nat) (f : Nat → FileEnt) (us : Nat → UserFile)
    (files : Files) (m : Machine) : Prop where
  separate : Separate v m.ctx n f
  background : Background v m.ctx n f m.disk
  sane : m.ctx.SaneBlockSize
  clean : ∀ i < n, (f i).buffer.dirty = false
  seen : ∀ i < n, ∃ ofe, files[i]? = some ofe ∧ Seen v n f i (us i) m ofe

variable {us : Nat → UserFile} {files : Files}

theorem UserFile.Fits.opened (hfit : u.Fits call) : u.opened = true := by
  cases call with
  | read count => exact hfit.1
  | write data => exact hfit.1
  | seek offset whence => exact hfit.1
  | close => exact hfit

/-- One call on one of them. -/
theorem Desk.exec (hdesk : Desk v n f us files m) (hh : h.Reliable) (hi : i < n)
    (hfit : (us i).Fits call) : ∃ files' m',
    execCall (call.on i) files h m = .ok ((((us i).step call).1, files'), m') ∧
      Desk v n f (Function.update us i ((us i).step call).2) files' m' := by
  obtain ⟨hsep, hbg, hs, hclean, hseen⟩ := hdesk
  obtain ⟨ofe, hfile, hfe⟩ := hseen i hi
  cases hfe with
  | closed away shut =>
    rw [hfit.opened] at shut
    cases shut
  | @opened fe d held shown =>
    obtain ⟨ofe', m', hrun, hseen', hspares⟩ := (Seen.opened held shown).exec hsep hi (hclean i hi) hbg
      hh hs hfit
    obtain ⟨s, hctx⟩ := hspares.ctx
    refine ⟨files.set i ofe', m', ?_, ?_, ?_, ?_, hclean, fun j hj => ?_⟩
    · rw [execCall_on hfile, Prog.bind_ok hrun]
      rfl
    · rw [hctx]
      exact hsep.sysbuf s
    · rw [hctx, background_sysbuf]
      exact hspares.background
    · rw [hctx]
      exact hs
    · by_cases hj' : i = j
      · subst hj'
        rw [Function.update_self]
        exact ⟨ofe', List.getElem?_set_self (List.getElem?_eq_some_iff.1 hfile).1, hseen'⟩
      · obtain ⟨ofe'', hfile'', hfe''⟩ := hseen j hj
        rw [Function.update_of_ne (Ne.symm hj'), List.getElem?_set_ne hj']
        exact ⟨ofe'', hfile'', hfe''.foreign hsep hj (hclean j hj) hbg (hspares.others j hj hj')⟩

/-- Calls in any order. -/
theorem Desk.run (hh : h.Reliable) (calls : List (Nat × FileCall)) : ∀ {us files m},
    Desk v n f us files m → (∀ call ∈ calls, call.1 < n) →
    Interleave.Fits UserFile.step UserFile.Fits calls us → ∃ files' m',
      runCalls (calls.map fun call => call.2.on call.1) files h m =
        .ok (((Interleave.run UserFile.step calls us).1, files'), m') ∧
      Desk v n f (Interleave.run UserFile.step calls us).2 files' m' := by
  induction calls with
  | nil => exact fun hdesk _ _ => ⟨_, _, rfl, hdesk⟩
  | cons call rest ih =>
    obtain ⟨i, call⟩ := call
    intro us files m hdesk hlt hfits
    obtain ⟨hfit, hrest⟩ := hfits.cons
    have hi : i < n := hlt (i, call) (List.mem_cons_self ..)
    obtain ⟨files₁, m₁, hrun, hdesk₁⟩ := hdesk.exec hh hi hfit
    obtain ⟨files₂, m₂, hrun₂, hdesk₂⟩ := ih hdesk₁
      (fun call hcall => hlt call (List.mem_cons_of_mem _ hcall)) hrest
    refine ⟨files₂, m₂, ?_, hdesk₂⟩
    rw [List.map_cons, runCalls, Prog.bind_ok hrun]
    dsimp only
    rw [Prog.bind_ok hrun₂]
    rfl

/-! ## Files that have just been opened -/

/-- What the user of a handle sees that has `room` bytes of blocks. -/
def userFile (m : Machine) (fe : FileEnt) (room : Nat) : UserFile :=
  ⟨arrayOf m fe, room, fe.flags.write, fe.flags.append, true⟩

/-- Handles on `n` files that lie apart, as `ext2_open` returns them: file `i` has blocks for its first
    `room i` bytes. -/
structure OpenFiles (m : Machine) (n : Nat) (f : Nat → FileEnt) (room : Nat → Nat) : Prop where
  sane : m.ctx.SaneBlockSize
  separate : Separate m.disk m.ctx n f
  magic : ∀ i < n, (f i).magic = embextMagic
  clean : ∀ i < n, (f i).buffer.dirty = false
  cursor : ∀ i < n, 0 ≤ (f i).cursor
  inode : ∀ i < n, inodeAt m.disk m.ctx (f i).inodeNumber = (f i).inode
  inside : ∀ i < n, (f i).inode.iSize.toNat ≤ room i
  bounded : ∀ i < n, room i < 2 ^ 32
  mapped : ∀ i < n, ∀ q < room i, Mapped m.disk m.ctx (f i).inode q

theorem contents_eq_toList {c : Ext2Context} {inode : Inode} {d : FileBytes}
    (hsize : inode.iSize.toNat = d.size) (hblock : ∀ q < d.size, Mapped v c inode q)
    (hbytes : ∀ q < d.size, fileByte v c inode q = d.byte q) : contents v c inode = d.toList := by
  apply List.ext_getElem
  · simp [hsize]
  · intro k hk hk'
    have hlt : k < d.size := by simpa using hk'
    simp only [contents, List.getElem_map, List.getElem_range, FileBytes.getElem_toList]
    rw [← hbytes k hlt]
    exact if_neg (hblock k hlt).2

variable {room : Nat → Nat}

theorem OpenFiles.desk (ho : OpenFiles m n f room) : Desk m.disk n f
    (fun i => userFile m (f i) (room i)) ((List.range n).map fun i => some (f i)) m := by
  refine ⟨ho.separate, fun _ _ _ => rfl, ho.sane, ho.clean, fun i hi => ?_⟩
  refine ⟨some (f i), by simp [hi], ?_⟩
  have hview : view m (f i) = m.disk := view_of_clean (ho.clean i hi)
  have hinside := ho.inside i hi
  refine .opened (d := fileBytes m (f i)) ⟨⟨m, rfl, fun _ _ _ => rfl, fun _ _ => rfl, .refl (ho.magic i hi)⟩,
    fun hdirty => ?_, fun _ => ⟨ho.clean i hi, ho.inode i hi⟩⟩ ?_
  · rw [ho.clean i hi] at hdirty
    cases hdirty
  · refine ⟨rfl, ?_, rfl, ho.cursor i hi, rfl, fun hwrite => hwrite, hinside, ho.bounded i hi, ho.mapped i hi⟩
    have hmapped : ∀ q < (f i).inode.iSize.toNat, Mapped (view m (f i)) m.ctx (f i).inode q :=
      fun q hq => by
        rw [hview]
        exact ho.mapped i hi q (by omega)
    exact contents_eq_toList (d := fileBytes m (f i)) rfl hmapped fun q _ => rfl

/-! ## What is left on the device -/

/-- A file that is closed has the bytes its user has seen last. -/
theorem Seen.contents_eq (hseen : Seen v n f i u m ofe) (hsep : Separate v m.ctx n f) (hi : i < n)
    (hbg : Background v m.ctx n f m.disk) (hshut : u.opened = false) :
    contents m.disk m.ctx (inodeAt m.disk m.ctx (f i).inodeNumber) = u.array.bytes := by
  cases hseen with
  | opened held shown =>
    rw [shown.opened] at hshut
    cases hshut
  | @closed d away shut bytes inside mapped =>
    have hblock := fileBlock_iBlock (v := m.disk) (c := m.ctx) away.map
    rw [bytes]
    refine contents_eq_toList away.size (fun q hq => ?_) fun q hq => ?_
    · have hq' := mapped q (by omega)
      rw [← hsep.mapped_eq hbg hi] at hq'
      exact ⟨hq'.1, by rw [hblock]; exact hq'.2⟩
    · rw [← away.bytes q (mapped q (by omega))]
      unfold fileByte
      rw [hblock]

theorem project_eq_nil {calls : List (Nat × FileCall)} (hlt : ∀ call ∈ calls, call.1 < n)
    (hi : ¬ i < n) : Interleave.project i calls = [] := by
  induction calls with
  | nil => rfl
  | cons call rest ih =>
    obtain ⟨j, call⟩ := call
    have hj : j < n := hlt (j, call) (List.mem_cons_self ..)
    rw [Interleave.project, if_neg (by omega)]
    exact ih fun call hcall => hlt call (List.mem_cons_of_mem _ hcall)

/-- **Isolation.** Calls on files that lie apart, in any order and each fit for its own file, all return.
    Each handle gets the replies that its own calls get on an array of bytes, and a file that is closed
    is on the device as its own calls have left the array. -/
theorem runCalls_isolated (hh : h.Reliable) (ho : OpenFiles m n f room)
    (calls : List (Nat × FileCall)) (hlt : ∀ call ∈ calls, call.1 < n)
    (hfits : ∀ i < n, Interleave.FitsOne UserFile.step UserFile.Fits (Interleave.project i calls)
      (userFile m (f i) (room i))) : ∃ replies files' m',
    runCalls (calls.map fun call => call.2.on call.1) ((List.range n).map fun i => some (f i)) h m
      = .ok ((replies, files'), m') ∧
    ∀ i < n, ∃ u, Interleave.runOne UserFile.step (Interleave.project i calls)
        (userFile m (f i) (room i)) = (Interleave.repliesTo i calls replies, u) ∧
      (u.opened = false →
        contents m'.disk m'.ctx (inodeAt m'.disk m'.ctx (f i).inodeNumber) = u.array.bytes) := by
  have hall : Interleave.Fits UserFile.step UserFile.Fits calls
      fun i => userFile m (f i) (room i) := by
    intro i
    by_cases hi : i < n
    · exact hfits i hi
    · rw [project_eq_nil hlt hi]
      trivial
  obtain ⟨files', m', hrun, hdesk⟩ := ho.desk.run hh calls hlt hall
  refine ⟨_, files', m', hrun, fun i hi => ?_⟩
  have hown := Interleave.run_project UserFile.step calls i fun i => userFile m (f i) (room i)
  obtain ⟨ofe, -, hseen⟩ := hdesk.seen i hi
  exact ⟨_, hown.symm, hseen.contents_eq hdesk.separate hi hdesk.background⟩

namespace SmallVolume

set_option maxRecDepth 4000

/-- `e` with 600 bytes in block 9. -/
def eLong : Inode := { eInode with iSize := 600, iBlock := fun k => if k = 0 then 9 else 0 }

/-- The volume with two files that are not empty. -/
def twoFiles : Machine := { machine with
  disk := Function.update machine.disk 12
    (sectorOf [(256, Inode.packed.bytes fInode), (384, Inode.packed.bytes eLong)]) }

/-- Handles on both, for reading and writing. -/
def bothOpen (i : Nat) : FileEnt :=
  let ino := if i = 0 then 11 else 12
  { FileEnt.fresh with
    inode := inodeAt twoFiles.disk twoFiles.ctx ino
    inodeNumber := ino
    flags := ⟨true, true, false, false⟩ }

theorem forall_lt_two {P : Nat → Prop} (h0 : P 0) (h1 : P 1) : ∀ i < 2, P i := by
  intro i hi
  rcases Nat.le_one_iff_eq_zero_or_eq_one.1 (Nat.le_of_lt_succ hi) with rfl | rfl
  · exact h0
  · exact h1

theorem bothOpen_blocks : ∀ i < 2, (bothOpen i).inode.iBlock =
    fun k => if k = 0 then UInt32.ofNat (8 + i) else 0 := by
  apply forall_lt_two
  · funext k
    revert k
    decide
  · funext k
    revert k
    decide

/-- Their sectors. -/
theorem owns_both {v : UInt32 → Sector} {i : Nat} {s : UInt32} (hi : i < 2)
    (hs : Owns v machine.ctx bothOpen i s) : s.toNat = 16 + 2 * i ∨ s.toNat = 17 + 2 * i := by
  obtain ⟨p, hp, rfl⟩ := hs
  obtain ⟨hlt, -, hsec⟩ := byteSector_single (bothOpen_blocks i hi) hp
  have hp2 : p / 512 < 2 := by omega
  have hblock : (UInt32.ofNat (8 + i)).toNat = 8 + i :=
    UInt32.toNat_ofNat_of_lt' (by show _ < 2 ^ 32; omega)
  rw [hsec, hblock, UInt32.toNat_ofNat_of_lt' (by show _ < 2 ^ 32; omega)]
  omega

theorem bothOpen_separate : Separate twoFiles.disk machine.ctx 2 bothOpen := by
  have hgroups : machine.ctx.numBlockgroups.toNat = 1 := by decide
  have hdesc : ∀ g < 1, descriptorSector machine.ctx g = 4 := by decide
  have hslot : ∀ i < 2, slotSector twoFiles.disk machine.ctx (bothOpen i).inodeNumber = 12 :=
    forall_lt_two (by decide) (by decide)
  have htable : ∀ g < 1, (descriptorAt twoFiles.disk machine.ctx g).bgInodeTable.toNat = 5 := by
    decide
  constructor
  · have hsize : machine.ctx.blockSize = 1024 := by decide
    have hstart : machine.ctx.partStart.toNat = 0 := by decide
    have hblock : machine.ctx.superblockBlock.toNat = 1 := by decide
    have hdescs : descriptorBlocks machine.ctx = 1 := by decide
    have htables : inodeTableBlocks machine.ctx = 2 := by decide
    refine ⟨machine_ctx_sane.slotted, ?_, ?_, ?_, ?_⟩ <;>
      simp only [hsize, hstart, hblock, hdescs, htables, hgroups] at *
    · intro j hj
      omega
    · intro g hg j hj
      rw [htable g hg]
      omega
    · intro g hg g' hg' j hj j' hj' heq
      omega
    · intro g hg j hj k hk
      rw [htable g hg]
      omega
  · exact forall_lt_two ⟨⟨by decide, by decide⟩, by decide⟩ ⟨⟨by decide, by decide⟩, by decide⟩
  · decide
  · intro i hi p q hp hq heq
    obtain ⟨hp, -, hsec⟩ := byteSector_single (bothOpen_blocks i hi) hp
    obtain ⟨hq, -, hsec'⟩ := byteSector_single (bothOpen_blocks i hi) hq
    have hblock : (UInt32.ofNat (8 + i)).toNat = 8 + i :=
      UInt32.toNat_ofNat_of_lt' (by show _ < 2 ^ 32; omega)
    have hnat := congrArg UInt32.toNat (hsec.symm.trans (heq.trans hsec'))
    rw [hblock, UInt32.toNat_ofNat_of_lt' (by show _ < 2 ^ 32; omega),
      UInt32.toNat_ofNat_of_lt' (by show _ < 2 ^ 32; omega)] at hnat
    omega
  · intro i hi j hj s hs hs'
    have := owns_both hi hs
    have := owns_both hj hs'
    omega
  · rintro i hi j hj s hs rfl
    have hs := owns_both hi hs
    have h12 : (12 : UInt32).toNat = 12 := rfl
    rw [hslot j hj, h12] at hs
    omega
  · rintro i hi s hs g hg rfl
    have hs := owns_both hi hs
    have h4 : (4 : UInt32).toNat = 4 := rfl
    rw [hdesc g hg, h4] at hs
    omega
  · intro w _ i hi k
    rw [fileBlock_single (bothOpen_blocks i hi), fileBlock_single (bothOpen_blocks i hi)]

theorem bothOpen_openFiles : OpenFiles twoFiles 2 bothOpen fun _ => 1024 := by
  refine ⟨machine_sane, bothOpen_separate, fun _ _ => rfl, fun _ _ => rfl, fun _ _ => Int.le_refl 0,
    fun _ _ => rfl, forall_lt_two (by decide) (by decide), fun _ _ => by decide, fun i hi q hq => ?_⟩
  have hbs : twoFiles.ctx.blockSize = 1024 := by decide
  refine ⟨by omega, ?_⟩
  rw [hbs, Nat.div_eq_of_lt hq]
  refine (fileBlock_single (bothOpen_blocks i hi) _ 0).trans_ne ?_
  rw [if_pos rfl]
  revert i
  exact forall_lt_two (by decide) (by decide)

/-- Both files are read and written in turn, and closed. -/
def turns : List (Nat × FileCall) :=
  [(0, .read 4), (1, .write [1, 2, 3]), (0, .seek (-2) .end), (1, .read 5), (0, .write [7]),
    (1, .close), (0, .read 2), (0, .close)]

theorem runCalls_isolated_turns : ∃ replies files' m',
    runCalls (turns.map fun call => call.2.on call.1) ((List.range 2).map fun i => some (bothOpen i))
      host twoFiles = .ok ((replies, files'), m') ∧
    ∀ i < 2, ∃ u, Interleave.runOne UserFile.step (Interleave.project i turns)
        (userFile twoFiles (bothOpen i) 1024) = (Interleave.repliesTo i turns replies, u) ∧
      (u.opened = false → contents m'.disk m'.ctx
        (inodeAt m'.disk m'.ctx (bothOpen i).inodeNumber) = u.array.bytes) := by
  refine runCalls_isolated host_reliable bothOpen_openFiles turns (by decide) (forall_lt_two ?_ ?_)
  · refine ⟨⟨rfl, ?_⟩, ⟨rfl, ?_, ?_⟩, ⟨rfl, rfl, ?_, ?_, ?_, ?_⟩, ⟨rfl, ?_⟩, rfl, trivial⟩
    all_goals decide +kernel
  · refine ⟨⟨rfl, rfl, ?_, ?_, ?_, ?_⟩, ⟨rfl, ?_⟩, rfl, trivial⟩
    all_goals decide +kernel

end SmallVolume
end Embext
