import Embext.Library.Walk
import Embext.Proofs.Enumeration
import Embext.Proofs.Seek

set_option autoImplicit false

/-! # When the directory scans end

Both scans follow the record lengths they find. A length of 0 keeps a scan where it is, and a name
that reaches past the end of the file sends `ext2_readdir` backwards; so a scan ends exactly when
the offsets it follows never come back. -/

namespace Embext

open Walk

namespace FileBytes

/-- Where `ext2_readdir` at `p` leaves the handle, when it returns an entry. -/
def follow (d : FileBytes) (p : Nat) : Option Nat :=
  let hdr := d.header p
  let read := min hdr.nameLen.toNat (d.size - (p + 8))
  if p + 8 ≤ d.size ∧ p % 512 + 4 ≤ 512 ∧ (p + 4) % 512 + 2 ≤ 512 ∧
      (0 < hdr.inode.toNat ∧ hdr.inode.toNat < 2 ^ 31) ∧ (p + 8) % 512 + read ≤ 512 then
    some (seekFrom (p + 8 + read) ((hdr.recLen.toNat : Int) - 8 - hdr.nameLen.toNat))
  else none

/-- Where the do-while of `ext2_append_to_directory` goes on from the record at offset `q` of the
    block at `base`. -/
def scanLast (d : FileBytes) (base bs q : Nat) : Option Nat :=
  if base + q + 8 ≤ d.size ∧ (base + q) % 512 + 8 ≤ 512 ∧
      q + (d.header (base + q)).recLen.toNat < bs then
    some (q + (d.header (base + q)).recLen.toNat)
  else none

variable {d : FileBytes} {p n : Nat} {old : Fin 256 → UInt8}

theorem of_fetch_error {e : Fault} (hf : d.fetch p n = .error e) : e = .outOfBounds := by
  unfold fetch at hf
  split at hf
  · cases hf
  · cases hf
    rfl

theorem of_ite_error {α : Type} {c : Prop} [Decidable c] {run : Except Fault (Option α)} {e : Fault}
    (hrun : (if c then pure none else run) = .error e) : run = .error e := by
  by_cases hc : c
  · rw [if_pos hc] at hrun
    cases hrun
  · rwa [if_neg hc] at hrun

/-- A header field that was read in full. -/
theorem of_field {α : Type} {k : List UInt8 → Except Fault (Option α)} {x : α} (hn : 0 < n)
    (hrun : (d.fetch p n >>= fun l => if l.length < n then pure none else k l) = .ok (some x)) :
    p + n ≤ d.size ∧ p % 512 + n ≤ 512 ∧ k (d.slice p n) = .ok (some x) := by
  cases hf : d.fetch p n with
  | error e =>
    rw [hf] at hrun
    cases hrun
  | ok l =>
    rw [hf] at hrun
    have hrun : (if l.length < n then pure none else k l) = Except.ok (some x) := hrun
    by_cases hl : l.length < n
    · rw [if_pos hl] at hrun
      cases hrun
    rw [if_neg hl] at hrun
    have hlen := length_of_fetch hf
    have hfull : min n (d.size - p) = n := by omega
    unfold fetch at hf
    rw [hfull] at hf
    by_cases hfit : p % 512 + n ≤ 512
    · rw [if_pos hfit] at hf
      cases hf
      exact ⟨by omega, hfit, hrun⟩
    · rw [if_neg hfit] at hf
      cases hf

/-- An entry says where the next one is. -/
theorem follow_of_entry {de : Dirent} {p' : Nat} {old' : Fin 256 → UInt8}
    (he : d.entry p old = .ok (some (de, p', old'))) : d.follow p = some p' := by
  unfold entry at he
  obtain ⟨-, hino, he⟩ := of_field (by decide) he
  obtain ⟨-, hrec, he⟩ := of_field (by decide) he
  obtain ⟨-, -, he⟩ := of_field (by decide) he
  obtain ⟨hsize, -, he⟩ := of_field (by decide) he
  simp only [inode_ofList, recLen_ofList, nameLen_ofList] at he
  by_cases hlive : 0 < (d.header p).inode.toNat ∧ (d.header p).inode.toNat < 2 ^ 31
  swap
  · rw [if_neg hlive] at he
    cases he
  rw [if_pos hlive] at he
  cases hname : d.fetch (p + 8) (d.header p).nameLen.toNat with
  | error e =>
    rw [hname] at he
    cases he
  | ok name =>
    rw [hname] at he
    have hlen := length_of_fetch hname
    unfold fetch at hname
    by_cases hfit : (p + 8) % 512 + min (d.header p).nameLen.toNat (d.size - (p + 8)) ≤ 512
    swap
    · rw [if_neg hfit] at hname
      cases hname
    cases he
    unfold follow
    rw [if_pos ⟨by omega, hino, hrec, hlive, hfit⟩, hlen]

theorem entry_of_follow {p' : Nat} (hf : d.follow p = some p') (old : Fin 256 → UInt8) :
    ∃ de old', d.entry p old = .ok (some (de, p', old')) := by
  unfold follow at hf
  dsimp only at hf
  split at hf
  next hread =>
    obtain ⟨hsize, hino, hrec, hlive, hfit⟩ := hread
    cases hf
    have hname : d.fetch (p + 8) (d.header p).nameLen.toNat
        = .ok (d.slice (p + 8) (min (d.header p).nameLen.toNat (d.size - (p + 8)))) := by
      unfold fetch
      rw [if_pos hfit]
    unfold entry
    rw [fetch_inside (by omega) (by omega), fetch_inside (by omega) (by omega),
      fetch_inside (by omega) (by omega), fetch_inside (by omega) (by omega)]
    dsimp only [bind, Except.bind]
    simp only [length_slice, Nat.lt_irrefl, if_false, inode_ofList, recLen_ofList, nameLen_ofList]
    rw [if_pos hlive, hname]
    dsimp only
    rw [length_slice]
    exact ⟨_, _, rfl⟩
  next => cases hf

theorem follow_le {p' : Nat} (hf : d.follow p = some p') : p ≤ d.size := by
  unfold follow at hf
  dsimp only at hf
  split at hf
  next hread => omega
  next => cases hf

theorem scanLast_le {base bs q q' : Nat} (hf : d.scanLast base bs q = some q') : q ≤ d.size := by
  unfold scanLast at hf
  split at hf
  next hread => omega
  next => cases hf

/-- A read passes on only the errors of what follows it. -/
theorem of_fetch_bind_error {α : Type} {k : List UInt8 → Except Fault α} {e : Fault}
    (hk : ∀ l, k l = .error e → e = .outOfBounds) (hrun : (d.fetch p n >>= k) = .error e) :
    e = .outOfBounds := by
  cases hf : d.fetch p n with
  | error e' =>
    rw [hf] at hrun
    cases hrun
    exact of_fetch_error hf
  | ok l =>
    rw [hf] at hrun
    exact hk l hrun

/-- `ext2_readdir` fails only by leaving the buffer. -/
theorem of_entry_error {e : Fault} (he : d.entry p old = .error e) : e = .outOfBounds := by
  unfold entry at he
  refine of_fetch_bind_error (fun ino hrun => ?_) he
  refine of_fetch_bind_error (fun recLen hrun => ?_) (of_ite_error hrun)
  refine of_fetch_bind_error (fun nameLen hrun => ?_) (of_ite_error hrun)
  refine of_fetch_bind_error (fun fileType hrun => ?_) (of_ite_error hrun)
  have hrun := of_ite_error hrun
  dsimp only at hrun
  split at hrun
  · refine of_fetch_bind_error (fun name hrun => ?_) hrun
    cases hrun
  · cases hrun

end FileBytes

variable {h : Host} {m m' : Machine} {fe fe' : FileEnt} {d : FileBytes}

/-! ## The scan of `ext2_lookup_path` -/

/-- A scan comes to its end when the offsets do. -/
theorem findEntry_returns (hh : h.Reliable) (name : List UInt8) {n : Nat} : ∀ {m : Machine}
    {fe : FileEnt} {p : Nat}, Readable m fe → fileBytes m fe = d → fe.cursor = p →
    walk d.follow p n = none → findEntry name n fe h m ≠ .error .noReturn := by
  induction n with
  | zero =>
    intro m fe p hfe hd hcur hwalk
    cases hwalk
  | succ n ih =>
    intro m fe p hfe hd hcur hwalk hrun
    unfold findEntry at hrun
    cases he : d.entry p m.dName with
    | error e =>
      rw [Prog.bind_error (ext2Readdir_error hh hfe hcur (by rw [hd]; exact he)),
        FileBytes.of_entry_error he] at hrun
      cases hrun
    | ok x =>
      cases x with
      | none =>
        obtain ⟨m₁, fe₁, hread, -⟩ := ext2Readdir_null hh hfe hcur (by rw [hd]; exact he)
        rw [Prog.bind_ok hread] at hrun
        cases hrun
      | some x =>
        obtain ⟨de, p', old'⟩ := x
        obtain ⟨m₁, fe₁, hread, hr, hcur₁, -⟩ :=
          ext2Readdir_entry hh hfe hcur (by rw [hd]; exact he)
        rw [Prog.bind_ok hread] at hrun
        dsimp only at hrun
        by_cases hname : de.dName = name
        · rw [if_pos hname] at hrun
          cases hrun
        · rw [if_neg hname] at hrun
          refine ih (hr.readable hfe) (hr.fileBytes_eq.trans hd) hcur₁ ?_ hrun
          rw [← walk_succ (FileBytes.follow_of_entry he)]
          exact hwalk

/-- The name that `ext2_readdir` returns fits `d_name`. -/
theorem length_cString_le (d : Fin 256 → UInt8) : (cString d).length ≤ 256 := by
  unfold cString
  refine (List.takeWhile_sublist _).length_le.trans ?_
  rw [List.length_ofFn]

theorem FileBytes.length_dName_le {p p' : Nat} {old old' : Fin 256 → UInt8} {de : Dirent}
    (he : d.entry p old = .ok (some (de, p', old'))) : de.dName.length ≤ 256 := by
  unfold FileBytes.entry at he
  obtain ⟨-, -, he⟩ := of_field (by decide) he
  obtain ⟨-, -, he⟩ := of_field (by decide) he
  obtain ⟨-, -, he⟩ := of_field (by decide) he
  obtain ⟨-, -, he⟩ := of_field (by decide) he
  dsimp only at he
  split at he
  · cases hname : d.fetch (p + 8) (Packed.u8.ofList (d.slice (p + 6) 1)).toNat with
    | error e =>
      rw [hname] at he
      cases he
    | ok name =>
      rw [hname] at he
      cases he
      exact length_cString_le _
  · cases he

/-- Offsets that never end are followed for ever, in search of a name that is too long. -/
theorem findEntry_noReturn (hh : h.Reliable) {name : List UInt8} (hlong : 256 < name.length) {n : Nat} :
    ∀ {m : Machine} {fe : FileEnt} {p : Nat}, Readable m fe → fileBytes m fe = d → fe.cursor = p →
    (∀ k, walk d.follow p k ≠ none) → findEntry name n fe h m = .error .noReturn := by
  induction n with
  | zero =>
    intro m fe p hfe hd hcur hwalk
    rfl
  | succ n ih =>
    intro m fe p hfe hd hcur hwalk
    obtain ⟨p', hp'⟩ := Option.ne_none_iff_exists'.1 (hwalk 1)
    have hstep : d.follow p = some p' := hp'
    obtain ⟨de, old', he⟩ := FileBytes.entry_of_follow hstep m.dName
    obtain ⟨m₁, fe₁, hread, hr, hcur₁, -⟩ := ext2Readdir_entry hh hfe hcur (by rw [hd]; exact he)
    have hother : ¬ de.dName = name := by
      rintro rfl
      exact absurd (FileBytes.length_dName_le he) (by omega)
    unfold findEntry
    rw [Prog.bind_ok hread]
    dsimp only
    rw [if_neg hother]
    refine ih (hr.readable hfe) (hr.fileBytes_eq.trans hd) hcur₁ fun k => ?_
    rw [← walk_succ hstep]
    exact hwalk (k + 1)

/-! ## The scan of `ext2_append_to_directory` -/

/-- `last_block`, the offset of the directory's last block. -/
def lastBlock (m : Machine) (fe : FileEnt) : Int :=
  toInt32 fe.inode.iSize.toNat - m.ctx.blockSize

/-- `ext2_append_to_directory` goes on to look for the last record. -/
def ScansLast (m : Machine) (fe : FileEnt) : Prop :=
  (toInt32 fe.inode.iSize.toNat).tmod m.ctx.blockSize = 0 ∧ 0 ≤ lastBlock m fe

section

variable {base bs q this n : Nat} {hdr : Ext2DirHeader}

/-- One round of the scan, up to the read of the header. -/
theorem lastRecord_seek (hfe : Readable m fe) (hq : this + hdr.recLen.toNat = q)
    (hp : base + q < 2 ^ 31) :
    lastRecord base bs (n + 1) this hdr fe h m
      = (ext2Read { fe with cursor := (base + q : Nat) } 8 >>= fun (r, bytes, fe) =>
          if r ≠ 8 then pure (none, fe)
          else
            let hdr := Ext2DirHeader.packed.ofList bytes
            if q + hdr.recLen.toNat < bs then lastRecord base bs n q hdr fe
            else pure (some (q, hdr), fe)) h m := by
  have hseek := ext2Lseek_set (h := h) (m := m) hfe.magic hp
  rw [lastRecord, hq]
  dsimp only
  rw [← Nat.cast_add, Prog.bind_ok hseek]
  dsimp only
  rw [if_neg (not_not.2 rfl)]

/-- One round of the scan, over a header inside a sector. -/
theorem lastRecord_header (hh : h.Reliable) (bs n : Nat) (hfe : Readable m fe) (hd : fileBytes m fe = d)
    (hq : this + hdr.recLen.toNat = q) (hlt : base + q < 2 ^ 31) (hsize : base + q + 8 ≤ d.size)
    (hfit : (base + q) % 512 + 8 ≤ 512) : ∃ m' fe', Reading m fe m' fe' ∧
    lastRecord base bs (n + 1) this hdr fe h m
      = (if q + (d.header (base + q)).recLen.toNat < bs
        then lastRecord base bs n q (d.header (base + q)) fe'
        else pure (some (q, d.header (base + q)), fe') :
          Drv (Option (Nat × Ext2DirHeader) × FileEnt)) h m' := by
  have hseek : Reading m fe m { fe with cursor := (base + q : Nat) } := .seek _
  have hfetch : (fileBytes m { fe with cursor := (base + q : Nat) }).fetch (base + q) 8
      = .ok (d.slice (base + q) 8) := by
    rw [hseek.fileBytes_eq, hd]
    exact FileBytes.fetch_inside hsize hfit
  obtain ⟨m₁, fe₁, hrun, hr, -⟩ := ext2Read_fetch hh (hseek.readable hfe) rfl hfetch
  have hhdr : Ext2DirHeader.packed.ofList (d.slice (base + q) 8) = d.header (base + q) :=
    FileBytes.get_slice _ rfl _
  refine ⟨m₁, fe₁, hseek.trans hr, ?_⟩
  rw [lastRecord_seek hfe hq hlt, Prog.bind_ok hrun, FileBytes.length_slice]
  dsimp only
  rw [if_neg (show ¬ ((8 : Nat) : Int) ≠ 8 by decide), hhdr]

theorem lastRecord_cross (hh : h.Reliable) (hfe : Readable m fe) (hd : fileBytes m fe = d)
    (hq : this + hdr.recLen.toNat = q) (hlt : base + q < 2 ^ 31) (hsize : base + q + 8 ≤ d.size)
    (hcross : 512 < (base + q) % 512 + 8) :
    lastRecord base bs (n + 1) this hdr fe h m = .error .outOfBounds := by
  have hseek : Reading m fe m { fe with cursor := (base + q : Nat) } := .seek _
  rw [lastRecord_seek hfe hq hlt]
  refine Prog.bind_error (ext2Read_fetch_error hh (hseek.readable hfe) rfl ?_)
  rw [hseek.fileBytes_eq, hd]
  unfold FileBytes.fetch
  rw [if_neg (by omega)]

theorem lastRecord_goes_on (hh : h.Reliable) (hfe : Readable m fe) (hd : fileBytes m fe = d)
    (hq : this + hdr.recLen.toNat = q) (hp : base + q < 2 ^ 31) {q' : Nat}
    (hstep : d.scanLast base bs q = some q') : ∃ m' fe' hdr',
    lastRecord base bs (n + 1) this hdr fe h m = lastRecord base bs n q hdr' fe' h m' ∧
      Reading m fe m' fe' ∧ q + hdr'.recLen.toNat = q' ∧ q' < bs := by
  unfold FileBytes.scanLast at hstep
  split at hstep
  next hread =>
    obtain ⟨hsize, hfit, hlt⟩ := hread
    cases hstep
    obtain ⟨m₁, fe₁, hr, hrun⟩ := lastRecord_header hh bs n hfe hd hq hp hsize hfit
    refine ⟨m₁, fe₁, d.header (base + q), ?_, hr, rfl, hlt⟩
    rw [hrun, if_pos hlt]
  next => cases hstep

/-- A header cut off by the end of the directory ends the scan. -/
theorem lastRecord_short (hh : h.Reliable) (hfe : Readable m fe) (hd : fileBytes m fe = d)
    (hq : this + hdr.recLen.toNat = q) (hp : base + q < 2 ^ 31) (hsize : d.size < base + q + 8) :
    lastRecord base bs (n + 1) this hdr fe h m ≠ .error .noReturn := by
  intro hrun
  have hseek : Reading m fe m { fe with cursor := (base + q : Nat) } := .seek _
  rw [lastRecord_seek hfe hq hp] at hrun
  cases hf : d.fetch (base + q) 8 with
  | error e =>
    rw [Prog.bind_error (ext2Read_fetch_error hh (hseek.readable hfe) rfl
      (by rw [hseek.fileBytes_eq, hd]; exact hf)), FileBytes.of_fetch_error hf] at hrun
    cases hrun
  | ok l =>
    obtain ⟨m₁, fe₁, hread, -⟩ := ext2Read_fetch hh (hseek.readable hfe) rfl
      (by rw [hseek.fileBytes_eq, hd]; exact hf)
    have hlen := FileBytes.length_of_fetch hf
    rw [Prog.bind_ok hread] at hrun
    dsimp only at hrun
    rw [if_pos (by omega)] at hrun
    cases hrun

theorem lastRecord_stops (hh : h.Reliable) (hfe : Readable m fe) (hd : fileBytes m fe = d)
    (hq : this + hdr.recLen.toNat = q) (hp : base + q < 2 ^ 31)
    (hstep : d.scanLast base bs q = none) :
    lastRecord base bs (n + 1) this hdr fe h m ≠ .error .noReturn := by
  by_cases hsize : base + q + 8 ≤ d.size
  swap
  · exact lastRecord_short hh hfe hd hq hp (Nat.not_le.1 hsize)
  intro hrun
  by_cases hfit : (base + q) % 512 + 8 ≤ 512
  swap
  · rw [lastRecord_cross hh hfe hd hq hp hsize (Nat.not_le.1 hfit)] at hrun
    cases hrun
  obtain ⟨m₁, fe₁, -, hread⟩ := lastRecord_header hh bs n hfe hd hq hp hsize hfit
  rw [hread] at hrun
  unfold FileBytes.scanLast at hstep
  by_cases hlt : q + (d.header (base + q)).recLen.toNat < bs
  · rw [if_pos ⟨hsize, hfit, hlt⟩] at hstep
    cases hstep
  · rw [if_neg hlt] at hrun
    cases hrun

end

/-- The scan comes to its end when the offsets do. -/
theorem lastRecord_returns (hh : h.Reliable) {base bs n : Nat} (hbase : base + bs ≤ 2 ^ 31) :
    ∀ {m : Machine} {fe : FileEnt} {this q : Nat} {hdr : Ext2DirHeader}, Readable m fe →
    fileBytes m fe = d → this + hdr.recLen.toNat = q → q < bs →
    walk (d.scanLast base bs) q n = none →
    lastRecord base bs n this hdr fe h m ≠ .error .noReturn := by
  induction n with
  | zero =>
    intro m fe this q hdr hfe hd hq hlt hwalk
    cases hwalk
  | succ n ih =>
    intro m fe this q hdr hfe hd hq hlt hwalk
    cases hstep : d.scanLast base bs q with
    | none => exact lastRecord_stops hh hfe hd hq (by omega) hstep
    | some q' =>
      obtain ⟨m₁, fe₁, hdr₁, hrun, hr, hq', hlt'⟩ :=
        lastRecord_goes_on (n := n) hh hfe hd hq (by omega) hstep
      rw [hrun]
      refine ih (hr.readable hfe) (hr.fileBytes_eq.trans hd) hq' hlt' ?_
      rw [← walk_succ hstep]
      exact hwalk

theorem lastRecord_noReturn (hh : h.Reliable) {base bs n : Nat} (hbase : base + bs ≤ 2 ^ 31) :
    ∀ {m : Machine} {fe : FileEnt} {this q : Nat} {hdr : Ext2DirHeader}, Readable m fe →
    fileBytes m fe = d → this + hdr.recLen.toNat = q → q < bs →
    (∀ k, walk (d.scanLast base bs) q k ≠ none) →
    lastRecord base bs n this hdr fe h m = .error .noReturn := by
  induction n with
  | zero =>
    intro m fe this q hdr hfe hd hq hlt hwalk
    rfl
  | succ n ih =>
    intro m fe this q hdr hfe hd hq hlt hwalk
    obtain ⟨q', hq'⟩ := Option.ne_none_iff_exists'.1 (hwalk 1)
    have hstep : d.scanLast base bs q = some q' := hq'
    obtain ⟨m₁, fe₁, hdr₁, hrun, hr, hq₁, hlt'⟩ :=
      lastRecord_goes_on (n := n) hh hfe hd hq (by omega) hstep
    rw [hrun]
    refine ih (hr.readable hfe) (hr.fileBytes_eq.trans hd) hq₁ hlt' fun k => ?_
    rw [← walk_succ hstep]
    exact hwalk (k + 1)

/-! ## Both scans -/

/-- The loop over `ext2_readdir` in `ext2_lookup_path` ends for every component, and so does the
    do-while of `ext2_append_to_directory` where it is reached. -/
def ScansEnd (h : Host) (m : Machine) (fe : FileEnt) : Prop :=
  (∀ name, ∃ rounds, findEntry name rounds fe h m ≠ .error .noReturn) ∧
    (ScansLast m fe → ∃ rounds,
      lastRecord (lastBlock m fe) m.ctx.blockSize rounds 0 ⟨0, 0, 0, 0⟩ fe h m ≠ .error .noReturn)

/-- Neither the offsets `ext2_readdir` leaves the handle at nor the record lengths of the last block
    lead back to a record. -/
def Advances (m : Machine) (fe : FileEnt) : Prop :=
  ¬ Revisits (fileBytes m fe).follow 0 ∧ (ScansLast m fe →
    ¬ Revisits ((fileBytes m fe).scanLast (lastBlock m fe).toNat m.ctx.blockSize) 0)

namespace SmallVolume

set_option maxRecDepth 4000

/-- The volume with a root directory whose first record has length 0. -/
def stuckMachine : Machine :=
  { machine with disk := Function.update machine.disk 14 (sectorOf [(0, dirRecord 2 0 [46])]) }

theorem stuckMachine_follow : (fileBytes stuckMachine handleRoot).follow 0 = some 0 := by
  decide

end SmallVolume

end Embext
