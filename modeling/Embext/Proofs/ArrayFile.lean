import Embext.Proofs.Sparse

set_option autoImplicit false

/-! # Files as arrays

What a file is to its user: an array of bytes with a cursor. A write puts its bytes at the cursor or at
the end of the array, a gap is filled with zeros. -/

namespace Embext

variable {h : Host} {m m' : Machine} {fe fe' : FileEnt} {v : UInt32 → Sector} {c c' : Ext2Context}
  {ino : UInt32} {path : List UInt8}

/-! ## Files as arrays -/

/-- `data` put at `p`, a gap before it filled with zeros. -/
def overwrite (a : List UInt8) (p : Nat) (data : List UInt8) : List UInt8 :=
  (List.range (max a.length (p + data.length))).map fun k =>
    if p ≤ k ∧ k < p + data.length then data.getD (k - p) 0 else a.getD k 0

/-- An open file: its bytes and the cursor. -/
structure ArrayFile where
  bytes : List UInt8
  cursor : Int

namespace ArrayFile

/-- The offset a seek counts from. -/
def base (f : ArrayFile) : Whence → Option Int
  | .set => some 0
  | .cur => some f.cursor
  | .end => some f.bytes.length
  | .other => none

/-- A seek out of the range of `off_t` moves nothing. -/
def seek (f : ArrayFile) (offset : Int) (whence : Whence) : ArrayFile :=
  match f.base whence with
  | none => f
  | some base =>
    if int64Max < base + offset ∨ base + offset < 0 then f else { f with cursor := base + offset }

/-- A write goes to the cursor, or to the end in append mode. -/
def write (append : Bool) (f : ArrayFile) (data : List UInt8) : ArrayFile :=
  let start := if append then (f.bytes.length : Int) else f.cursor
  { bytes := if data = [] then f.bytes else overwrite f.bytes start.toNat data
    cursor := start + data.length }

end ArrayFile

/-- A call that moves the cursor or changes the bytes. -/
inductive Edit where
  | seek (offset : Int) (whence : Whence)
  | write (data : List UInt8)

def Edit.apply (append : Bool) (f : ArrayFile) : Edit → ArrayFile
  | .seek offset whence => f.seek offset whence
  | .write data => f.write append data

/-- The calls on the array, in order. -/
def applyEdits (append : Bool) (es : List Edit) (f : ArrayFile) : ArrayFile :=
  es.foldl (Edit.apply append) f

/-! ## Files on the device -/

/-- The call on a handle, and whether a write has returned its full count. -/
def execEdit : Edit → FileEnt → Drv (Bool × FileEnt)
  | .seek offset whence, fe => do
    let (_, fe) ← ext2Lseek fe offset whence
    pure (true, fe)
  | .write data, fe => do
    let (r, fe) ← ext2Write fe data
    pure (r == data.length, fe)

/-- The calls in order, up to the first write that returns less than its full count. -/
def runEdits : List Edit → FileEnt → Drv (Bool × FileEnt)
  | [], fe => pure (true, fe)
  | e :: es, fe => do
    let (full, fe) ← execEdit e fe
    if full then runEdits es fe else pure (false, fe)

/-- The bytes of a file, zeros for its holes. -/
def contents (v : UInt32 → Sector) (c : Ext2Context) (inode : Inode) : List UInt8 :=
  (List.range inode.iSize.toNat).map (sparseByte v c inode)

/-- The file behind a handle. -/
def arrayOf (m : Machine) (fe : FileEnt) : ArrayFile :=
  ⟨contents (view m fe) m.ctx fe.inode, fe.cursor⟩

@[simp]
theorem length_contents (inode : Inode) : (contents v c inode).length = inode.iSize.toNat := by
  simp [contents]

theorem getD_contents (inode : Inode) (q : Nat) : (contents v c inode).getD q 0
    = if q < inode.iSize.toNat then sparseByte v c inode q else 0 := by
  unfold contents
  rw [List.getD_eq_getElem?_getD, List.getElem?_map]
  by_cases hq : q < inode.iSize.toNat
  · rw [if_pos hq, List.getElem?_range hq]
    rfl
  · rw [if_neg hq, List.getElem?_eq_none (by simpa using hq)]
    rfl

/-- A file whose bytes are those of another one with `data` at `p`. -/
theorem contents_overwrite {v' : UInt32 → Sector} {i i' : Inode} {p : Nat}
    {data : List UInt8} (hsize : i'.iSize.toNat = max i.iSize.toNat (p + data.length))
    (hbytes : ∀ q < i'.iSize.toNat, sparseByte v' c' i' q = if p ≤ q ∧ q < p + data.length
      then data.getD (q - p) 0 else (contents v c i).getD q 0) :
    contents v' c' i' = overwrite (contents v c i) p data := by
  unfold overwrite
  rw [length_contents, ← hsize]
  exact List.map_congr_left fun q hq => hbytes q (List.mem_range.1 hq)

/-- The bytes of a file depend on the volume alone. -/
theorem sparseByte_sameVolume (hvol : c.SameVolume c') (inode : Inode) (q : Nat) :
    sparseByte v c' inode q = sparseByte v c inode q := by
  have hlog : c'.superblock.sLogBlockSize = c.superblock.sLogBlockSize := by rw [hvol]
  have hps : c'.partStart = c.partStart := by rw [hvol]
  have hbs : c'.blockSize = c.blockSize := by
    unfold Ext2Context.blockSize
    rw [hlog]
  unfold sparseByte
  rw [hbs, fileBlock_sysbuf v c inode _ hlog hps, fileByte_sysbuf v c inode hlog hps]

theorem arrayOf_base (m : Machine) (fe : FileEnt) (whence : Whence) :
    (arrayOf m fe).base whence = whence.base fe := by
  cases whence with
  | «end» =>
    show some (((arrayOf m fe).bytes.length : Nat) : Int) = _
    rw [arrayOf, length_contents]
    rfl
  | set => rfl
  | cur => rfl
  | other => rfl

end Embext
