import Embext.Implementation.File

set_option autoImplicit false

/-! # Paths and directories

`ext2_lookup_path`, `ext2_open` and `ext2_append_to_directory`. A path is the list of its bytes
without the terminating NUL. -/

namespace Embext

/-- `'/'`. -/
def slash : UInt8 := 47

/-! ## Looking a path up -/

/-- The tokens `strtok(.., "/")` produces: the nonempty runs between separators. `cur` is the token
    being read, reversed. -/
def strtokAux : List UInt8 → List UInt8 → List (List UInt8)
  | cur, [] => if cur = [] then [] else [cur.reverse]
  | cur, c :: rest =>
    if c = slash then
      if cur = [] then strtokAux [] rest else cur.reverse :: strtokAux [] rest
    else strtokAux (c :: cur) rest

def strtok (path : List UInt8) : List (List UInt8) := strtokAux [] path

/-- The components `ext2_lookup_path` walks: the path is cut to `MAX_PATH_LEN - 1` bytes and at most
    `MAX_PATH_LEVELS` tokens are kept. -/
def pathElements (path : List UInt8) : List (List UInt8) :=
  (strtok (path.take (maxPathLen - 1))).take maxPathLevels

/-- `while(de != NULL)` over the entries of the open directory, up to one with the given name. -/
def findEntry (name : List UInt8) : Nat → FileEnt → Drv (Option UInt32 × FileEnt)
  | 0, _ => Prog.fault .noReturn
  | fuel + 1, fe => do
    let (de, fe) ← ext2Readdir fe
    match de with
    | none => pure (none, fe)
    | some de => if de.dName = name then pure (some de.dIno, fe) else findEntry name fuel fe

/-- The loop of `ext2_lookup_path` over the components; `ino` is the directory to search next. -/
def lookupElements : List (List UInt8) → UInt32 → FileEnt → Drv (Option UInt32 × FileEnt)
  | [], ino, fe => pure (some ino, fe)
  | name :: rest, ino, fe => do
    let (r, fe) ← ext2OpenInode fe ino
    if r ≠ 0 then
      setErrno .enoent
      pure (none, fe)
    else
      let bound ← patience
      let (found, fe) ← findEntry name bound fe
      match found with
      | none =>
        setErrno .enoent
        pure (none, fe)
      | some next => lookupElements rest next fe

/-- `ext2_lookup_path`; -1 is the all-ones inode number `ext2_open_inode` then receives. -/
def ext2LookupPath (fe : FileEnt) (path : List UInt8) : Drv (UInt32 × FileEnt) := do
  let (ino, fe) ← lookupElements (pathElements path) ext2RootIno fe
  pure (ino.getD 0xFFFFFFFF, fe)

/-! ## Opening -/

/-- The flags of a handle after `ext2_open` has added the access mode to those of
    `ext2_open_inode`. -/
def openedFlags (f : FileFlags) (flags : OpenFlags) : FileFlags :=
  let f := if flags.rdwr then { f with read := true, write := true }
    else if flags.wronly then { f with write := true }
    else { f with read := true }
  if flags.append then { f with append := true } else f

/-- The separator search of `ext2_open`, `for(i = strlen(name) - 1; i > -1; i--)`: the path before
    the last `'/'` and the name after it. -/
def splitLastSlash (name : List UInt8) : Option (List UInt8 × List UInt8) :=
  let leaf := (name.reverse.takeWhile (· ≠ slash)).reverse
  if leaf.length < name.length then
    some (name.take (name.length - leaf.length - 1), leaf)
  else none

/-- The inode `ext2_open` fills in for a new file; the three times come from three calls of
    `time`. -/
def newInode (mode : Nat) (uid gid : UInt16) (atime ctime mtime : UInt32) : Inode :=
  { Inode.zero with
    iMode := UInt16.ofNat (mode % 512) ||| ext2SIfreg
    iUid := uid
    iGid := gid
    iAtime := atime
    iCtime := ctime
    iMtime := mtime
    iLinksCount := 1 }

/-- The branch of `ext2_open` that creates the file. `append` is `ext2_append_to_directory`. -/
def ext2Create (append : List UInt8 → UInt32 → List UInt8 → Drv Int) (fe : FileEnt)
    (name : List UInt8) (mode : Nat) : Drv (Option FileEnt) := do
  let ctx ← getCtx
  if ctx.readOnly then
    setErrno .erofs
    pure none
  else
    let (r, fe) ← ext2AllocateInode fe
    if r ≠ 0 then
      setErrno fe.rerrno
      pure none
    else
      match splitLastSlash name with
      | none =>
        setErrno .enoent
        pure none
      | some (localPath, localName) =>
        let r ← append localPath fe.inodeNumber localName
        if r ≠ 0 then pure none
        else
          let uid ← getuid
          let gid ← getgid
          let atime ← timeNull
          let ctime ← timeNull
          let mtime ← timeNull
          let (_, fe) ← ext2FlushInode { fe with
            inode := newInode mode uid gid atime ctime mtime
            cursor := 0
            flags := { fe.flags with fsDirty := true } }
          pure (some fe)

/-- The branch of `ext2_open` for a file that exists. Bit 9 of `mode` marks the driver's own
    calls. -/
def ext2OpenExisting (fe : FileEnt) (flags : OpenFlags) (mode : Nat) : Drv (Option FileEnt) := do
  if flags.creat ∧ flags.excl then
    setErrno .eexist
    pure none
  else if ¬ flags.wronly ∧ ¬ flags.rdwr then pure (some fe)
  else
    let ctx ← getCtx
    if ctx.readOnly then
      setErrno .erofs
      pure none
    else if fe.inode.iMode &&& ext2SIfdir ≠ 0 ∧ ¬ mode.testBit 9 then
      setErrno .eisdir
      pure none
    else if flags.trunc then
      let (_, fe) ← ext2TruncateFile fe
      pure (some { fe with cursor := 0 })
    else pure (some fe)

/-- `ext2_open` over a given `ext2_append_to_directory`; `none` is NULL. -/
def ext2OpenWith (append : List UInt8 → UInt32 → List UInt8 → Drv Int) (name : List UInt8)
    (flags : OpenFlags) (mode : Nat) : Drv (Option FileEnt) := do
  let (ino, fe) ← ext2LookupPath FileEnt.fresh name
  let (i, fe) ← ext2OpenInode fe ino
  let fe := { fe with flags := openedFlags fe.flags flags }
  let e ← getErrno
  if i = -1 ∧ e = .enoent then
    if ¬ flags.creat then
      setErrno .enoent
      pure none
    else ext2Create append fe name mode
  else if i = 0 then ext2OpenExisting fe flags mode
  else pure none

/-- `ext2_open` without `O_CREAT`, which never reaches `ext2_append_to_directory`. -/
def ext2OpenPlain : List UInt8 → OpenFlags → Nat → Drv (Option FileEnt) :=
  ext2OpenWith fun _ _ _ => Prog.fault .uninitialized

/-! ## Appending an entry to a directory -/

/-- The bytes a record needs for its header and a name of `n` bytes, rounded up to 4. -/
def entryLen (n : Nat) : Nat := (n / 4 + if n % 4 ≠ 0 then 1 else 0) * 4 + 8

/-- `ext2_close(fe, &i)`: the error code goes to a local variable. -/
def ext2CloseLocal (fe : FileEnt) : Drv Unit := do
  let e ← getErrno
  let _ ← ext2Close fe
  setErrno e

/-- The do-while that walks to the last record of the block at `lastBlock`; `this` is
    `this_offset`. The result is the last record's offset and header, or `none` on failure. -/
def lastRecord (lastBlock : Int) (blockSize : Nat) :
    Nat → Nat → Ext2DirHeader → FileEnt → Drv (Option (Nat × Ext2DirHeader) × FileEnt)
  | 0, _, _, _ => Prog.fault .noReturn
  | fuel + 1, this, hdr, fe => do
    let this := this + hdr.recLen.toNat
    let (r, fe) ← ext2Lseek fe (lastBlock + this) .set
    if r ≠ lastBlock + this then pure (none, fe)
    else
      let (r, bytes, fe) ← ext2Read fe 8
      if r ≠ 8 then pure (none, fe)
      else
        let hdr := Ext2DirHeader.packed.ofList bytes
        if this + hdr.recLen.toNat < blockSize then lastRecord lastBlock blockSize fuel this hdr fe
        else pure (some (this, hdr), fe)

/-- Shrink the last record to what it needs and put the new one behind it. -/
def appendInSlack (fe : FileEnt) (lastBlock : Int) (blockSize this minOld : Nat)
    (hdr : Ext2DirHeader) (inode : UInt32) (filename : List UInt8) : Drv FileEnt := do
  let hdr := { hdr with recLen := UInt16.ofNat minOld }
  let (_, fe) ← ext2Lseek fe (this + lastBlock) .set
  let (_, fe) ← ext2Write fe (Ext2DirHeader.packed.bytes hdr)
  let this := this + hdr.recLen.toNat
  let (_, fe) ← ext2Lseek fe (this + lastBlock) .set
  let hdr : Ext2DirHeader :=
    { inode := inode
      recLen := UInt16.ofNat (((blockSize : Int) - this) % 2 ^ 16).toNat
      nameLen := UInt8.ofNat filename.length
      fileType := 0 }
  let (_, fe) ← ext2Write fe (Ext2DirHeader.packed.bytes hdr)
  let (_, fe) ← ext2Write fe filename
  pure fe

/-- `for(i = 0; i < block_size / sizeof(buffer); i++)`: `n` writes of 128 zero bytes. -/
def writeZeros : Nat → FileEnt → Drv FileEnt
  | 0, fe => pure fe
  | n + 1, fe => do
    let (_, fe) ← ext2Write fe (List.replicate 128 0)
    writeZeros n fe

/-- Put the new record in a block of its own. -/
def appendInNewBlock (fe : FileEnt) (blockSize : Nat) (inode : UInt32) (filename : List UInt8) :
    Drv FileEnt := do
  let (_, fe) ← ext2Lseek fe 0 .end
  let fe ← writeZeros (blockSize / 128) fe
  let (_, fe) ← ext2Lseek fe (-blockSize) .end
  let hdr : Ext2DirHeader :=
    { inode := inode
      recLen := UInt16.ofNat blockSize
      nameLen := UInt8.ofNat filename.length
      fileType := 0 }
  let (_, fe) ← ext2Write fe (Ext2DirHeader.packed.bytes hdr)
  let (_, fe) ← ext2Write fe filename
  pure fe

/-- Add the record behind the last one, at `this` with header `hdr`, if it has the room. -/
def appendRecord (fe : FileEnt) (lastBlock : Int) (blockSize this : Nat) (hdr : Ext2DirHeader)
    (inode : UInt32) (filename : List UInt8) : Drv FileEnt :=
  let minOld := entryLen hdr.nameLen.toNat
  if (entryLen filename.length : Int) < (hdr.recLen.toNat : Int) - minOld then
    appendInSlack fe lastBlock blockSize this minOld hdr inode filename
  else appendInNewBlock fe blockSize inode filename

/-- `ext2_append_to_directory`. The results of the writes and of the last close are dropped. -/
def ext2AppendToDirectory (directory : List UInt8) (inode : UInt32) (filename : List UInt8) :
    Drv Int := do
  let blockSize ← ext2BlockSize
  let fe ← ext2OpenPlain directory oRdwr 0o1777
  match fe with
  | none => pure (-1)
  | some fe =>
    let (fileLength, fe) ← ext2Lseek fe 0 .end
    if fileLength.tmod blockSize ≠ 0 then
      setErrno .enoent
      let _ ← ext2Close fe
      pure (-1)
    else
      let lastBlock := fileLength - blockSize
      if lastBlock < 0 then
        setErrno .eio
        let _ ← ext2Close fe
        pure (-1)
      else
        let bound ← patience
        let (found, fe) ← lastRecord lastBlock blockSize bound 0 ⟨0, 0, 0, 0⟩ fe
        match found with
        | none =>
          ext2CloseLocal fe
          pure (-1)
        | some (this, hdr) =>
          let fe ← appendRecord fe lastBlock blockSize this hdr inode filename
          let _ ← ext2Close fe
          pure 0

/-- `ext2_open`; `none` is NULL. -/
def ext2Open : List UInt8 → OpenFlags → Nat → Drv (Option FileEnt) :=
  ext2OpenWith ext2AppendToDirectory

end Embext
