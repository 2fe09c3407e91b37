import Embext.Implementation.Types

set_option autoImplicit false

/-! # The block driver over an image in memory

`block_pc.c`, the block driver of the tests: the image file is held in memory, a call copies one
sector out of it or into it. The bound check and the address are computed in 32 bits, as the type of
`block` asks. The image comes from a file, and snapshots of it go to files. -/

namespace Embext.BlockPc

/-- The image: `block_fs_size`, and the bytes behind `blocks`. -/
structure Image where
  size : Nat
  byte : Nat → UInt8

/-- The bound check of both calls, `(block + 1) * BLOCK_SIZE - 1 > block_fs_size`. -/
def refuses (img : Image) (block : UInt32) : Bool := img.size < ((block + 1) * 512 - 1).toNat

/-- Where `blocks + block * BLOCK_SIZE` points. -/
def address (block : UInt32) : Nat := (block * 512).toNat

/-- `block_read`: the result and the caller's buffer. -/
def blockRead (img : Image) (block : UInt32) (buffer : Sector) : Except Fault (Int × Sector) :=
  if refuses img block then .ok (-1, buffer)
  else if address block + 512 ≤ img.size then
    .ok (0, fun k => img.byte (address block + k))
  else .error .outOfBounds

/-- `memcpy` of one sector to `blocks + off`. -/
def Image.put (img : Image) (off : Nat) (buffer : Sector) : Image where
  size := img.size
  byte p := if h : off ≤ p ∧ p - off < 512 then buffer ⟨p - off, h.2⟩ else img.byte p

/-- `block_write`: the result and the image. -/
def blockWrite (img : Image) (block : UInt32) (buffer : Sector) : Except Fault (Int × Image) :=
  if refuses img block then .ok (-1, img)
  else if address block + 512 ≤ img.size then .ok (0, img.put (address block) buffer)
  else .error .outOfBounds

/-- `block_get_volume_size`. -/
def blockGetVolumeSize (img : Image) : UInt32 := UInt32.ofNat (img.size / 512)

/-! ## Runs -/

/-- A call, with the caller's buffer. -/
inductive Op where
  | read (block : UInt32) (buffer : Sector)
  | write (block : UInt32) (buffer : Sector)

/-- The block number of a call. -/
def Op.block : Op → UInt32
  | read block _ | write block _ => block

/-- What a call hands back: its result and the buffer. -/
abbrev Reply := Int × Sector

def exec : Op → Image → Except Fault (Reply × Image)
  | .read block buffer, img => do
    let reply ← blockRead img block buffer
    pure (reply, img)
  | .write block buffer, img => do
    let (r, img) ← blockWrite img block buffer
    pure ((r, buffer), img)

def run : List Op → Image → Except Fault (List Reply × Image)
  | [], img => pure ([], img)
  | op :: rest, img => do
    let (reply, img) ← exec op img
    let (replies, img) ← run rest img
    pure (reply :: replies, img)

/-! ## The image file -/

/-- The name of a file, without the terminating NUL. -/
abbrev FileName := List UInt8

/-- What the C library makes of a call: which files it opens for writing and reads to their end, and
    which sizes `malloc` has memory for. -/
structure Os where
  writable : FileName → Bool
  readable : FileName → Bool
  allocates : Nat → Bool

/-- What `blocks` points to. -/
inductive Blocks where
  | null
  | held (img : Image)
  | freed

/-- The variables of `block_pc.c`, and the files of the machine it runs on. -/
structure Pc where
  files : FileName → Option (List UInt8)
  imageName : Option FileName
  fsSize : Nat
  blocks : Blocks
  ro : Int

/-- The state at the start of a program. -/
def Pc.start (files : FileName → Option (List UInt8)) : Pc := ⟨files, none, 0, .null, 0⟩

/-- A call of the driver with its files. -/
abbrev OnPc (α : Type) := Prog Os Fault Pc α

def blockPcSetImageName (name : FileName) : OnPc Unit :=
  Prog.modify fun pc => { pc with imageName := some name }

/-- The bytes of a file in memory. -/
def imageOf (bytes : List UInt8) : Image := ⟨bytes.length, fun p => bytes.getD p 0⟩

/-- `block_init`. A file of 2 GiB or more is refused with `block_fs_size` set already. -/
def blockInit : OnPc Int := fun os pc =>
  match pc.imageName with
  | none => .error .uninitialized
  | some name =>
    match pc.files name with
    | none => .ok (-1, pc)
    | some bytes =>
      let pc := { pc with fsSize := bytes.length }
      if ¬ bytes.length < 2048 * 1024 * 1024 then .ok (-1, pc)
      else if ¬ os.allocates bytes.length then .ok (-1, { pc with blocks := .null })
      else if ¬ os.readable name then .ok (-1, { pc with blocks := .freed })
      else .ok (0, { pc with blocks := .held (imageOf bytes) })

/-- `block_halt`. A second call frees the memory again. -/
def blockHalt : OnPc Int := fun _ pc =>
  match pc.blocks with
  | .null => .ok (0, pc)
  | .held _ => .ok (0, { pc with blocks := .freed })
  | .freed => .error .useAfterFree

/-- `block_read` on the memory behind `blocks`. -/
def readBlock (block : UInt32) (buffer : Sector) : OnPc (Int × Sector) := fun _ pc =>
  if refuses ⟨pc.fsSize, fun _ => 0⟩ block then .ok ((-1, buffer), pc)
  else
    match pc.blocks with
    | .held img =>
      if address block + 512 ≤ img.size then
        .ok ((0, fun k => img.byte (address block + k)), pc)
      else .error .outOfBounds
    | _ => .error .useAfterFree

/-- `block_write` on it. -/
def writeBlock (block : UInt32) (buffer : Sector) : OnPc Int := fun _ pc =>
  if refuses ⟨pc.fsSize, fun _ => 0⟩ block then .ok (-1, pc)
  else
    match pc.blocks with
    | .held img =>
      if address block + 512 ≤ img.size then
        .ok (0, { pc with blocks := .held (img.put (address block) buffer) })
      else .error .outOfBounds
    | _ => .error .useAfterFree

/-- `block_get_device_read_only`. -/
def blockGetDeviceReadOnly : OnPc Int := fun _ pc => .ok (pc.ro, pc)

def blockPcSetRo : OnPc Unit := Prog.modify fun pc => { pc with ro := -1 }

def blockPcSetRw : OnPc Unit := Prog.modify fun pc => { pc with ro := 0 }

/-- `block_pc_snapshot`: the result of `fwrite` is dropped. -/
def blockPcSnapshot (name : FileName) (start len : UInt64) : OnPc Int := fun os pc =>
  if ¬ os.writable name then .ok (-1, pc)
  else
    match pc.blocks with
    | .held img =>
      if start.toNat + len.toNat ≤ img.size then
        let bytes := (List.range len.toNat).map fun i => img.byte (start.toNat + i)
        .ok (0, { pc with files := Function.update pc.files name (some bytes) })
      else .error .outOfBounds
    | _ => .error .useAfterFree

def blockPcSnapshotAll (name : FileName) : OnPc Int := do
  let pc ← Prog.get
  blockPcSnapshot name 0 (UInt64.ofNat pc.fsSize)

/-- Calls on the memory, in order. -/
def serve : List Op → OnPc (List Reply)
  | [] => pure []
  | .read block buffer :: rest => do
    let reply ← readBlock block buffer
    let replies ← serve rest
    pure (reply :: replies)
  | .write block buffer :: rest => do
    let r ← writeBlock block buffer
    let replies ← serve rest
    pure ((r, buffer) :: replies)

end Embext.BlockPc
