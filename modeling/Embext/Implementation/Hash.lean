import Embext.Implementation.BlockPc
import Embext.Library.Packed
import Mathlib.Data.Fin.VecNotation

set_option autoImplicit false

/-! # The hash of an image

`hash.c`, the MD5 sums by which the tests compare images, and the two calls of `block_pc.c` that sum
the image in memory. What is behind a pointer is a function of the offset from it. -/

namespace Embext.Hash

instance h_neZero : NeZero 4 := ⟨by decide⟩

/-- `struct md_context`. -/
structure MdContext where
  h : Fin 4 → UInt32
  digest : Fin 16 → UInt8
  count : UInt64
  buffer : Fin 64 → UInt8

/-- The shift amounts of the rounds. -/
def r : List UInt32 :=
  [7, 12, 17, 22, 7, 12, 17, 22, 7, 12, 17, 22, 7, 12, 17, 22,
   5, 9, 14, 20, 5, 9, 14, 20, 5, 9, 14, 20, 5, 9, 14, 20,
   4, 11, 16, 23, 4, 11, 16, 23, 4, 11, 16, 23, 4, 11, 16, 23,
   6, 10, 15, 21, 6, 10, 15, 21, 6, 10, 15, 21, 6, 10, 15, 21]

def k : List UInt32 :=
  [0xd76aa478, 0xe8c7b756, 0x242070db, 0xc1bdceee,
   0xf57c0faf, 0x4787c62a, 0xa8304613, 0xfd469501,
   0x698098d8, 0x8b44f7af, 0xffff5bb1, 0x895cd7be,
   0x6b901122, 0xfd987193, 0xa679438e, 0x49b40821,
   0xf61e2562, 0xc040b340, 0x265e5a51, 0xe9b6c7aa,
   0xd62f105d, 0x02441453, 0xd8a1e681, 0xe7d3fbc8,
   0x21e1cde6, 0xc33707d6, 0xf4d50d87, 0x455a14ed,
   0xa9e3e905, 0xfcefa3f8, 0x676f02d9, 0x8d2a4c8a,
   0xfffa3942, 0x8771f681, 0x6d9d6122, 0xfde5380c,
   0xa4beea44, 0x4bdecfa9, 0xf6bb4b60, 0xbebfbc70,
   0x289b7ec6, 0xeaa127fa, 0xd4ef3085, 0x04881d05,
   0xd9d4d039, 0xe6db99e5, 0x1fa27cf8, 0xc4ac5665,
   0xf4292244, 0x432aff97, 0xab9423a7, 0xfc93a039,
   0x655b59c3, 0x8f0ccc92, 0xffeff47d, 0x85845dd1,
   0x6fa87e4f, 0xfe2ce6e0, 0xa3014314, 0x4e0811a1,
   0xf7537e82, 0xbd3af235, 0x2ad7d2bb, 0xeb86d391]

def leftrotate (x c : UInt32) : UInt32 := x <<< c ||| x >>> (32 - c)

/-! ## `md5_transform` -/

/-- The variables `a`, `b`, `c` and `d`. -/
structure Vars where
  a : UInt32
  b : UInt32
  c : UInt32
  d : UInt32

/-- The body of the four loops, which differ in `f` and `g`. `memcpy` to `buf` reads the low byte
    first. -/
def turn (f : UInt32 → UInt32 → UInt32 → UInt32) (g : Nat → Nat) (buffer : Fin 64 → UInt8) (v : Vars)
    (j : Nat) : Vars :=
  let buf := Packed.u32.get fun i => Window.item buffer (g j * 4 + i)
  let x := v.a + f v.b v.c v.d + k.getD j 0 + buf
  ⟨v.d, v.b + leftrotate x (r.getD j 0), v.b, v.c⟩

def turn1 : (Fin 64 → UInt8) → Vars → Nat → Vars :=
  turn (fun b c d => (c ^^^ d) &&& b ^^^ d) fun j => j

def turn2 : (Fin 64 → UInt8) → Vars → Nat → Vars :=
  turn (fun b c d => (b ^^^ c) &&& d ^^^ c) fun j => (5 * j + 1) % 16

def turn3 : (Fin 64 → UInt8) → Vars → Nat → Vars :=
  turn (fun b c d => b ^^^ c ^^^ d) fun j => (3 * j + 5) % 16

def turn4 : (Fin 64 → UInt8) → Vars → Nat → Vars :=
  turn (fun b c d => c ^^^ (b ||| ~~~d)) fun j => 7 * j % 16

def md5Transform (context : MdContext) : MdContext :=
  let v : Vars := ⟨context.h 0, context.h 1, context.h 2, context.h 3⟩
  let v := (List.range' 0 16).foldl (turn1 context.buffer) v
  let v := (List.range' 16 16).foldl (turn2 context.buffer) v
  let v := (List.range' 32 16).foldl (turn3 context.buffer) v
  let v := (List.range' 48 16).foldl (turn4 context.buffer) v
  { context with h := ![context.h 0 + v.a, context.h 1 + v.b, context.h 2 + v.c, context.h 3 + v.d] }

/-! ## `md5_start`, `md5_update` and `md5_finish` -/

def md5Start (context : MdContext) : MdContext :=
  { context with
    h := ![0x67452301, 0xefcdab89, 0x98badcfe, 0x10325476]
    count := 0
    buffer := fun _ => 0 }

/-- The `n` bytes behind a pointer. -/
def bytesAt (p : Nat → UInt8) (n : UInt64) : List UInt8 := (List.range n.toNat).map p

/-- `memcpy` or `memset` to `&context->buffer[off]`. -/
def MdContext.store (context : MdContext) (off : UInt64) (d : List UInt8) : Except Fault MdContext :=
  if off.toNat + d.length ≤ 64 then
    .ok { context with buffer := Window.patch context.buffer off.toNat d }
  else .error .outOfBounds

/-- Both loops on a size end. -/
theorem toNat_sub_lt {n len : UInt64} (hn : 0 < n) (hle : n ≤ len) : (len - n).toNat < len.toNat := by
  have hpos : 0 < n.toNat := UInt64.lt_iff_toNat_lt.1 hn
  have hle' := UInt64.le_iff_toNat_le.1 hle
  rw [UInt64.toNat_sub_of_le _ _ hle]
  omega

/-- The `while` loop of `md5_update` and the copy behind it. -/
def md5Blocks (context : MdContext) (chunk : Nat → UInt8) (chunkSize : UInt64) :
    Except Fault MdContext :=
  if h : 64 ≤ chunkSize then do
    let context ← context.store 0 (bytesAt chunk 64)
    md5Blocks (md5Transform context) (fun i => chunk (64 + i)) (chunkSize - 64)
  else context.store 0 (bytesAt chunk chunkSize)
termination_by chunkSize.toNat
decreasing_by exact toNat_sub_lt (by decide) h

def md5Update (context : MdContext) (chunk : Nat → UInt8) (chunkSize : UInt64) :
    Except Fault MdContext := do
  let buflen := context.count &&& 63
  let context := { context with count := context.count + chunkSize }
  if buflen + chunkSize < 64 then context.store buflen (bytesAt chunk chunkSize)
  else
    let context ← context.store buflen (bytesAt chunk (64 - buflen))
    md5Blocks (md5Transform context) (fun i => chunk ((64 - buflen).toNat + i))
      (chunkSize - (64 - buflen))

def md5Finish (context : MdContext) : Except Fault MdContext := do
  let buflen := context.count &&& 63
  let context ← context.store buflen [0x80]
  let buflen := buflen + 1
  let context ← context.store buflen (List.replicate (64 - buflen).toNat 0)
  let context ← (if 56 < buflen then (md5Transform context).store 0 (List.replicate 64 0)
    else pure context)
  let bitcount := context.count * 8
  let context ← context.store 56 (Packed.u64.bytes bitcount)
  let context := md5Transform context
  pure { context with digest := fun i => (Packed.u32.array 4).put context.h i }

/-- `md5_start`, `md5_update` on each chunk in order, and `md5_finish`. -/
def md5Stream (context : MdContext) (chunks : List (List UInt8)) : Except Fault (Fin 16 → UInt8) := do
  let context ← chunks.foldlM (fun context chunk =>
    md5Update context (fun i => chunk.getD i 0) (UInt64.ofNat chunk.length)) (md5Start context)
  let context ← md5Finish context
  pure context.digest

/-! ## `md5_memory` -/

/-- `BUFSIZE`. -/
def bufsize : UInt64 := 1024 * 1024

/-- `memcpy` to the buffer of `BUFSIZE` bytes. -/
def copyToBuffer (buffer p : Nat → UInt8) (n : UInt64) : Except Fault (Nat → UInt8) :=
  if n ≤ bufsize then .ok fun i => if i < n.toNat then p i else buffer i
  else .error .outOfBounds

/-- The `while` loop of `md5_memory` and the update behind it. -/
def md5Pieces (context : MdContext) (buffer mem : Nat → UInt8) (len offs : UInt64) :
    Except Fault MdContext :=
  if _ : bufsize < len then do
    let buffer ← copyToBuffer buffer (fun i => mem (offs.toNat + i)) bufsize
    let context ← md5Update context buffer bufsize
    md5Pieces context buffer mem (len - bufsize) (offs + bufsize)
  else do
    let buffer ← copyToBuffer buffer (fun i => mem (offs.toNat + i)) len
    md5Update context buffer len
termination_by len.toNat
decreasing_by exact toNat_sub_lt (by decide) (UInt64.le_of_lt ‹bufsize < len›)

/-- `md5_memory`: the result and `hash`. The context on the stack and the buffer from `malloc` come with
    any contents. -/
def md5Memory (context : MdContext) (buffer mem : Nat → UInt8) (len : UInt64) :
    Except Fault (Int × (Fin 16 → UInt8)) := do
  let context ← md5Pieces (md5Start context) buffer mem len 0
  let context ← md5Finish context
  pure (0, context.digest)

/-! ## `md5_file` -/

/-- `fread(buffer, 1, BUFSIZE, fp)` with `rest` left of the file: the buffer, the result and what is
    left then. -/
def fread (buffer : Nat → UInt8) (rest : List UInt8) : (Nat → UInt8) × UInt64 × List UInt8 :=
  let l := min bufsize.toNat rest.length
  (fun i => if i < l then rest.getD i 0 else buffer i, UInt64.ofNat l, rest.drop l)

/-- A full read leaves less of the file. -/
theorem length_fread_lt {buffer : Nat → UInt8} {rest : List UInt8}
    (h : (fread buffer rest).2.1 = bufsize) : (fread buffer rest).2.2.length < rest.length := by
  have hfull : (UInt64.ofNat (min bufsize.toNat rest.length)).toNat = bufsize.toNat :=
    congrArg UInt64.toNat h
  have hsize : bufsize.toNat = 1048576 := rfl
  rw [UInt64.toNat_ofNat', hsize] at hfull
  simp only [fread, List.length_drop, hsize]
  omega

/-- The `while` loop of `md5_file` and the update behind it. -/
def md5FilePieces (context : MdContext) (buffer : Nat → UInt8) (rest : List UInt8) :
    Except Fault MdContext :=
  if _ : (fread buffer rest).2.1 = bufsize then do
    let context ← md5Update context (fread buffer rest).1 bufsize
    md5FilePieces context (fread buffer rest).1 (fread buffer rest).2.2
  else md5Update context (fread buffer rest).1 (fread buffer rest).2.1
termination_by rest.length
decreasing_by exact length_fread_lt ‹_›

/-- `md5_file`: the result, and `hash` where it is written. The file is never closed. -/
def md5File (context : MdContext) (buffer : Nat → UInt8)
    (files : BlockPc.FileName → Option (List UInt8)) (path : BlockPc.FileName) :
    Except Fault (Int × Option (Fin 16 → UInt8)) :=
  match files path with
  | none => .ok (-1, none)
  | some bytes => do
    let context ← md5FilePieces (md5Start context) buffer bytes
    let context ← md5Finish context
    pure (0, some context.digest)

/-! ## The hash of the image -/

/-- `block_pc_hash`. All `len` bytes are read, so the range must lie in the image. -/
def blockPcHash (context : MdContext) (buffer : Nat → UInt8) (img : BlockPc.Image) (start len : UInt64) :
    Except Fault (Int × (Fin 16 → UInt8)) :=
  if start.toNat + len.toNat ≤ img.size then
    md5Memory context buffer (fun i => img.byte (start.toNat + i)) len
  else .error .outOfBounds

/-- `block_pc_hash_all`. -/
def blockPcHashAll (context : MdContext) (buffer : Nat → UInt8) (img : BlockPc.Image) :
    Except Fault (Int × (Fin 16 → UInt8)) :=
  md5Memory context buffer img.byte (UInt64.ofNat img.size)

end Embext.Hash
