import Embext.Library.Blockwise
import Embext.Library.Packed
import Mathlib.Data.Fin.VecNotation
import Mathlib.Data.Fintype.Basic
import Mathlib.Tactic.FinCases

set_option autoImplicit false

/-! # The MD5 message digest

RFC 1321: the padding, the four rounds of sixteen operations on the registers A, B, C and D, and the
digest. Messages are lists of bytes; words are stored low-order byte first. -/

namespace Md5

/-! ## The auxiliary functions -/

def F (x y z : UInt32) : UInt32 := x &&& y ||| ~~~x &&& z

def G (x y z : UInt32) : UInt32 := x &&& z ||| y &&& ~~~z

def H (x y z : UInt32) : UInt32 := x ^^^ y ^^^ z

def I (x y z : UInt32) : UInt32 := y ^^^ (x ||| ~~~z)

/-- `X <<< s`, the circular shift to the left. -/
def rotate (x : UInt32) (s : Nat) : UInt32 := ⟨x.toBitVec.rotateLeft s⟩

/-- The table T. Element `i`, counted from 1, is the integer part of 4294967296 times abs(sin(i)). -/
def table : List UInt32 :=
  [0xd76aa478, 0xe8c7b756, 0x242070db, 0xc1bdceee,
   0xf57c0faf, 0x4787c62a, 0xa8304613, 0xfd469501,
   0x698098d8, 0x8b44f7af, 0xffff5bb1, 0x895cd7be,
   0x6b901122, 0xfd987193, 0xa679438e, 0x49b40821,
   0xf61e2562, 0xc040b340, 0x265e5a51, 0xe9b6c7aa,
   0xd62f105d, 0x02441453, 0xd8a1e681, 0xe7d3fbc8,
   0x21e1cde6, 0xc33707d6, 0xf4d50d87, 0x455a14ed,
   0xa9e3e905, 0xfcefa3f8, 0x676f02d9, 0x8d2a4c8a,
   0xfffa3942, 0x8771f681, 0x6d9d6122, 0xfde5380c,
   0xa4beea44, 0x4bdecfa9, 0xf6bb4b60, 0xbebfbc70,
   0x289b7ec6, 0xeaa127fa, 0xd4ef3085, 0x04881d05,
   0xd9d4d039, 0xe6db99e5, 0x1fa27cf8, 0xc4ac5665,
   0xf4292244, 0x432aff97, 0xab9423a7, 0xfc93a039,
   0x655b59c3, 0x8f0ccc92, 0xffeff47d, 0x85845dd1,
   0x6fa87e4f, 0xfe2ce6e0, 0xa3014314, 0x4e0811a1,
   0xf7537e82, 0xbd3af235, 0x2ad7d2bb, 0xeb86d391]

/-! ## The rounds -/

structure Registers where
  a : UInt32
  b : UInt32
  c : UInt32
  d : UInt32
  deriving DecidableEq

/-- A register by its number, A being number 0. -/
def Registers.get (ρ : Registers) : Fin 4 → UInt32 := ![ρ.a, ρ.b, ρ.c, ρ.d]

def Registers.set (ρ : Registers) (i : Fin 4) (v : UInt32) : Registers :=
  match i with
  | 0 => { ρ with a := v }
  | 1 => { ρ with b := v }
  | 2 => { ρ with c := v }
  | 3 => { ρ with d := v }

theorem Registers.get_set (ρ : Registers) (i l : Fin 4) (v : UInt32) :
    (ρ.set i v).get l = if l = i then v else ρ.get l := by
  fin_cases i <;> fin_cases l <;> rfl

/-- The initial value of the registers. -/
def init : Registers := ⟨0x67452301, 0xefcdab89, 0x98badcfe, 0x10325476⟩

/-- An operation `[abcd k s i]`. The other registers follow `a` in their cyclic order. -/
structure Operation where
  a : Fin 4
  k : Nat
  s : Nat
  i : Nat

/-- `a = b + ((a + f(b,c,d) + X[k] + T[i]) <<< s)`. -/
def Operation.apply (f : UInt32 → UInt32 → UInt32 → UInt32) (x : Nat → UInt32) (ρ : Registers)
    (o : Operation) : Registers :=
  let b := ρ.get (o.a + 1)
  let c := ρ.get (o.a + 2)
  let d := ρ.get (o.a + 3)
  ρ.set o.a (b + rotate (ρ.get o.a + f b c d + x o.k + table.getD (o.i - 1) 0) o.s)

def round1 : List Operation :=
  [⟨0, 0, 7, 1⟩, ⟨3, 1, 12, 2⟩, ⟨2, 2, 17, 3⟩, ⟨1, 3, 22, 4⟩,
   ⟨0, 4, 7, 5⟩, ⟨3, 5, 12, 6⟩, ⟨2, 6, 17, 7⟩, ⟨1, 7, 22, 8⟩,
   ⟨0, 8, 7, 9⟩, ⟨3, 9, 12, 10⟩, ⟨2, 10, 17, 11⟩, ⟨1, 11, 22, 12⟩,
   ⟨0, 12, 7, 13⟩, ⟨3, 13, 12, 14⟩, ⟨2, 14, 17, 15⟩, ⟨1, 15, 22, 16⟩]

def round2 : List Operation :=
  [⟨0, 1, 5, 17⟩, ⟨3, 6, 9, 18⟩, ⟨2, 11, 14, 19⟩, ⟨1, 0, 20, 20⟩,
   ⟨0, 5, 5, 21⟩, ⟨3, 10, 9, 22⟩, ⟨2, 15, 14, 23⟩, ⟨1, 4, 20, 24⟩,
   ⟨0, 9, 5, 25⟩, ⟨3, 14, 9, 26⟩, ⟨2, 3, 14, 27⟩, ⟨1, 8, 20, 28⟩,
   ⟨0, 13, 5, 29⟩, ⟨3, 2, 9, 30⟩, ⟨2, 7, 14, 31⟩, ⟨1, 12, 20, 32⟩]

def round3 : List Operation :=
  [⟨0, 5, 4, 33⟩, ⟨3, 8, 11, 34⟩, ⟨2, 11, 16, 35⟩, ⟨1, 14, 23, 36⟩,
   ⟨0, 1, 4, 37⟩, ⟨3, 4, 11, 38⟩, ⟨2, 7, 16, 39⟩, ⟨1, 10, 23, 40⟩,
   ⟨0, 13, 4, 41⟩, ⟨3, 0, 11, 42⟩, ⟨2, 3, 16, 43⟩, ⟨1, 6, 23, 44⟩,
   ⟨0, 9, 4, 45⟩, ⟨3, 12, 11, 46⟩, ⟨2, 15, 16, 47⟩, ⟨1, 2, 23, 48⟩]

def round4 : List Operation :=
  [⟨0, 0, 6, 49⟩, ⟨3, 7, 10, 50⟩, ⟨2, 14, 15, 51⟩, ⟨1, 5, 21, 52⟩,
   ⟨0, 12, 6, 53⟩, ⟨3, 3, 10, 54⟩, ⟨2, 10, 15, 55⟩, ⟨1, 1, 21, 56⟩,
   ⟨0, 8, 6, 57⟩, ⟨3, 15, 10, 58⟩, ⟨2, 6, 15, 59⟩, ⟨1, 13, 21, 60⟩,
   ⟨0, 4, 6, 61⟩, ⟨3, 11, 10, 62⟩, ⟨2, 2, 15, 63⟩, ⟨1, 9, 21, 64⟩]

/-- `X[k]`, word `k` of a block. -/
def word (block : List UInt8) (k : Nat) : UInt32 := Packed.u32.ofList (block.drop (4 * k))

/-- The four rounds over one block, and the addition of the registers as they were before. -/
def compress (ρ : Registers) (block : List UInt8) : Registers :=
  let x := word block
  let ρ₁ := round1.foldl (Operation.apply F x) ρ
  let ρ₂ := round2.foldl (Operation.apply G x) ρ₁
  let ρ₃ := round3.foldl (Operation.apply H x) ρ₂
  let ρ₄ := round4.foldl (Operation.apply I x) ρ₃
  ⟨ρ.a + ρ₄.a, ρ.b + ρ₄.b, ρ.c + ρ₄.c, ρ.d + ρ₄.d⟩

/-! ## Messages -/

/-- The number of zero bytes that leave 8 bytes of a block for the length. -/
def zeros (len : Nat) : Nat := (119 - len % 64) % 64

/-- The low-order 64 bits of the length in bits. -/
def bitLength (len : Nat) : UInt64 := UInt64.ofNat (8 * len)

/-- A bit 1, the zero bits, and the length as two words, the low-order one first. -/
def pad (m : List UInt8) : List UInt8 :=
  m ++ 0x80 :: (List.replicate (zeros m.length) 0 ++ Packed.u64.bytes (bitLength m.length))

/-- The registers after the full blocks of a list. -/
def run (l : List UInt8) : Registers := (Blockwise.blocks 64 l).foldl compress init

/-- The padding completes the block that the message leaves incomplete. -/
theorem blocks_pad_short {m : List UInt8} (hlt : m.length % 64 < 56) :
    Blockwise.blocks 64 (pad m) = Blockwise.blocks 64 m ++ [Blockwise.rest 64 m ++
      0x80 :: (List.replicate (55 - m.length % 64) 0 ++ Packed.u64.bytes (bitLength m.length))] := by
  have hzeros : zeros m.length = 55 - m.length % 64 := by
    unfold zeros
    omega
  have hfull : (Blockwise.rest 64 m ++ 0x80 :: (List.replicate (55 - m.length % 64) 0 ++
      Packed.u64.bytes (bitLength m.length))).length = 64 := by
    have hbytes : (Packed.u64.bytes (bitLength m.length)).length = 8 := Packed.length_bytes ..
    simp only [List.length_append, List.length_cons, List.length_replicate, Blockwise.length_rest, hbytes]
    omega
  have happend := (Blockwise.append_full (by decide) hfull []).1
  rw [List.append_nil, Blockwise.blocks_short (l := []) (by decide)] at happend
  rw [pad, hzeros]
  exact happend

/-- With fewer than 9 bytes left in that block the length goes into another one. -/
theorem blocks_pad_long {m : List UInt8} (hle : 56 ≤ m.length % 64) :
    Blockwise.blocks 64 (pad m) = Blockwise.blocks 64 m ++
      [Blockwise.rest 64 m ++ 0x80 :: List.replicate (63 - m.length % 64) 0,
        List.replicate 56 0 ++ Packed.u64.bytes (bitLength m.length)] := by
  have hlt : m.length % 64 < 64 := Nat.mod_lt _ (by decide)
  have hzeros : zeros m.length = 63 - m.length % 64 + 56 := by
    unfold zeros
    omega
  have hfull : (Blockwise.rest 64 m ++ (0x80 : UInt8) :: List.replicate (63 - m.length % 64) 0).length
      = 64 := by
    simp only [List.length_append, List.length_cons, List.length_replicate, Blockwise.length_rest]
    omega
  have hlast : (List.replicate 56 0 ++ Packed.u64.bytes (bitLength m.length)).length = 64 := by
    rw [List.length_append, List.length_replicate, Packed.length_bytes]
    rfl
  have happend := (Blockwise.append_full (by decide) hfull
    (List.replicate 56 0 ++ Packed.u64.bytes (bitLength m.length))).1
  rw [Blockwise.blocks_one (by decide) hlast] at happend
  rw [pad, hzeros, ← List.replicate_append_replicate, List.append_assoc]
  exact happend

/-- The digest of a message. -/
def digest (m : List UInt8) : Fin 16 → UInt8 := fun i => (Packed.u32.array 4).put (run (pad m)).get i

/-- The digest of "abc". -/
example : List.ofFn (digest [97, 98, 99]) = [0x90, 0x01, 0x50, 0x98, 0x3c, 0xd2, 0x4f, 0xb0, 0xd6, 0x96,
    0x3f, 0x7d, 0x28, 0xe1, 0x7f, 0x72] := by decide +kernel

end Md5
