import Embext.Implementation.Hash
import Embext.Library.Md5
import Mathlib.Data.List.Forall2

set_option autoImplicit false

/-! # The hash is MD5

`md5_transform` moves its four variables round where RFC 1321 names the registers of each operation,
and writes the auxiliary functions another way. A context holds what the full blocks of the message so
far have come to and the rest behind them, which `md5_update` keeps for chunks of any size. -/

namespace Embext.Hash

open Md5 (Registers Operation)

variable {ρ : Registers} {v : Vars} {buffer : Fin 64 → UInt8} {g : Nat → Nat} {j : Nat} {o : Operation}

/-! ## The auxiliary functions -/

theorem bitwise_ext {x y : UInt32} (hbits : ∀ i (_ : i < 32), x.toBitVec[i] = y.toBitVec[i]) : x = y :=
  UInt32.toBitVec_inj.1 (BitVec.eq_of_getElem_eq hbits)

theorem auxF_eq (b c d : UInt32) : (c ^^^ d) &&& b ^^^ d = Md5.F b c d := by
  refine bitwise_ext fun i hi => ?_
  simp only [Md5.F, UInt32.toBitVec_xor, UInt32.toBitVec_and, UInt32.toBitVec_or, UInt32.toBitVec_not,
    BitVec.getElem_xor, BitVec.getElem_and, BitVec.getElem_or, BitVec.getElem_not]
  cases b.toBitVec[i] <;> cases c.toBitVec[i] <;> cases d.toBitVec[i] <;> rfl

theorem auxG_eq (b c d : UInt32) : (b ^^^ c) &&& d ^^^ c = Md5.G b c d := by
  refine bitwise_ext fun i hi => ?_
  simp only [Md5.G, UInt32.toBitVec_xor, UInt32.toBitVec_and, UInt32.toBitVec_or, UInt32.toBitVec_not,
    BitVec.getElem_xor, BitVec.getElem_and, BitVec.getElem_or, BitVec.getElem_not]
  cases b.toBitVec[i] <;> cases c.toBitVec[i] <;> cases d.toBitVec[i] <;> rfl

theorem auxH_eq (b c d : UInt32) : b ^^^ c ^^^ d = Md5.H b c d := rfl

theorem auxI_eq (b c d : UInt32) : c ^^^ (b ||| ~~~d) = Md5.I b c d := rfl

theorem leftrotate_eq (x : UInt32) {s : Nat} (hpos : 0 < s) (hlt : s < 32) :
    leftrotate x (UInt32.ofNat s) = Md5.rotate x s := by
  have hs : s % 32 = s := Nat.mod_eq_of_lt hlt
  have hback : (4294967296 - s % 4294967296) % 32 = 32 - s := by omega
  apply UInt32.toBitVec_inj.1
  simp [leftrotate, Md5.rotate, BitVec.rotateLeft_eq_rotateLeftAux_of_lt hlt, BitVec.rotateLeftAux, hs,
    hback]

/-! ## The operations -/

/-- The registers an operation at `place` names are the four variables. -/
structure Holds (ρ : Registers) (place : Fin 4) (v : Vars) : Prop where
  a : ρ.get place = v.a
  b : ρ.get (place + 1) = v.b
  c : ρ.get (place + 2) = v.c
  d : ρ.get (place + 3) = v.d

/-- The register that plays the part of `a` in turn `j`. -/
def place (j : Nat) : Fin 4 := Fin.ofNat 4 (3 * j)

theorem place_succ (j : Nat) : place (j + 1) = place j + 3 := by
  unfold place
  apply Fin.ext
  simp only [Fin.ofNat, Fin.val_add]
  omega

/-- The parts move on by one register with every turn. -/
theorem turned (p : Fin 4) : p + 3 + 1 = p ∧ p + 3 + 2 = p + 1 ∧ p + 3 + 3 = p + 2 := by
  revert p
  decide

theorem ne_turned (p : Fin 4) : p + 1 ≠ p ∧ p + 2 ≠ p ∧ p + 3 ≠ p := by
  revert p
  decide

/-- Turn `j` takes its word, its shift and its constant as the operation says. -/
structure Agrees (g : Nat → Nat) (j : Nat) (o : Operation) : Prop where
  register : o.a = place j
  word : o.k = g j
  word_lt : o.k < 16
  shift_pos : 0 < o.s
  shift_lt : o.s < 32
  shift : r.getD j 0 = UInt32.ofNat o.s
  constant : k.getD j 0 = Md5.table.getD (o.i - 1) 0

instance Agrees.decidable (g : Nat → Nat) : DecidableRel (Agrees g) := fun j o =>
  decidable_of_iff (o.a = place j ∧ o.k = g j ∧ o.k < 16 ∧ 0 < o.s ∧ o.s < 32 ∧
      r.getD j 0 = UInt32.ofNat o.s ∧ k.getD j 0 = Md5.table.getD (o.i - 1) 0)
    ⟨fun ⟨ha, hk, hk', hs, hs', hr, ht⟩ => ⟨ha, hk, hk', hs, hs', hr, ht⟩,
      fun ⟨ha, hk, hk', hs, hs', hr, ht⟩ => ⟨ha, hk, hk', hs, hs', hr, ht⟩⟩

theorem word_eq {k : Nat} (hk : k < 16) :
    Packed.u32.get (fun i => Window.item buffer (k * 4 + i)) = Md5.word (List.ofFn buffer) k := by
  refine Packed.u32.get_congr fun i hi => ?_
  have hi : i < 4 := hi
  have hlt : 4 * k + i < 64 := by omega
  have hpos : (k * 4 + i) % 64 = 4 * k + i := by omega
  rw [List.getD_eq_getElem?_getD, List.getElem?_drop, List.getElem?_ofFn, dif_pos hlt]
  exact congrArg buffer (Fin.ext hpos)

/-- **Step.** A turn does what an operation does. -/
theorem turn_holds (buffer : Fin 64 → UInt8) {f f' : UInt32 → UInt32 → UInt32 → UInt32}
    (hf : ∀ b c d, f b c d = f' b c d) (ho : Agrees g j o) (hholds : Holds ρ (place j) v) :
    Holds (o.apply f' (Md5.word (List.ofFn buffer)) ρ) (place (j + 1)) (turn f g buffer v j) := by
  have hword : Packed.u32.get (fun i => Window.item buffer (g j * 4 + i))
      = Md5.word (List.ofFn buffer) o.k := by
    rw [ho.word, word_eq (by rw [← ho.word]; exact ho.word_lt)]
  have hshift (x : UInt32) : leftrotate x (r.getD j 0) = Md5.rotate x o.s := by
    rw [ho.shift, leftrotate_eq x ho.shift_pos ho.shift_lt]
  have hsum (x y z : UInt32) : x + y + z = x + z + y := by
    rw [UInt32.add_assoc, UInt32.add_comm y, ← UInt32.add_assoc]
  obtain ⟨hb, hc, hd⟩ := turned (place j)
  obtain ⟨hb', hc', hd'⟩ := ne_turned (place j)
  unfold Operation.apply turn
  rw [place_succ]
  dsimp only
  rw [ho.register, hholds.a, hholds.b, hholds.c, hholds.d, hword, hshift, hf, ho.constant]
  constructor
  · rw [Md5.Registers.get_set, if_neg hd', hholds.d]
  · rw [hb, Md5.Registers.get_set, if_pos rfl, hsum]
  · rw [hc, Md5.Registers.get_set, if_neg hb', hholds.b]
  · rw [hd, Md5.Registers.get_set, if_neg hc', hholds.c]

/-- A loop does what a round does. -/
theorem round_holds (buffer : Fin 64 → UInt8) {f f' : UInt32 → UInt32 → UInt32 → UInt32}
    (hf : ∀ b c d, f b c d = f' b c d) (n : Nat) : ∀ {os : List Operation} {j : Nat} {ρ : Registers}
    {v : Vars}, List.Forall₂ (Agrees g) (List.range' j n) os → Holds ρ (place j) v →
    Holds (os.foldl (Operation.apply f' (Md5.word (List.ofFn buffer))) ρ) (place (j + n))
      ((List.range' j n).foldl (turn f g buffer) v) := by
  induction n with
  | zero =>
    intro os j ρ v hagree hholds
    obtain rfl := List.forall₂_nil_left_iff.1 hagree
    exact hholds
  | succ n ih =>
    intro os j ρ v hagree hholds
    rw [List.range'_succ] at hagree
    obtain ⟨o, os, ho, hrest, rfl⟩ := List.forall₂_cons_left_iff.1 hagree
    have hnext := ih hrest (turn_holds buffer hf ho hholds)
    rw [Nat.add_right_comm, Nat.add_assoc] at hnext
    rw [List.range'_succ]
    exact hnext

theorem round1_agrees : List.Forall₂ (Agrees fun j => j) (List.range' 0 16) Md5.round1 := by decide

theorem round2_agrees :
    List.Forall₂ (Agrees fun j => (5 * j + 1) % 16) (List.range' 16 16) Md5.round2 := by decide

theorem round3_agrees :
    List.Forall₂ (Agrees fun j => (3 * j + 5) % 16) (List.range' 32 16) Md5.round3 := by decide

theorem round4_agrees :
    List.Forall₂ (Agrees fun j => 7 * j % 16) (List.range' 48 16) Md5.round4 := by decide

/-- What the registers hold. -/
def registers (h : Fin 4 → UInt32) : Registers := ⟨h 0, h 1, h 2, h 3⟩

/-- **`md5_transform` is the compression of RFC 1321.** -/
theorem md5Transform_h (context : MdContext) : registers (md5Transform context).h =
    Md5.compress (registers context.h) (List.ofFn context.buffer) := by
  have h₀ : Holds (registers context.h) (place 0)
      ⟨context.h 0, context.h 1, context.h 2, context.h 3⟩ := ⟨rfl, rfl, rfl, rfl⟩
  have h₁ := round_holds context.buffer auxF_eq 16 round1_agrees h₀
  have h₂ := round_holds context.buffer auxG_eq 16 round2_agrees h₁
  have h₃ := round_holds context.buffer auxH_eq 16 round3_agrees h₂
  have h₄ := round_holds context.buffer auxI_eq 16 round4_agrees h₃
  -- after 64 turns the parts are where they were
  exact (Md5.Registers.mk.injEq ..).mpr ⟨congrArg (context.h 0 + ·) h₄.a.symm,
    congrArg (context.h 1 + ·) h₄.b.symm, congrArg (context.h 2 + ·) h₄.c.symm,
    congrArg (context.h 3 + ·) h₄.d.symm⟩

theorem get_registers (h : Fin 4 → UInt32) : (registers h).get = h := by
  funext i
  fin_cases i <;> rfl

/-! ## The buffer -/

section

variable {context : MdContext} {chunk : Nat → UInt8} {n : UInt64} {m : List UInt8}

@[simp] theorem length_bytesAt (p : Nat → UInt8) (n : UInt64) : (bytesAt p n).length = n.toNat := by
  simp [bytesAt]

/-- The bytes behind a pointer, and those behind the pointer moved on. -/
theorem bytesAt_split (p : Nat → UInt8) {i n : UInt64} (hle : i ≤ n) :
    bytesAt p n = bytesAt p i ++ bytesAt (fun l => p (i.toNat + l)) (n - i) := by
  have hsum : n.toNat = i.toNat + (n - i).toNat := by
    have := UInt64.le_iff_toNat_le.1 hle
    rw [UInt64.toNat_sub_of_le _ _ hle]
    omega
  unfold bytesAt
  rw [hsum, List.range_add, List.map_append, List.map_map]
  rfl

theorem store_ok {off : UInt64} {d : List UInt8} (hfit : off.toNat + d.length ≤ 64) :
    context.store off d = .ok { context with buffer := Window.patch context.buffer off.toNat d } :=
  if_pos hfit

theorem slice_store (buffer : Fin 64 → UInt8) {off : Nat} {d : List UInt8} (hfit : off + d.length ≤ 64) :
    Window.slice (Window.patch buffer off d) 0 (off + d.length) = Window.slice buffer 0 off ++ d := by
  rw [Window.slice_add, Window.slice_patch_disjoint _ (by omega) (by omega), Nat.zero_add,
    Window.slice_patch_self _ hfit]

/-- A copy that ends at the end of the buffer completes a block. -/
theorem ofFn_store (buffer : Fin 64 → UInt8) {off : Nat} {d : List UInt8} (hend : off + d.length = 64) :
    List.ofFn (Window.patch buffer off d) = Window.slice buffer 0 off ++ d := by
  rw [Window.ofFn_eq_slice, ← slice_store buffer hend.le, hend]

theorem ok_bind {α β : Type} (a : α) (f : α → Except Fault β) : (Except.ok a >>= f) = f a := rfl

/-- The loop of an update folds the full blocks of the chunk and keeps the rest in the buffer. -/
theorem md5Blocks_ok (context : MdContext) (chunk : Nat → UInt8) (n : UInt64) :
    ∃ context', md5Blocks context chunk n = .ok context' ∧
      registers context'.h
        = (Blockwise.blocks 64 (bytesAt chunk n)).foldl Md5.compress (registers context.h) ∧
      Window.slice context'.buffer 0 (n.toNat % 64) = Blockwise.rest 64 (bytesAt chunk n) ∧
      context'.count = context.count := by
  induction context, chunk, n using md5Blocks.induct with
  | case1 context chunk n hle ih =>
    have hlen : (bytesAt chunk 64).length = 64 := length_bytesAt chunk 64
    have hfill : (0 : UInt64).toNat + (bytesAt chunk 64).length = 64 := by rw [hlen]; rfl
    obtain ⟨context', hrun, hh, hrest, hcount⟩ :=
      ih { context with buffer := Window.patch context.buffer (0 : UInt64).toNat (bytesAt chunk 64) }
    have hblock := ofFn_store context.buffer hfill
    have hsplit := bytesAt_split chunk hle
    have hmod : (n - 64).toNat % 64 = n.toNat % 64 := by
      have h64 : (64 : UInt64).toNat = 64 := rfl
      have := UInt64.le_iff_toNat_le.1 hle
      rw [UInt64.toNat_sub_of_le _ _ hle]
      omega
    refine ⟨context', ?_, ?_, ?_, hcount⟩
    · rw [md5Blocks, dif_pos hle, store_ok hfill.le, ok_bind]
      exact hrun
    · rw [hh, md5Transform_h, hblock, hsplit, Blockwise.blocks_cons (by decide) hlen]
      rfl
    · rw [hmod] at hrest
      rw [hsplit, Blockwise.rest_cons (by decide) hlen]
      exact hrest
  | case2 context chunk n hlt =>
    have hshort : n.toNat < 64 := by
      have := UInt64.lt_iff_toNat_lt.1 (UInt64.not_le.1 hlt)
      exact this
    have hlen := length_bytesAt chunk n
    have hfit : (0 : UInt64).toNat + (bytesAt chunk n).length ≤ 64 := by
      rw [hlen]
      exact (Nat.zero_add _).trans_le hshort.le
    have hslice := slice_store context.buffer hfit
    refine ⟨{ context with buffer := Window.patch context.buffer _ (bytesAt chunk n) },
      by rw [md5Blocks, dif_neg hlt, store_ok hfit], ?_, ?_, rfl⟩
    · rw [Blockwise.blocks_short (by rw [hlen]; exact hshort)]
      rfl
    · rw [Blockwise.rest_short (by rw [hlen]; exact hshort), Nat.mod_eq_of_lt hshort]
      rw [hlen] at hslice
      have hzero : (0 : UInt64).toNat = 0 := rfl
      rw [hzero, Nat.zero_add] at hslice
      exact hslice

/-! ## A context and its message -/

/-- The context has taken in `m`: its full blocks are in the state and the rest is in the buffer. -/
structure Represents (context : MdContext) (m : List UInt8) : Prop where
  h : registers context.h = Md5.run m
  rest : Window.slice context.buffer 0 (m.length % 64) = Blockwise.rest 64 m
  count : context.count = UInt64.ofNat m.length

theorem md5Start_represents (context : MdContext) : Represents (md5Start context) [] :=
  ⟨rfl, rfl, rfl⟩

theorem toNat_buflen (len : Nat) : (UInt64.ofNat len &&& 63).toNat = len % 64 := by
  rw [UInt64.toNat_and, UInt64.toNat_ofNat']
  have h63 : (63 : UInt64).toNat = 2 ^ 6 - 1 := rfl
  rw [h63, Nat.and_two_pow_sub_one_eq_mod]
  omega

/-- `buflen` is the length of the rest. -/
theorem Represents.buflen (hrep : Represents context m) :
    (context.count &&& 63).toNat = m.length % 64 := by
  rw [hrep.count]
  exact toNat_buflen m.length

theorem Represents.count_add (hrep : Represents context m) (chunk : Nat → UInt8) (n : UInt64) :
    context.count + n = UInt64.ofNat (m ++ bytesAt chunk n).length := by
  apply UInt64.toNat_inj.1
  rw [hrep.count, UInt64.toNat_add, UInt64.toNat_ofNat', UInt64.toNat_ofNat', List.length_append,
    length_bytesAt]
  omega

/-- A chunk that leaves the block incomplete. -/
theorem Represents.update_short (hrep : Represents context m) (hlt : m.length % 64 + n.toNat < 64) :
    ∃ context', ({ context with count := context.count + n } : MdContext).store (context.count &&& 63)
        (bytesAt chunk n) = .ok context' ∧ Represents context' (m ++ bytesAt chunk n) := by
  have hlen := length_bytesAt chunk n
  have hshort : (Blockwise.rest 64 m ++ bytesAt chunk n).length < 64 := by
    rw [List.length_append, Blockwise.length_rest, hlen]
    exact hlt
  obtain ⟨hblocks, hrest⟩ := Blockwise.append_short (by decide) hshort
  have hfit : m.length % 64 + (bytesAt chunk n).length ≤ 64 := by
    rw [hlen]
    exact hlt.le
  have hslice := slice_store context.buffer hfit
  have hmod : (m ++ bytesAt chunk n).length % 64 = m.length % 64 + (bytesAt chunk n).length := by
    rw [List.length_append, hlen]
    omega
  refine ⟨_, store_ok (by rw [hrep.buflen]; exact hfit), ?_, ?_, hrep.count_add chunk n⟩
  · rw [Md5.run, hblocks]
    exact hrep.h
  · rw [hrest, hmod, ← hrep.rest, ← hslice, hrep.buflen]

/-- A chunk whose first bytes complete the block. -/
theorem Represents.update_long {space : UInt64} (hrep : Represents context m)
    (hspace : m.length % 64 + space.toNat = 64) (hle : space ≤ n) :
    ∃ context', (do
        let filled ← ({ context with count := context.count + n } : MdContext).store
          (context.count &&& 63) (bytesAt chunk space)
        md5Blocks (md5Transform filled) (fun i => chunk (space.toNat + i)) (n - space)) = .ok context' ∧
      Represents context' (m ++ bytesAt chunk n) := by
  have hfill : m.length % 64 + (bytesAt chunk space).length = 64 := by
    rw [length_bytesAt]
    exact hspace
  have hfull : (Blockwise.rest 64 m ++ bytesAt chunk space).length = 64 := by
    rw [List.length_append, Blockwise.length_rest]
    exact hfill
  have hblock := ofFn_store context.buffer hfill
  rw [hrep.rest] at hblock
  -- the chunk is the bytes that complete the block and those behind them
  have hsplit := bytesAt_split chunk hle
  have hlen : (m ++ bytesAt chunk n).length % 64 = (n - space).toNat % 64 := by
    have := UInt64.le_iff_toNat_le.1 hle
    rw [List.length_append, length_bytesAt, UInt64.toNat_sub_of_le _ _ hle]
    omega
  have hcount := hrep.count_add chunk n
  rw [hsplit] at hlen hcount ⊢
  obtain ⟨hblocks, hrest⟩ := Blockwise.append_full (by decide) hfull
    (bytesAt (fun i => chunk (space.toNat + i)) (n - space))
  rw [store_ok (by rw [hrep.buflen]; exact hfill.le), ok_bind, hrep.buflen]
  obtain ⟨context', hrun, hh, hslice, hkept⟩ := md5Blocks_ok (md5Transform
    { context with
      buffer := Window.patch context.buffer (m.length % 64) (bytesAt chunk space)
      count := context.count + n }) (fun i => chunk (space.toNat + i)) (n - space)
  refine ⟨context', hrun, ?_, ?_, hkept.trans hcount⟩
  · rw [hh, md5Transform_h, hblock, Md5.run, hblocks, List.foldl_append, List.foldl_cons]
    exact congrArg (fun ρ => List.foldl _ (Md5.compress ρ _) _) hrep.h
  · rw [hlen, hslice, hrest]

/-- **Update.** A chunk of any size is taken in. -/
theorem md5Update_represents (hrep : Represents context m) (chunk : Nat → UInt8)
    (hsize : n.toNat + 64 ≤ 2 ^ 64) :
    ∃ context', md5Update context chunk n = .ok context' ∧
      Represents context' (m ++ bytesAt chunk n) := by
  have hlt : m.length % 64 < 64 := Nat.mod_lt _ (by decide)
  have h64 : (64 : UInt64).toNat = 64 := rfl
  have hbuflen := hrep.buflen
  have hsum : ((context.count &&& 63) + n).toNat = m.length % 64 + n.toNat := by
    rw [UInt64.toNat_add, hbuflen]
    omega
  unfold md5Update
  dsimp only
  by_cases hshort : (context.count &&& 63) + n < 64
  · rw [if_pos hshort]
    refine hrep.update_short ?_
    rw [← hsum]
    exact UInt64.lt_iff_toNat_lt.1 hshort
  · rw [if_neg hshort]
    have hspace : (64 - (context.count &&& 63)).toNat = 64 - m.length % 64 := by
      rw [UInt64.toNat_sub_of_le _ _ (UInt64.le_iff_toNat_le.2 (by omega)), hbuflen, h64]
    refine hrep.update_long (by omega) (UInt64.le_iff_toNat_le.2 ?_)
    have hlong := UInt64.le_iff_toNat_le.1 (UInt64.not_lt.1 hshort)
    omega

/-! ## The end of the message -/

/-- The beginning of the buffer is the beginning of the block. -/
theorem slice_eq_take {len : Nat} (hle : len ≤ 64) :
    Window.slice buffer 0 len = (List.ofFn buffer).take len := by
  have hwhole : List.ofFn buffer
      = Window.slice buffer 0 len ++ Window.slice buffer (0 + len) (64 - len) := by
    rw [Window.ofFn_eq_slice, ← Window.slice_add, Nat.add_sub_cancel' hle]
  rw [hwhole, List.take_left' (Window.length_slice ..)]

/-- The length goes behind the first 56 bytes of the last block. -/
theorem md5Finish_last (block : List UInt8) (hblock : (List.ofFn context.buffer).take 56 = block)
    (hcount : context.count * 8 = Md5.bitLength m.length)
    (hlast : Md5.compress (registers context.h) (block ++ Packed.u64.bytes (Md5.bitLength m.length))
      = Md5.run (Md5.pad m)) :
    ∃ context', (do
        let context ← context.store 56 (Packed.u64.bytes (context.count * 8))
        let context := md5Transform context
        pure { context with digest := fun i => (Packed.u32.array 4).put context.h i }) = .ok context' ∧
      context'.digest = Md5.digest m := by
  have hbytes : (Packed.u64.bytes (Md5.bitLength m.length)).length = 8 := Packed.length_bytes ..
  have hend : (56 : UInt64).toNat + (Packed.u64.bytes (Md5.bitLength m.length)).length = 64 := by
    rw [hbytes]
    rfl
  rw [hcount, store_ok hend.le, ok_bind]
  refine ⟨_, rfl, ?_⟩
  have hh := md5Transform_h { context with
    buffer := Window.patch context.buffer (56 : UInt64).toNat
      (Packed.u64.bytes (Md5.bitLength m.length)) }
  dsimp only at hh ⊢
  rw [ofFn_store _ hend, slice_eq_take (by decide)] at hh
  unfold Md5.digest
  rw [← hlast, ← hblock, ← get_registers (md5Transform _).h, hh]
  rfl

theorem Represents.bitcount (hrep : Represents context m) :
    context.count * 8 = Md5.bitLength m.length := by
  apply UInt64.toNat_inj.1
  have h8 : (8 : UInt64).toNat = 8 := rfl
  rw [hrep.count, Md5.bitLength, UInt64.toNat_mul, UInt64.toNat_ofNat', UInt64.toNat_ofNat', h8]
  omega

/-- The buffer after the bit 1 and the zero bytes behind it. -/
theorem Represents.ofFn_marked (hrep : Represents context m) :
    List.ofFn (Window.patch (Window.patch context.buffer (m.length % 64) [0x80]) (m.length % 64 + 1)
      (List.replicate (63 - m.length % 64) 0))
        = Blockwise.rest 64 m ++ 0x80 :: List.replicate (63 - m.length % 64) 0 := by
  have hlt : m.length % 64 < 64 := Nat.mod_lt _ (by decide)
  have hfit : m.length % 64 + [(0x80 : UInt8)].length ≤ 64 := by
    rw [List.length_singleton]
    omega
  have hmark := slice_store context.buffer hfit
  rw [List.length_singleton, hrep.rest] at hmark
  rw [ofFn_store _ (by rw [List.length_replicate]; omega), hmark, List.append_assoc]
  rfl

/-- **Finish.** The digest is that of the message. -/
theorem md5Finish_digest (hrep : Represents context m) :
    ∃ context', md5Finish context = .ok context' ∧ context'.digest = Md5.digest m := by
  have hlt : m.length % 64 < 64 := Nat.mod_lt _ (by decide)
  have hbuflen := hrep.buflen
  have hnext : ((context.count &&& 63) + 1).toNat = m.length % 64 + 1 := by
    rw [UInt64.toNat_add, hbuflen]
    have h1 : (1 : UInt64).toNat = 1 := rfl
    omega
  have hspace : (64 - ((context.count &&& 63) + 1)).toNat = 63 - m.length % 64 := by
    have h64 : (64 : UInt64).toNat = 64 := rfl
    rw [UInt64.toNat_sub_of_le _ _ (UInt64.le_iff_toNat_le.2 (by omega)), hnext, h64]
    omega
  have hmarked := hrep.ofFn_marked
  unfold md5Finish
  dsimp only
  rw [store_ok (by rw [hbuflen, List.length_singleton]; omega), ok_bind,
    store_ok (by rw [hnext, List.length_replicate, hspace]; omega), ok_bind, hspace, hnext, hbuflen]
  by_cases hlong : 56 < (context.count &&& 63) + 1
  · have h56 : 56 ≤ m.length % 64 := by
      have := UInt64.lt_iff_toNat_lt.1 hlong
      have h56 : (56 : UInt64).toNat = 56 := rfl
      omega
    have hzeros : (0 : UInt64).toNat + (List.replicate 64 (0 : UInt8)).length = 64 := by
      rw [List.length_replicate]
      rfl
    rw [if_pos hlong, store_ok hzeros.le, ok_bind]
    refine md5Finish_last (List.replicate 56 0) ?_ hrep.bitcount ?_
    · dsimp only
      rw [ofFn_store _ hzeros]
      rfl
    · dsimp only
      rw [md5Transform_h, hmarked, hrep.h, Md5.run, Md5.run, Md5.blocks_pad_long h56, List.foldl_append]
      rfl
  · have h56 : m.length % 64 < 56 := by
      have := UInt64.le_iff_toNat_le.1 (UInt64.not_lt.1 hlong)
      have h56 : (56 : UInt64).toNat = 56 := rfl
      omega
    have htake : (Blockwise.rest 64 m ++ 0x80 :: List.replicate (63 - m.length % 64) 0).take 56
        = Blockwise.rest 64 m ++ 0x80 :: List.replicate (55 - m.length % 64) 0 := by
      have hcut : 63 - m.length % 64 = 55 - m.length % 64 + 8 := by omega
      rw [hcut, ← List.replicate_append_replicate, ← List.cons_append, ← List.append_assoc]
      refine List.take_left' ?_
      simp only [List.length_append, List.length_cons, List.length_replicate, Blockwise.length_rest]
      omega
    rw [if_neg hlong, pure_bind]
    rw [← hmarked] at htake
    refine md5Finish_last _ htake hrep.bitcount ?_
    dsimp only
    rw [hrep.h, Md5.run, Md5.run, Md5.blocks_pad_short h56, List.foldl_append, List.append_assoc]
    rfl

/-! ## Whole messages -/

theorem bytesAt_congr {p q : Nat → UInt8} (hsame : ∀ i < n.toNat, p i = q i) :
    bytesAt p n = bytesAt q n :=
  List.map_congr_left fun i hi => hsame i (List.mem_range.1 hi)

theorem bytesAt_list {chunk : List UInt8} (hlt : chunk.length < 2 ^ 64) :
    bytesAt (fun i => chunk.getD i 0) (UInt64.ofNat chunk.length) = chunk := by
  have hlen := length_bytesAt (fun i => chunk.getD i 0) (UInt64.ofNat chunk.length)
  rw [UInt64.toNat_ofNat_of_lt' hlt] at hlen
  refine List.ext_getElem hlen fun i h₁ h₂ => ?_
  simp [bytesAt, h₂]

/-- Chunks are taken in one after the other. -/
theorem md5Chunks_represents (chunks : List (List UInt8)) : ∀ {context : MdContext} {m : List UInt8},
    Represents context m → (∀ chunk ∈ chunks, chunk.length < 2 ^ 61) →
    ∃ context', chunks.foldlM (fun context chunk =>
        md5Update context (fun i => chunk.getD i 0) (UInt64.ofNat chunk.length)) context = .ok context' ∧
      Represents context' (m ++ chunks.flatten) := by
  induction chunks with
  | nil =>
    intro context m hrep _
    rw [List.flatten_nil, List.append_nil]
    exact ⟨context, rfl, hrep⟩
  | cons chunk chunks ih =>
    intro context m hrep hsize
    have hlt := hsize chunk List.mem_cons_self
    have htoNat : (UInt64.ofNat chunk.length).toNat = chunk.length :=
      UInt64.toNat_ofNat_of_lt' (by show _ < 2 ^ 64; omega)
    obtain ⟨context₁, hrun₁, hrep₁⟩ := md5Update_represents
      (n := UInt64.ofNat chunk.length) hrep (fun i => chunk.getD i 0) (by omega)
    rw [bytesAt_list (by omega)] at hrep₁
    obtain ⟨context₂, hrun₂, hrep₂⟩ := ih hrep₁ fun c hc => hsize c (List.mem_cons_of_mem _ hc)
    rw [List.foldlM_cons, hrun₁, ok_bind, List.flatten_cons, ← List.append_assoc]
    exact ⟨context₂, hrun₂, hrep₂⟩

theorem copyToBuffer_ok (buffer p : Nat → UInt8) (hle : n ≤ bufsize) :
    ∃ copied, copyToBuffer buffer p n = .ok copied ∧ bytesAt copied n = bytesAt p n := by
  refine ⟨fun i => if i < n.toNat then p i else buffer i, if_pos hle, ?_⟩
  exact bytesAt_congr fun i hi => if_pos hi

/-- The pieces of `md5_memory` are taken in one after the other. -/
theorem md5Pieces_represents (mem : Nat → UInt8) (context : MdContext) (buffer : Nat → UInt8)
    (len offs : UInt64) (hrep : Represents context m) (hend : offs.toNat + len.toNat < 2 ^ 64) :
    ∃ context', md5Pieces context buffer mem len offs = .ok context' ∧
      Represents context' (m ++ bytesAt (fun i => mem (offs.toNat + i)) len) := by
  have hsize : bufsize.toNat = 1048576 := rfl
  induction context, buffer, len, offs using md5Pieces.induct generalizing m with
  | case1 context buffer len offs hlt ih =>
    have hle := UInt64.le_of_lt hlt
    have hle' := UInt64.le_iff_toNat_le.1 hle
    have hnext : (offs + bufsize).toNat = offs.toNat + bufsize.toNat := by
      rw [UInt64.toNat_add]
      omega
    have hleft : (len - bufsize).toNat = len.toNat - bufsize.toNat := UInt64.toNat_sub_of_le _ _ hle
    obtain ⟨copied, hcopy, hbytes⟩ := copyToBuffer_ok buffer
      (fun i => mem (offs.toNat + i)) (UInt64.le_refl bufsize)
    obtain ⟨context₁, hrun₁, hrep₁⟩ := md5Update_represents (n := bufsize) hrep copied
      (by omega)
    obtain ⟨context₂, hrun₂, hrep₂⟩ := ih copied context₁ hrep₁ (by omega)
    rw [md5Pieces, dif_pos hlt, hcopy, ok_bind, hrun₁, ok_bind]
    refine ⟨context₂, hrun₂, ?_⟩
    rw [bytesAt_split _ hle, ← hbytes, ← List.append_assoc]
    simp only [hnext, Nat.add_assoc] at hrep₂
    exact hrep₂
  | case2 context buffer len offs hle =>
    obtain ⟨copied, hcopy, hbytes⟩ := copyToBuffer_ok buffer
      (fun i => mem (offs.toNat + i)) (UInt64.not_lt.1 hle)
    have hle' := UInt64.le_iff_toNat_le.1 (UInt64.not_lt.1 hle)
    obtain ⟨context₁, hrun₁, hrep₁⟩ := md5Update_represents (n := len) hrep copied
      (by omega)
    rw [md5Pieces, dif_neg hle, hcopy, ok_bind]
    rw [hbytes] at hrep₁
    exact ⟨context₁, hrun₁, hrep₁⟩

theorem md5Stream_ok (context : MdContext) {chunks : List (List UInt8)}
    (hlen : chunks.flatten.length < 2 ^ 61) :
    md5Stream context chunks = .ok (Md5.digest chunks.flatten) := by
  have hsize : ∀ chunk ∈ chunks, chunk.length < 2 ^ 61 := fun chunk hmem =>
    lt_of_le_of_lt (List.sublist_flatten_of_mem hmem).length_le hlen
  obtain ⟨context₁, hrun₁, hrep⟩ := md5Chunks_represents chunks (md5Start_represents context) hsize
  obtain ⟨context₂, hrun₂, hdigest⟩ := md5Finish_digest hrep
  rw [List.nil_append] at hdigest
  rw [md5Stream, hrun₁, ok_bind, hrun₂, ok_bind, ← hdigest]
  rfl

theorem md5Memory_ok (context : MdContext) (buffer mem : Nat → UInt8) (len : UInt64) :
    md5Memory context buffer mem len = .ok (0, Md5.digest (bytesAt mem len)) := by
  have hend : (0 : UInt64).toNat + len.toNat < 2 ^ 64 := by
    rw [UInt64.toNat_zero, Nat.zero_add]
    exact len.toNat_lt
  obtain ⟨context₁, hrun₁, hrep⟩ :=
    md5Pieces_represents mem (md5Start context) buffer len 0 (md5Start_represents context) hend
  obtain ⟨context₂, hrun₂, hdigest⟩ := md5Finish_digest hrep
  have hbytes : bytesAt (fun i => mem ((0 : UInt64).toNat + i)) len = bytesAt mem len :=
    bytesAt_congr fun i _ => by rw [UInt64.toNat_zero, Nat.zero_add]
  rw [List.nil_append, hbytes] at hdigest
  rw [md5Memory, hrun₁, ok_bind, hrun₂, ok_bind, ← hdigest]
  rfl

/-- **MD5.** A message below 2^61 bytes in any chunks, and any range of memory, is given the digest that
    RFC 1321 defines for it. -/
theorem md5_correct (context : MdContext) (buffer : Nat → UInt8) :
    (∀ chunks : List (List UInt8), chunks.flatten.length < 2 ^ 61 →
      md5Stream context chunks = .ok (Md5.digest chunks.flatten)) ∧
    ∀ (mem : Nat → UInt8) (len : UInt64),
      md5Memory context buffer mem len = .ok (0, Md5.digest (bytesAt mem len)) :=
  ⟨fun _ hlen => md5Stream_ok context hlen, md5Memory_ok context buffer⟩

/-- Three chunks, one of them empty. -/
theorem md5_correct_abc : md5Stream ⟨fun _ => 0, fun _ => 0, 0, fun _ => 0⟩ [[97], [], [98, 99]]
    = .ok (Md5.digest [97, 98, 99]) :=
  (md5_correct ⟨fun _ => 0, fun _ => 0, 0, fun _ => 0⟩ fun _ => 0).1 [[97], [], [98, 99]] (by decide)

/-! ## The image -/

/-- `block_pc_hash` sums a range of the image. -/
theorem blockPcHash_ok (context : MdContext) (buffer : Nat → UInt8) {img : BlockPc.Image}
    {start len : UInt64} (hin : start.toNat + len.toNat ≤ img.size) :
    blockPcHash context buffer img start len
      = .ok (0, Md5.digest (bytesAt (fun i => img.byte (start.toNat + i)) len)) := by
  rw [blockPcHash, if_pos hin]
  exact md5Memory_ok context buffer _ len

/-- `block_pc_hash_all` sums the image. -/
theorem blockPcHashAll_ok (context : MdContext) (buffer : Nat → UInt8) {img : BlockPc.Image}
    (hsize : img.size < 2 ^ 64) :
    blockPcHashAll context buffer img = .ok (0, Md5.digest ((List.range img.size).map img.byte)) := by
  have hall : bytesAt img.byte (UInt64.ofNat img.size) = (List.range img.size).map img.byte := by
    rw [bytesAt, UInt64.toNat_ofNat_of_lt' hsize]
  rw [blockPcHashAll, md5Memory_ok, hall]

/-! ## A file -/

section

variable {buffer : Nat → UInt8} {rest : List UInt8}

/-- A read takes off what it puts into the buffer. -/
theorem bytesAt_fread (buffer : Nat → UInt8) (rest : List UInt8) :
    bytesAt (fread buffer rest).1 (fread buffer rest).2.1 ++ (fread buffer rest).2.2 = rest := by
  have hle : min bufsize.toNat rest.length ≤ 1048576 := Nat.min_le_left _ _
  have hl : (UInt64.ofNat (min bufsize.toNat rest.length)).toNat = min bufsize.toNat rest.length :=
    UInt64.toNat_ofNat_of_lt' (show _ < 2 ^ 64 by omega)
  have htake : bytesAt (fread buffer rest).1 (fread buffer rest).2.1
      = rest.take (min bufsize.toNat rest.length) := by
    refine List.ext_getElem (by simp [fread, hl]) fun i h₁ h₂ => ?_
    rw [List.length_take] at h₂
    have hi : i < rest.length := by omega
    simp [bytesAt, fread, hi]
    omega
  rw [htake]
  exact List.take_append_drop _ rest

/-- A read that is not full is the last. -/
theorem fread_last (hlast : (fread buffer rest).2.1 ≠ bufsize) : (fread buffer rest).2.2 = [] := by
  have hsize : bufsize.toNat = 1048576 := rfl
  by_cases hlong : bufsize.toNat ≤ rest.length
  · refine absurd ?_ hlast
    simp only [fread, Nat.min_eq_left hlong]
    exact UInt64.ofNat_toNat
  · exact List.drop_eq_nil_of_le (by omega)

theorem toNat_fread_le (buffer : Nat → UInt8) (rest : List UInt8) :
    (fread buffer rest).2.1.toNat ≤ 1048576 := by
  have hle : min bufsize.toNat rest.length ≤ 1048576 := Nat.min_le_left _ _
  rw [fread, UInt64.toNat_ofNat_of_lt' (show _ < 2 ^ 64 by omega)]
  exact hle

/-- The pieces of `md5_file` are taken in one after the other. -/
theorem md5FilePieces_represents (context : MdContext) (buffer : Nat → UInt8) (rest : List UInt8)
    (hrep : Represents context m) :
    ∃ context', md5FilePieces context buffer rest = .ok context' ∧ Represents context' (m ++ rest) := by
  induction context, buffer, rest using md5FilePieces.induct generalizing m with
  | case1 context buffer rest hfull ih =>
    obtain ⟨context₁, hrun₁, hrep₁⟩ :=
      md5Update_represents (n := bufsize) hrep (fread buffer rest).1 (by decide)
    obtain ⟨context₂, hrun₂, hrep₂⟩ := ih context₁ hrep₁
    refine ⟨context₂, ?_, ?_⟩
    · rw [md5FilePieces, dif_pos hfull, hrun₁, ok_bind]
      exact hrun₂
    · rw [List.append_assoc, ← hfull, bytesAt_fread] at hrep₂
      exact hrep₂
  | case2 context buffer rest hlast =>
    have hle := toNat_fread_le buffer rest
    obtain ⟨context₁, hrun₁, hrep₁⟩ :=
      md5Update_represents (n := (fread buffer rest).2.1) hrep (fread buffer rest).1 (by omega)
    refine ⟨context₁, ?_, ?_⟩
    · rw [md5FilePieces, dif_neg hlast]
      exact hrun₁
    · have hall := bytesAt_fread buffer rest
      rw [fread_last hlast, List.append_nil] at hall
      rw [hall] at hrep₁
      exact hrep₁

/-- `md5_file` sums a file of any length. -/
theorem md5File_ok (context : MdContext) (buffer : Nat → UInt8)
    {files : BlockPc.FileName → Option (List UInt8)} {path : BlockPc.FileName} {bytes : List UInt8}
    (hfile : files path = some bytes) :
    md5File context buffer files path = .ok (0, some (Md5.digest bytes)) := by
  obtain ⟨context₁, hrun₁, hrep⟩ :=
    md5FilePieces_represents (md5Start context) buffer bytes (md5Start_represents context)
  obtain ⟨context₂, hrun₂, hdigest⟩ := md5Finish_digest hrep
  rw [List.nil_append] at hdigest
  unfold md5File
  rw [hfile]
  dsimp only
  rw [hrun₁, ok_bind, hrun₂, ok_bind, ← hdigest]
  rfl

end

end

end Embext.Hash
