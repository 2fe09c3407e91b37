import Embext.Implementation.BlockPc
import Mathlib.Logic.Function.Basic

set_option autoImplicit false

/-! # The image driver and the sector array

What a block driver is for: an array of sectors, where a call on a number past the end fails and
changes nothing. The image driver is that array for the block numbers it addresses without wrapping
around, and for no others. -/

namespace Embext.BlockPc

/-! ## The sector array -/

/-- An array of sectors; only the first `count` can be addressed. -/
structure SectorArray where
  count : Nat
  sector : UInt32 → Sector

/-- One call on the array. -/
def SectorArray.exec : Op → SectorArray → Reply × SectorArray
  | .read block buffer, a =>
    if block.toNat < a.count then ((0, a.sector block), a) else ((-1, buffer), a)
  | .write block buffer, a =>
    if block.toNat < a.count then
      ((0, buffer), { a with sector := Function.update a.sector block buffer })
    else ((-1, buffer), a)

def SectorArray.run : List Op → SectorArray → List Reply × SectorArray
  | [], a => ([], a)
  | op :: rest, a =>
    let (reply, a) := SectorArray.exec op a
    let (replies, a) := SectorArray.run rest a
    (reply :: replies, a)

/-- The whole sectors of an image. -/
def Image.sectors (img : Image) : SectorArray where
  count := (blockGetVolumeSize img).toNat
  sector block k := img.byte (block.toNat * 512 + k)

/-- Two images of one size with the same bytes past the last whole sector. -/
structure SameTail (img img' : Image) : Prop where
  size : img'.size = img.size
  tail : ∀ p, img.size / 512 * 512 ≤ p → img'.byte p = img.byte p

/-- The calls on the image return what they return on its array of sectors, and leave the image with
    the array's sectors, its size and its bytes past the last whole sector. -/
def ActsAsArray (ops : List Op) (img : Image) : Prop :=
  ∃ replies img', run ops img = .ok (replies, img') ∧
    SectorArray.run ops img.sectors = (replies, img'.sectors) ∧ SameTail img img'

/-- The block numbers for which the 32-bit arithmetic of the driver tells the truth: those of the
    volume, and those that still lie past the image after wrapping around. -/
def Image.Addresses (img : Image) (block : UInt32) : Prop :=
  block.toNat < img.size / 512 ∨ (img.size + 1) / 512 ≤ block.toNat % 2 ^ 23

variable {img : Image} {block : UInt32} {buffer : Sector}

theorem sectors_count (hsize : img.size < 2 ^ 31) : img.sectors.count = img.size / 512 :=
  UInt32.toNat_ofNat_of_lt' (by
    show img.size / 512 < 2 ^ 32
    omega)

/-! ## One call -/

theorem refuses_iff (hsize : img.size < 2 ^ 31) :
    refuses img block = true ↔ (img.size + 1) / 512 ≤ block.toNat % 2 ^ 23 := by
  have hb := block.toNat_lt
  unfold refuses
  rw [decide_eq_true_iff, UInt32.toNat_sub, UInt32.toNat_mul, UInt32.toNat_add]
  have h1 : (1 : UInt32).toNat = 1 := rfl
  have h512 : (512 : UInt32).toNat = 512 := rfl
  rw [h1, h512]
  omega

theorem address_eq (block : UInt32) : address block = block.toNat % 2 ^ 23 * 512 := by
  have h512 : (512 : UInt32).toNat = 512 := rfl
  unfold address
  rw [UInt32.toNat_mul, h512]
  omega

/-- A block of the volume is not refused, and its address is inside the image. -/
theorem address_of_lt (hsize : img.size < 2 ^ 31) (hb : block.toNat < img.size / 512) :
    refuses img block = false ∧ address block = block.toNat * 512 ∧
      address block + 512 ≤ img.size := by
  have hmod : block.toNat % 2 ^ 23 = block.toNat := Nat.mod_eq_of_lt (by omega)
  have haddr : address block = block.toNat * 512 := by rw [address_eq, hmod]
  refine ⟨?_, haddr, by rw [haddr]; omega⟩
  rw [← Bool.not_eq_true, refuses_iff hsize, hmod]
  omega

/-- Writing a block of the volume updates its sector and nothing else. -/
theorem sectors_put (img : Image) (block : UInt32) (buffer : Sector) :
    (img.put (block.toNat * 512) buffer).sectors
      = { img.sectors with sector := Function.update img.sectors.sector block buffer } := by
  unfold Image.sectors Image.put
  congr 1
  funext b k
  have hk := k.isLt
  by_cases heq : b = block
  · subst heq
    have hin : b.toNat * 512 ≤ b.toNat * 512 + k ∧ b.toNat * 512 + k - b.toNat * 512 < 512 := by
      omega
    rw [Function.update_self]
    dsimp only
    rw [dif_pos hin]
    congr 1
    apply Fin.ext
    change b.toNat * 512 + k - b.toNat * 512 = k
    omega
  · have hne : b.toNat ≠ block.toNat := fun h => heq (UInt32.toNat_inj.1 h)
    have hout : ¬ (block.toNat * 512 ≤ b.toNat * 512 + k ∧
        b.toNat * 512 + k - block.toNat * 512 < 512) := by
      omega
    rw [Function.update_of_ne heq]
    dsimp only
    rw [dif_neg hout]

theorem blockRead_volume (hsize : img.size < 2 ^ 31) (hb : block.toNat < img.size / 512) :
    blockRead img block buffer = .ok (0, img.sectors.sector block) := by
  obtain ⟨hpass, haddr, hfit⟩ := address_of_lt hsize hb
  unfold blockRead
  rw [hpass, if_neg (by decide), if_pos hfit, haddr]
  rfl

theorem blockWrite_volume (hsize : img.size < 2 ^ 31) (hb : block.toNat < img.size / 512) :
    blockWrite img block buffer = .ok (0, img.put (block.toNat * 512) buffer) := by
  obtain ⟨hpass, haddr, hfit⟩ := address_of_lt hsize hb
  unfold blockWrite
  rw [hpass, if_neg (by decide), if_pos hfit, haddr]

/-- A call that is not refused returns 0, if it returns. -/
theorem exec_passed {op : Op} (hpass : refuses img op.block = false) {reply : Reply} {img' : Image}
    (hrun : exec op img = .ok (reply, img')) : reply.1 = 0 := by
  cases op with
  | read block buffer =>
    have hpass' : refuses img block = false := hpass
    by_cases hfit : address block + 512 ≤ img.size
    · simp [exec, blockRead, hpass', hfit, bind, Except.bind, pure, Except.pure] at hrun
      rw [← hrun.1]
    · simp [exec, blockRead, hpass', hfit, bind, Except.bind] at hrun
  | write block buffer =>
    have hpass' : refuses img block = false := hpass
    by_cases hfit : address block + 512 ≤ img.size
    · simp [exec, blockWrite, hpass', hfit, bind, Except.bind, pure, Except.pure] at hrun
      rw [← hrun.1]
    · simp [exec, blockWrite, hpass', hfit, bind, Except.bind] at hrun

/-- A refused call changes nothing. -/
theorem exec_refused (op : Op) (hrefuse : refuses img op.block = true) : ∃ buffer,
    exec op img = .ok ((-1, buffer), img) ∧
      ∀ a : SectorArray, a.count ≤ op.block.toNat → SectorArray.exec op a = ((-1, buffer), a) := by
  cases op with
  | read block buffer =>
    have hrefuse' : refuses img block = true := hrefuse
    refine ⟨buffer, ?_, fun a ha => ?_⟩
    · simp [exec, blockRead, hrefuse', bind, Except.bind, pure, Except.pure]
    · exact if_neg (Nat.not_lt.2 ha)
  | write block buffer =>
    have hrefuse' : refuses img block = true := hrefuse
    refine ⟨buffer, ?_, fun a ha => ?_⟩
    · simp [exec, blockWrite, hrefuse', bind, Except.bind, pure, Except.pure]
    · exact if_neg (Nat.not_lt.2 ha)

/-- A call on a number the driver addresses truly is the call on the array. -/
theorem exec_addresses (hsize : img.size < 2 ^ 31) (op : Op) (hop : img.Addresses op.block) :
    ∃ reply img', exec op img = .ok (reply, img') ∧
      SectorArray.exec op img.sectors = (reply, img'.sectors) ∧ SameTail img img' := by
  rcases hop with hin | hout
  · have hcount : op.block.toNat < img.sectors.count := (sectors_count hsize).symm ▸ hin
    cases op with
    | read block buffer =>
      have hin' : block.toNat < img.size / 512 := hin
      refine ⟨_, _, ?_, if_pos hcount, ⟨rfl, fun p _ => rfl⟩⟩
      rw [exec, blockRead_volume hsize hin']
      rfl
    | write block buffer =>
      have hin' : block.toNat < img.size / 512 := hin
      refine ⟨(0, buffer), img.put (block.toNat * 512) buffer, ?_, ?_, ⟨rfl, fun p hp => ?_⟩⟩
      · rw [exec, blockWrite_volume hsize hin']
        rfl
      · rw [sectors_put]
        exact if_pos hcount
      · -- the bytes past the last whole sector belong to no block of the volume
        exact dif_neg (by omega)
  · obtain ⟨buffer, hexec, harray⟩ := exec_refused op ((refuses_iff hsize).2 hout)
    have hle := Nat.mod_le op.block.toNat (2 ^ 23)
    have hpast : img.sectors.count ≤ op.block.toNat := by
      rw [sectors_count hsize]
      omega
    exact ⟨_, img, hexec, harray _ hpast, ⟨rfl, fun p _ => rfl⟩⟩

/-- On any other number a call that returns does not fail where the array does. -/
theorem exec_not_addresses (hsize : img.size < 2 ^ 31) {op : Op} (hop : ¬ img.Addresses op.block)
    {reply : Reply} {img' : Image} (hrun : exec op img = .ok (reply, img')) :
    reply.1 ≠ (SectorArray.exec op img.sectors).1.1 := by
  have hpass : refuses img op.block = false := by
    rw [← Bool.not_eq_true]
    exact fun h => hop (.inr ((refuses_iff hsize).1 h))
  have hpast : ¬ op.block.toNat < img.sectors.count := fun h => hop (.inl (sectors_count hsize ▸ h))
  have harray : (SectorArray.exec op img.sectors).1.1 = -1 := by
    cases op with
    | read block buffer =>
      rw [SectorArray.exec, if_neg (show ¬ block.toNat < img.sectors.count from hpast)]
    | write block buffer =>
      rw [SectorArray.exec, if_neg (show ¬ block.toNat < img.sectors.count from hpast)]
  rw [exec_passed hpass hrun, harray]
  decide

/-! ## Runs -/

theorem run_cons_ok {op : Op} {rest : List Op} {replies : List Reply} {img' : Image} :
    run (op :: rest) img = .ok (replies, img') ↔ ∃ reply img₁ later, exec op img = .ok (reply, img₁) ∧
      run rest img₁ = .ok (later, img') ∧ replies = reply :: later := by
  rcases hexec : exec op img with e | ⟨reply, img₁⟩
  · simp [run, hexec, bind, Except.bind]
  · rcases hrest : run rest img₁ with e | ⟨later, img₂⟩
    · simp [run, hexec, hrest, bind, Except.bind]
    · simp only [run, hexec, hrest, bind, Except.bind, pure, Except.pure, Except.ok.injEq,
        Prod.mk.injEq]
      constructor
      · rintro ⟨rfl, rfl⟩
        exact ⟨reply, img₁, later, ⟨rfl, rfl⟩, by rw [hrest], rfl⟩
      · rintro ⟨_, _, _, ⟨rfl, rfl⟩, hlater, rfl⟩
        rw [hrest] at hlater
        cases hlater
        exact ⟨rfl, rfl⟩

theorem SameTail.trans {img₁ img₂ img₃ : Image} (h₁ : SameTail img₁ img₂) (h₂ : SameTail img₂ img₃) :
    SameTail img₁ img₃ :=
  ⟨h₂.size.trans h₁.size, fun p hp => (h₂.tail p (by rwa [h₁.size])).trans (h₁.tail p hp)⟩

theorem SameTail.addresses {img' : Image} (h : SameTail img img') (block : UInt32) :
    img'.Addresses block ↔ img.Addresses block := by
  unfold Image.Addresses
  rw [h.size]

/-- **The image driver is a sector array** exactly on the block numbers it addresses truly. -/
theorem actsAsArray_iff (ops : List Op) : ∀ {img : Image}, img.size < 2 ^ 31 →
    (ActsAsArray ops img ↔ ∀ op ∈ ops, img.Addresses op.block) := by
  induction ops with
  | nil =>
    exact fun {img} _ => ⟨fun _ op hop => absurd hop (by simp), fun _ =>
      ⟨[], img, rfl, rfl, ⟨rfl, fun _ _ => rfl⟩⟩⟩
  | cons op rest ih =>
    intro img hsize
    constructor
    · rintro ⟨replies, img', hrun, harray, htail⟩
      obtain ⟨reply, img₁, later, hexec, hrest, rfl⟩ := run_cons_ok.1 hrun
      by_cases hop : img.Addresses op.block
      · -- the first call agrees, so the rest of the run does from the image it left
        obtain ⟨reply', img₁', hexec', harray', htail'⟩ := exec_addresses hsize op hop
        rw [hexec] at hexec'
        cases hexec'
        rw [SectorArray.run, harray'] at harray
        simp only [Prod.mk.injEq, List.cons.injEq, true_and] at harray
        have hback : SameTail img₁ img' := ⟨htail.size.trans htail'.size.symm, fun p hp => by
          rw [htail'.size] at hp
          rw [htail.tail p hp, htail'.tail p hp]⟩
        have hall := (ih (by rwa [htail'.size])).1
          ⟨later, img', hrest, Prod.ext harray.1 harray.2, hback⟩
        intro o ho
        rcases List.mem_cons.1 ho with rfl | ho
        · exact hop
        · exact (htail'.addresses _).1 (hall o ho)
      · rw [SectorArray.run] at harray
        simp only [Prod.mk.injEq, List.cons.injEq] at harray
        exact absurd (congrArg Prod.fst harray.1.1).symm (exec_not_addresses hsize hop hexec)
    · intro hall
      obtain ⟨reply, img₁, hexec, harray, htail⟩ :=
        exec_addresses hsize op (hall op List.mem_cons_self)
      obtain ⟨later, img₂, hrest, harray₂, htail₂⟩ := (ih (by rwa [htail.size])).2 fun o ho =>
        (htail.addresses _).2 (hall o (List.mem_cons_of_mem _ ho))
      refine ⟨reply :: later, img₂, run_cons_ok.2 ⟨_, _, _, hexec, hrest, rfl⟩, ?_,
        htail.trans htail₂⟩
      rw [SectorArray.run, harray]
      dsimp only
      rw [harray₂]

/-- An image of two sectors of zeros. -/
def twoSectors : Image := ⟨1024, fun _ => 0⟩

/-- Block `2 ^ 23` aliases block 0. -/
theorem actsAsArray_fails : twoSectors.size < 2 ^ 31 ∧
    ¬ ActsAsArray [.write 8388608 fun _ => 7, .read 0 fun _ => 0] twoSectors := by
  refine ⟨by decide, ?_⟩
  rintro ⟨replies, img', hrun, harray, -⟩
  have hret : (match run [.write 8388608 fun _ => 7, .read 0 fun _ => 0] twoSectors with
    | .ok (replies, _) => replies.head?.map Prod.fst
    | _ => none) = some 0 := by decide +kernel
  have hspec : (SectorArray.run [.write 8388608 fun _ => 7, .read 0 fun _ => 0]
      twoSectors.sectors).1.head?.map Prod.fst = some (-1) := by decide +kernel
  rw [hrun] at hret
  rw [harray] at hspec
  exact absurd (hret.symm.trans hspec) (by decide)

/-- A sector written is read back, and a number past the image is refused. -/
theorem actsAsArray_twoSectors : ActsAsArray
    [.write 1 fun _ => 7, .read 1 fun _ => 0, .read 2 fun _ => 0] twoSectors :=
  (actsAsArray_iff _ (by decide)).2 fun op hop => by
    simp only [List.mem_cons, List.not_mem_nil, or_false] at hop
    rcases hop with rfl | rfl | rfl
    · exact .inl (by decide)
    · exact .inl (by decide)
    · exact .inr (by decide)

end Embext.BlockPc
