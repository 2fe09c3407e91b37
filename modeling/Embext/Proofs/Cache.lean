import Embext.Proofs.SmallVolume

set_option autoImplicit false

/-! # The sector buffer as a cache

What the buffer of a handle is for: a device of sectors, one of which is loaded. Loads, reads and
stores leave that device alone, a write changes bytes of the loaded sector. The calls on the buffer do
the same to the logical device, from the first load on and in any order. -/

namespace Embext

variable {h : Host} {m m₀ m' : Machine} {fe fe₀ fe' : FileEnt} {c : Ext2Context}

/-! ## Calls on the buffer -/

/-- A call on the buffer of a handle. -/
inductive BufferCall where
  | load (blockNumber offset : UInt32)
  | store
  | read (offset count : Nat)
  | write (source : List UInt8) (offset : Nat)

/-- What a call hands back: its result, and the bytes it delivers. -/
abbrev BufferReply := Int × List UInt8

def execBuffer : BufferCall → FileEnt → Drv (BufferReply × FileEnt)
  | .load blockNumber offset, fe => do
    let (r, fe) ← ext2LoadBuffer fe blockNumber offset
    pure ((r, []), fe)
  | .store, fe => do
    let (r, fe) ← ext2StoreBuffer fe
    pure ((r, []), fe)
  | .read offset count, fe => do
    let bytes ← ext2ReadBuffer fe.buffer offset count
    pure ((0, bytes), fe)
  | .write source offset, fe => do
    let buffer ← ext2WriteBuffer fe.buffer source offset
    pure ((0, []), { fe with buffer := buffer })

def runBuffer : List BufferCall → FileEnt → Drv (List BufferReply × FileEnt)
  | [], fe => pure ([], fe)
  | call :: rest, fe => do
    let (reply, fe) ← execBuffer call fe
    let (replies, fe) ← runBuffer rest fe
    pure (reply :: replies, fe)

/-! ## The logical device -/

/-- A device, and the number of the sector that is loaded. -/
structure LogicalDevice where
  sector : UInt32 → Sector
  loaded : Nat

/-- The number of the sector with byte `offset` of a block. -/
def sectorNumber (c : Ext2Context) (blockNumber offset : UInt32) : Nat :=
  c.partStart.toNat + blockNumber.toNat * (c.blockSize / 512) + offset.toNat / 512

namespace LogicalDevice

/-- The loaded sector. -/
def current (d : LogicalDevice) : Sector := d.sector (UInt32.ofNat d.loaded)

/-- One call on the device. -/
def exec (c : Ext2Context) : BufferCall → LogicalDevice → BufferReply × LogicalDevice
  | .load blockNumber offset, d => ((0, []), { d with loaded := sectorNumber c blockNumber offset })
  | .store, d => ((0, []), d)
  | .read offset count, d => ((0, Window.slice d.current (offset % 512) count), d)
  | .write source offset, d =>
    let sector := Window.patch d.current (offset % 512) source
    ((0, []), { d with sector := Function.update d.sector (UInt32.ofNat d.loaded) sector })

def run (c : Ext2Context) : List BufferCall → LogicalDevice → List BufferReply × LogicalDevice
  | [], d => ([], d)
  | call :: rest, d =>
    let (reply, d) := exec c call d
    let (replies, d) := run c rest d
    (reply :: replies, d)

end LogicalDevice

/-- The device of a handle: what is on the disk with the dirty buffer laid over it. -/
def logical (m : Machine) (fe : FileEnt) : LogicalDevice :=
  ⟨view m fe, (fe.buffer.lbaBlock + m.ctx.partStart).toNat⟩

/-- The calls there are: loads of a sector with a 32-bit number, writes inside the buffer. -/
def BufferCall.Permitted (c : Ext2Context) : BufferCall → Prop
  | .load blockNumber offset =>
    offset.toNat < c.blockSize ∧ sectorNumber c blockNumber offset < 2 ^ 32
  | .store => True
  | .read _ _ => True
  | .write source offset => offset % 512 + source.length ≤ 512

/-- A read that stays inside the buffer. -/
def BufferCall.Inside : BufferCall → Prop
  | .read offset count => offset % 512 + count ≤ 512
  | _ => True

instance BufferCall.decidablePermitted : (call : BufferCall) → Decidable (call.Permitted c)
  | .load _ _ => inferInstanceAs (Decidable (_ ∧ _))
  | .store => inferInstanceAs (Decidable True)
  | .read _ _ => inferInstanceAs (Decidable True)
  | .write _ _ => inferInstanceAs (Decidable (_ ≤ _))

instance BufferCall.decidableInside : (call : BufferCall) → Decidable call.Inside
  | .load _ _ => inferInstanceAs (Decidable True)
  | .store => inferInstanceAs (Decidable True)
  | .read _ _ => inferInstanceAs (Decidable (_ ≤ _))
  | .write _ _ => inferInstanceAs (Decidable True)

/-- The buffer has the bytes of the sector that is loaded: a clean buffer equals its sector. -/
structure Cached (m : Machine) (fe : FileEnt) : Prop where
  block : m.ctx.SaneBlockSize
  buffer : fe.buffer.buffer = (logical m fe).current

/-! ## One call -/

theorem current_logical (m : Machine) (fe : FileEnt) :
    (logical m fe).current = view m fe (fe.buffer.lbaBlock + m.ctx.partStart) := by
  unfold LogicalDevice.current logical
  rw [UInt32.ofNat_toNat]

/-- A dirty buffer is laid over its sector. -/
theorem Cached.of_dirty (hs : m.ctx.SaneBlockSize) (hdirty : fe.buffer.dirty = true) : Cached m fe := by
  refine ⟨hs, ?_⟩
  rw [current_logical, view, if_pos hdirty, Function.update_self]

/-- A clean one has to equal it. -/
theorem Cached.of_clean (hs : m.ctx.SaneBlockSize) (hclean : fe.buffer.dirty = false)
    (hbuffer : fe.buffer.buffer = m.disk (fe.buffer.lbaBlock + m.ctx.partStart)) : Cached m fe := by
  refine ⟨hs, ?_⟩
  rw [current_logical, view, hclean]
  exact hbuffer

theorem toNat_blockSector {b off : UInt32} (hfit : sectorNumber c b off < 2 ^ 32) :
    (blockSector c b off.toNat).toNat = sectorNumber c b off := by
  unfold sectorNumber at hfit ⊢
  unfold blockSector
  rw [UInt32.toNat_add, UInt32.toNat_ofNat_of_lt' (by show _ < 2 ^ 32; omega)]
  omega

/-- A load leaves the device alone and the sector it is asked for in the buffer. -/
theorem exec_load (hh : h.Reliable) (hs : m.ctx.SaneBlockSize) {b off : UInt32}
    (hfit : sectorNumber m.ctx b off < 2 ^ 32) : ∃ fe' m',
    execBuffer (.load b off) fe h m = .ok (((0, []), fe'), m') ∧ Cached m' fe' ∧ m'.ctx = m.ctx ∧
      logical m' fe' = { logical m fe with loaded := sectorNumber m.ctx b off } := by
  refine ⟨_, _, Prog.bind_ok (ext2LoadBuffer_ok hh hs b off), .of_clean hs rfl rfl, rfl, ?_⟩
  unfold logical
  rw [(Loads.load b off).view_eq]
  exact congrArg (LogicalDevice.mk _) (toNat_blockSector hfit)

/-- A store writes a sector that the device already has. -/
theorem exec_store (hh : h.Reliable) (hc : Cached m fe) : ∃ fe' m',
    execBuffer .store fe h m = .ok (((0, []), fe'), m') ∧ Cached m' fe' ∧ m'.ctx = m.ctx ∧
      logical m' fe' = logical m fe := by
  have hview : Function.update m.disk (fe.buffer.lbaBlock + m.ctx.partStart) fe.buffer.buffer
      = view m fe := by
    rw [hc.buffer, current_logical]
    unfold view
    split
    · rw [Function.update_self]
    · exact Function.update_eq_self _ _
  refine ⟨_, _, Prog.bind_ok (ext2StoreBuffer_ok hh), ?_, rfl, ?_⟩
  · refine .of_clean hc.block rfl ?_
    dsimp only
    rw [Function.update_self]
  · exact congrArg (LogicalDevice.mk · _) hview

/-- A read delivers bytes of the loaded sector. -/
theorem exec_read (hc : Cached m fe) {off n : Nat} (hfit : off % 512 + n ≤ 512) :
    execBuffer (.read off n) fe h m
      = .ok (((0, Window.slice (logical m fe).current (off % 512) n), fe), m) := by
  rw [← hc.buffer]
  exact Prog.bind_ok (ext2ReadBuffer_ok hfit)

/-- A write changes the bytes it is given in the loaded sector and no others. -/
theorem exec_write (hc : Cached m fe) {source : List UInt8} {off : Nat}
    (hfit : off % 512 + source.length ≤ 512) : ∃ fe',
    execBuffer (.write source off) fe h m = .ok (((0, []), fe'), m) ∧ Cached m fe' ∧
      logical m fe' = ((logical m fe).exec m.ctx (.write source off)).2 := by
  have hrun : ext2WriteBuffer fe.buffer source off h m = .ok ({ fe.buffer with
      buffer := Window.patch fe.buffer.buffer (off % 512) source, dirty := true }, m) := by
    unfold ext2WriteBuffer
    rw [if_pos hfit]
    rfl
  refine ⟨_, Prog.bind_ok hrun, .of_dirty hc.block rfl, ?_⟩
  have hview : Function.update m.disk (fe.buffer.lbaBlock + m.ctx.partStart)
      (Window.patch fe.buffer.buffer (off % 512) source)
      = Function.update (view m fe) (fe.buffer.lbaBlock + m.ctx.partStart)
        (Window.patch (logical m fe).current (off % 512) source) := by
    rw [← hc.buffer]
    unfold view
    split
    · rw [Function.update_idem]
    · rfl
  unfold LogicalDevice.exec
  dsimp only
  rw [show UInt32.ofNat (logical m fe).loaded = fe.buffer.lbaBlock + m.ctx.partStart
    from UInt32.ofNat_toNat]
  exact congrArg (LogicalDevice.mk · _) hview

/-- A permitted call that stays inside the buffer does to the handle what it does to the device. -/
theorem execBuffer_device (hh : h.Reliable) (hc : Cached m fe) {call : BufferCall}
    (hperm : call.Permitted m.ctx) (hin : call.Inside) : ∃ fe' m',
    execBuffer call fe h m = .ok ((((logical m fe).exec m.ctx call).1, fe'), m') ∧ Cached m' fe' ∧
      m'.ctx = m.ctx ∧ logical m' fe' = ((logical m fe).exec m.ctx call).2 := by
  cases call with
  | load b off => exact exec_load hh hc.block hperm.2
  | store => exact exec_store hh hc
  | read off n => exact ⟨fe, m, exec_read hc hin, hc, rfl, rfl⟩
  | write source off =>
    obtain ⟨fe', hrun, hc', hdev⟩ := exec_write (h := h) hc hperm
    exact ⟨fe', m, hrun, hc', rfl, hdev⟩

/-- Only a read inside the buffer returns. -/
theorem inside_of_execBuffer {call : BufferCall} {reply : BufferReply}
    (hrun : execBuffer call fe h m = .ok ((reply, fe'), m')) : call.Inside := by
  cases call with
  | read off n =>
    by_contra hout
    have hfault : execBuffer (.read off n) fe h m = .error .outOfBounds :=
      Prog.bind_error (ext2ReadBuffer_error (Nat.not_le.1 hout))
    rw [hfault] at hrun
    cases hrun
  | load b off => trivial
  | store => trivial
  | write source off => trivial

/-! ## Runs -/

/-- A run of permitted calls that stay inside the buffer does what they do to the device. -/
theorem runBuffer_device (hh : h.Reliable) (calls : List BufferCall) : ∀ {m : Machine} {fe : FileEnt},
    Cached m fe → (∀ call ∈ calls, call.Permitted m.ctx) → (∀ call ∈ calls, call.Inside) → ∃ fe' m',
      runBuffer calls fe h m = .ok ((((logical m fe).run m.ctx calls).1, fe'), m') ∧ Cached m' fe' ∧
        logical m' fe' = ((logical m fe).run m.ctx calls).2 := by
  induction calls with
  | nil => exact fun {m fe} hc _ _ => ⟨fe, m, rfl, hc, rfl⟩
  | cons call calls ih =>
    intro m fe hc hperm hin
    obtain ⟨fe₁, m₁, hrun₁, hc₁, hctx, hdev₁⟩ := execBuffer_device hh hc
      (hperm call List.mem_cons_self) (hin call List.mem_cons_self)
    obtain ⟨fe₂, m₂, hrun₂, hc₂, hdev₂⟩ := ih hc₁
      (fun call hmem => by rw [hctx]; exact hperm call (List.mem_cons_of_mem _ hmem))
      (fun call hmem => hin call (List.mem_cons_of_mem _ hmem))
    rw [hdev₁, hctx] at hrun₂ hdev₂
    refine ⟨fe₂, m₂, ?_, hc₂, hdev₂⟩
    rw [runBuffer, Prog.bind_ok hrun₁]
    dsimp only
    rw [Prog.bind_ok hrun₂]
    rfl

/-- All reads of a run that returns stay inside the buffer. -/
theorem inside_of_runBuffer (calls : List BufferCall) : ∀ {m m' : Machine} {fe fe' : FileEnt}
    {replies : List BufferReply}, runBuffer calls fe h m = .ok ((replies, fe'), m') →
      ∀ call ∈ calls, call.Inside := by
  induction calls with
  | nil => exact fun _ call hmem => absurd hmem List.not_mem_nil
  | cons first calls ih =>
    intro m m' fe fe' replies hrun call hmem
    obtain ⟨⟨reply, fe₁⟩, m₁, hrun₁, hrest⟩ := Prog.of_bind_ok hrun
    obtain ⟨⟨replies₂, fe₂⟩, m₂, hrun₂, -⟩ := Prog.of_bind_ok hrest
    rcases List.mem_cons.1 hmem with rfl | hmem
    · exact inside_of_execBuffer hrun₁
    · exact ih hrun₂ call hmem

/-- A load that returns has computed the block size, and leaves the buffer equal to its sector. -/
theorem cached_of_load {b off : UInt32} {r : Int} (hh : h.Reliable)
    (hload : ext2LoadBuffer fe₀ b off h m₀ = .ok ((r, fe), m)) : Cached m fe := by
  have hs : m₀.ctx.SaneBlockSize := by
    unfold ext2LoadBuffer at hload
    split at hload
    · rw [Prog.bind_ok (ext2StoreBuffer_ok hh)] at hload
      dsimp only at hload
      rw [if_neg (not_not.2 rfl)] at hload
      obtain ⟨bs, m₁, hbs, -⟩ := Prog.of_bind_ok hload
      exact (of_ext2BlockSize_ok hbs).1
    · obtain ⟨bs, m₁, hbs, -⟩ := Prog.of_bind_ok hload
      exact (of_ext2BlockSize_ok hbs).1
  rw [ext2LoadBuffer_ok hh hs] at hload
  cases hload
  exact .of_clean hs rfl rfl

/-- **The cache loses nothing.** After a load, any sequence of permitted calls that returns has handed
    back and left behind what it does on the logical device, and leaves the buffer with the bytes of the
    loaded sector; it returns if no read leaves the buffer. -/
theorem cache_loses_nothing (hh : h.Reliable) {b off : UInt32} {r : Int}
    (hload : ext2LoadBuffer fe₀ b off h m₀ = .ok ((r, fe), m)) (calls : List BufferCall)
    (hperm : ∀ call ∈ calls, call.Permitted m.ctx) :
    (∀ replies fe' m', runBuffer calls fe h m = .ok ((replies, fe'), m') →
      ((logical m fe).run m.ctx calls) = (replies, logical m' fe') ∧
        fe'.buffer.buffer = (logical m' fe').current) ∧
    ((∀ call ∈ calls, call.Inside) → ∃ result, runBuffer calls fe h m = .ok result) := by
  have hc := cached_of_load hh hload
  constructor
  · intro replies fe' m' hrun
    obtain ⟨fe₂, m₂, hrun₂, hc₂, hdev⟩ :=
      runBuffer_device hh calls hc hperm (inside_of_runBuffer calls hrun)
    rw [hrun] at hrun₂
    cases hrun₂
    exact ⟨Prod.ext rfl hdev.symm, hc₂.buffer⟩
  · intro hin
    obtain ⟨fe', m', hrun, -⟩ := runBuffer_device hh calls hc hperm hin
    exact ⟨_, hrun⟩

namespace SmallVolume

/-- A write to the root directory, the other sector of its block, the first one again, and a store. -/
def bufferCalls : List BufferCall :=
  [.write [1, 2] 510, .load 7 512, .read 3 4, .load 7 0, .read 508 4, .store]

theorem cache_root : ∃ fe m, ext2LoadBuffer FileEnt.fresh 7 0 host machine = .ok ((0, fe), m) ∧
    ∃ replies fe' m', runBuffer bufferCalls fe host m = .ok ((replies, fe'), m') ∧
      (logical m fe).run m.ctx bufferCalls = (replies, logical m' fe') := by
  have hload : ext2LoadBuffer FileEnt.fresh 7 0 host machine = _ :=
    ext2LoadBuffer_ok host_reliable machine_sane 7 0
  obtain ⟨hreturned, hreturns⟩ := cache_loses_nothing host_reliable hload bufferCalls
    (by decide +kernel)
  obtain ⟨⟨⟨replies, fe'⟩, m'⟩, hrun⟩ := hreturns (by decide)
  exact ⟨_, _, hload, replies, fe', m', hrun, (hreturned replies fe' m' hrun).1⟩

end SmallVolume

end Embext
