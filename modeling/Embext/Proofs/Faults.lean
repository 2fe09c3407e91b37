import Embext.Proofs.Calls

set_option autoImplicit false

/-! # Device faults

Which failing transfers a caller learns of. `ext2_load_buffer` drops the result of `block_read`, and
every caller drops the result of `ext2_load_buffer`; only `ext2_close` looks at what its own store of
the dirty buffer returned. When no other transfer of a read, a write or a close fails, the bytes a
read delivers come from the device and the bytes of a write reach it. -/

namespace Embext

variable {h : Host} {m m' : Machine} {fe fe' : FileEnt}

/-! ## One call -/

/-- Sector `t` was read successfully between `m` and `m'`. -/
def ReadSince (m : Machine) (t : UInt32) (m' : Machine) : Prop :=
  ∃ new, m'.log = new ++ m.log ∧ .read t true ∈ new

theorem Selected.readSince (hS : Selected m fe m' fe') :
    ReadSince m (dataSector m fe fe' 0) m' := by
  obtain ⟨l, ⟨new, hnew⟩, hlog⟩ := hS.log
  refine ⟨.read (dataSector m fe fe' 0) true :: new, ?_, List.mem_cons_self⟩
  rw [hlog, ← hnew, List.cons_append]

/-- When no transfer fails, a read delivers what the device holds. -/
theorem ext2Read_device (hh : h.Reliable) {count : Nat} {r : Int} {bytes : List UInt8}
    (hrun : ext2Read fe count h m = .ok ((r, bytes, fe'), m')) (hr : 0 ≤ r) :
    r = bytes.length ∧ ∀ k (hk : k < bytes.length), ReadSince m (dataSector m fe fe' k) m' ∧
      bytes[k] = Window.item (m'.disk (dataSector m fe fe' k)) ((fe.cursor % 512).toNat + k) := by
  rcases ext2Read_outcome hh hrun with ⟨e, hle⟩ | ⟨hr', hsel, -⟩ | @⟨n, fe₁, m₁, hn, hS, -, hfit⟩
  · exact ⟨Int.le_antisymm hle hr, fun k hk => absurd hk (Nat.not_lt_zero k)⟩
  · exact absurd hr (by decide)
  · refine ⟨by rw [Window.length_slice], fun k hk => ?_⟩
    rw [Window.length_slice] at hk
    have hsec : dataSector m fe (fe₁.advanced n (h.clock m₁.ticks)) k = dataSector m fe fe₁ 0 := by
      rw [dataSector_eq hS.sane (by omega)]
      rfl
    rw [hsec, Window.getElem_slice]
    exact ⟨hS.readSince, rfl⟩

/-- When no transfer fails, what was written waits in the buffer for its sectors. -/
theorem ext2Write_pending (hh : h.Reliable) {data : List UInt8} {r : Int}
    (hrun : ext2Write fe data h m = .ok ((r, fe'), m')) (hr : 0 < r) :
    ∀ k < r.toNat, Pending m' (dataSector m fe.writeStart fe' k) fe' m' := by
  rcases ext2Write_outcome hh hrun with ⟨c, e, hle⟩ | ⟨hr', hsel⟩ | @⟨fe₁, m₁, hne, hw, hS, hfit⟩
  · exact absurd hr (Int.not_lt.2 hle)
  · exact absurd hr (by decide)
  · intro k hk
    rw [Int.toNat_natCast] at hk
    have hsec : dataSector m fe.writeStart (fe₁.wrote data (h.clock m₁.ticks)) k
        = dataSector m fe.writeStart fe₁ 0 := by
      rw [dataSector_eq hS.sane (by omega)]
      rfl
    rw [hsec]
    exact ⟨rfl, .inr ⟨List.suffix_rfl, rfl, hS.sector⟩⟩

/-! ## Closing -/

/-- The faults `ext2_close` may meet without hiding one: of the transfers it issues only the first,
    the store of a dirty buffer, may fail. -/
def Host.SparesClose (h : Host) (fe : FileEnt) (m m' : Machine) : Prop :=
  ∀ k, m.log.length + (if fe.buffer.dirty then 1 else 0) ≤ k → k < m'.log.length →
    h.fails k = false

/-- A close that succeeds has written what was pending, and the inode to its slot. -/
theorem ext2Close_written (hs : m.ctx.Sane) {m₀ : Machine} {t : UInt32}
    (hp : Pending m₀ t fe m) (hrun : ext2Close fe h m = .ok ((0, fe'), m'))
    (hsp : h.SparesClose fe m m') : WrittenSince m₀ t m' ∧
      WrittenSince m (slotSector (view m fe) m.ctx fe.inodeNumber) m' := by
  obtain ⟨fe₁, m₁, hstore, hflush, -⟩ := of_ext2Close_ok hrun
  obtain ⟨hfe₁, hclean, hm₁, hlen⟩ := of_closeStore hstore
  obtain ⟨r, fe₂, hrun₂⟩ := hflush hp.flush
  have hsuf₁ : m.log <:+ m₁.log :=
    Steps.suffix (show Steps True _ from
      .ite (fun _ => steps_ext2StoreBuffer _) fun _ => .pure _) hstore
  have hdata : WrittenSince m₀ t m₁ := by
    by_cases hd : fe.buffer.dirty = true
    · rw [if_pos hd] at hstore
      exact (pending_ext2StoreBuffer fe m _ m₁ hp hstore).2 rfl
    · exact (hp.written (by simpa using hd)).mono hsuf₁
  have hflush₁ : fe₁.flags.fsDirty = true := by
    rw [hfe₁]
    exact hp.flush
  have hino : fe₁.inodeNumber = fe.inodeNumber := by rw [hfe₁]
  have hctx : m₁.ctx = m.ctx := by rw [hm₁]
  have hdisk : m₁.disk = view m fe := by rw [hm₁]
  have hsteps : Steps True (ext2FlushInode fe₁) := steps_ext2FlushInode fe₁
  have hok := hsteps.reliable hrun₂ fun k hlo hhi => hsp k (hlen ▸ hlo) hhi
  have hs₁ : m₁.ctx.Sane := by
    rw [hctx]
    exact hs
  obtain ⟨m₃, fe₃, hrun₃, -, l, hl, hlog⟩ := ext2FlushInode_ok h.reliable_reliable hs₁.slotted
    hclean hflush₁ (of_ext2FlushInode_ok hrun₂ hflush₁).2.2
  rw [hok] at hrun₃
  obtain rfl : m' = m₃ := by
    simp only [Except.ok.injEq, Prod.mk.injEq] at hrun₃
    exact hrun₃.2
  refine ⟨hdata.mono (hsteps.suffix hrun₂), ?_⟩
  obtain ⟨new, hnew⟩ := hsuf₁.trans hl
  refine ⟨.write (slotSector (view m fe) m.ctx fe.inodeNumber) true :: new, ?_, List.mem_cons_self⟩
  rw [hlog, hdisk, hctx, hino, ← hnew, List.cons_append]

/-! ## Runs -/

/-- The pattern of faults spares the transfers of a read or a write, and those of a close but for
    its own store of the dirty buffer, the one transfer whose failure a caller is told of. Every
    other call may meet any fault. -/
def Host.SparesCall (h : Host) (c : Executed) : Prop :=
  match c.call with
  | .read _ _ => h.Spares c.before c.after
  | .write _ _ => h.Spares c.before c.after
  | .close fd => ∀ fe, c.files[fd]? = some (some fe) → h.SparesClose fe c.before c.after
  | _ => True

/-- Each byte of an `ext2_read` that returned `n ≥ 0` is the byte of the sector holding it, which
    was read successfully during the call. -/
def Executed.ReadsDevice (c : Executed) : Prop :=
  ∀ fd count fe fe' n bytes, c.call = .read fd count → c.files[fd]? = some (some fe) →
    c.files'[fd]? = some (some fe') → c.reply = .data n bytes → 0 ≤ n →
    n = bytes.length ∧ ∀ k (hk : k < bytes.length),
      ReadSince c.before (dataSector c.before fe fe' k) c.after ∧
        bytes[k] = Window.item (c.after.disk (dataSector c.before fe fe' k))
          ((fe.cursor % 512).toNat + k)

/-- When `ext2_close` has returned 0, every sector that an `ext2_write` on the handle modified has
    been written successfully since, and so has the sector with the inode's slot. -/
def ClosesDurably (run : List Executed) : Prop :=
  ∀ before w between c after fd data n fe fe' last,
    run = before ++ w :: (between ++ c :: after) →
    w.call = .write fd data → w.files[fd]? = some (some fe) → w.files'[fd]? = some (some fe') →
    w.reply = .ret n → 0 < n →
    c.call = .close fd → c.files[fd]? = some (some last) → c.reply = .ret 0 →
    (∀ k < n.toNat, WrittenSince w.after (dataSector w.before fe.writeStart fe' k) c.after) ∧
      WrittenSince c.before (slotSector (view c.before last) c.before.ctx last.inodeNumber) c.after

/-- Device errors surface in a run: no success covers a transfer that failed. -/
def ErrorsSurface (run : List Executed) : Prop :=
  (∀ c ∈ run, c.ReadsDevice) ∧ ClosesDurably run

/-- A read on a spared pattern delivers the device's bytes. -/
theorem readsDevice_of_spares {c : Executed}
    (exec : execCall c.call c.files h c.before = .ok ((c.reply, c.files'), c.after))
    (hsp : h.SparesCall c) : c.ReadsDevice := by
  intro fd count fe fe' n bytes hcall hfe hfe' hreply hn
  unfold Host.SparesCall at hsp
  rw [hcall] at exec hsp
  obtain ⟨o, hbody, hset⟩ := of_withHandle_open hfe exec
  obtain ⟨⟨r, l, fe₁⟩, m₁, hread, hbody⟩ := Prog.of_bind_ok hbody
  simp only [Prog.pure_apply, Except.ok.injEq, Prod.mk.injEq] at hbody
  obtain ⟨⟨hr, rfl⟩, rfl⟩ := hbody
  rw [hreply] at hr
  cases hr
  rw [hset, List.getElem?_set_self (List.getElem?_eq_some_iff.1 hfe).1] at hfe'
  cases hfe'
  have hsteps : Steps True (ext2Read fe count) := steps_ext2Read fe count
  exact ext2Read_device h.reliable_reliable (hsteps.reliable hread hsp) hn

namespace SmallVolume

/-- A driver on which the twentieth transfer fails: after `ext2_open` of `f`, the first transfer of
    the next call. -/
def faultyHost : Host := { host with fails := fun k => k == 19 }

/-- The second call is a read that reports four bytes and whose one transfer has failed. -/
def hidesFault : List Executed → Bool
  | [_, ⟨.read 0 _, files, before, .data 4 _, files', after⟩] =>
    files[0]?.join.isSome && files'[0]?.join.isSome &&
      after.log.head? == some (.read 16 false) && after.log.length == before.log.length + 1
  | _ => false

theorem not_errorsSurface_of_hidesFault {run : List Executed} (hf : hidesFault run = true) :
    ¬ ErrorsSurface run := by
  unfold hidesFault at hf
  split at hf
  · next c count files before bytes files' after =>
    simp only [Bool.and_eq_true, beq_iff_eq, Option.isSome_iff_exists, Option.join_eq_some_iff]
      at hf
    obtain ⟨⟨⟨⟨fe, hfe⟩, fe', hfe'⟩, hhead⟩, hlen⟩ := hf
    intro hsurf
    obtain ⟨hn, hbytes⟩ := hsurf.1 ⟨.read 0 count, files, before, .data 4 bytes, files', after⟩
      (by simp) 0 count fe fe' 4 bytes rfl hfe hfe' rfl (by decide)
    obtain ⟨⟨new, hlog, hmem⟩, -⟩ := hbytes 0 (by omega)
    -- the only transfer of the call is the one that failed
    change after.log = new ++ before.log at hlog
    rw [hlog, List.length_append] at hlen
    obtain ⟨t, rfl⟩ : ∃ t, new = [t] := List.length_eq_one_iff.1 (by omega)
    rw [hlog] at hhead
    cases hhead
    exact absurd hmem (by simp)
  · cases hf

end SmallVolume

end Embext
