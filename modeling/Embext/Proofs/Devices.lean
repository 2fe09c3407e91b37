import Embext.Proofs.CardSession
import Embext.Proofs.Frame
import Embext.Proofs.SmallVolume
import Embext.Proofs.Snapshot

set_option autoImplicit false

/-! # The file system over its block drivers

Whatever calls a program makes, what they do to the device is what their transfers do to an array of
sectors. So a run on the device of the model is a run over an image file, byte for byte what its snapshot
holds, and a run over a card, byte for byte what is on its bus. -/

namespace Embext

open BlockPc (Op SectorArray)
open Prog (Gen)

variable {h : Host} {m m₁ m' : Machine} {requests : List Request} {vols vols' : Volumes}

/-! ## Transfers -/

/-- A call of the block driver with what it returns. -/
structure Exchange where
  op : Op
  reply : BlockPc.Reply

/-- Its entry in the log. -/
def Exchange.transfer (e : Exchange) : Transfer :=
  match e.op with
  | .read block _ => .read block (e.reply.1 = 0)
  | .write block _ => .write block (e.reply.1 = 0)

def Transfer.sector : Transfer → UInt32
  | read s _ | write s _ => s

def Transfer.ok : Transfer → Bool
  | read _ b | write _ b => b

/-- A device of `n` sectors fails the transfers past its end and no others. -/
def Transfer.OnDevice (n : Nat) (t : Transfer) : Prop := t.ok = true ↔ t.sector.toNat < n

@[simp] theorem onDevice_read (n : Nat) (s : UInt32) (b : Bool) :
    (Transfer.read s b).OnDevice n ↔ (b = true ↔ s.toNat < n) := Iff.rfl

@[simp] theorem onDevice_write (n : Nat) (s : UInt32) (b : Bool) :
    (Transfer.write s b).OnDevice n ↔ (b = true ↔ s.toNat < n) := Iff.rfl

theorem Exchange.transfer_sector (e : Exchange) : e.transfer.sector = e.op.block := by
  obtain ⟨op, reply⟩ := e
  cases op <;> rfl

/-- The calls `l` lead from one state to the other: they are in the log, and a device that fails them
    past its end only is an array of sectors. -/
structure Served (m : Machine) (l : List Exchange) (m' : Machine) : Prop where
  log : m'.log = (l.map Exchange.transfer).reverse ++ m.log
  array : ∀ n, (∀ e ∈ l, e.transfer.OnDevice n) →
    SectorArray.run (l.map Exchange.op) ⟨n, m.disk⟩ = (l.map Exchange.reply, ⟨n, m'.disk⟩)

theorem run_append (ops ops' : List Op) : ∀ a : SectorArray, SectorArray.run (ops ++ ops') a =
    ((SectorArray.run ops a).1 ++ (SectorArray.run ops' (SectorArray.run ops a).2).1,
      (SectorArray.run ops' (SectorArray.run ops a).2).2) := by
  induction ops with
  | nil => exact fun a => rfl
  | cons op rest ih =>
    intro a
    rw [List.cons_append, BlockSd.run_cons, BlockSd.run_cons, ih]
    rfl

theorem Served.refl (m : Machine) : Served m [] m := ⟨rfl, fun _ _ => rfl⟩

theorem Served.append {l l' : List Exchange} (h₁ : Served m l m₁) (h₂ : Served m₁ l' m') :
    Served m (l ++ l') m' := by
  constructor
  · rw [h₂.log, h₁.log, List.map_append, List.reverse_append, List.append_assoc]
  · intro n hdev
    simp only [List.mem_append, or_imp, forall_and] at hdev
    rw [List.map_append, List.map_append, run_append, h₁.array n hdev.1]
    dsimp only
    rw [h₂.array n hdev.2]

/-- A step that is one call of the block driver, or leaves device and log alone. -/
inductive Talks (h : Host) : (α : Type) → Drv α → Prop where
  | blockRead (s : UInt32) (old : Sector) : Talks h _ (blockRead s old)
  | blockWrite (s : UInt32) (data : Sector) : Talks h _ (blockWrite s data)
  | silent {α : Type} {p : Drv α}
      (hp : ∀ m a m', p h m = .ok (a, m') → m'.disk = m.disk ∧ m'.log = m.log) : Talks h α p

/-- A step that always returns. -/
theorem Talks.of_eq {α : Type} {p : Drv α} (a : Machine → α) (f : Machine → Machine)
    (hp : ∀ m, p h m = .ok (a m, f m)) (hdisk : ∀ m, (f m).disk = m.disk)
    (hlog : ∀ m, (f m).log = m.log) : Talks h α p := by
  refine .silent fun m b m' hrun => ?_
  rw [hp] at hrun
  cases hrun
  exact ⟨hdisk m, hlog m⟩

theorem talks_modify {f : Machine → Machine} (hdisk : ∀ m, (f m).disk = m.disk)
    (hlog : ∀ m, (f m).log = m.log) : Talks h _ (Prog.modify f) :=
  .of_eq (fun _ => ()) f (fun _ => rfl) hdisk hlog

instance : Primitives (Talks h) where
  blockRead := .blockRead
  blockWrite := .blockWrite
  getCtx := .of_eq Machine.ctx id (fun _ => rfl) (fun _ => rfl) fun _ => rfl
  setErrno _ := talks_modify (fun _ => rfl) fun _ => rfl
  timeNull := .of_eq (fun m => h.clock m.ticks) (fun m => { m with ticks := m.ticks + 1 })
    (fun _ => rfl) (fun _ => rfl) fun _ => rfl
  patience := .of_eq (fun _ => h.patience) id (fun _ => rfl) (fun _ => rfl) fun _ => rfl
  dName _ := talks_modify (fun _ => rfl) fun _ => rfl
  readName _ := .bind (.prim (.of_eq id id (fun _ => rfl) (fun _ => rfl) fun _ => rfl)) fun _ => .pure _
  context _ _ _ := talks_modify (fun _ => rfl) fun _ => rfl

/-- A step of a mounted volume. -/
theorem Step.talks {alloc : Prop} {α : Type} {p : Drv α} (hp : Step alloc α p) : Talks h α p := by
  cases hp with
  | blockRead s old => exact .blockRead s old
  | blockWrite s data => exact .blockWrite s data
  | getCtx => exact Primitives.getCtx
  | setErrno e => exact Primitives.setErrno e
  | timeNull => exact Primitives.timeNull
  | patience => exact Primitives.patience
  | dName f => exact Primitives.dName f
  | get => exact .of_eq id id (fun _ => rfl) (fun _ => rfl) fun _ => rfl
  | getErrno => exact .of_eq Machine.rerrno id (fun _ => rfl) (fun _ => rfl) fun _ => rfl
  | getuid => exact .of_eq (fun _ => h.uid) id (fun _ => rfl) (fun _ => rfl) fun _ => rfl
  | getgid => exact .of_eq (fun _ => h.gid) id (fun _ => rfl) (fun _ => rfl) fun _ => rfl
  | context f _ _ => exact talks_modify (fun _ => rfl) fun _ => rfl

/-- **Step.** -/
theorem Talks.served {α : Type} {p : Drv α} (hp : Talks h α p) (m : Machine) (a : α) (m' : Machine)
    (hrun : p h m = .ok (a, m')) : ∃ l, Served m l m' := by
  cases hp with
  | silent hp =>
    obtain ⟨hdisk, hlog⟩ := hp m a m' hrun
    exact ⟨[], hlog, fun n _ => by rw [hdisk]; rfl⟩
  | blockRead s old =>
    unfold Embext.blockRead at hrun
    split at hrun
    · cases hrun
      refine ⟨[⟨.read s old, (-1, old)⟩], rfl, fun n hdev => ?_⟩
      have hpast : ¬ s.toNat < n := by simpa [Exchange.transfer] using hdev
      simp [SectorArray.run, SectorArray.exec, hpast, Machine.logged]
    · cases hrun
      refine ⟨[⟨.read s old, (0, m.disk s)⟩], rfl, fun n hdev => ?_⟩
      have hin : s.toNat < n := by simpa [Exchange.transfer] using hdev
      simp [SectorArray.run, SectorArray.exec, hin, Machine.logged]
  | blockWrite s data =>
    unfold Embext.blockWrite at hrun
    split at hrun
    · cases hrun
      refine ⟨[⟨.write s data, (-1, data)⟩], rfl, fun n hdev => ?_⟩
      have hpast : ¬ s.toNat < n := by simpa [Exchange.transfer] using hdev
      simp [SectorArray.run, SectorArray.exec, hpast, Machine.logged]
    · cases hrun
      refine ⟨[⟨.write s data, (0, data)⟩], rfl, fun n hdev => ?_⟩
      have hin : s.toNat < n := by simpa [Exchange.transfer] using hdev
      have hupdate : Function.update m.disk s data = fun t => if t = s then data else m.disk t := by
        funext t
        rw [Function.update_apply]
      simp [SectorArray.run, SectorArray.exec, hin, hupdate]

theorem gen_served {α : Type} {p : Drv α} (hp : Gen (Talks h) α p) {a : α} (hrun : p h m = .ok (a, m')) :
    ∃ l, Served m l m' :=
  hp.history Served.refl (fun h₁ h₂ => h₁.append h₂) (fun _ _ hp => hp.served) m a m' hrun

/-! ## A program -/

theorem talks_setCtx (c : Ext2Context) : Gen (Talks h) _ (setCtx c) :=
  .prim (talks_modify (fun _ => rfl) fun _ => rfl)

theorem talks_ext2Mount (garbage : Sector) (partStart volumeSize : UInt32) :
    Gen (Talks h) _ (ext2Mount garbage partStart volumeSize) := by
  unfold ext2Mount
  refine .bind (.prim (.blockRead _ _)) fun (_, sysbuf) => .ite (fun _ => .pure _) fun _ =>
    .bind (steps_shl _ _) fun scaled => .ite (fun _ => .pure _) fun _ => ?_
  refine .bind (.prim (.of_eq (fun _ => h.readOnly) id (fun _ => rfl) (fun _ => rfl) fun _ => rfl))
    fun readOnly => .bind (steps_udiv _ _) fun _ => .bind (.prim Primitives.timeNull) fun mtime => ?_
  exact .bind (talks_setCtx _) fun _ => .bind steps_ext2FlushSuperblock fun _ => .pure _

theorem talks_ext2Umount : Gen (Talks h) _ ext2Umount :=
  .bind (.prim Primitives.getCtx) fun _ => .bind (talks_setCtx _) fun _ =>
    .bind steps_ext2FlushSuperblock fun _ => .pure _

theorem talks_withVolume (vols : Volumes) (vol : Nat) {body : Files → Drv (Option Files)}
    (hbody : ∀ files, Gen (Talks h) _ (body files)) : Gen (Talks h) _ (withVolume vols vol body) := by
  unfold withVolume
  split
  · exact .bind (talks_setCtx _) fun _ => .bind (hbody _) fun files =>
      .bind (.prim Primitives.getCtx) fun ctx => .pure _
  · exact .fault _

theorem talks_execRequest (request : Request) (vols : Volumes) :
    Gen (Talks h) _ (execRequest request vols) := by
  cases request with
  | mount garbage partStart volumeSize =>
    exact .bind (talks_ext2Mount _ _ _) fun r => .ite (fun _ => .bind (.prim Primitives.getCtx)
      fun _ => .pure _) fun _ => .pure _
  | umount vol => exact talks_withVolume _ _ fun files => .bind talks_ext2Umount fun _ => .pure _
  | on vol call =>
    have hcall : ∀ files, Gen (Talks h) _ (execCall call files) := fun files =>
      (steps_execCall call files).mono fun _ _ hp => hp.talks
    exact talks_withVolume _ _ fun files => .bind (hcall files) fun (_, files) => .pure _

theorem talks_runRequests (requests : List Request) : ∀ vols : Volumes,
    Gen (Talks h) _ (runRequests requests vols) := by
  induction requests with
  | nil => exact fun vols => .pure _
  | cons request rest ih => exact fun vols => .bind (talks_execRequest _ _) fun vols => ih vols

/-- **Run.** A program's calls are in the log, and are those on an array of sectors. -/
theorem runRequests_served (hrun : runRequests requests vols h m = .ok (vols', m')) :
    ∃ l, Served m l m' := gen_served (talks_runRequests requests vols) hrun

/-! ## Arrays with the same sectors -/

/-- As many sectors, and the same in each of them. What lies past the end does not count. -/
structure SameSectors (a a' : SectorArray) : Prop where
  count : a'.count = a.count
  sector : ∀ b : UInt32, b.toNat < a.count → a'.sector b = a.sector b

variable {a a' : SectorArray}

theorem SameSectors.exec (h : SameSectors a a') (op : Op) :
    (SectorArray.exec op a').1 = (SectorArray.exec op a).1 ∧
      SameSectors (SectorArray.exec op a).2 (SectorArray.exec op a').2 := by
  cases op with
  | read block buffer =>
    by_cases hb : block.toNat < a.count
    · simp [SectorArray.exec, h.count, hb, h.sector block hb, h]
    · simp [SectorArray.exec, h.count, hb, h]
  | write block buffer =>
    by_cases hb : block.toNat < a.count
    · simp only [SectorArray.exec, h.count, hb, if_true, true_and]
      refine ⟨rfl, fun b hlt => ?_⟩
      simp only [Function.update_apply, h.sector b hlt]
    · simp [SectorArray.exec, h.count, hb, h]

/-- The same calls return the same on both, and leave them the same. -/
theorem SameSectors.run (ops : List Op) : ∀ {a a' : SectorArray}, SameSectors a a' →
    (SectorArray.run ops a').1 = (SectorArray.run ops a).1 ∧
      SameSectors (SectorArray.run ops a).2 (SectorArray.run ops a').2 := by
  induction ops with
  | nil => exact fun h => ⟨rfl, h⟩
  | cons op rest ih =>
    intro a a' h
    obtain ⟨hreply, hnext⟩ := h.exec op
    obtain ⟨hlater, hlast⟩ := ih hnext
    rw [BlockSd.run_cons, BlockSd.run_cons, hreply, hlater]
    exact ⟨rfl, hlast⟩

/-- A program's calls on any array that starts with the sectors of its device. -/
theorem Served.run {l : List Exchange} {n : Nat} (hl : Served m l m')
    (hdev : ∀ e ∈ l, e.transfer.OnDevice n) (hsame : SameSectors ⟨n, m.disk⟩ a) :
    (SectorArray.run (l.map Exchange.op) a).1 = l.map Exchange.reply ∧
      SameSectors ⟨n, m'.disk⟩ (SectorArray.run (l.map Exchange.op) a).2 := by
  have hrun := hsame.run (l.map Exchange.op)
  rwa [hl.array n hdev] at hrun

/-! ## Over an image file -/

section Image

open BlockPc

variable {os : Os} {pc : Pc} {name out : FileName} {file : List UInt8}

/-- A program over the image driver: it finds its device in one file and leaves it in another. -/
theorem Served.epoch {l : List Exchange} (hl : Served m l m')
    (hdev : ∀ e ∈ l, e.transfer.OnDevice (file.length / 512))
    (haddr : ∀ e ∈ l, (imageOf file).Addresses e.transfer.sector)
    (hfile : pc.files name = some file) (hsize : file.length < 2 ^ 31)
    (hos : Usable os [name, out] file.length)
    (hsame : SameSectors ⟨file.length / 512, m.disk⟩ (imageOf file).sectors) :
    ∃ img, BlockPc.epoch name (l.map Exchange.op) out os pc
        = .ok (some (l.map Exchange.reply, 0), pc.left name out img) ∧
      SameTail (imageOf file) img ∧ SameSectors ⟨file.length / 512, m'.disk⟩ img.sectors := by
  obtain ⟨replies, img, hrun, harray, htail⟩ := run_addresses (l.map Exchange.op) hsize fun op hop => by
    obtain ⟨e, he, rfl⟩ := List.mem_map.1 hop
    rw [← e.transfer_sector]
    exact haddr e he
  obtain ⟨hreplies, hlast⟩ := hl.run hdev hsame
  rw [harray] at hreplies hlast
  obtain rfl : replies = l.map Exchange.reply := hreplies
  refine ⟨img, ?_, htail, hlast⟩
  rw [epoch_eq hfile hsize hos, hrun]
  rfl

/-- A program: what it is given from outside, its memory, its calls, and the file for its snapshot. -/
structure Program where
  host : Host
  memory : Machine
  requests : List Request
  out : FileName

/-- Its state when it starts on the device `d`. -/
def Program.start (p : Program) (d : UInt32 → Sector) : Machine := { p.memory with disk := d }

/-- Programs of which each takes the device over from the one before, with the transfers of each: the
    device has `size` bytes, and the image driver addresses truly what they ask for. -/
inductive Programs (size : Nat) : List Program → (UInt32 → Sector) → List (List Transfer) →
    (UInt32 → Sector) → Prop where
  | nil (d : UInt32 → Sector) : Programs size [] d [] d
  | cons {p : Program} {rest : List Program} {d d' : UInt32 → Sector} {new : List Transfer}
      {later : List (List Transfer)} {vols : Volumes} {m' : Machine}
      (run : runRequests p.requests [] p.host (p.start d) = .ok (vols, m'))
      (log : m'.log = new.reverse ++ p.memory.log)
      (device : ∀ t ∈ new, t.OnDevice (size / 512))
      (addresses : ∀ t ∈ new, (Image.mk size fun _ => 0).Addresses t.sector)
      (next : Programs size rest m'.disk later d') : Programs size (p :: rest) d (new :: later) d'

/-- The same programs over the image driver, with the calls of each. -/
def overImage (ps : List Program) (ls : List (List Exchange)) : List (List Op × FileName) :=
  List.zipWith (fun p l => (l.map Exchange.op, p.out)) ps ls

end Image

/-! ## Over a card -/

namespace SmallVolume

open BlockPc

/-- The first `n` sectors of a device as a file. -/
def imageFile (n : Nat) (d : UInt32 → Sector) : List UInt8 :=
  (List.range (n * 512)).map fun p => Window.item (d (UInt32.ofNat (p / 512))) p

theorem length_imageFile (n : Nat) (d : UInt32 → Sector) : (imageFile n d).length = n * 512 := by
  simp [imageFile]

theorem sameSectors_imageFile {n : Nat} (hn : n < 2 ^ 22) (d : UInt32 → Sector) :
    SameSectors ⟨n, d⟩ (imageOf (imageFile n d)).sectors := by
  have hsize : (imageOf (imageFile n d)).size = n * 512 := length_imageFile n d
  have hcount : (imageOf (imageFile n d)).sectors.count = n := by
    rw [sectors_count (by rw [hsize]; omega), hsize, Nat.mul_div_cancel n (by decide)]
  refine ⟨hcount, fun b hb => ?_⟩
  funext k
  have hk := k.isLt
  have hlt : b.toNat < n := hb
  have hp : b.toNat * 512 + k < n * 512 := by omega
  have hdiv : (b.toNat * 512 + k) / 512 = b.toNat := by omega
  have hitem : Window.item (d b) (b.toNat * 512 + k) = d b k := by
    unfold Window.item
    congr 1
    apply Fin.ext
    simp
  change (imageFile n d).getD (b.toNat * 512 + k) 0 = d b k
  simp [imageFile, hp, hdiv, hitem]

/-- The volume is mounted, `f` is written and the volume unmounted. -/
def writesF : Program where
  host := host
  memory := machine
  requests := [.mount (fun _ => 0) 0 128, .on 0 (.open pathF oRdwr 0), .on 0 (.write 0 [7, 8, 9]),
    .on 0 (.close 0), .umount 0]
  out := [98]

/-- It is mounted again and `f` is read. -/
def readsF : Program where
  host := host
  memory := machine
  requests := [.mount (fun _ => 0) 0 128, .on 0 (.open pathF oRdonly 0), .on 0 (.read 0 4),
    .on 0 (.close 0), .umount 0]
  out := [97]

/-- The programs run, each with transfers on a device of `n` sectors only. -/
def staysOn (n : Nat) : List Program → (UInt32 → Sector) → Bool
  | [], _ => true
  | p :: rest, d =>
    match runRequests p.requests [] p.host (p.start d) with
    | .ok (_, m') => m'.log.all (fun t => t.ok && t.sector.toNat < n) && staysOn n rest m'.disk
    | _ => false

theorem of_staysOn {n : Nat} (ps : List Program) (hmem : ∀ p ∈ ps, p.memory.log = []) :
    ∀ {d : UInt32 → Sector}, staysOn n ps d = true → ∃ logs d', Programs (n * 512) ps d logs d' := by
  induction ps with
  | nil => exact fun {d} _ => ⟨[], d, .nil d⟩
  | cons p rest ih =>
    intro d hok
    rw [List.forall_mem_cons] at hmem
    rw [staysOn] at hok
    split at hok
    · next vols m' hrun =>
      simp only [Bool.and_eq_true, List.all_eq_true, decide_eq_true_eq] at hok
      obtain ⟨htransfers, hrest⟩ := hok
      obtain ⟨logs, d', hnext⟩ := ih hmem.2 hrest
      have hdiv : n * 512 / 512 = n := Nat.mul_div_cancel n (by decide)
      refine ⟨m'.log.reverse :: logs, d', .cons hrun (by simp [hmem.1]) ?_ ?_ hnext⟩
      · intro t ht
        obtain ⟨hokay, hlt⟩ := htransfers t (List.mem_reverse.1 ht)
        rw [hdiv]
        exact iff_of_true hokay hlt
      · intro t ht
        refine .inl ?_
        change t.sector.toNat < n * 512 / 512
        rw [hdiv]
        exact (htransfers t (List.mem_reverse.1 ht)).2
    · cases hok

/-- A card with the small volume on it. -/
def volumeCard : BlockSd.Card := { BlockSd.goodCard with content := disk }

end SmallVolume

end Embext
