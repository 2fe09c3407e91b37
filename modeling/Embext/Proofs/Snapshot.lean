import Embext.Proofs.BlockPc
import Embext.Proofs.Hash

set_option autoImplicit false

/-! # Snapshots

A program takes the image from a file, uses the block driver and writes a snapshot, and the next program
takes it from there. Over any number of such programs the device is one array of sectors. The checksum
of a snapshot is that of the image. -/

namespace Embext.BlockPc

variable {os : Os} {pc pc' : Pc} {img img' : Image} {name out : FileName} {file : List UInt8}
  {ops : List Op} {replies : List Reply}

/-! ## The memory behind the driver -/

/-- The image is in memory. -/
structure Pc.Holds (pc : Pc) (img : Image) : Prop where
  blocks : pc.blocks = .held img
  fsSize : pc.fsSize = img.size

theorem size_exec {op : Op} {reply : Reply} (hrun : exec op img = .ok (reply, img')) :
    img'.size = img.size := by
  cases op with
  | read block buffer =>
    rcases hread : blockRead img block buffer with e | reply
    · simp [exec, hread, bind, Except.bind] at hrun
    · simp [exec, hread, bind, Except.bind, pure, Except.pure] at hrun
      rw [hrun.2]
  | write block buffer =>
    unfold exec blockWrite at hrun
    by_cases hrefuse : refuses img block = true
    · simp [hrefuse, bind, Except.bind, pure, Except.pure] at hrun
      rw [hrun.2]
    · by_cases hfit : address block + 512 ≤ img.size
      · simp [hrefuse, hfit, bind, Except.bind, pure, Except.pure] at hrun
        rw [← hrun.2]
        rfl
      · simp [hrefuse, hfit, bind, Except.bind] at hrun

theorem Pc.Holds.refuses_eq (hpc : pc.Holds img) (block : UInt32) :
    refuses ⟨pc.fsSize, fun _ => 0⟩ block = refuses img block := by
  unfold refuses
  rw [hpc.fsSize]

theorem Pc.Holds.eta (hpc : pc.Holds img) : { pc with blocks := .held img } = pc := by
  rw [← hpc.blocks]

theorem readBlock_eq (hpc : pc.Holds img) (block : UInt32) (buffer : Sector) :
    readBlock block buffer os pc = (blockRead img block buffer).map fun reply => (reply, pc) := by
  unfold readBlock blockRead
  rw [hpc.refuses_eq, hpc.blocks]
  by_cases hrefuse : refuses img block = true
  · simp [hrefuse, Except.map]
  · by_cases hfit : address block + 512 ≤ img.size
    · simp [hrefuse, hfit, Except.map]
    · simp [hrefuse, hfit, Except.map]

theorem writeBlock_eq (hpc : pc.Holds img) (block : UInt32) (buffer : Sector) :
    writeBlock block buffer os pc = (blockWrite img block buffer).map fun reply =>
      (reply.1, { pc with blocks := .held reply.2 }) := by
  unfold writeBlock blockWrite
  rw [hpc.refuses_eq, hpc.blocks]
  by_cases hrefuse : refuses img block = true
  · simp [hrefuse, Except.map, hpc.eta]
  · by_cases hfit : address block + 512 ≤ img.size
    · simp [hrefuse, hfit, Except.map]
    · simp [hrefuse, hfit, Except.map]

/-- The calls on the memory are the calls on the image. -/
theorem serve_eq (ops : List Op) : ∀ {pc : Pc} {img : Image}, pc.Holds img →
    serve ops os pc = (run ops img).map fun reply =>
      (reply.1, { pc with blocks := .held reply.2 }) := by
  induction ops with
  | nil =>
    intro pc img hpc
    simp [serve, run, pure, Except.pure, Except.map, hpc.eta]
  | cons op rest ih =>
    intro pc img hpc
    cases op with
    | read block buffer =>
      rcases hread : blockRead img block buffer with e | reply
      · simp [serve, run, exec, readBlock_eq hpc, hread, Except.map, bind, Except.bind]
      · rcases hrest : run rest img with e | ⟨later, img'⟩ <;>
          simp [serve, run, exec, readBlock_eq hpc, hread, ih hpc, hrest, Except.map, bind,
            Except.bind, pure, Except.pure]
    | write block buffer =>
      rcases hwrite : blockWrite img block buffer with e | ⟨r, img₁⟩
      · simp [serve, run, exec, writeBlock_eq hpc, hwrite, Except.map, bind, Except.bind]
      · have hexec : exec (.write block buffer) img = .ok ((r, buffer), img₁) := by
          simp [exec, hwrite, bind, Except.bind, pure, Except.pure]
        have hpc₁ : ({ pc with blocks := .held img₁ } : Pc).Holds img₁ :=
          ⟨rfl, hpc.fsSize.trans (size_exec hexec).symm⟩
        rcases hrest : run rest img₁ with e | ⟨later, img'⟩ <;>
          simp [serve, run, exec, writeBlock_eq hpc, hwrite, ih hpc₁, hrest, Except.map, bind,
            Except.bind, pure, Except.pure]

theorem size_run (ops : List Op) : ∀ {img : Image}, run ops img = .ok (replies, img') →
    img'.size = img.size := by
  induction ops generalizing replies with
  | nil =>
    intro img hrun
    cases hrun
    rfl
  | cons op rest ih =>
    intro img hrun
    obtain ⟨reply, img₁, later, hexec, hrest, -⟩ := run_cons_ok.1 hrun
    exact (ih hrest).trans (size_exec hexec)

/-! ## The image and its file -/

/-- `block_init` takes the image from its file. -/
theorem blockInit_ok (hname : pc.imageName = some name) (hfile : pc.files name = some file)
    (hsize : file.length < 2 ^ 31) (hmem : os.allocates file.length = true)
    (hread : os.readable name = true) : blockInit os pc =
      .ok (0, { pc with fsSize := file.length, blocks := .held (imageOf file) }) := by
  have hlt : file.length < 2048 * 1024 * 1024 := hsize
  simp [blockInit, hname, hfile, hlt, hmem, hread]

/-- The bytes of an image. -/
def Image.bytes (img : Image) : List UInt8 := (List.range img.size).map img.byte

@[simp]
theorem length_bytes (img : Image) : img.bytes.length = img.size := by
  simp [Image.bytes]

/-- `block_pc_snapshot_all` writes them. -/
theorem blockPcSnapshotAll_ok (hpc : pc.Holds img) (hsize : img.size < 2 ^ 64)
    (hwrite : os.writable name = true) : blockPcSnapshotAll name os pc =
      .ok (0, { pc with files := Function.update pc.files name (some img.bytes) }) := by
  have hlen : (UInt64.ofNat img.size).toNat = img.size := UInt64.toNat_ofNat_of_lt' hsize
  rw [blockPcSnapshotAll, Prog.bind_ok (Prog.get_apply os pc)]
  simp [blockPcSnapshot, hwrite, hpc.blocks, hpc.fsSize, hlen, Image.bytes]

/-- What comes back from the file is the image. -/
theorem imageOf_bytes (htail : SameTail (imageOf file) img) : imageOf img.bytes = img := by
  have hsize : img.size = file.length := htail.size
  obtain ⟨size, byte⟩ := img
  unfold imageOf
  congr 1
  · simp
  · funext p
    by_cases hp : p < size
    · simp [Image.bytes, hp]
    · -- past the end there is nothing in either
      have htail := htail.tail p (by
        change file.length / 512 * 512 ≤ p
        change size = file.length at hsize
        omega)
      change byte p = file.getD p 0 at htail
      change size = file.length at hsize
      simp [Image.bytes, hp, htail, ← hsize]

/-! ## Programs after each other -/

/-- A program that takes its image from the file `name` and leaves a snapshot in `out`; one whose
    `block_init` fails ends there. -/
def epoch (name : FileName) (ops : List Op) (out : FileName) : OnPc (Option (List Reply × Int)) := do
  blockPcSetImageName name
  let r ← blockInit
  if r ≠ 0 then pure none
  else
    let replies ← serve ops
    let s ← blockPcSnapshotAll out
    let _ ← blockHalt
    pure (some (replies, s))

/-- Programs of which each takes its image from the snapshot of the one before. -/
def epochs : FileName → List (List Op × FileName) → OnPc (List (Option (List Reply × Int)))
  | _, [] => pure []
  | name, (ops, out) :: rest => do
    let result ← epoch name ops out
    let results ← epochs out rest
    pure (result :: results)

/-- The calls of all programs on one array. -/
def SectorArray.epochs : List (List Op) → SectorArray → List (List Reply) × SectorArray
  | [], a => ([], a)
  | ops :: rest, a =>
    ((SectorArray.run ops a).1 :: (SectorArray.epochs rest (SectorArray.run ops a).2).1,
      (SectorArray.epochs rest (SectorArray.run ops a).2).2)

/-- The files are there to be opened, and there is memory for the image. -/
structure Usable (os : Os) (names : List FileName) (size : Nat) : Prop where
  readable : ∀ n ∈ names, os.readable n = true
  writable : ∀ n ∈ names, os.writable n = true
  allocates : os.allocates size = true

/-- What a program leaves that found its image in `name`. -/
def Pc.left (pc : Pc) (name out : FileName) (img : Image) : Pc :=
  ⟨Function.update pc.files out (some img.bytes), some name, img.size, .freed, pc.ro⟩

/-- One program. -/
theorem epoch_eq (hfile : pc.files name = some file) (hsize : file.length < 2 ^ 31)
    (hos : Usable os [name, out] file.length) (ops : List Op) : epoch name ops out os pc =
      (run ops (imageOf file)).map fun reply => (some (reply.1, 0), pc.left name out reply.2) := by
  have hset : blockPcSetImageName name os pc = .ok ((), { pc with imageName := some name }) := rfl
  have hinit : blockInit os { pc with imageName := some name } = .ok (0, { pc with
      imageName := some name, fsSize := file.length, blocks := .held (imageOf file) }) :=
    blockInit_ok rfl hfile hsize hos.allocates (hos.readable name (by simp))
  have hpc : Pc.Holds { pc with
      imageName := some name, fsSize := file.length, blocks := .held (imageOf file) }
      (imageOf file) := ⟨rfl, rfl⟩
  have hserve : serve ops os _ = _ := serve_eq ops hpc
  rw [epoch, Prog.bind_ok hset, Prog.bind_ok hinit]
  simp only [ne_eq, not_true_eq_false, if_false]
  rcases hrun : run ops (imageOf file) with e | ⟨replies, img⟩
  · rw [hrun] at hserve
    rw [Prog.bind_error hserve]
    rfl
  · rw [hrun] at hserve
    have hlen : img.size = file.length := size_run ops hrun
    have hpc' : Pc.Holds { pc with
      imageName := some name, fsSize := file.length, blocks := .held img } img := ⟨rfl, hlen.symm⟩
    have hsnap : blockPcSnapshotAll out os _ = _ :=
      blockPcSnapshotAll_ok hpc' (by omega) (hos.writable out (by simp))
    rw [Prog.bind_ok hserve, Prog.bind_ok hsnap, ← hlen]
    rfl

/-- The file that the last program leaves. -/
def lastFile : FileName → List (List Op × FileName) → FileName
  | name, [] => name
  | _, (_, out) :: rest => lastFile out rest

/-- All programs find their image and leave a snapshot. Their calls return what they return on one array
    of sectors, and the last snapshot has its sectors, the size of the first file and its bytes past the
    last whole sector. -/
def KeepsArray (os : Os) (pc : Pc) (name : FileName) (es : List (List Op × FileName))
    (file : List UInt8) : Prop :=
  ∃ replies pc' file', epochs name es os pc = .ok (replies.map fun l => some (l, 0), pc') ∧
    SectorArray.epochs (es.map Prod.fst) (imageOf file).sectors = (replies, (imageOf file').sectors) ∧
    pc'.files (lastFile name es) = some file' ∧ SameTail (imageOf file) (imageOf file')

/-- Calls on numbers that the driver addresses truly are those on the array. -/
theorem run_addresses (ops : List Op) : ∀ {img : Image}, img.size < 2 ^ 31 →
    (∀ op ∈ ops, img.Addresses op.block) → ActsAsArray ops img := by
  induction ops with
  | nil => exact fun {img} _ _ => ⟨[], img, rfl, rfl, rfl, fun _ _ => rfl⟩
  | cons op rest ih =>
    intro img hsize hall
    rw [List.forall_mem_cons] at hall
    obtain ⟨reply, img₁, hexec, harray, htail⟩ := exec_addresses hsize op hall.1
    obtain ⟨later, img₂, hrest, hlater, htail₂⟩ := ih (by rwa [htail.size]) fun o ho =>
      (htail.addresses _).2 (hall.2 o ho)
    refine ⟨reply :: later, img₂, run_cons_ok.2 ⟨_, _, _, hexec, hrest, rfl⟩, ?_, htail.trans htail₂⟩
    simp only [SectorArray.run, harray, hlater]

/-- Where the replies are those of the array, the driver has addressed its blocks truly. -/
theorem addresses_of_replies (ops : List Op) : ∀ {img img' : Image}, img.size < 2 ^ 31 →
    run ops img = .ok ((SectorArray.run ops img.sectors).1, img') →
    ∀ op ∈ ops, img.Addresses op.block := by
  induction ops with
  | nil => simp
  | cons op rest ih =>
    intro img img' hsize hrun
    obtain ⟨reply, img₁, later, hexec, hrest, heq⟩ := run_cons_ok.1 hrun
    rw [SectorArray.run] at heq
    simp only [List.cons.injEq] at heq
    obtain ⟨hreply, hlater⟩ := heq
    by_cases hop : img.Addresses op.block
    · obtain ⟨reply', img₁', hexec', harray, htail⟩ := exec_addresses hsize op hop
      rw [hexec] at hexec'
      cases hexec'
      rw [harray] at hlater
      have hall := ih (by rwa [htail.size]) (hlater ▸ hrest)
      intro o ho
      rcases List.mem_cons.1 ho with rfl | ho
      · exact hop
      · exact (htail.addresses _).1 (hall o ho)
    · exact absurd (congrArg Prod.fst hreply).symm (exec_not_addresses hsize hop hexec)

theorem Usable.tail {names : List FileName} {size : Nat} (hos : Usable os (name :: names) size) :
    Usable os names size :=
  ⟨fun n hn => hos.readable n (List.mem_cons_of_mem _ hn),
    fun n hn => hos.writable n (List.mem_cons_of_mem _ hn), hos.allocates⟩

theorem Usable.first {names : List FileName} {size : Nat} (hos : Usable os (name :: out :: names) size) :
    Usable os [name, out] size := by
  refine ⟨fun n hn => hos.readable n ?_, fun n hn => hos.writable n ?_, hos.allocates⟩ <;>
  · simp only [List.mem_cons, List.not_mem_nil, or_false] at hn
    rcases hn with rfl | rfl <;> simp

theorem epochs_cons (name : FileName) (ops : List Op) (out : FileName)
    (rest : List (List Op × FileName)) {result : Option (List Reply × Int)}
    (hrun : epoch name ops out os pc = .ok (result, pc')) : epochs name ((ops, out) :: rest) os pc =
      (epochs out rest os pc').map fun later => (result :: later.1, later.2) := by
  rw [epochs, Prog.bind_ok hrun, Prog.bind_apply]
  rcases epochs out rest os pc' with e | ⟨results, pc''⟩ <;> rfl

theorem map_ok {α β : Type} {f : α → β} {x : Except Fault (α × Pc)} {b : β}
    (hrun : (x.map fun y => (f y.1, y.2)) = .ok (b, pc')) : ∃ a, x = .ok (a, pc') ∧ f a = b := by
  rcases x with e | ⟨a, pc⟩
  · cases hrun
  · cases hrun
    exact ⟨a, rfl, rfl⟩

theorem SectorArray.epochs_cons {rest : List (List Op)} {a a' : SectorArray}
    {all : List (List Reply)} (hrun : SectorArray.epochs (ops :: rest) a = (all, a')) :
    ∃ later, all = (SectorArray.run ops a).1 :: later ∧
      SectorArray.epochs rest (SectorArray.run ops a).2 = (later, a') := by
  cases hrun
  exact ⟨_, rfl, rfl⟩

theorem SameTail.symm (h : SameTail img img') : SameTail img' img :=
  ⟨h.size.symm, fun p hp => (h.tail p (by rwa [← h.size])).symm⟩

/-- **The device outlives the programs**: over programs that hand the image on by snapshots the driver is
    one array of sectors, exactly on the block numbers it addresses truly. -/
theorem keepsArray_iff (es : List (List Op × FileName)) : ∀ {name : FileName} {file : List UInt8} {pc : Pc},
    pc.files name = some file → file.length < 2 ^ 31 →
    Usable os (name :: es.map Prod.snd) file.length →
    (KeepsArray os pc name es file ↔ ∀ e ∈ es, ∀ op ∈ e.1, (imageOf file).Addresses op.block) := by
  induction es with
  | nil =>
    intro name file pc hfile _ _
    exact ⟨fun _ => by simp, fun _ => ⟨[], pc, file, rfl, rfl, hfile, rfl, fun _ _ => rfl⟩⟩
  | cons e rest ih =>
    obtain ⟨ops, out⟩ := e
    intro name file pc hfile hsize hos
    have hepoch := epoch_eq hfile hsize hos.first ops
    -- the first program, when it acts as the array, leaves the image for the others
    have hnext : ∀ {replies : List Reply} {img : Image}, run ops (imageOf file) = .ok (replies, img) →
        SameTail (imageOf file) img → ∀ {pc₁ : Pc},
        pc₁.files = Function.update pc.files out (some img.bytes) →
        (KeepsArray os pc₁ out rest img.bytes ↔
          ∀ e ∈ rest, ∀ op ∈ e.1, (imageOf file).Addresses op.block) := by
      intro replies img hrun htail pc₁ hfiles
      have hfile₁ : pc₁.files out = some img.bytes := by rw [hfiles, Function.update_self]
      have hlen : img.bytes.length = file.length := by
        rw [length_bytes]
        exact htail.size
      rw [ih hfile₁ (by rwa [hlen]) (by rw [hlen]; exact hos.tail), imageOf_bytes htail]
      simp only [htail.addresses]
    constructor
    · rintro ⟨replies, pc', file', hrun, harray, hlast, htail⟩
      rcases hops : run ops (imageOf file) with e | ⟨first, img⟩
      · rw [hops] at hepoch
        rw [epochs, Prog.bind_error hepoch] at hrun
        cases hrun
      · rw [hops] at hepoch
        rw [epochs_cons name ops out rest hepoch] at hrun
        obtain ⟨later, hrest, hreplies⟩ := map_ok hrun
        obtain ⟨tail, rfl, harray'⟩ := SectorArray.epochs_cons harray
        simp only [List.map_cons, List.cons.injEq, Option.some.injEq, Prod.mk.injEq] at hreplies
        obtain ⟨⟨hfirst, -⟩, rfl⟩ := hreplies
        -- its replies are those of the array, and so is the image it leaves
        have hall := addresses_of_replies ops hsize (hfirst ▸ hops)
        obtain ⟨_, _, hops', hsectors, htail₁⟩ := run_addresses ops hsize hall
        rw [hops] at hops'
        cases hops'
        rw [hsectors, ← imageOf_bytes htail₁] at harray'
        have hrest' := (hnext hops htail₁ rfl).1
          ⟨_, _, file', hrest, harray', hlast,
            by rw [imageOf_bytes htail₁]; exact htail₁.symm.trans htail⟩
        intro e he
        rcases List.mem_cons.1 he with rfl | he
        · exact hall
        · exact hrest' e he
    · intro hall
      obtain ⟨first, img, hops, hsectors, htail₁⟩ :=
        run_addresses ops hsize (hall (ops, out) List.mem_cons_self)
      rw [hops] at hepoch
      have hkeeps : KeepsArray os (pc.left name out img) out rest img.bytes :=
        (hnext hops htail₁ rfl).2 fun e he => hall e (List.mem_cons_of_mem _ he)
      obtain ⟨later, pc', file', hrest, harray, hlast, htail⟩ := hkeeps
      rw [imageOf_bytes htail₁] at harray htail
      refine ⟨first :: later, pc', file', ?_, ?_, hlast, htail₁.trans htail⟩
      · rw [epochs_cons name ops out rest hepoch, hrest]
        rfl
      · rw [List.map_cons, SectorArray.epochs, hsectors, harray]

/-! ## Two programs -/

/-- A machine that opens every file and has memory for every image. -/
def willing : Os := ⟨fun _ => true, fun _ => true, fun _ => true⟩

/-- One empty file of two sectors and 3 bytes, under the name `a`. -/
def oneFile : FileName → Option (List UInt8) :=
  fun name => if name = [97] then some (List.replicate 1027 0) else none

/-- The second program finds in `b` what the first has written, and a block past the end is refused. -/
def twoPrograms : List (List Op × FileName) :=
  [([.write 1 fun _ => 5], [98]), ([.read 1 fun _ => 0, .read 2 fun _ => 0], [97])]

theorem keepsArray_iff_twoPrograms :
    KeepsArray willing (Pc.start oneFile) [97] twoPrograms (List.replicate 1027 0) :=
  (keepsArray_iff twoPrograms (show oneFile [97] = _ from if_pos rfl) (by rw [List.length_replicate]; decide)
    ⟨fun _ _ => rfl, fun _ _ => rfl, rfl⟩).2 (by
      have hsize : (imageOf (List.replicate 1027 0)).size = 1027 := List.length_replicate
      unfold Image.Addresses
      rw [hsize]
      decide)

/-! ## The checksum -/

/-- **A snapshot has the checksum of the range it is taken of**, and changes neither the image nor another
    file. -/
theorem snapshot_hash {start len : UInt64} (hpc : pc.Holds img)
    (hin : start.toNat + len.toNat ≤ img.size) (hwrite : os.writable name = true) :
    ∃ pc' digest, blockPcSnapshot name start len os pc = .ok (0, pc') ∧ pc'.Holds img ∧
      (∀ other ≠ name, pc'.files other = pc.files other) ∧
      (∀ context buffer, Hash.md5File context buffer pc'.files name = .ok (0, some digest)) ∧
      ∀ context buffer, Hash.blockPcHash context buffer img start len = .ok (0, digest) := by
  have hrun : blockPcSnapshot name start len os pc = .ok (0, { pc with
      files := Function.update pc.files name
        (some (Hash.bytesAt (fun i => img.byte (start.toNat + i)) len)) }) := by
    simp [blockPcSnapshot, hwrite, hpc.blocks, hin, Hash.bytesAt]
  refine ⟨_, Md5.digest (Hash.bytesAt (fun i => img.byte (start.toNat + i)) len), hrun,
    ⟨hpc.blocks, hpc.fsSize⟩, ?_, ?_, ?_⟩
  · intro other hother
    exact Function.update_of_ne hother ..
  · intro context buffer
    exact Hash.md5File_ok context buffer (Function.update_self ..)
  · intro context buffer
    exact Hash.blockPcHash_ok context buffer hin

/-- The second sector of an image of two. -/
theorem snapshot_hash_sector : ∃ pc' digest,
    blockPcSnapshot [98] 512 512 willing ⟨oneFile, none, 1024, .held ⟨1024, fun p => UInt8.ofNat p⟩, 0⟩
      = .ok (0, pc') ∧ pc'.Holds ⟨1024, fun p => UInt8.ofNat p⟩ ∧
      (∀ other ≠ [98], pc'.files other = oneFile other) ∧
      (∀ context buffer, Hash.md5File context buffer pc'.files [98] = .ok (0, some digest)) ∧
      ∀ context buffer, Hash.blockPcHash context buffer ⟨1024, fun p => UInt8.ofNat p⟩ 512 512
        = .ok (0, digest) :=
  snapshot_hash ⟨rfl, rfl⟩ (by decide) rfl

end Embext.BlockPc
