import Embext.Implementation.Mount

set_option autoImplicit false

/-! # Runs of calls

What a program linked with the driver can do: mount and unmount volumes on the one block device and
call the file functions on them, in any order. A handle is an index in its volume's table of open
files; an index past the end stands for the NULL pointer, and a closed entry for freed memory. -/

namespace Embext

/-- A call on a mounted volume. -/
inductive Call where
  | «open» (name : List UInt8) (flags : OpenFlags) (mode : Nat)
  | close (fd : Nat)
  | read (fd : Nat) (count : Nat)
  | write (fd : Nat) (data : List UInt8)
  | lseek (fd : Nat) (offset : Int) (whence : Whence)
  | readdir (fd : Nat)
  | fstat (fd : Nat)
  | isatty (fd : Nat)

/-- What a call returns. -/
inductive Reply where
  | opened (success : Bool)
  | ret (r : Int)
  | data (r : Int) (bytes : List UInt8)
  | entry (de : Option Dirent)
  | stat (r : Int) (st : Option Stat)

/-- The handles of a volume, in the order they were opened; `none` is a freed one. -/
abbrev Files := List (Option FileEnt)

/-- Run `body` on an open handle. NULL gets `EBADF` and the reply `null`, the check every function
    makes first; a freed handle is a use after free. -/
def withHandle (files : Files) (fd : Nat) (null : Reply)
    (body : FileEnt → Drv (Reply × Option FileEnt)) : Drv (Reply × Files) := do
  match files[fd]? with
  | none =>
    setErrno .ebadf
    pure (null, files)
  | some none => Prog.fault .useAfterFree
  | some (some fe) =>
    let (reply, fe) ← body fe
    pure (reply, files.set fd fe)

def execCall (call : Call) (files : Files) : Drv (Reply × Files) :=
  match call with
  | .open name flags mode => do
    let fe ← ext2Open name flags mode
    match fe with
    | none => pure (.opened false, files)
    | some fe => pure (.opened true, files ++ [some fe])
  | .close fd => withHandle files fd (.ret (-1)) fun fe => do
    let (r, fe) ← ext2Close fe
    pure (.ret r, if r = 0 then none else some fe)
  | .read fd count => withHandle files fd (.data (-1) []) fun fe => do
    let (r, bytes, fe) ← ext2Read fe count
    pure (.data r bytes, some fe)
  | .write fd data => withHandle files fd (.ret (-1)) fun fe => do
    let (r, fe) ← ext2Write fe data
    pure (.ret r, some fe)
  | .lseek fd offset whence => withHandle files fd (.ret (-1)) fun fe => do
    let (r, fe) ← ext2Lseek fe offset whence
    pure (.ret r, some fe)
  | .readdir fd => withHandle files fd (.entry none) fun fe => do
    let (de, fe) ← ext2Readdir fe
    pure (.entry de, some fe)
  | .fstat fd => withHandle files fd (.stat (-1) none) fun fe => do
    let (r, st) ← ext2Fstat fe
    pure (.stat r st, some fe)
  | .isatty fd => withHandle files fd (.ret 0) fun fe => do
    let r ← ext2Isatty fe
    pure (.ret r, some fe)

/-- A run of calls on one mounted volume. -/
def runCalls : List Call → Files → Drv (List Reply × Files)
  | [], files => pure ([], files)
  | call :: rest, files => do
    let (reply, files) ← execCall call files
    let (replies, files) ← runCalls rest files
    pure (reply :: replies, files)

/-- A call that has returned, with the state before and after it. -/
structure Executed where
  call : Call
  files : Files
  before : Machine
  reply : Reply
  files' : Files
  after : Machine

/-- The history of a run of calls from one state to another. -/
inductive Run (h : Host) : Files → Machine → List Executed → Files → Machine → Prop where
  | nil (files : Files) (m : Machine) : Run h files m [] files m
  | cons {run : List Executed} {files' : Files} {m' : Machine} (c : Executed)
      (exec : execCall c.call c.files h c.before = .ok ((c.reply, c.files'), c.after))
      (rest : Run h c.files' c.after run files' m') :
      Run h c.files c.before (c :: run) files' m'

/-- A run of calls with its history. -/
def trace : List Call → Files → Drv (List Executed × Files)
  | [], files => pure ([], files)
  | call :: rest, files => do
    let before ← Prog.get
    let (reply, files') ← execCall call files
    let after ← Prog.get
    let (run, last) ← trace rest files'
    pure (⟨call, files, before, reply, files', after⟩ :: run, last)

/-! ## Several volumes -/

/-- A mounted volume with its handles. -/
structure Volume where
  ctx : Ext2Context
  files : Files

/-- The volumes mounted so far; `none` is an unmounted one, whose context is freed. -/
abbrev Volumes := List (Option Volume)

/-- A call of the program. -/
inductive Request where
  | mount (garbage : Sector) (partStart volumeSize : UInt32)
  | umount (vol : Nat)
  | on (vol : Nat) (call : Call)

/-- The context a volume's calls work on becomes the machine's for the call. -/
def withVolume (vols : Volumes) (vol : Nat) (body : Files → Drv (Option Files)) :
    Drv Volumes := do
  match vols[vol]? with
  | some (some v) =>
    setCtx v.ctx
    let files ← body v.files
    let ctx ← getCtx
    pure (vols.set vol (files.map fun files => ⟨ctx, files⟩))
  | _ => Prog.fault .useAfterFree

def execRequest (request : Request) (vols : Volumes) : Drv Volumes :=
  match request with
  | .mount garbage partStart volumeSize => do
    let r ← ext2Mount garbage partStart volumeSize
    if r = 0 then
      let ctx ← getCtx
      pure (vols ++ [some ⟨ctx, []⟩])
    else pure vols
  | .umount vol => withVolume vols vol fun _ => do
    let _ ← ext2Umount
    pure none
  | .on vol call => withVolume vols vol fun files => do
    let (_, files) ← execCall call files
    pure (some files)

def runRequests : List Request → Volumes → Drv Volumes
  | [], vols => pure vols
  | request :: rest, vols => do
    let vols ← execRequest request vols
    runRequests rest vols

end Embext
