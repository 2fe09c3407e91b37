import Embext.Implementation.Hash
import Embext.Implementation.Path

set_option autoImplicit false

/-! # The test program

The pass of `test_embext.c` that reads a binary file through the driver, copies it to a dump and
compares its MD5 sum with the recorded one. -/

namespace Embext.TestEmbext

open Hash

/-- `sizeof(buffer)` -/
def bufferSize : Nat := 256

/-- The sum and the dump so far. -/
structure Copied where
  hashContext : MdContext
  dump : List UInt8

/-- `fwrite(buffer, 1, r, fw)` and `md5_update(&hash_context, buffer, r)`. -/
def Copied.take (s : Copied) (buffer : List UInt8) : Drv Copied :=
  match md5Update s.hashContext (fun i => buffer.getD i 0) (UInt64.ofNat buffer.length) with
  | .ok context => pure ⟨context, s.dump ++ buffer⟩
  | .error e => Prog.fault e

/-- The loop over full buffers, and the short one behind it. -/
def readLoop : Nat → Copied → FileEnt → Drv (Copied × FileEnt)
  | 0, _, _ => Prog.fault .noReturn
  | fuel + 1, s, fe => do
    let (r, buffer, fe) ← ext2Read fe bufferSize
    if r = bufferSize then
      let s ← s.take buffer
      readLoop fuel s fe
    else if 0 < r then
      let s ← s.take buffer
      pure (s, fe)
    else pure (s, fe)

/-- How the pass ends: it exits before the comparison, or compares, with the bytes in the dump. -/
inductive Outcome where
  | notOpened
  | noHashFile
  | shortHashFile
  | compared (equal : Bool) (dump : List UInt8)

/-- `fread(real_hash, 1, 16, fhash)` from the file with the recorded sum, if there is one, and the
    `memcmp`. -/
def compareHash (digest : Fin 16 → UInt8) (dump : List UInt8) : Option (List UInt8) → Outcome
  | none => .noHashFile
  | some fhash =>
    if (fhash.take 16).length ≠ 16 then .shortHashFile
    else .compared (decide (List.ofFn digest = fhash.take 16)) dump

/-- The pass for the file at `path`, in the source `/static/test_image.png`; `fhash` is what is in the file
    with the recorded sum. -/
def readBinaryFile (hashContext : MdContext) (path : List UInt8) (fhash : Option (List UInt8)) :
    Drv Outcome := do
  let fe ← ext2Open path oRdonly 0o777
  match fe with
  | none => pure .notOpened
  | some fe =>
    let bound ← patience
    let (s, fe) ← readLoop bound ⟨md5Start hashContext, []⟩ fe
    let _ ← ext2Close fe
    match md5Finish s.hashContext with
    | .ok context => pure (compareHash context.digest s.dump fhash)
    | .error e => Prog.fault e

end Embext.TestEmbext
