import Embext.Proofs.Frame
import Embext.Proofs.Inode
import Embext.Proofs.SmallVolume

set_option autoImplicit false

/-! # The caller's error code

`ext2_open` decides between creating a file and giving up by comparing `*rerrno` with `ENOENT`. The
functions before that decision never look at the location, but they do not always assign it either:
a path that leads to an inode number outside the volume is judged by what an earlier call has left
there. -/

namespace Embext

open Prog (Gen)

section

variable {h : Host} {m s s' : Machine}

/-! ## Programs that do not look at the error code -/

def Machine.withErrno (m : Machine) (e : Errno) : Machine := { m with rerrno := e }

/-- A program that does not look at `*rerrno`: from any state it ends the same way whatever the
    location holds, or returns the same with the location as it was. -/
def Blind (h : Host) (α : Type) (p : Drv α) : Prop := ∀ m : Machine,
  (∀ e, p h (m.withErrno e) = p h m) ∨
    ∃ (a : α) (s : Machine), ∀ e, p h (m.withErrno e) = .ok (a, s.withErrno e)

variable {α β : Type} {p : Drv α} {f : α → Drv β}

theorem bind_same (hp : p h s = p h s') : (p >>= f) h s = (p >>= f) h s' := by
  rw [Prog.bind_apply, Prog.bind_apply, hp]

theorem Blind.bind (hp : Blind h α p) (hf : ∀ a, Blind h β (f a)) : Blind h β (p >>= f) := by
  intro m
  rcases hp m with hsame | ⟨a, s, hkeep⟩
  · exact .inl fun e => bind_same (hsame e)
  · have hrest : ∀ e, (p >>= f) h (m.withErrno e) = f a h (s.withErrno e) := fun e =>
      Prog.bind_ok (hkeep e)
    rcases hf a s with hsame | ⟨b, t, hkeep'⟩
    · refine .inl fun e => ?_
      have hown : (p >>= f) h m = f a h s := (hrest m.rerrno).trans (hsame m.rerrno)
      rw [hrest, hsame, hown]
    · exact .inr ⟨b, t, fun e => (hrest e).trans (hkeep' e)⟩

/-- What is put together from blind steps is blind. -/
theorem Blind.of_gen (hp : Gen (Blind h) α p) : Blind h α p := by
  induction hp with
  | prim hp => exact hp
  | pure a => exact fun m => .inr ⟨a, m, fun e => rfl⟩
  | fault x => exact fun m => .inl fun e => rfl
  | bind _ _ ihp ihf => exact ihp.bind ihf

instance : Primitives (Blind h) where
  blockRead sec old m := by
    by_cases hf : h.fails m.log.length = true
    · exact .inr ⟨(-1, old), m.logged (.read sec false), fun e => if_pos hf⟩
    · exact .inr ⟨(0, m.disk sec), m.logged (.read sec true), fun e => if_neg hf⟩
  blockWrite sec data m := by
    by_cases hf : h.fails m.log.length = true
    · exact .inr ⟨-1, m.logged (.write sec false), fun e => if_pos hf⟩
    · exact .inr ⟨0, { m.logged (.write sec true) with
        disk := fun t => if t = sec then data else m.disk t }, fun e => if_neg hf⟩
  getCtx m := .inr ⟨m.ctx, m, fun e => rfl⟩
  setErrno e m := .inl fun e' => rfl
  timeNull m := .inr ⟨h.clock m.ticks, { m with ticks := m.ticks + 1 }, fun e => rfl⟩
  patience m := .inr ⟨h.patience, m, fun e => rfl⟩
  dName f m := .inr ⟨(), { m with dName := f m.dName }, fun e => rfl⟩
  readName g := .prim fun m => .inr ⟨g m.dName, m, fun e => rfl⟩
  context f _ _ m := .inr ⟨(), { m with ctx := f m.ctx }, fun e => rfl⟩

/-! ## `ext2_open` -/

/-- `ext2_open_inode` refuses the number. -/
def Ext2Context.Refuses (ctx : Ext2Context) (ino : UInt32) : Prop :=
  ctx.superblock.sInodesPerGroup ≠ 0 ∧ (ctx.superblock.sInodesCount.toNat < ino.toNat ∨ ino = 0)

/-- The result of `ext2_open_inode` is 0, or -1 for a number it refuses. -/
theorem ext2OpenInode_ret {fe fe' : FileEnt} {ino : UInt32} {r : Int}
    (hrun : ext2OpenInode fe ino h m = .ok ((r, fe'), s)) : r = 0 ∨ r = -1 ∧ m.ctx.Refuses ino := by
  obtain ⟨ctx, m₁, hctx, hrun⟩ := Prog.of_bind_ok hrun
  cases hctx
  obtain ⟨g, m₂, hdiv, hrun⟩ := Prog.of_bind_ok hrun
  obtain ⟨hper, rfl, rfl⟩ := of_udiv_ok hdiv
  rw [Prog.bind_ok (umod_ok _ hper)] at hrun
  by_cases hout : m₂.ctx.superblock.sInodesCount.toNat < ino.toNat ∨ ino.toNat = 0
  · rw [if_pos hout] at hrun
    cases hrun
    exact .inr ⟨rfl, fun h0 => hper (by rw [h0]; rfl), hout.imp id fun h0 => UInt32.toNat_inj.1 h0⟩
  · rw [if_neg hout] at hrun
    obtain ⟨_, _, -, hrun⟩ := Prog.of_bind_ok hrun
    obtain ⟨_, _, -, hrun⟩ := Prog.of_bind_ok hrun
    obtain ⟨_, _, -, hrun⟩ := Prog.of_bind_ok hrun
    obtain ⟨_, _, -, hrun⟩ := Prog.of_bind_ok hrun
    obtain ⟨_, _, -, hrun⟩ := Prog.of_bind_ok hrun
    obtain ⟨_, _, -, hrun⟩ := Prog.of_bind_ok hrun
    obtain ⟨_, _, -, hrun⟩ := Prog.of_bind_ok hrun
    obtain ⟨_, _, -, hrun⟩ := Prog.of_bind_ok hrun
    dsimp only at hrun
    rw [Prog.ite_apply] at hrun
    split at hrun
    · cases hrun
      exact .inl rfl
    · cases hrun

/-- The branch for a file that exists is blind, and it assigns the code whenever it gives NULL. -/
theorem ext2OpenExisting_blind (fe : FileEnt) (flags : OpenFlags) (mode : Nat) (m : Machine) :
    (∀ e, ext2OpenExisting fe flags mode h (m.withErrno e) = ext2OpenExisting fe flags mode h m) ∨
      ∃ (fe' : FileEnt) (s : Machine), ∀ e,
        ext2OpenExisting fe flags mode h (m.withErrno e) = .ok (some fe', s.withErrno e) := by
  unfold ext2OpenExisting
  by_cases hexcl : flags.creat = true ∧ flags.excl = true
  · exact .inl fun e => by rw [if_pos hexcl]; rfl
  rw [if_neg hexcl]
  by_cases hread : ¬ flags.wronly = true ∧ ¬ flags.rdwr = true
  · exact .inr ⟨fe, m, fun e => by rw [if_pos hread]; rfl⟩
  rw [if_neg hread]
  have hctx : ∀ e, getCtx h (m.withErrno e) = .ok (m.ctx, m.withErrno e) := fun e => rfl
  simp only [Prog.bind_ok (hctx _), Prog.bind_ok (show getCtx h m = .ok (m.ctx, m) from rfl)]
  by_cases hro : m.ctx.readOnly = true
  · exact .inl fun e => by rw [if_pos hro]; rfl
  rw [if_neg hro]
  by_cases hdir : fe.inode.iMode &&& ext2SIfdir ≠ 0 ∧ ¬ mode.testBit 9 = true
  · exact .inl fun e => by rw [if_pos hdir]; rfl
  rw [if_neg hdir]
  by_cases htrunc : flags.trunc = true
  · rw [if_pos htrunc]
    rcases Blind.of_gen (steps_ext2TruncateFile fe) m with hsame | ⟨⟨r, fe'⟩, s, hkeep⟩
    · exact .inl fun e => bind_same (hsame e)
    · exact .inr ⟨{ fe' with cursor := 0 }, s, fun e => Prog.bind_ok (hkeep e)⟩
  · exact .inr ⟨fe, m, fun e => by rw [if_neg htrunc]; rfl⟩

/-- How `ext2_open` goes on from the path's inode number. -/
theorem ext2Open_eq {name : List UInt8} {flags : OpenFlags} {mode : Nat} {fe fe' : FileEnt}
    {ino : UInt32} {i : Int} {t : Machine}
    (hlook : ext2LookupPath FileEnt.fresh name h m = .ok ((ino, fe), s))
    (hopen : ext2OpenInode fe ino h s = .ok ((i, fe'), t)) :
    ext2Open name flags mode h m
      = (if i = -1 ∧ t.rerrno = .enoent then
          if ¬ flags.creat then do
            setErrno .enoent
            pure none
          else ext2Create ext2AppendToDirectory
            { fe' with flags := openedFlags fe'.flags flags } name mode
        else if i = 0 then
          ext2OpenExisting { fe' with flags := openedFlags fe'.flags flags } flags mode
        else pure none : Drv (Option FileEnt)) h t := by
  unfold ext2Open ext2OpenWith
  rw [Prog.bind_ok hlook]
  exact Prog.bind_ok hopen

/-- Two ends of a call that differ at most in `*rerrno`, and not there when the result is NULL. -/
inductive Alike : Except Fault (Option FileEnt × Machine) → Except Fault (Option FileEnt × Machine) →
    Prop where
  | same (x : Except Fault (Option FileEnt × Machine)) : Alike x x
  | opened (fe : FileEnt) (s : Machine) (e₁ e₂ : Errno) :
      Alike (.ok (some fe, s.withErrno e₁)) (.ok (some fe, s.withErrno e₂))

/-- The outcome of `ext2_open` does not depend on what `*rerrno` held before. -/
def OpensAlike (h : Host) (m : Machine) (name : List UInt8) (flags : OpenFlags) (mode : Nat) : Prop :=
  ∀ e₁ e₂, Alike (ext2Open name flags mode h (m.withErrno e₁))
    (ext2Open name flags mode h (m.withErrno e₂))

/-- The path leads to an inode number that `ext2_open_inode` refuses, with `*rerrno` not assigned
    on the way. -/
def EndsOutside (h : Host) (m : Machine) (name : List UInt8) : Prop :=
  ∃ ino fe s, m.ctx.Refuses ino ∧
    ∀ e, ext2LookupPath FileEnt.fresh name h (m.withErrno e) = .ok ((ino, fe), Machine.withErrno s e)

theorem Alike.null (hsame : Alike (.ok (none, s)) (.ok (none, s'))) : s = s' := by
  cases hsame
  rfl

/-- A lookup stays with the volume. -/
theorem refuses_lookup {fe fe' : FileEnt} {name : List UInt8} {ino i : UInt32}
    (hlook : ext2LookupPath fe name h m = .ok ((ino, fe'), s)) :
    s.ctx.Refuses i ↔ m.ctx.Refuses i := by
  have hvol := (show Steps True _ from steps_ext2LookupPath fe name).sameVolume hlook
  unfold Ext2Context.SameVolume at hvol
  unfold Ext2Context.Refuses
  rw [hvol]

theorem opensAlike_of_inside {name : List UInt8} (hin : ¬ EndsOutside h m name) (flags : OpenFlags)
    (mode : Nat) : OpensAlike h m name flags mode := by
  intro e₁ e₂
  -- runs that come to one state end alike
  have hsame : ∀ y, (∀ e, ext2Open name flags mode h (m.withErrno e) = y) →
      Alike (ext2Open name flags mode h (m.withErrno e₁))
        (ext2Open name flags mode h (m.withErrno e₂)) := fun y hall => by
    rw [hall, hall]
    exact .same y
  rcases Blind.of_gen (steps_ext2LookupPath FileEnt.fresh name) m with hall | ⟨⟨ino, fe⟩, s, hlook⟩
  · exact hsame _ fun e => bind_same (hall e)
  rcases Blind.of_gen (steps_ext2OpenInode fe ino) s with hall | ⟨⟨i, fe'⟩, t, hopen⟩
  · exact hsame _ fun e => (Prog.bind_ok (hlook e)).trans (bind_same (hall e))
  rw [ext2Open_eq (hlook e₁) (hopen e₁), ext2Open_eq (hlook e₂) (hopen e₂)]
  rcases ext2OpenInode_ret (hopen e₁) with rfl | ⟨-, href⟩
  · rw [if_neg fun hstale => absurd hstale.1 (by decide), if_pos rfl,
      if_neg fun hstale => absurd hstale.1 (by decide)]
    rcases ext2OpenExisting_blind { fe' with flags := openedFlags fe'.flags flags } flags mode t with
      hall | ⟨fe₁, u, hkeep⟩
    · rw [hall, hall]
      exact .same _
    · rw [hkeep, hkeep]
      exact .opened fe₁ u e₁ e₂
  · exact absurd ⟨ino, fe, s, (refuses_lookup (hlook e₁)).1 href, hlook⟩ hin

/-- With any code but `ENOENT` in `*rerrno` the result is NULL and the code stays. -/
theorem not_opensAlike {name : List UInt8} (hout : EndsOutside h m name) (flags : OpenFlags)
    (mode : Nat) : ¬ OpensAlike h m name flags mode := by
  intro halike
  obtain ⟨ino, fe, s, href, hlook⟩ := hout
  have hnull : ∀ e, e ≠ .enoent →
      ext2Open name flags mode h (m.withErrno e) = .ok (none, s.withErrno e) := by
    intro e he
    obtain ⟨hper, hnumber⟩ := (refuses_lookup (hlook e)).2 href
    rw [ext2Open_eq (hlook e) (ext2OpenInode_missing hper hnumber), if_neg fun hstale => he hstale.2,
      if_neg (by decide)]
    rfl
  have hends := halike .eio .einval
  rw [hnull .eio (by decide), hnull .einval (by decide)] at hends
  have hcode : Errno.eio = Errno.einval := congrArg Machine.rerrno hends.null
  cases hcode

/-- **Stale error codes.** The outcome of `ext2_open` is the same for every value `*rerrno` may hold,
    and NULL comes with an assigned code, if and only if the path does not end at a refused inode
    number with the code not assigned on the way. -/
theorem opensAlike_iff (h : Host) (m : Machine) (name : List UInt8) (flags : OpenFlags) (mode : Nat) :
    OpensAlike h m name flags mode ↔ ¬ EndsOutside h m name :=
  ⟨fun halike hout => not_opensAlike hout flags mode halike,
    fun hin => opensAlike_of_inside hin flags mode⟩

end

namespace SmallVolume

/-- The small volume with 10 inodes recorded in its superblock, one fewer than the entry `f` needs. -/
def outsideMachine : Machine :=
  { machine with ctx := { machine.ctx with
      superblock := { machine.ctx.superblock with sInodesCount := 10 } } }

/-- The number and the error code a lookup of `/f` ends with. -/
def lookedUp (e : Errno) : Option (UInt32 × Errno) :=
  (ext2LookupPath FileEnt.fresh pathF host (outsideMachine.withErrno e)).toOption.map fun x =>
    (x.1.1, x.2.rerrno)

theorem outsideMachine_endsOutside : EndsOutside host outsideMachine pathF := by
  have hfirst : lookedUp .eio = some (11, .eio) := by decide +kernel
  have hsecond : lookedUp .einval = some (11, .einval) := by decide +kernel
  rcases Blind.of_gen (steps_ext2LookupPath FileEnt.fresh pathF) outsideMachine with
    hall | ⟨⟨ino, fe⟩, s, hlook⟩
  · unfold lookedUp at hfirst hsecond
    rw [hall] at hfirst hsecond
    rw [hfirst] at hsecond
    exact absurd hsecond (by decide)
  · unfold lookedUp at hfirst
    rw [hlook] at hfirst
    have hino : ino = 11 := congrArg Prod.fst (Option.some.inj hfirst)
    refine ⟨ino, fe, s, ?_, hlook⟩
    rw [hino]
    exact ⟨by decide +kernel, .inl (by decide +kernel)⟩

/-- The entry `f` names inode 11 of a volume with 10: what `ext2_open` does with it depends on the
    code that an earlier call has left. -/
theorem opensAlike_fails : ¬ ∀ (h : Host) (m : Machine) (name : List UInt8) (flags : OpenFlags)
    (mode : Nat), OpensAlike h m name flags mode := fun hclaim =>
  not_opensAlike outsideMachine_endsOutside oRdonly 0 (hclaim host outsideMachine pathF oRdonly 0)

end SmallVolume

end Embext
