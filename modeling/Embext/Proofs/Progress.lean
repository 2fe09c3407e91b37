import Embext.Implementation.Transfer
import Embext.Proofs.Calls

set_option autoImplicit false

/-! # The transfer loops make progress

The space in the buffer is never zero, so every turn of a transfer copies something, and the two cuts
keep what it copies inside the request and the file. The number of bytes still wanted is the measure of
both loops. -/

namespace Embext

open Prog (Turn Turns)

variable {h : Host} {m m' : Machine} {fe fe' : FileEnt} {count : UInt64} {s s' : Locals} {copy : Copy}

/-! ## The amount of a turn -/

/-- The buffer space is the difference it looks like, and so never zero. -/
theorem toNat_bufferSpace {bs : Nat} (hlow : 1024 ≤ bs) (hhigh : bs ≤ 2 ^ 30) (c : Int) :
    (bufferSpace bs c).toNat = bs - 1 - (c % 512).toNat := by
  have hbs : (UInt64.ofNat (bs - 1)).toNat = bs - 1 :=
    UInt64.toNat_ofNat_of_lt' (by show _ < 2 ^ 64; omega)
  have hrem : (UInt64.ofInt c % 512).toNat = (c % 512).toNat := by
    have hlt : (c % 2 ^ 64).toNat < 2 ^ 64 := by omega
    rw [UInt64.toNat_mod, UInt64.ofInt, UInt64.toNat_ofNat_of_lt' hlt]
    show (c % 2 ^ 64).toNat % 512 = _
    omega
  unfold bufferSpace
  rw [UInt64.toNat_toUInt32, UInt64.toNat_sub, hbs, hrem]
  omega

theorem toNat_amountInSpace {i : UInt32} (space : UInt32) (hi : i.toNat ≤ count.toNat) :
    (amountInSpace count i space).toNat = min space.toNat (count.toNat - i.toNat) := by
  have hspace := space.toNat_lt
  have hleft : (count - i.toUInt64).toNat = count.toNat - i.toNat := by
    rw [UInt64.toNat_sub_of_le _ _ (UInt64.le_iff_toNat_le.2 (by rw [UInt32.toNat_toUInt64]; exact hi)),
      UInt32.toNat_toUInt64]
  unfold amountInSpace
  rw [UInt64.toNat_toUInt32]
  by_cases hlt : space.toUInt64 < count - i.toUInt64
  · rw [if_pos hlt]
    rw [UInt64.lt_iff_toNat_lt, hleft, UInt32.toNat_toUInt64] at hlt
    rw [UInt32.toNat_toUInt64]
    omega
  · rw [if_neg hlt]
    rw [UInt64.lt_iff_toNat_lt, hleft, UInt32.toNat_toUInt64] at hlt
    rw [hleft]
    omega

theorem toNat_amountInFile (amount : UInt32) {iSize : UInt32} {c : Int} (hc : c < iSize.toNat) :
    (amountInFile amount iSize c).toNat = min amount.toNat ((iSize.toNat : Int) - c).toNat := by
  have hamount := amount.toNat_lt
  unfold amountInFile
  by_cases hlt : (iSize.toNat : Int) - c < amount.toNat
  · have hrange : (((iSize.toNat : Int) - c) % 2 ^ 32).toNat < 2 ^ 32 := by omega
    rw [if_pos hlt, UInt32.ofInt, UInt32.toNat_ofNat_of_lt' hrange]
    omega
  · rw [if_neg hlt]
    omega

/-- What a turn that goes on has done to the locals and the cursor. -/
structure TurnAdvances (count : UInt64) (s s' : Locals) : Prop where
  one_le : 1 ≤ s'.amountToCopy.toNat
  le_left : s'.amountToCopy.toNat ≤ count.toNat - s.i.toNat
  i : s'.i.toNat = s.i.toNat + s'.amountToCopy.toNat
  le_count : s'.i.toNat ≤ count.toNat
  cursor : s'.fe.cursor = s.fe.cursor + s'.amountToCopy.toNat

theorem TurnAdvances.of_amount (hcount : count.toNat < 2 ^ 31) (hpos : 1 ≤ s'.amountToCopy.toNat)
    (hle : s'.amountToCopy.toNat ≤ count.toNat - s.i.toNat) (hi : s'.i = s.i + s'.amountToCopy)
    (hcursor : s'.fe.cursor = s.fe.cursor + s'.amountToCopy.toNat) : TurnAdvances count s s' := by
  have hsum : s'.i.toNat = s.i.toNat + s'.amountToCopy.toNat := by
    rw [hi, UInt32.toNat_add]
    omega
  exact ⟨hpos, hle, hsum, by omega, hcursor⟩

theorem toUInt64_lt_iff {i : UInt32} : i.toUInt64 < count ↔ i.toNat < count.toNat := by
  rw [UInt64.lt_iff_toNat_lt, UInt32.toNat_toUInt64]

/-! ## A turn of a read -/

/-- The locals after a turn of a read that has selected a buffer for `fe`. -/
def readNext (count : UInt64) (i : UInt32) (bs : Nat) (fe : FileEnt) : Locals :=
  let amount := amountInSpace count i (bufferSpace bs fe.cursor)
  let amount := amountInFile amount fe.inode.iSize fe.cursor
  ⟨i + amount, amount, { fe with cursor := fe.cursor + amount.toNat }⟩

theorem readTurn_stop (hstop : count.toNat ≤ s.i.toNat ∨ (s.fe.inode.iSize.toNat : Int) ≤ s.fe.cursor) :
    readTurn count s h m = .ok (.leave (some s.i, s.fe), m) := by
  unfold readTurn
  by_cases hi : s.i.toUInt64 < count
  · rw [if_pos hi, if_pos (hstop.resolve_left (by rw [toUInt64_lt_iff] at hi; omega))]
    rfl
  · rw [if_neg hi]
    rfl

section

variable (hi : s.i.toNat < count.toNat) (hend : s.fe.cursor < s.fe.inode.iSize.toNat)
include hi hend

theorem readTurn_error {e : Fault} (hsel : ext2SelectBuffer s.fe h m = .error e) :
    readTurn count s h m = .error e := by
  unfold readTurn
  rw [if_pos (toUInt64_lt_iff.2 hi), if_neg (Int.not_le.2 hend)]
  exact Prog.bind_error hsel

theorem readTurn_failed {r : Int} (hr : r ≠ 0) (hsel : ext2SelectBuffer s.fe h m = .ok ((r, fe'), m')) :
    readTurn count s h m = .ok (.leave (none, fe'), { m' with rerrno := .eio }) := by
  unfold readTurn
  rw [if_pos (toUInt64_lt_iff.2 hi), if_neg (Int.not_le.2 hend), Prog.bind_ok hsel]
  dsimp only
  rw [if_pos hr]
  rfl

theorem readTurn_selected (hsel : ext2SelectBuffer s.fe h m = .ok ((0, fe'), m')) :
    readTurn count s h m = .ok (.next (readNext count s.i m'.ctx.blockSize fe'), m') := by
  unfold readTurn
  rw [if_pos (toUInt64_lt_iff.2 hi), if_neg (Int.not_le.2 hend), Prog.bind_ok hsel]
  dsimp only
  rw [if_neg (not_not.2 rfl), Prog.bind_ok (ext2BlockSize_ok (sane_of_ext2SelectBuffer hsel))]
  rfl

/-- A turn that has selected a buffer copies what is wanted, what the buffer has space for, or what is
    left of the file. -/
theorem readNext_amount (hsel : ext2SelectBuffer s.fe h m = .ok ((0, fe'), m')) :
    (readNext count s.i m'.ctx.blockSize fe').amountToCopy.toNat =
      min (min (m'.ctx.blockSize - 1 - (s.fe.cursor % 512).toNat) (count.toNat - s.i.toNat))
        ((s.fe.inode.iSize.toNat : Int) - s.fe.cursor).toNat := by
  have hs := sane_of_ext2SelectBuffer hsel
  have hsame := of_ext2SelectBuffer_ok hsel
  have hcur : fe'.cursor = s.fe.cursor := by rw [hsame]
  have hsize : fe'.inode.iSize = s.fe.inode.iSize := by rw [hsame]
  show (amountInFile _ fe'.inode.iSize fe'.cursor).toNat = _
  rw [hcur, hsize, toNat_amountInFile _ hend, toNat_amountInSpace _ hi.le,
    toNat_bufferSpace (blockSize_ge _) (blockSize_le hs)]

theorem readNext_advances (hcount : count.toNat < 2 ^ 31)
    (hsel : ext2SelectBuffer s.fe h m = .ok ((0, fe'), m')) :
    TurnAdvances count s (readNext count s.i m'.ctx.blockSize fe') := by
  have hamount := readNext_amount hi hend hsel
  have hbs := blockSize_ge m'.ctx
  have hcur : fe'.cursor = s.fe.cursor := by rw [of_ext2SelectBuffer_ok hsel]
  refine .of_amount hcount (by omega) (by omega) rfl ?_
  rw [← hcur]
  rfl

end

/-- What is copied is never more than what is left of the file. -/
theorem readTurn_amount_le (hrun : readTurn count s h m = .ok (.next s', m')) :
    (s'.amountToCopy.toNat : Int) ≤ s.fe.inode.iSize.toNat - s.fe.cursor := by
  by_cases hstop : count.toNat ≤ s.i.toNat ∨ (s.fe.inode.iSize.toNat : Int) ≤ s.fe.cursor
  · rw [readTurn_stop hstop] at hrun
    cases hrun
  have hi : s.i.toNat < count.toNat := by omega
  have hend : s.fe.cursor < s.fe.inode.iSize.toNat := by omega
  rcases hsel : ext2SelectBuffer s.fe h m with e | ⟨⟨r, fe'⟩, m₁⟩
  · rw [readTurn_error hi hend hsel] at hrun
    cases hrun
  by_cases hr : r = 0
  · subst hr
    rw [readTurn_selected hi hend hsel] at hrun
    cases hrun
    rw [readNext_amount hi hend hsel]
    omega
  · rw [readTurn_failed hi hend hr hsel] at hrun
    cases hrun

/-! ## A turn of a write -/

/-- The handle after a turn of a write has copied `amount` bytes. -/
def wroteTurn (fe : FileEnt) (buffer : BufferObject) (amount : UInt32) : FileEnt :=
  let fe := { fe with buffer := buffer, cursor := fe.cursor + amount.toNat }
  if (fe.inode.iSize.toNat : Int) < fe.cursor then
    { fe with
      inode := { fe.inode with iSize := UInt32.ofNat (fe.cursor % 2 ^ 32).toNat }
      flags := { fe.flags with fsDirty := true } }
  else fe

theorem wroteTurn_cursor (fe : FileEnt) (buffer : BufferObject) (amount : UInt32) :
    (wroteTurn fe buffer amount).cursor = fe.cursor + amount.toNat := by
  unfold wroteTurn
  dsimp only
  split <;> rfl

/-- The locals after a turn of a write that has selected a buffer for `fe`. -/
def writeNext (copy : Copy) (count : UInt64) (i : UInt32) (bs : Nat) (fe : FileEnt) : Locals :=
  let amount := amountInSpace count i (bufferSpace bs fe.cursor)
  ⟨i + amount, amount, wroteTurn fe (copy fe.buffer (fe.cursor % bs).toNat i amount) amount⟩

theorem writeTurn_stop (hstop : count.toNat ≤ s.i.toNat) :
    writeTurn copy count s h m = .ok (.leave (some s.i, s.fe), m) := by
  unfold writeTurn
  rw [if_neg (by rw [toUInt64_lt_iff]; omega)]
  rfl

section

variable (hi : s.i.toNat < count.toNat)
include hi

theorem writeTurn_error {e : Fault} (hsel : ext2SelectBuffer s.fe h m = .error e) :
    writeTurn copy count s h m = .error e := by
  unfold writeTurn
  rw [if_pos (toUInt64_lt_iff.2 hi)]
  exact Prog.bind_error hsel

theorem writeTurn_failed {r : Int} (hr : r ≠ 0)
    (hsel : ext2SelectBuffer s.fe h m = .ok ((r, fe'), m')) :
    writeTurn copy count s h m = .ok (.leave (none, fe'), { m' with rerrno := .eio }) := by
  unfold writeTurn
  rw [if_pos (toUInt64_lt_iff.2 hi), Prog.bind_ok hsel]
  dsimp only
  rw [if_pos hr]
  rfl

theorem writeTurn_selected (hsel : ext2SelectBuffer s.fe h m = .ok ((0, fe'), m')) :
    writeTurn copy count s h m = .ok (.next (writeNext copy count s.i m'.ctx.blockSize fe'), m') := by
  unfold writeTurn
  rw [if_pos (toUInt64_lt_iff.2 hi), Prog.bind_ok hsel]
  dsimp only
  rw [if_neg (not_not.2 rfl), Prog.bind_ok (ext2BlockSize_ok (sane_of_ext2SelectBuffer hsel))]
  rfl

theorem writeNext_amount (copy : Copy) (hsel : ext2SelectBuffer s.fe h m = .ok ((0, fe'), m')) :
    (writeNext copy count s.i m'.ctx.blockSize fe').amountToCopy.toNat =
      min (m'.ctx.blockSize - 1 - (s.fe.cursor % 512).toNat) (count.toNat - s.i.toNat) := by
  have hs := sane_of_ext2SelectBuffer hsel
  have hcur : fe'.cursor = s.fe.cursor := by rw [of_ext2SelectBuffer_ok hsel]
  show (amountInSpace count s.i (bufferSpace m'.ctx.blockSize fe'.cursor)).toNat = _
  rw [hcur, toNat_amountInSpace _ hi.le, toNat_bufferSpace (blockSize_ge _) (blockSize_le hs)]

theorem writeNext_advances (copy : Copy) (hcount : count.toNat < 2 ^ 31)
    (hsel : ext2SelectBuffer s.fe h m = .ok ((0, fe'), m')) :
    TurnAdvances count s (writeNext copy count s.i m'.ctx.blockSize fe') := by
  have hamount := writeNext_amount hi copy hsel
  have hbs := blockSize_ge m'.ctx
  have hcur : fe'.cursor = s.fe.cursor := by rw [of_ext2SelectBuffer_ok hsel]
  refine .of_amount hcount (by omega) (by omega) rfl ?_
  rw [← hcur]
  exact wroteTurn_cursor fe' _ _

end

/-! ## What a turn can do -/

/-- A turn stops and hands back `i`, or its selection faults or fails, or it advances. -/
inductive TurnResult (count : UInt64) (h : Host) (s : Locals) (m : Machine) :
    Except Fault (Turn Locals (Option UInt32 × FileEnt) × Machine) → Prop where
  | stops : TurnResult count h s m (.ok (.leave (some s.i, s.fe), m))
  | faults {e : Fault} (hsel : ext2SelectBuffer s.fe h m = .error e) :
      TurnResult count h s m (.error e)
  | fails (fe' : FileEnt) (m' : Machine) : TurnResult count h s m (.ok (.leave (none, fe'), m'))
  | advances {s' : Locals} (m' : Machine) (ha : TurnAdvances count s s') :
      TurnResult count h s m (.ok (.next s', m'))

theorem readTurn_result (hcount : count.toNat < 2 ^ 31) (s : Locals) (m : Machine) :
    TurnResult count h s m (readTurn count s h m) := by
  by_cases hstop : count.toNat ≤ s.i.toNat ∨ (s.fe.inode.iSize.toNat : Int) ≤ s.fe.cursor
  · rw [readTurn_stop hstop]
    exact .stops
  have hi : s.i.toNat < count.toNat := by omega
  have hend : s.fe.cursor < s.fe.inode.iSize.toNat := by omega
  rcases hsel : ext2SelectBuffer s.fe h m with e | ⟨⟨r, fe'⟩, m'⟩
  · rw [readTurn_error hi hend hsel]
    exact .faults hsel
  by_cases hr : r = 0
  · subst hr
    rw [readTurn_selected hi hend hsel]
    exact .advances _ (readNext_advances hi hend hcount hsel)
  · rw [readTurn_failed hi hend hr hsel]
    exact .fails _ _

theorem writeTurn_result (hcount : count.toNat < 2 ^ 31) (s : Locals) (m : Machine) :
    TurnResult count h s m (writeTurn copy count s h m) := by
  by_cases hstop : count.toNat ≤ s.i.toNat
  · rw [writeTurn_stop hstop]
    exact .stops
  have hi : s.i.toNat < count.toNat := by omega
  rcases hsel : ext2SelectBuffer s.fe h m with e | ⟨⟨r, fe'⟩, m'⟩
  · rw [writeTurn_error hi hsel]
    exact .faults hsel
  by_cases hr : r = 0
  · subst hr
    rw [writeTurn_selected hi hsel]
    exact .advances _ (writeNext_advances hi copy hcount hsel)
  · rw [writeTurn_failed hi hr hsel]
    exact .fails _ _

/-! ## The loops -/

/-- Where a loop has got to: `i` is what the cursor has moved by. -/
structure Reached (count : UInt64) (fe : FileEnt) (s : Locals) : Prop where
  le_count : s.i.toNat ≤ count.toNat
  cursor : s.fe.cursor = fe.cursor + s.i.toNat

theorem Reached.start (count : UInt64) (fe : FileEnt) : Reached count fe ⟨0, 0, fe⟩ :=
  ⟨Nat.zero_le _, (Int.add_zero _).symm⟩

theorem TurnAdvances.reached (hr : Reached count fe s) (ha : TurnAdvances count s s') :
    Reached count fe s' := by
  refine ⟨ha.le_count, ?_⟩
  rw [ha.cursor, hr.cursor, ha.i]
  omega

/-- The loop of a transfer of `count` bytes from `fe` on: every turn advances, the cursor stays an
    `int64_t`, there are at most `count` turns, and after them the loop is left, unless a selection
    faults. -/
structure Progresses (h : Host) (m : Machine)
    (turn : Locals → Drv (Turn Locals (Option UInt32 × FileEnt))) (count : UInt64) (fe : FileEnt) :
    Prop where
  advances : ∀ {n s m₁ s' m₂}, Turns turn h ⟨0, 0, fe⟩ m n s m₁ →
    turn s h m₁ = .ok (.next s', m₂) → TurnAdvances count s s'
  reached : ∀ {n s m₁}, Turns turn h ⟨0, 0, fe⟩ m n s m₁ →
    Reached count fe s ∧ 0 ≤ s.fe.cursor ∧ s.fe.cursor ≤ int64Max
  few : ∀ {n s m₁}, Turns turn h ⟨0, 0, fe⟩ m n s m₁ → n ≤ count.toNat
  ends : (∃ n s m₁ b m', Turns turn h ⟨0, 0, fe⟩ m n s m₁ ∧ turn s h m₁ = .ok (.leave b, m') ∧
      Prog.loop .noReturn turn (count.toNat + 1) ⟨0, 0, fe⟩ h m = .ok (b, m')) ∨
    ∃ n s m₁ e, Turns turn h ⟨0, 0, fe⟩ m n s m₁ ∧ ext2SelectBuffer s.fe h m₁ = .error e ∧
      Prog.loop .noReturn turn (count.toNat + 1) ⟨0, 0, fe⟩ h m = .error e

section

variable {turn : Locals → Drv (Turn Locals (Option UInt32 × FileEnt))}
  (hturn : ∀ s m, TurnResult count h s m (turn s h m))
include hturn

theorem advances_of_next (hrun : turn s h m = .ok (.next s', m')) : TurnAdvances count s s' := by
  have hresult := hturn s m
  rw [hrun] at hresult
  cases hresult with
  | advances _ ha => exact ha

theorem reached_of_turns {n : Nat} (hturns : Turns turn h ⟨0, 0, fe⟩ m n s m') :
    Reached count fe s := by
  refine hturns.invariant (I := fun s _ => Reached count fe s) ?_ (.start count fe)
  exact fun _ _ _ _ hr hrun => (advances_of_next hturn hrun).reached hr

/-- With every turn fewer bytes are wanted. -/
theorem left_lt (s : Locals) (m : Machine) (s' : Locals) (m' : Machine) (_ : Reached count fe s)
    (hrun : turn s h m = .ok (.next s', m')) :
    count.toNat - s'.i.toNat < count.toNat - s.i.toNat := by
  have ha := advances_of_next hturn hrun
  have := ha.one_le
  have := ha.le_count
  have := ha.i
  omega

/-- So the loop ends by itself. -/
theorem transfer_ends (fe : FileEnt) (m : Machine) :
    (∃ n s m₁ b m', Turns turn h ⟨0, 0, fe⟩ m n s m₁ ∧ turn s h m₁ = .ok (.leave b, m') ∧
      Prog.loop .noReturn turn (count.toNat + 1) ⟨0, 0, fe⟩ h m = .ok (b, m')) ∨
    ∃ n s m₁ e, Turns turn h ⟨0, 0, fe⟩ m n s m₁ ∧ turn s h m₁ = .error e ∧
      Prog.loop .noReturn turn (count.toNat + 1) ⟨0, 0, fe⟩ h m = .error e := by
  refine Prog.loop_ends (I := fun s _ => Reached count fe s)
    (fun _ _ _ _ hr hrun => (advances_of_next hturn hrun).reached hr) (left_lt hturn) _
    (.start count fe) ?_
  show count.toNat - 0 < _
  omega

theorem progresses (hcount : count.toNat < 2 ^ 31) (hnonneg : 0 ≤ fe.cursor)
    (hmax : fe.cursor ≤ 2 ^ 62) : Progresses h m turn count fe := by
  constructor
  · exact fun _ hrun => advances_of_next hturn hrun
  · intro n s m₁ hturns
    have hr := reached_of_turns hturn hturns
    have hcursor := hr.cursor
    have hle := hr.le_count
    exact ⟨hr, by omega, by unfold int64Max; omega⟩
  · intro n s m₁ hturns
    have hle := hturns.add_measure_le (I := fun s _ => Reached count fe s)
      (fun _ _ _ _ hr hrun => (advances_of_next hturn hrun).reached hr) (left_lt hturn)
      (.start count fe)
    have hzero : (0 : UInt32).toNat = 0 := rfl
    omega
  · rcases transfer_ends hturn fe m with hleft | ⟨n, s, m₁, e, hturns, hlast, hrun⟩
    · exact .inl hleft
    · have hresult := hturn s m₁
      rw [hlast] at hresult
      cases hresult with
      | faults hsel => exact .inr ⟨n, s, m₁, e, hturns, hsel, hrun⟩

/-- What a transfer returns is -1, or what the cursor has moved by. -/
theorem of_transferFrom (hcount : count.toNat < 2 ^ 31) {update : FileEnt → Drv FileEnt} {r : Int}
    (hupdate : ∀ {fe fe' : FileEnt} {m m' : Machine}, update fe h m = .ok (fe', m') →
      fe'.cursor = fe.cursor)
    (hrun : transferFrom turn update count fe h m = .ok ((r, fe'), m')) (hr : r ≠ -1) :
    fe'.cursor = fe.cursor + r := by
  obtain ⟨⟨o, fe₁⟩, m₁, hloop, htail⟩ := Prog.of_bind_ok hrun
  rcases transfer_ends hturn fe m with ⟨n, s, m₂, b, m₃, hturns, hlast, hloop'⟩ |
    ⟨n, s, m₂, e, hturns, hlast, hloop'⟩
  swap
  · rw [hloop] at hloop'
    cases hloop'
  rw [hloop] at hloop'
  cases hloop'
  have hresult := hturn s m₂
  rw [hlast] at hresult
  cases hresult with
  | fails =>
    cases htail
    exact absurd rfl hr
  | stops =>
    have hreached := reached_of_turns hturn hturns
    have hvalue : toInt32 s.i.toNat = s.i.toNat := by
      have := hreached.le_count
      exact toInt32_of_lt (by omega)
    dsimp only at htail
    rw [hvalue] at htail
    by_cases hpos : 0 < s.i
    · rw [if_pos hpos] at htail
      obtain ⟨fe₂, m₄, hupd, htail⟩ := Prog.of_bind_ok htail
      cases htail
      rw [hupdate hupd, hreached.cursor]
    · rw [if_neg hpos] at htail
      cases htail
      exact hreached.cursor

end

/-! ## The transfers -/

theorem of_readTransfer (hcount : count.toNat < 2 ^ 31) {r : Int}
    (hrun : readTransfer fe count h m = .ok ((r, fe'), m')) (hr : r ≠ -1) :
    fe'.cursor = fe.cursor + r := by
  unfold readTransfer at hrun
  by_cases hmagic : fe.magic ≠ embextMagic
  · rw [if_pos hmagic] at hrun
    cases hrun
    exact absurd rfl hr
  rw [if_neg hmagic] at hrun
  refine of_transferFrom (readTurn_result hcount) hcount ?_ hrun hr
  intro fe fe' m m' hupd
  cases hupd
  rfl

theorem of_writeTransfer (hcount : count.toNat < 2 ^ 31) {r : Int}
    (hrun : writeTransfer copy fe count h m = .ok ((r, fe'), m')) (hr : r ≠ -1) :
    fe'.cursor = fe.writeStart.cursor + r := by
  unfold writeTransfer at hrun
  by_cases hmagic : fe.magic ≠ embextMagic
  · rw [if_pos hmagic] at hrun
    cases hrun
    exact absurd rfl hr
  rw [if_neg hmagic] at hrun
  by_cases hwrite : (!fe.flags.write) = true
  · rw [if_pos hwrite] at hrun
    cases hrun
    exact absurd rfl hr
  rw [if_neg hwrite] at hrun
  have hfrom {start : FileEnt} (hrun : transferFrom (writeTurn copy count) ext2UpdateMtime count start
      h m = .ok ((r, fe'), m')) : fe'.cursor = start.cursor + r := by
    refine of_transferFrom (writeTurn_result hcount) hcount ?_ hrun hr
    intro fe fe' m m' hupd
    cases hupd
    rfl
  unfold FileEnt.writeStart
  by_cases happ : fe.flags.append = true
  · rw [if_pos happ, Prog.bind_ok (ext2Lseek_end (not_not.1 hmagic) le_rfl (Int.add_zero _))] at hrun
    rw [if_pos happ]
    dsimp only at hrun
    split at hrun
    · cases hrun
      exact absurd rfl hr
    · exact hfrom hrun
  · rw [if_neg happ] at hrun
    rw [if_neg happ]
    exact hfrom hrun

/-- The cursor at which a write starts is in the range from which transfers progress. -/
theorem writeStart_range (hnonneg : 0 ≤ fe.cursor) (hmax : fe.cursor ≤ 2 ^ 62) :
    0 ≤ fe.writeStart.cursor ∧ fe.writeStart.cursor ≤ 2 ^ 62 := by
  have hsize := fe.inode.iSize.toNat_lt
  unfold FileEnt.writeStart
  split
  · dsimp only
    omega
  · exact ⟨hnonneg, hmax⟩

/-- **Progress.** A transfer of less than 2^31 bytes, from a cursor up to 2^62, advances with every turn,
    a read never past the end of the file, ends by itself after at most `count` turns, and returns what
    the cursor has moved by. -/
theorem transfers_progress (hcount : count.toNat < 2 ^ 31) (hnonneg : 0 ≤ fe.cursor)
    (hmax : fe.cursor ≤ 2 ^ 62) :
    (Progresses h m (readTurn count) count fe ∧
      (∀ s m₁ s' m₂, readTurn count s h m₁ = .ok (.next s', m₂) →
        (s'.amountToCopy.toNat : Int) ≤ s.fe.inode.iSize.toNat - s.fe.cursor) ∧
      ∀ r fe' m', readTransfer fe count h m = .ok ((r, fe'), m') → r ≠ -1 →
        fe'.cursor = fe.cursor + r) ∧
    ∀ copy : Copy, Progresses h m (writeTurn copy count) count fe.writeStart ∧
      ∀ r fe' m', writeTransfer copy fe count h m = .ok ((r, fe'), m') → r ≠ -1 →
        fe'.cursor = fe.writeStart.cursor + r := by
  have hstart := writeStart_range hnonneg hmax
  exact ⟨⟨progresses (readTurn_result hcount) hcount hnonneg hmax,
    fun s m₁ s' m₂ hrun => readTurn_amount_le hrun,
    fun r fe' m' hrun hr => of_readTransfer hcount hrun hr⟩,
    fun copy => ⟨progresses (writeTurn_result hcount) hcount hstart.1 hstart.2,
      fun r fe' m' hrun hr => of_writeTransfer hcount hrun hr⟩⟩

namespace SmallVolume

set_option maxRecDepth 4000

/-- A request for more than there is of `f` returns the bytes there are. -/
theorem transfers_progress_f : ∃ fe' m', readTransfer handleF 2000 host machine = .ok ((1000, fe'), m') ∧
    fe'.cursor = 1000 := by
  have hreturns : ((readTransfer handleF 2000 host machine).map fun x => x.1.1) = .ok 1000 := by
    decide
  rcases hrun : readTransfer handleF 2000 host machine with e | ⟨⟨r, fe'⟩, m'⟩
  · rw [hrun] at hreturns
    cases hreturns
  rw [hrun] at hreturns
  cases hreturns
  have hcount : (2000 : UInt64).toNat < 2 ^ 31 := by decide
  have hcursor : 0 ≤ handleF.cursor := by decide
  have hprogress := transfers_progress (h := host) (m := machine) hcount hcursor (by decide)
  exact ⟨fe', m', rfl, hprogress.1.2.2 1000 fe' m' hrun (by decide)⟩

end SmallVolume

/-! ## The loops of the driver take these turns -/

theorem of_ext2ReadBuffer_ok {b : BufferObject} {off n : Nat} {bytes : List UInt8}
    (hrun : ext2ReadBuffer b off n h m = .ok (bytes, m')) : bytes.length = n ∧ m' = m := by
  by_cases hfit : off % 512 + n ≤ 512
  · rw [ext2ReadBuffer_ok hfit] at hrun
    cases hrun
    exact ⟨Window.length_slice _ _ _, rfl⟩
  · rw [ext2ReadBuffer_error (Nat.not_le.1 hfit)] at hrun
    cases hrun

/-- A read loop that returns has taken the turns, and delivered `i` bytes. -/
theorem loop_of_ext2ReadLoop (hcount : count.toNat < 2 ^ 31) (fuel : Nat) : ∀ {s : Locals} {m : Machine}
    {acc : List UInt8} {o : Option (List UInt8)}, s.i.toNat ≤ count.toNat → acc.length = s.i.toNat →
    ext2ReadLoop fuel (count.toNat - s.i.toNat) acc s.fe h m = .ok ((o, fe'), m') →
    ∃ o', Prog.loop .noReturn (readTurn count) (fuel + 1) s h m = .ok ((o', fe'), m') ∧
      o'.map UInt32.toNat = o.map List.length := by
  induction fuel with
  | zero =>
    intro s m acc o hi hacc hrun
    rw [ext2ReadLoop] at hrun
    by_cases hleft : count.toNat - s.i.toNat = 0
    · rw [if_pos hleft] at hrun
      cases hrun
      exact ⟨_, Prog.loop_leave _ (readTurn_stop (.inl (by omega))), congrArg some hacc.symm⟩
    · rw [if_neg hleft] at hrun
      cases hrun
  | succ fuel ih =>
    intro s m acc o hi hacc hrun
    by_cases hstop : count.toNat - s.i.toNat = 0 ∨ (s.fe.inode.iSize.toNat : Int) ≤ s.fe.cursor
    · obtain ⟨rfl, rfl, rfl⟩ := of_ext2ReadLoop_stop hstop hrun
      exact ⟨_, Prog.loop_leave _ (readTurn_stop (by omega)), congrArg some hacc.symm⟩
    obtain ⟨hleft, hend⟩ := not_or.1 hstop
    have hlt : s.i.toNat < count.toNat := by omega
    rw [Int.not_le] at hend
    rw [ext2ReadLoop, if_neg hleft, if_neg (Int.not_le.2 hend)] at hrun
    obtain ⟨⟨r, fe₁⟩, m₁, hsel, hrun⟩ := Prog.of_bind_ok hrun
    by_cases hr : r ≠ 0
    · dsimp only at hrun
      rw [if_pos hr] at hrun
      cases hrun
      exact ⟨none, Prog.loop_leave _ (readTurn_failed hlt hend hr hsel), rfl⟩
    obtain rfl := not_not.1 hr
    have hadv := readNext_advances hlt hend hcount hsel
    have hamount := readNext_amount hlt hend hsel
    have hsame := of_ext2SelectBuffer_ok hsel
    have hcur : fe₁.cursor = s.fe.cursor := by rw [hsame]
    have hsize : fe₁.inode.iSize = s.fe.inode.iSize := by rw [hsame]
    -- the amount of the driver's loop is that of the turn
    have hbs := ext2BlockSize_ok (h := h) (sane_of_ext2SelectBuffer hsel)
    have hspace : ext2BufferSpace fe₁ h m₁
        = .ok (m₁.ctx.blockSize - 1 - (fe₁.cursor % 512).toNat, m₁) := Prog.bind_ok hbs
    have hread : readAmount (count.toNat - s.i.toNat) (m₁.ctx.blockSize - 1 - (fe₁.cursor % 512).toNat)
        fe₁ = (readNext count s.i m₁.ctx.blockSize fe₁).amountToCopy.toNat := by
      rw [readAmount_eq _ _ (by rw [hcur, hsize]; exact hend.le), hcur, hsize, hamount, min_comm (_ - _)]
    dsimp only at hrun
    rw [if_neg (not_not.2 rfl), Prog.bind_ok hbs, Prog.bind_ok hspace, hread] at hrun
    obtain ⟨bytes, m₂, hcopy, hrun⟩ := Prog.of_bind_ok hrun
    obtain ⟨hlength, rfl⟩ := of_ext2ReadBuffer_ok hcopy
    have hwanted : count.toNat - s.i.toNat - (readNext count s.i m₂.ctx.blockSize fe₁).amountToCopy.toNat
        = count.toNat - (readNext count s.i m₂.ctx.blockSize fe₁).i.toNat := by
      have := hadv.i
      omega
    rw [hwanted] at hrun
    rw [Prog.loop_next _ (readTurn_selected hlt hend hsel)]
    exact ih hadv.le_count (by rw [List.length_append, hacc, hlength, hadv.i]) hrun

/-- The `memcpy` of a write from `data`. -/
def copyFrom (data : List UInt8) : Copy := fun b off i amount =>
  { b with
    buffer := Window.patch b.buffer (off % 512) ((data.drop i.toNat).take amount.toNat)
    dirty := true }

theorem of_ext2WriteBuffer_ok {b b' : BufferObject} {d : List UInt8} {off : Nat}
    (hrun : ext2WriteBuffer b d off h m = .ok (b', m')) :
    b' = { b with buffer := Window.patch b.buffer (off % 512) d, dirty := true } ∧ m' = m := by
  by_cases hfit : off % 512 + d.length ≤ 512
  · rw [ext2WriteBuffer_ok hfit] at hrun
    cases hrun
    exact ⟨rfl, rfl⟩
  · unfold ext2WriteBuffer at hrun
    rw [if_neg hfit] at hrun
    cases hrun

theorem loop_of_ext2WriteLoop {data : List UInt8} (hcount : count.toNat < 2 ^ 31)
    (hdata : data.length = count.toNat) (fuel : Nat) : ∀ {s : Locals} {m : Machine} {o : Option Nat},
    s.i.toNat ≤ count.toNat →
    ext2WriteLoop fuel (data.drop s.i.toNat) s.i.toNat s.fe h m = .ok ((o, fe'), m') →
    ∃ o', Prog.loop .noReturn (writeTurn (copyFrom data) count) (fuel + 1) s h m
      = .ok ((o', fe'), m') ∧ o'.map UInt32.toNat = o := by
  have hnil {i : UInt32} (hi : i.toNat ≤ count.toNat) :
      data.drop i.toNat = [] ↔ count.toNat ≤ i.toNat := by
    rw [List.drop_eq_nil_iff, hdata]
  induction fuel with
  | zero =>
    intro s m o hi hrun
    rw [ext2WriteLoop] at hrun
    by_cases hleft : data.drop s.i.toNat = []
    · rw [if_pos hleft] at hrun
      cases hrun
      exact ⟨_, Prog.loop_leave _ (writeTurn_stop ((hnil hi).1 hleft)), rfl⟩
    · rw [if_neg hleft] at hrun
      cases hrun
  | succ fuel ih =>
    intro s m o hi hrun
    rw [ext2WriteLoop] at hrun
    by_cases hleft : data.drop s.i.toNat = []
    · rw [if_pos hleft] at hrun
      cases hrun
      exact ⟨_, Prog.loop_leave _ (writeTurn_stop ((hnil hi).1 hleft)), rfl⟩
    have hlt : s.i.toNat < count.toNat := by
      rw [hnil hi] at hleft
      omega
    rw [if_neg hleft] at hrun
    obtain ⟨⟨r, fe₁⟩, m₁, hsel, hrun⟩ := Prog.of_bind_ok hrun
    by_cases hr : r ≠ 0
    · dsimp only at hrun
      rw [if_pos hr] at hrun
      cases hrun
      exact ⟨none, Prog.loop_leave _ (writeTurn_failed hlt hr hsel), rfl⟩
    obtain rfl := not_not.1 hr
    have hadv := writeNext_advances hlt (copyFrom data) hcount hsel
    have hamount := writeNext_amount hlt (copyFrom data) hsel
    have hcur : fe₁.cursor = s.fe.cursor := by rw [of_ext2SelectBuffer_ok hsel]
    have hbs := ext2BlockSize_ok (h := h) (sane_of_ext2SelectBuffer hsel)
    have hspace : ext2BufferSpace fe₁ h m₁
        = .ok (m₁.ctx.blockSize - 1 - (fe₁.cursor % 512).toNat, m₁) := Prog.bind_ok hbs
    have hwrite : writeAmount (data.drop s.i.toNat).length
        (m₁.ctx.blockSize - 1 - (fe₁.cursor % 512).toNat)
          = (writeNext (copyFrom data) count s.i m₁.ctx.blockSize fe₁).amountToCopy.toNat := by
      rw [hamount, List.length_drop, hdata, hcur]
      unfold writeAmount
      split <;> omega
    dsimp only at hrun
    rw [if_neg (not_not.2 rfl), Prog.bind_ok hbs, Prog.bind_ok hspace, hwrite] at hrun
    obtain ⟨buffer, m₂, hcopy, hrun⟩ := Prog.of_bind_ok hrun
    obtain ⟨rfl, rfl⟩ := of_ext2WriteBuffer_ok hcopy
    rw [List.drop_drop, ← hadv.i] at hrun
    rw [Prog.loop_next _ (writeTurn_selected hlt hsel)]
    exact ih hadv.le_count hrun

section

variable {turn : Locals → Drv (Turn Locals (Option UInt32 × FileEnt))} {update : FileEnt → Drv FileEnt}

theorem transferFrom_none
    (hloop : Prog.loop .noReturn turn (count.toNat + 1) ⟨0, 0, fe⟩ h m = .ok ((none, fe'), m')) :
    transferFrom turn update count fe h m = .ok ((-1, fe'), m') := by
  unfold transferFrom
  rw [Prog.bind_ok hloop]
  rfl

theorem transferFrom_some {i : UInt32}
    (hloop : Prog.loop .noReturn turn (count.toNat + 1) ⟨0, 0, fe⟩ h m = .ok ((some i, fe'), m')) :
    transferFrom turn update count fe h m = (if 0 < i.toNat then do
        let fe ← update fe'
        pure (toInt32 i.toNat, fe)
      else pure (toInt32 i.toNat, fe') : Drv (Int × FileEnt)) h m' := by
  unfold transferFrom
  rw [Prog.bind_ok hloop]
  dsimp only
  have hpos : (0 < i) = (0 < i.toNat) := propext UInt32.lt_iff_toNat_lt
  simp only [hpos]

end

/-- A call of `ext2_read` that returns is a transfer. -/
theorem readTransfer_of_ext2Read (hcount : count.toNat < 2 ^ 31) {r : Int} {bytes : List UInt8}
    (hrun : ext2Read fe count.toNat h m = .ok ((r, bytes, fe'), m')) :
    readTransfer fe count h m = .ok ((r, fe'), m') := by
  unfold ext2Read at hrun
  unfold readTransfer
  by_cases hmagic : fe.magic ≠ embextMagic
  · rw [if_pos hmagic] at hrun
    rw [if_pos hmagic]
    cases hrun
    rfl
  rw [if_neg hmagic] at hrun
  rw [if_neg hmagic]
  obtain ⟨⟨o, fe₁⟩, m₁, hloop, htail⟩ := Prog.of_bind_ok hrun
  obtain ⟨o', hturns, hvalue⟩ := loop_of_ext2ReadLoop (s := ⟨0, 0, fe⟩) hcount count.toNat
    (Nat.zero_le _) rfl hloop
  cases o with
  | none =>
    obtain rfl := Option.map_eq_none_iff.1 hvalue
    cases htail
    exact transferFrom_none hturns
  | some bytes' =>
    obtain ⟨i, rfl, hi⟩ := Option.map_eq_some_iff.1 hvalue
    rw [transferFrom_some hturns, hi]
    dsimp only at htail
    by_cases hpos : 0 < bytes'.length
    · rw [if_pos hpos] at htail
      rw [if_pos hpos]
      obtain ⟨fe₂, m₂, hupd, htail⟩ := Prog.of_bind_ok htail
      simp only [Prog.pure_apply, Except.ok.injEq, Prod.mk.injEq] at htail
      obtain ⟨⟨rfl, rfl, rfl⟩, rfl⟩ := htail
      exact Prog.bind_ok hupd
    · rw [if_neg hpos] at htail
      rw [if_neg hpos]
      simp only [Prog.pure_apply, Except.ok.injEq, Prod.mk.injEq] at htail
      obtain ⟨⟨rfl, rfl, rfl⟩, rfl⟩ := htail
      rfl

/-- A call of `ext2_write` that returns is a transfer. -/
theorem writeTransfer_of_ext2Write {data : List UInt8} (hcount : count.toNat < 2 ^ 31)
    (hdata : data.length = count.toNat) {r : Int} (hrun : ext2Write fe data h m = .ok ((r, fe'), m')) :
    writeTransfer (copyFrom data) fe count h m = .ok ((r, fe'), m') := by
  have hfrom {start : FileEnt} (hrun : ext2WriteFrom start data h m = .ok ((r, fe'), m')) :
      transferFrom (writeTurn (copyFrom data) count) ext2UpdateMtime count start h m
        = .ok ((r, fe'), m') := by
    obtain ⟨⟨o, fe₁⟩, m₁, hloop, htail⟩ := Prog.of_bind_ok hrun
    rw [hdata] at hloop
    obtain ⟨o', hturns, rfl⟩ := loop_of_ext2WriteLoop (s := ⟨0, 0, start⟩) hcount hdata count.toNat
      (Nat.zero_le _) hloop
    cases o' with
    | none =>
      rw [transferFrom_none hturns]
      exact htail
    | some i =>
      rw [transferFrom_some hturns]
      exact htail
  unfold ext2Write at hrun
  unfold writeTransfer
  by_cases hmagic : fe.magic ≠ embextMagic
  · rw [if_pos hmagic] at hrun ⊢
    exact hrun
  rw [if_neg hmagic] at hrun ⊢
  by_cases hwrite : (!fe.flags.write) = true
  · rw [if_pos hwrite] at hrun ⊢
    exact hrun
  rw [if_neg hwrite] at hrun ⊢
  by_cases happ : fe.flags.append = true
  · rw [if_pos happ] at hrun ⊢
    rw [Prog.bind_ok (ext2Lseek_end (not_not.1 hmagic) le_rfl (Int.add_zero _))] at hrun ⊢
    dsimp only at hrun ⊢
    split at hrun
    · next hfails =>
      rw [if_pos hfails]
      exact hrun
    · next hfits =>
      rw [if_neg hfits]
      exact hfrom hrun
  · rw [if_neg happ] at hrun ⊢
    exact hfrom hrun

end Embext
