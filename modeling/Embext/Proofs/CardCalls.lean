import Embext.Proofs.BlockPc
import Embext.Proofs.CardReset

set_option autoImplicit false

/-! # Reading and writing a card

`block_read` and `block_write` against a card, byte by byte, come down to one transaction each: a
sector read, a sector stored or refused, or a wait without end. A card that fails nothing is an array
of sectors; a card that refuses to store a sector is not found out. -/

namespace Embext.BlockSd

open BlockPc (Op SectorArray)

variable {C : Card} {p : Nat} {κ : Inside} {c : SDCard}

/-! ## Addresses -/

/-- The sector a card makes of the argument the driver sends for a block. -/
def Card.index (C : Card) (block : UInt32) : UInt32 :=
  if C.high then block else block <<< 9 / 512

/-- The driver has noted down what kind of card this is. -/
def Card.Known (C : Card) (c : SDCard) : Prop := c.cardType = if C.high then sdCardHc else sdCardSc

theorem toNat_shiftLeft_nine (block : UInt32) :
    (block <<< 9).toNat = block.toNat % 2 ^ 23 * 512 := by
  have hlt := block.toNat_lt
  simp only [UInt32.toNat_shiftLeft, UInt32.reduceToNat, Nat.reduceMod, Nat.shiftLeft_eq,
    Nat.reducePow]
  omega

/-- A standard capacity card sees the low 23 bits of a block number. -/
theorem Card.toNat_index (hlow : C.high = false) (block : UInt32) :
    (C.index block).toNat = block.toNat % 2 ^ 23 := by
  have h512 : (512 : UInt32).toNat = 512 := rfl
  rw [Card.index, if_neg (by simp [hlow]), UInt32.toNat_div, toNat_shiftLeft_nine, h512]
  omega

theorem blockArgument_yields (C : Card) (p : Nat) (κ : Inside) (c : SDCard) (block : UInt32) :
    (blockArgument block).Yields (C.bus p) C.view (κ, c)
      (if c.cardType = sdCardSc then block <<< 9 else block) (κ, c) := by
  intro m hm
  simp only [Card.view, Prod.mk.injEq] at hm
  obtain ⟨rfl, rfl⟩ := hm
  exact ⟨m, rfl, rfl⟩

theorem Card.locate_argument (hknown : C.Known c) (block : UInt32) :
    C.locate (if c.cardType = sdCardSc then block <<< 9 else block) =
      if (C.index block).toNat < C.count then .ok (C.index block) else .error 0x40 := by
  unfold Card.Known at hknown
  unfold Card.locate Card.index
  by_cases hhigh : C.high = true
  · have htype : ¬ c.cardType = sdCardSc := by
      rw [hknown, if_pos hhigh]
      decide
    simp [hhigh, htype]
  · have htype : c.cardType = sdCardSc := by rw [hknown, if_neg hhigh]
    have haligned : (block <<< 9) % 512 = 0 := by
      have h512 : (512 : UInt32).toNat = 512 := rfl
      apply UInt32.toNat_inj.1
      rw [UInt32.toNat_mod, toNat_shiftLeft_nine, h512]
      simp
    simp [hhigh, htype, haligned]

/-! ## Moving the bytes -/

theorem receive_yields (h : κ.phase.Listens) (rest bytes : List UInt8) :
    ∀ (i : Nat) (buffer : Sector),
    (receive bytes.length i buffer).Yields (C.bus p) C.view (κ.saying (bytes ++ rest), c)
      (Window.patch buffer i bytes) (κ.saying rest, c) := by
  induction bytes with
  | nil =>
    intro i buffer
    rw [Window.patch_nil]
    exact Prog.yields_pure
  | cons b bytes ih =>
    intro i buffer
    rw [← Window.patch_cons]
    refine (spiXfer_speaks h b (bytes ++ rest)).bind ?_
    rw [UInt8.toUInt8_toUInt16]
    exact ih (i + 1) _

/-- A sector and what follows it. -/
theorem receive_block (h : κ.phase.Listens) (rest : List UInt8) (sector buffer : Sector) :
    (receive 512 0 buffer).Yields (C.bus p) C.view
      (κ.saying (Window.slice sector 0 512 ++ rest), c) sector (κ.saying rest, c) := by
  have hreceive := receive_yields (C := C) (p := p) (c := c) h rest (Window.slice sector 0 512) 0
    buffer
  rwa [Window.length_slice, Window.patch_slice] at hreceive

/-- The start token of a data block. -/
theorem awaitToken_block (hp : C.Patient p) (h : κ.phase.Listens) (n : Nat) (bytes : List UInt8) :
    (awaitToken p).Yields (C.bus p) C.view (κ.saying (C.block n bytes), c) ()
      (κ.saying (bytes ++ [(C.checksum bytes).1, (C.checksum bytes).2]), c) :=
  awaitToken_yields h _ p _ (hp.token n)

/-- The card in the middle of a sector it takes in, with nothing to say. -/
def Inside.storing (κ : Inside) (index : UInt32) (got : List UInt8) : Inside :=
  { κ with phase := .data index got, pending := [] }

theorem Inside.storing_silent (κ : Inside) (index : UInt32) (got : List UInt8) :
    (κ.storing index got).saying (κ.storing index got).pending.tail = κ.storing index got := rfl

theorem spiXfer_stores (κ : Inside) (index : UInt32) (b : UInt8) (got : List UInt8)
    (hgot : got.length < 513) :
    (spiXfer b).Yields (C.bus p) C.view (κ.storing index got, c) 0xFF
      (κ.storing index (b :: got), c) := by
  have hstep := spiXfer_yields C p (κ.storing index got) c b
  simp only [Card.take, Inside.storing, Inside.saying, if_pos hgot] at hstep
  exact hstep

theorem transmit_yields (κ : Inside) (index : UInt32) (buffer : Sector) (n : Nat) :
    ∀ (i : Nat) (got : List UInt8), got.length + n ≤ 513 →
    (transmit n i buffer).Yields (C.bus p) C.view (κ.storing index got, c) ()
      (κ.storing index ((Window.slice buffer i n).reverse ++ got), c) := by
  induction n with
  | zero => exact fun _ _ _ => Prog.yields_pure
  | succ n ih =>
    intro i got hlen
    have hrest := ih (i + 1) (Window.item buffer i :: got) (by simp; omega)
    have hsplit : Window.slice buffer i (n + 1) =
        Window.item buffer i :: Window.slice buffer (i + 1) n := by
      rw [Nat.add_comm, Window.slice_add]
      rfl
    rw [hsplit, List.reverse_cons, List.append_assoc]
    exact (spiXfer_stores κ index _ got (by omega)).bind hrest

/-! ## One call -/

/-- The card with a sector stored, unless it refuses to. The number is that of the `CMD24`. -/
def Card.stored (C : Card) (n : Nat) (index : UInt32) (buffer : Sector)
    (sector : UInt32 → Sector) : UInt32 → Sector :=
  if C.writeResponse n index = .accepted then Function.update sector index buffer else sector

theorem sdCommand_settled {n : Nat} {sector : UInt32 → Sector} (h : κ.Settled n sector) {code : UInt8}
    (hcode : code &&& 0xC0 = 0) (hstop : code ≠ cmd12) (data : UInt32) (chksm : UInt8) {b : UInt8}
    {rest : List UInt8} {phase : Phase}
    (hreply : ∀ intact, C.reply (κ.saying []) code data intact =
      (b :: rest, { κ.saying [] with phase := phase, app := false }))
    (hb : b ≠ 0xFF) (hlisten : phase.Listens) :
    (sdCommand code data chksm).Yields (C.bus p) C.view (κ, c) b.toUInt16
      ({ κ.answered rest with phase := phase }, c) :=
  sdCommand_yields h.phase hcode hstop data chksm κ.pending (h.pending.trans (by decide)) (hreply _) hb hlisten

theorem reply_cmd17 (hready : κ.ready = true) (arg : UInt32) (intact : Bool) :
    C.reply κ cmd17 arg intact = (match C.locate arg with
      | .error e => [e]
      | .ok index => match C.readError κ.served index with
        | some t => 0 :: (List.replicate (C.tokenDelay κ.served) 0xFF ++ [t])
        | none => 0 :: C.block κ.served (Window.slice (κ.sector index) 0 512),
      { κ with phase := .idle, app := false }) := by
  simp only [Card.reply, cmd17, hready]
  rcases C.locate arg with e | index
  · rfl
  · dsimp only
    cases C.readError κ.served index <;> rfl

theorem reply_cmd24 (hready : κ.ready = true) (arg : UInt32) (intact : Bool) :
    C.reply κ cmd24 arg intact = match C.locate arg with
      | .error e => ([e], { κ with phase := .idle, app := false })
      | .ok index => ([0], { κ with phase := .token index, app := false }) := by
  simp only [Card.reply, cmd24, hready]
  rfl

section

variable {n : Nat} {sector : UInt32 → Sector} {block : UInt32} {buffer : Sector}

theorem blockRead_refused (h : κ.Settled n sector) (hknown : C.Known c)
    (hout : ¬ (C.index block).toNat < C.count) :
    (blockRead block buffer).Yields (C.bus p) C.view (κ, c) (0x40, buffer) (κ.answered [], c) := by
  have hreply := reply_cmd17 (C := C) (κ := κ.saying []) h.ready
    (if c.cardType = sdCardSc then block <<< 9 else block)
  rw [C.locate_argument hknown, if_neg hout] at hreply
  refine (blockArgument_yields C p κ c block).bind ?_
  exact (sdCommand_settled h (by decide) (by decide) _ 1 hreply (by decide) trivial).bind
    Prog.yields_pure

/-- A sector that can be read comes back whole. -/
theorem blockRead_fetched (hp : C.Patient p) (h : κ.Settled n sector) (hknown : C.Known c)
    (hin : (C.index block).toNat < C.count)
    (hread : C.readError n (C.index block) = none) :
    (blockRead block buffer).Yields (C.bus p) C.view (κ, c) (0, sector (C.index block))
      (κ.answered [], c) := by
  obtain rfl := h.sector
  have hreply := reply_cmd17 (C := C) (κ := κ.saying []) h.ready
    (if c.cardType = sdCardSc then block <<< 9 else block)
  have hserved : C.readError (κ.saying []).served (C.index block) = none := by
    rw [← hread, ← h.served]
    rfl
  rw [C.locate_argument hknown, if_pos hin] at hreply
  simp only [hserved] at hreply
  refine (blockArgument_yields C p κ c block).bind ?_
  refine (sdCommand_settled h (by decide) (by decide) _ 1 hreply (by decide) trivial).bind ?_
  rw [if_neg (by decide)]
  refine (Prog.yields_ask Bus.patience).bind ?_
  refine (awaitToken_block (κ := κ.answered []) hp trivial κ.served _).bind ?_
  refine (receive_block (κ := κ.answered []) trivial _ _ buffer).bind ?_
  exact (skip_yields (κ := κ.answered []) trivial 2 _).bind Prog.yields_pure

/-- A sector the card answers with an error token is waited for without end, whatever the driver's
    patience. -/
theorem blockRead_stops (h : κ.Settled n sector) (hknown : C.Known c)
    (hin : (C.index block).toNat < C.count) {t : UInt8}
    (hread : C.readError n (C.index block) = some t) :
    (blockRead block buffer).Stops (C.bus p) C.view (κ, c) .noReturn := by
  have hreply := reply_cmd17 (C := C) (κ := κ.saying []) h.ready
    (if c.cardType = sdCardSc then block <<< 9 else block)
  have hserved : C.readError (κ.saying []).served (C.index block) = some t := by
    rw [← hread, ← h.served]
    rfl
  rw [C.locate_argument hknown, if_pos hin] at hreply
  simp only [hserved] at hreply
  have ht : t ≠ 0xFE := fun heq => absurd (C.errorToken _ _ _ hread) (by rw [heq]; decide)
  refine (blockArgument_yields C p κ c block).bind_stops ?_
  refine (sdCommand_settled h (by decide) (by decide) _ 1 hreply (by decide) trivial).bind_stops ?_
  rw [if_neg (by decide)]
  refine (Prog.yields_ask Bus.patience).bind_stops ?_
  refine (awaitToken_stops (κ := κ.answered []) trivial _ _ fun b hb => ?_).bind
  rcases List.mem_append.1 hb with hb | hb
  · rw [List.eq_of_mem_replicate hb]
    decide
  · rwa [List.mem_singleton.1 hb]

theorem blockWrite_refused (h : κ.Settled n sector) (hknown : C.Known c)
    (hout : ¬ (C.index block).toNat < C.count) :
    (blockWrite block buffer).Yields (C.bus p) C.view (κ, c) 0x40 (κ.answered [], c) := by
  have hreply := reply_cmd24 (C := C) (κ := κ.saying []) h.ready
    (if c.cardType = sdCardSc then block <<< 9 else block)
  rw [C.locate_argument hknown, if_neg hout] at hreply
  refine (blockArgument_yields C p κ c block).bind ?_
  exact (sdCommand_settled h (by decide) (by decide) _ 1 hreply (by decide) trivial).bind
    Prog.yields_pure

/-- The card after the last byte of a sector and its checksum. -/
def Card.programmed (C : Card) (κ : Inside) (index : UInt32) (buffer : Sector) : Inside :=
  { κ.answered [] with sector := C.stored κ.served index buffer κ.sector }

theorem spiXfer_token (κ : Inside) (index : UInt32) :
    (spiXfer 0xFE).Yields (C.bus p) C.view ({ κ.answered [] with phase := .token index }, c) 0xFF
      ((κ.answered []).storing index [], c) :=
  spiXfer_yields C p { κ.answered [] with phase := .token index } c 0xFE

/-- With the second byte of its checksum a sector is complete. -/
theorem take_programs (κ : Inside) (index : UInt32) (buffer : Sector) (b b' : UInt8) :
    C.take ((κ.answered []).storing index (b' :: ((Window.slice buffer 0 512).reverse ++ []))) b =
      (C.programmed κ index buffer).saying ((C.writeResponse κ.served index).byte ::
        List.replicate (C.busyTime κ.served) 0) := by
  have hfull : ¬ (b' :: ((Window.slice buffer 0 512).reverse ++ [])).length < 513 := by simp
  have hbytes : (b :: b' :: ((Window.slice buffer 0 512).reverse ++ [])).reverse.take 512 =
      Window.slice buffer 0 512 := by
    simp
  simp only [Card.take, Inside.storing, if_neg hfull, Card.program, hbytes, Window.patch_slice]
  rfl

theorem skip_programs (κ : Inside) (index : UInt32) (buffer : Sector) :
    (skip 2).Yields (C.bus p) C.view
      ((κ.answered []).storing index ((Window.slice buffer 0 512).reverse ++ []), c) ()
      ((C.programmed κ index buffer).saying ((C.writeResponse κ.served index).byte ::
        List.replicate (C.busyTime κ.served) 0), c) := by
  have hlast := spiXfer_yields C p ((κ.answered []).storing index
    (0xFF :: ((Window.slice buffer 0 512).reverse ++ []))) c 0xFF
  rw [Inside.storing_silent, take_programs] at hlast
  exact (spiXfer_stores (κ.answered []) index 0xFF _ (by simp)).bind (hlast.bind Prog.yields_pure)

/-- A sector to write is taken in whole and stored unless the card refuses to; the result is 0
    either way. -/
theorem blockWrite_programs (hp : C.Patient p) (h : κ.Settled n sector) (hknown : C.Known c)
    (hin : (C.index block).toNat < C.count) :
    (blockWrite block buffer).Yields (C.bus p) C.view (κ, c) 0
      (C.programmed κ (C.index block) buffer, c) := by
  have hreply := reply_cmd24 (C := C) (κ := κ.saying []) h.ready
    (if c.cardType = sdCardSc then block <<< 9 else block)
  rw [C.locate_argument hknown, if_pos hin] at hreply
  have hbusy := awaitIdle_yields (C := C) (p := p) (c := c)
    (κ := C.programmed κ (C.index block) buffer) trivial p _ (hp.busy κ.served)
  refine (blockArgument_yields C p κ c block).bind ?_
  refine (sdCommand_settled h (by decide) (by decide) _ 1 hreply (by decide) trivial).bind ?_
  rw [if_neg (by decide)]
  refine (skip_yields (κ := { κ.answered [] with phase := .token (C.index block) }) trivial 2
    []).bind ?_
  refine (spiXfer_token κ (C.index block)).bind ?_
  refine (transmit_yields (κ.answered []) (C.index block) buffer 512 0 [] (by simp)).bind ?_
  refine (skip_programs κ (C.index block) buffer).bind ?_
  refine (skip_yields (κ := C.programmed κ (C.index block) buffer) trivial 1 _).bind ?_
  refine (Prog.yields_ask Bus.patience).bind ?_
  exact hbusy.bind Prog.yields_pure

theorem Inside.Settled.programmed (h : κ.Settled n sector) (index : UInt32) (buffer : Sector) :
    (C.programmed κ index buffer).Settled (n + 1) (C.stored n index buffer sector) :=
  ⟨rfl, by simp [Card.programmed, Inside.answered], h.ready, congrArg (· + 1) h.served, by
    rw [← h.served, ← h.sector]
    rfl⟩

end

/-! ## Transactions -/

/-- A call of the block driver. -/
def call : Op → Sd BlockPc.Reply
  | .read block buffer => blockRead block buffer
  | .write block buffer => do
    let r ← blockWrite block buffer
    pure (r, buffer)

def calls : List Op → Sd (List BlockPc.Reply)
  | [] => pure []
  | op :: rest => do
    let reply ← call op
    let replies ← calls rest
    pure (reply :: replies)

/-- What a call comes down to on a card that has taken in `n` commands: the reply and the sectors,
    or nothing where it never returns. -/
def Card.transact (C : Card) (n : Nat) (sector : UInt32 → Sector) :
    Op → Option (BlockPc.Reply × (UInt32 → Sector))
  | .read block buffer =>
    if (C.index block).toNat < C.count then
      match C.readError n (C.index block) with
      | none => some ((0, sector (C.index block)), sector)
      | some _ => none
    else some ((0x40, buffer), sector)
  | .write block buffer =>
    if (C.index block).toNat < C.count then
      some ((0, buffer), C.stored n (C.index block) buffer sector)
    else some ((0x40, buffer), sector)

def Card.transactions (C : Card) : Nat → (UInt32 → Sector) → List Op →
    Option (List BlockPc.Reply × (UInt32 → Sector))
  | _, sector, [] => some ([], sector)
  | n, sector, op :: rest =>
    match C.transact n sector op with
    | none => none
    | some (reply, sector) =>
      match C.transactions (n + 1) sector rest with
      | none => none
      | some (replies, sector) => some (reply :: replies, sector)

variable {n : Nat} {sector sector' : UInt32 → Sector}

theorem call_yields (hp : C.Patient p) (h : κ.Settled n sector) (hknown : C.Known c) (op : Op)
    {reply : BlockPc.Reply} (htransact : C.transact n sector op = some (reply, sector')) :
    ∃ κ', (call op).Yields (C.bus p) C.view (κ, c) reply (κ', c) ∧ κ'.Settled (n + 1) sector' := by
  cases op with
  | read block buffer =>
    by_cases hin : (C.index block).toNat < C.count
    · rw [Card.transact, if_pos hin] at htransact
      cases hread : C.readError n (C.index block) with
      | none =>
        simp only [hread, Option.some.injEq, Prod.mk.injEq] at htransact
        obtain ⟨rfl, rfl⟩ := htransact
        exact ⟨_, blockRead_fetched hp h hknown hin hread, h.answered (by simp)⟩
      | some t => simp [hread] at htransact
    · rw [Card.transact, if_neg hin] at htransact
      cases htransact
      exact ⟨_, blockRead_refused h hknown hin, h.answered (by simp)⟩
  | write block buffer =>
    by_cases hin : (C.index block).toNat < C.count
    · rw [Card.transact, if_pos hin] at htransact
      cases htransact
      exact ⟨_, (blockWrite_programs hp h hknown hin).bind Prog.yields_pure, h.programmed _ _⟩
    · rw [Card.transact, if_neg hin] at htransact
      cases htransact
      exact ⟨_, (blockWrite_refused h hknown hin).bind Prog.yields_pure, h.answered (by simp)⟩

theorem call_stops (h : κ.Settled n sector) (hknown : C.Known c) (op : Op)
    (htransact : C.transact n sector op = none) :
    (call op).Stops (C.bus p) C.view (κ, c) .noReturn := by
  cases op with
  | read block buffer =>
    by_cases hin : (C.index block).toNat < C.count
    · rw [Card.transact, if_pos hin] at htransact
      cases hread : C.readError n (C.index block) with
      | none => simp [hread] at htransact
      | some t => exact blockRead_stops h hknown hin hread
    · rw [Card.transact, if_neg hin] at htransact
      cases htransact
  | write block buffer =>
    by_cases hin : (C.index block).toNat < C.count
    · rw [Card.transact, if_pos hin] at htransact
      cases htransact
    · rw [Card.transact, if_neg hin] at htransact
      cases htransact

end Embext.BlockSd
