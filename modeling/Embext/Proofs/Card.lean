import Embext.Library.Mealy
import Embext.Proofs.BlockSd

set_option autoImplicit false

/-! # A card on the bus

The other party of the SD driver: a card in SPI mode as a machine that takes in one byte and gives
back one byte. It collects the six bytes of a command, answers after a delay of its own choice, sends
a data block behind a start token, takes a data block in behind one, and may refuse to store it. What
it still has to say stands in a queue; while the queue is empty the line is high. -/

namespace Embext.BlockSd

/-! ## The card -/

/-- What a card says to a block it has taken in. -/
inductive DataResponse where
  | accepted
  | crcError
  | writeError
  deriving DecidableEq, Repr

def DataResponse.byte : DataResponse → UInt8
  | .accepted => 0x05
  | .crcError => 0x0B
  | .writeError => 0x0D

/-- A card. Its delays and its failures may differ from one command to the next, which are numbered
    in the order it takes them in. -/
structure Card where
  csd : Csd
  /-- whether it knows `CMD8` -/
  second : Bool
  /-- how often it answers `ACMD41` with "not ready" -/
  startup : Nat
  responseDelay : Nat → Nat
  tokenDelay : Nat → Nat
  busyTime : Nat → Nat
  checksum : List UInt8 → UInt8 × UInt8
  /-- the error token sent in place of a sector -/
  readError : Nat → UInt32 → Option UInt8
  writeResponse : Nat → UInt32 → DataResponse
  content : UInt32 → Sector
  structure_le : csd.csdStructure ≤ 1
  readBlLen_mem : csd.csdStructure = 0 → 9 ≤ csd.readBlLen ∧ csd.readBlLen ≤ 11
  second_of_high : csd.csdStructure = 1 → second = true
  responseDelay_lt : ∀ n, responseDelay n < sdRetries
  errorToken : ∀ n index t, readError n index = some t → t &&& 0xE0 = 0

/-- A high capacity card numbers its sectors; the others number their bytes. -/
def Card.high (C : Card) : Bool := C.csd.csdStructure = 1

/-- The capacity in sectors. -/
def Card.count (C : Card) : Nat := if C.high then C.csd.blocksHc else C.csd.blocksSc

inductive Phase where
  | idle
  /-- the bytes of a command, newest first -/
  | frame (got : List UInt8)
  /-- waits for the start token of a sector to write -/
  | token (index : UInt32)
  /-- the bytes of a sector to write and of its checksum, newest first -/
  | data (index : UInt32) (got : List UInt8)

/-- The inside of a card. -/
structure Inside where
  phase : Phase
  pending : List UInt8
  served : Nat
  polls : Nat
  app : Bool
  ready : Bool
  sector : UInt32 → Sector

/-- The idle bit of an answer. -/
def Inside.idleBit (κ : Inside) : UInt8 := if κ.ready then 0 else 1

/-! ## Commands -/

/-- The argument of a command. -/
def argumentOf (d₀ d₁ d₂ d₃ : UInt8) : UInt32 :=
  UInt32.ofNat (((d₀.toNat * 256 + d₁.toNat) * 256 + d₂.toNat) * 256 + d₃.toNat)

/-- One bit of the checksum of a command, in the high seven bits. -/
def checksumBit (crc : UInt8) : UInt8 :=
  if crc &&& 0x80 ≠ 0 then crc <<< 1 ^^^ 0x12 else crc <<< 1

/-- The last byte of a command: the checksum of the others and the end bit. -/
def commandChecksum (bytes : List UInt8) : UInt8 :=
  bytes.foldl (fun crc b => checksumBit^[8] (crc ^^^ b)) 0 ||| 1

/-- The sector an argument names, or the error bit of the answer. -/
def Card.locate (C : Card) (arg : UInt32) : Except UInt8 UInt32 :=
  if C.high then if arg.toNat < C.count then .ok arg else .error 0x40
  else if arg % 512 ≠ 0 then .error 0x20
  else if (arg / 512).toNat < C.count then .ok (arg / 512) else .error 0x40

/-- A data block behind its start token. -/
def Card.block (C : Card) (n : Nat) (bytes : List UInt8) : List UInt8 :=
  List.replicate (C.tokenDelay n) 0xFF ++
    0xFE :: (bytes ++ [(C.checksum bytes).1, (C.checksum bytes).2])

/-- The answer to a command and what becomes of the card. The checksum counts for `CMD0` and `CMD8`
    only; before `ACMD41` has been answered with 0 nothing is read or written. -/
def Card.reply (C : Card) (κ : Inside) (code : UInt8) (arg : UInt32) (intact : Bool) :
    List UInt8 × Inside :=
  let κ' := { κ with phase := .idle, app := false }
  if (code = 0 ∨ code = 8) ∧ intact = false then ([κ.idleBit ||| 8], κ')
  else if code = 0 then ([1], { κ' with ready := false, polls := 0 })
  else if code = 8 then
    if C.second then ([κ.idleBit, 0, 0, (arg >>> 8).toUInt8 &&& 0xF, arg.toUInt8], κ')
    else ([κ.idleBit ||| 4], κ')
  else if code = 55 then ([κ.idleBit], { κ' with app := true })
  else if code = 41 ∧ κ.app = true then
    if κ.polls < C.startup ∨ C.high = true ∧ arg &&& 0x40000000 = 0 then
      ([1], { κ' with polls := κ.polls + 1 })
    else ([0], { κ' with ready := true })
  else if κ.ready = false then ([5], κ')
  else if code = 9 then (0 :: C.block κ.served (Window.slice C.csd 0 16), κ')
  else if code = 17 then
    match C.locate arg with
    | .error e => ([e], κ')
    | .ok index =>
      match C.readError κ.served index with
      | some t => (0 :: (List.replicate (C.tokenDelay κ.served) 0xFF ++ [t]), κ')
      | none => (0 :: C.block κ.served (Window.slice (κ.sector index) 0 512), κ')
  else if code = 24 then
    match C.locate arg with
    | .error e => ([e], κ')
    | .ok index => ([0], { κ' with phase := .token index })
  else ([4], κ')

/-- A command is answered after a delay. -/
def Card.execute (C : Card) (κ : Inside) (code : UInt8) (arg : UInt32) (intact : Bool) : Inside :=
  { (C.reply κ code arg intact).2 with
    pending := κ.pending ++ (List.replicate (C.responseDelay κ.served) 0xFF ++
      (C.reply κ code arg intact).1)
    served := κ.served + 1 }

/-- The six bytes of a command, newest first. -/
def Card.command (C : Card) (κ : Inside) : List UInt8 → Inside
  | [chksm, d₃, d₂, d₁, d₀, first] =>
    C.execute κ (first &&& 0x3F) (argumentOf d₀ d₁ d₂ d₃)
      (chksm = commandChecksum [first, d₀, d₁, d₂, d₃])
  | _ => κ

/-- A sector and its checksum have come in, newest byte first. The number of the command is that of
    the `CMD24` before it. -/
def Card.program (C : Card) (κ : Inside) (index : UInt32) (got : List UInt8) : Inside :=
  let response := C.writeResponse (κ.served - 1) index
  { κ with
    phase := .idle
    pending := κ.pending ++ (response.byte :: List.replicate (C.busyTime (κ.served - 1)) 0)
    sector :=
      if response = .accepted then
        Function.update κ.sector index (Window.patch (fun _ => 0) 0 (got.reverse.take 512))
      else κ.sector }

/-! ## The machine -/

/-- What a card makes of a byte. -/
def Card.take (C : Card) (κ : Inside) (b : UInt8) : Inside :=
  match κ.phase with
  | .idle => if b &&& 0xC0 = 0x40 then { κ with phase := .frame [b] } else κ
  | .frame got =>
    if got.length < 5 then { κ with phase := .frame (b :: got) } else C.command κ (b :: got)
  | .token index => if b = 0xFE then { κ with phase := .data index [] } else κ
  | .data index got =>
    if got.length < 513 then { κ with phase := .data index (b :: got) }
    else C.program κ index (b :: got)

/-- The card with its queue set. -/
def Inside.saying (κ : Inside) (pending : List UInt8) : Inside := { κ with pending := pending }

/-- The card as a machine. -/
def Card.machine (C : Card) : Mealy UInt8 UInt8 Inside where
  start := ⟨.idle, [], 0, 0, false, false, C.content⟩
  step κ b := (κ.pending.headD 0xFF, C.take (κ.saying κ.pending.tail) b)

/-- The bus with the card on it. -/
def Card.bus (C : Card) (patience : Nat) : Bus := ⟨C.machine.answer 0xFF, patience⟩

/-- The inside of the card and the driver's record of it. -/
def Card.view (C : Card) (m : State) : Inside × SDCard := (C.machine.after m.sent, m.card)

/-- Every delay of the card ends before the driver's patience does. -/
structure Card.Patient (C : Card) (patience : Nat) : Prop where
  response : ∀ n, C.responseDelay n < patience
  token : ∀ n, C.tokenDelay n < patience
  busy : ∀ n, C.busyTime n < patience
  startup : C.startup < patience

@[simp] theorem Inside.saying_pending (κ : Inside) (l : List UInt8) : (κ.saying l).pending = l := rfl

@[simp] theorem Inside.saying_phase (κ : Inside) (l : List UInt8) :
    (κ.saying l).phase = κ.phase := rfl

@[simp] theorem Inside.saying_saying (κ : Inside) (l l' : List UInt8) :
    (κ.saying l).saying l' = κ.saying l' := rfl

@[simp] theorem Inside.saying_self (κ : Inside) : κ.saying κ.pending = κ := rfl

variable {C : Card} {p : Nat} {κ : Inside} {c : SDCard}

/-! ## One byte -/

theorem spiXfer_yields (C : Card) (p : Nat) (κ : Inside) (c : SDCard) (b : UInt8) :
    (spiXfer b).Yields (C.bus p) C.view (κ, c) (κ.pending.headD 0xFF).toUInt16
      (C.take (κ.saying κ.pending.tail) b, c) := by
  intro m hm
  simp only [Card.view, Prod.mk.injEq] at hm
  obtain ⟨rfl, rfl⟩ := hm
  exact ⟨_, rfl, rfl⟩

/-- A phase in which the byte 0xFF says nothing to the card. -/
def Phase.Listens : Phase → Prop
  | .idle | .token _ => True
  | .frame _ | .data _ _ => False

theorem take_listens (h : κ.phase.Listens) : C.take κ 0xFF = κ := by
  unfold Card.take
  rcases hphase : κ.phase with _ | got | index | ⟨index, got⟩
  · exact if_neg (by decide)
  · rw [hphase] at h; exact h.elim
  · exact if_neg (by decide)
  · rw [hphase] at h; exact h.elim

/-- A byte the card has to say. -/
theorem spiXfer_speaks (h : κ.phase.Listens) (b : UInt8) (rest : List UInt8) :
    (spiXfer 0xFF).Yields (C.bus p) C.view (κ.saying (b :: rest), c) b.toUInt16
      (κ.saying rest, c) := by
  have hstep := spiXfer_yields C p (κ.saying (b :: rest)) c 0xFF
  rwa [take_listens (by exact h)] at hstep

/-- A byte from a card that has nothing to say. -/
theorem spiXfer_silent (h : κ.phase.Listens) :
    (spiXfer 0xFF).Yields (C.bus p) C.view (κ.saying [], c) 0xFF (κ.saying [], c) := by
  have hstep := spiXfer_yields C p (κ.saying []) c 0xFF
  rwa [take_listens (by exact h)] at hstep

theorem skip_yields (h : κ.phase.Listens) (n : Nat) : ∀ pending : List UInt8,
    (skip n).Yields (C.bus p) C.view (κ.saying pending, c) () (κ.saying (pending.drop n), c) := by
  induction n with
  | zero => exact fun _ => Prog.yields_pure
  | succ n ih =>
    intro pending
    cases pending with
    | nil => exact (spiXfer_silent h).bind (by simpa using ih [])
    | cons b rest => exact (spiXfer_speaks h b rest).bind (ih rest)

/-! ## Waiting -/

theorem toUInt16_ne {b : UInt8} (hb : b ≠ 0xFF) : b.toUInt16 ≠ 0xFF := by
  intro h
  have := congrArg UInt16.toNat h
  exact hb (UInt8.toNat_inj.1 (by simpa using this))

theorem awaitAnswer_yields (h : κ.phase.Listens) {b : UInt8} (hb : b ≠ 0xFF) (rest : List UInt8)
    (fuel : Nat) : ∀ k < fuel, (awaitAnswer fuel).Yields (C.bus p) C.view
      (κ.saying (List.replicate k 0xFF ++ b :: rest), c) b.toUInt16 (κ.saying rest, c) := by
  induction fuel with
  | zero => exact fun k hk => absurd hk (by simp)
  | succ fuel ih =>
    intro k hk
    cases k with
    | zero =>
      refine (spiXfer_speaks h b rest).bind ?_
      rw [if_neg (toUInt16_ne hb)]
      exact Prog.yields_pure
    | succ k => exact (spiXfer_speaks h 0xFF _).bind (ih k (by simpa using hk))

theorem retry_yields (h : κ.phase.Listens) {b : UInt8} (hb : b ≠ 0xFF) (rest : List UInt8)
    (n : Nat) : ∀ k < n, ∀ last : UInt16, (retry n last).Yields (C.bus p) C.view
      (κ.saying (List.replicate k 0xFF ++ b :: rest), c) b.toUInt16 (κ.saying rest, c) := by
  induction n with
  | zero => exact fun k hk => absurd hk (by simp)
  | succ n ih =>
    intro k hk last
    cases k with
    | zero =>
      refine (spiXfer_speaks h b rest).bind ?_
      rw [if_pos (toUInt16_ne hb)]
      exact Prog.yields_pure
    | succ k => exact (spiXfer_speaks h 0xFF _).bind (ih k (by simpa using hk) _)

theorem awaitToken_yields (h : κ.phase.Listens) (rest : List UInt8) (fuel : Nat) :
    ∀ k < fuel, (awaitToken fuel).Yields (C.bus p) C.view
      (κ.saying (List.replicate k 0xFF ++ 0xFE :: rest), c) () (κ.saying rest, c) := by
  induction fuel with
  | zero => exact fun k hk => absurd hk (by simp)
  | succ fuel ih =>
    intro k hk
    cases k with
    | zero => exact (spiXfer_speaks h 0xFE rest).bind Prog.yields_pure
    | succ k => exact (spiXfer_speaks h 0xFF _).bind (ih k (by simpa using hk))

/-- A card that never says the start token is waited for without end. -/
theorem awaitToken_stops (h : κ.phase.Listens) (fuel : Nat) : ∀ pending : List UInt8,
    (∀ b ∈ pending, b ≠ 0xFE) →
    (awaitToken fuel).Stops (C.bus p) C.view (κ.saying pending, c) .noReturn := by
  induction fuel with
  | zero => exact fun _ _ => Prog.stops_fault
  | succ fuel ih =>
    intro pending hpending
    cases pending with
    | nil => exact (spiXfer_silent h).bind_stops (ih [] hpending)
    | cons b rest =>
      refine (spiXfer_speaks h b rest).bind_stops ?_
      have hb : b.toUInt16 ≠ 0xFE := fun hb => hpending b List.mem_cons_self
        (UInt8.toNat_inj.1 (by simpa using congrArg UInt16.toNat hb))
      rw [if_pos hb]
      exact ih rest fun b hb => hpending b (List.mem_cons_of_mem _ hb)

theorem awaitIdle_yields (h : κ.phase.Listens) (fuel : Nat) : ∀ k < fuel,
    (awaitIdle fuel).Yields (C.bus p) C.view (κ.saying (List.replicate k 0), c) ()
      (κ.saying [], c) := by
  induction fuel with
  | zero => exact fun k hk => absurd hk (by simp)
  | succ fuel ih =>
    intro k hk
    cases k with
    | zero => exact (spiXfer_silent h).bind Prog.yields_pure
    | succ k => exact (spiXfer_speaks h 0 _).bind (ih k (by simpa using hk))

/-! ## A command -/

theorem frame_first (code : UInt8) (hcode : code &&& 0x40 = 0) :
    (0x40 + (code &&& 0x7F)) &&& 0xC0 = 0x40 ∧
      (0x40 + (code &&& 0x7F)) &&& 0x3F = code &&& 0x3F := by
  obtain ⟨code⟩ := code
  revert code
  decide

theorem plain_code (code : UInt8) (hcode : code &&& 0xC0 = 0) :
    code &&& 0x80 = 0 ∧ code &&& 0x40 = 0 ∧ code &&& 0x3F = code := by
  obtain ⟨code⟩ := code
  revert code
  decide

theorem argumentOf_bytes (data : UInt32) : argumentOf (data >>> 24).toUInt8 (data >>> 16).toUInt8
    (data >>> 8).toUInt8 data.toUInt8 = data := by
  have hlt := data.toNat_lt
  apply UInt32.toNat_inj.1
  simp only [argumentOf, UInt32.toNat_ofNat', UInt32.toNat_toUInt8, UInt32.toNat_shiftRight,
    Nat.shiftRight_eq_div_pow, UInt32.reduceToNat, Nat.reduceMod, Nat.reducePow]
  omega

/-- The checksum byte fits the rest of the command. -/
def intactCommand (code : UInt8) (data : UInt32) (chksm : UInt8) : Bool :=
  chksm = commandChecksum [0x40 + (code &&& 0x7F), (data >>> 24).toUInt8, (data >>> 16).toUInt8,
    (data >>> 8).toUInt8, data.toUInt8]

/-- The card in the middle of a command. -/
def Inside.collecting (κ : Inside) (got pending : List UInt8) : Inside :=
  { κ with phase := .frame got, pending := pending }

theorem spiXfer_opens (hphase : κ.phase = .idle) {b : UInt8} (hb : b &&& 0xC0 = 0x40)
    (pending : List UInt8) :
    (spiXfer b).Yields (C.bus p) C.view (κ.saying pending, c) (pending.headD 0xFF).toUInt16
      (κ.collecting [b] pending.tail, c) := by
  have hstep := spiXfer_yields C p (κ.saying pending) c b
  simp only [Card.take, Inside.saying_phase, hphase, if_pos hb] at hstep
  exact hstep

theorem spiXfer_collects (κ : Inside) (b : UInt8) (pending : List UInt8) {got : List UInt8}
    (hgot : got.length < 5) :
    (spiXfer b).Yields (C.bus p) C.view (κ.collecting got pending, c)
      (pending.headD 0xFF).toUInt16 (κ.collecting (b :: got) pending.tail, c) := by
  have hstep := spiXfer_yields C p (κ.collecting got pending) c b
  simp only [Card.take, Inside.collecting, Inside.saying, if_pos hgot] at hstep
  exact hstep

theorem spiXfer_completes (κ : Inside) (b : UInt8) (pending got : List UInt8)
    (hgot : got.length = 5) :
    (spiXfer b).Yields (C.bus p) C.view (κ.collecting got pending, c)
      (pending.headD 0xFF).toUInt16 (C.command (κ.collecting got pending.tail) (b :: got), c) := by
  have hstep := spiXfer_yields C p (κ.collecting got pending) c b
  simp only [Card.take, Inside.collecting, Inside.saying, hgot, Nat.lt_irrefl, if_false] at hstep
  exact hstep

/-- The six bytes of a command reach a card that has at most six bytes left to say. -/
theorem sendFrame_yields (hphase : κ.phase = .idle) {code : UInt8} (hcode : code &&& 0x40 = 0)
    (data : UInt32) (chksm : UInt8) {pending : List UInt8} (hlen : pending.length ≤ 6) :
    (sendFrame code data chksm).Yields (C.bus p) C.view (κ.saying pending, c) ()
      (C.execute (κ.saying []) (code &&& 0x3F) data (intactCommand code data chksm), c) := by
  obtain ⟨hopen, hmask⟩ := frame_first code hcode
  have hsaid : pending.drop 6 = [] := List.drop_eq_nil_of_le hlen
  have hlast := spiXfer_completes (C := C) (p := p) (c := c) κ chksm (pending.drop 5)
    [data.toUInt8, (data >>> 8).toUInt8, (data >>> 16).toUInt8, (data >>> 24).toUInt8,
      0x40 + (code &&& 0x7F)] rfl
  rw [List.tail_drop, hsaid, Card.command, hmask, argumentOf_bytes, Inside.collecting] at hlast
  refine (spiXfer_opens hphase hopen pending).bind ?_
  refine (spiXfer_collects κ _ _ (by simp)).bind ?_
  refine (spiXfer_collects κ _ _ (by simp)).bind ?_
  refine (spiXfer_collects κ _ _ (by simp)).bind ?_
  refine (spiXfer_collects κ _ _ (by simp)).bind ?_
  simp only [← List.drop_one, List.drop_drop, Nat.reduceAdd]
  exact hlast.bind Prog.yields_pure

/-- A byte 0xFF to an idle card. -/
theorem spiXfer_idle (hphase : κ.phase = .idle) (pending : List UInt8) :
    (spiXfer 0xFF).Yields (C.bus p) C.view (κ.saying pending, c) (pending.headD 0xFF).toUInt16
      (κ.saying pending.tail, c) := by
  have hstep := spiXfer_yields C p (κ.saying pending) c 0xFF
  rwa [take_listens (by rw [Inside.saying_phase, Inside.saying_phase, hphase]; trivial)] at hstep

/-- A command and what the card then has to say. -/
theorem sendFrame_replies (hphase : κ.phase = .idle) {code : UInt8} (hcode : code &&& 0x40 = 0)
    {data : UInt32} {chksm : UInt8} {pending : List UInt8} (hlen : pending.length ≤ 6)
    {bytes : List UInt8} {κ' : Inside}
    (hreply : C.reply (κ.saying []) (code &&& 0x3F) data (intactCommand code data chksm) =
      (bytes, κ')) :
    (sendFrame code data chksm).Yields (C.bus p) C.view (κ.saying pending, c) ()
      (({ κ' with served := κ.served + 1 } : Inside).saying
        (List.replicate (C.responseDelay κ.served) 0xFF ++ bytes), c) := by
  have hframe := sendFrame_yields (C := C) (p := p) (c := c) hphase hcode data chksm hlen
  rwa [Card.execute, hreply] at hframe

/-- A command that is no application command. -/
theorem sdCommand_yields (hphase : κ.phase = .idle) {code : UInt8} (hcode : code &&& 0xC0 = 0)
    (hstop : code ≠ cmd12) (data : UInt32) (chksm : UInt8) (pending : List UInt8)
    (hlen : pending.length ≤ 7) {b : UInt8} {rest : List UInt8} {κ' : Inside}
    (hreply : C.reply (κ.saying []) code data (intactCommand code data chksm) = (b :: rest, κ'))
    (hb : b ≠ 0xFF) (hlisten : κ'.phase.Listens) :
    (sdCommand code data chksm).Yields (C.bus p) C.view (κ.saying pending, c) b.toUInt16
      ({ κ' with pending := rest, served := κ.served + 1 }, c) := by
  obtain ⟨happ, hframe, hmask⟩ := plain_code code hcode
  rw [sdCommand, if_neg (by simp [happ]), if_neg hstop]
  refine (spiXfer_idle hphase pending).bind ?_
  have hmasked : C.reply (κ.saying []) (code &&& 0x3F) data (intactCommand code data chksm) =
      (b :: rest, κ') := by rw [hmask, hreply]
  refine (sendFrame_replies hphase hframe (by simp; omega) hmasked).bind ?_
  exact retry_yields (κ := { κ' with served := κ.served + 1 }) hlisten hb rest _ _
    (C.responseDelay_lt _) 0

end Embext.BlockSd
