import Embext.Proofs.Card

set_option autoImplicit false

/-! # The reset against a card

`sd_card_reset` byte by byte against a card: it polls until the card is ready, reads the register and
notes down what stands there, however long the card takes over each answer. -/

namespace Embext.BlockSd

variable {C : Card} {p : Nat} {κ : Inside} {c : SDCard}

/-! ## Waiting for the card -/

/-- A card between two commands, ready to read and write, with the number of commands it has taken
    in and its sectors. -/
structure Inside.Settled (κ : Inside) (n : Nat) (sector : UInt32 → Sector) : Prop where
  phase : κ.phase = .idle
  pending : κ.pending.length ≤ 2
  ready : κ.ready = true
  served : κ.served = n
  sector : κ.sector = sector

theorem idleBit_ne (κ : Inside) : κ.idleBit ≠ 0xFF := by
  unfold Inside.idleBit
  split <;> decide

/-- The card after `CMD55` and its answer. -/
def Inside.prefixed (κ : Inside) : Inside :=
  { κ with phase := .idle, pending := [], app := true, served := κ.served + 1 }

/-- `ACMD41` is `CMD55` and then `CMD41`. -/
theorem acmd41_yields (hp : C.Patient p) (hphase : κ.phase = .idle) {pending : List UInt8}
    (hlen : pending.length ≤ 7) {b : UInt8} {κ' : Inside}
    (hreply : C.reply κ.prefixed 41 0x40000000 (intactCommand acmd41 0x40000000 1) = ([b], κ'))
    (hb : b ≠ 0xFF) (hlisten : κ'.phase.Listens) :
    (sdCommand acmd41 0x40000000 1).Yields (C.bus p) C.view (κ.saying pending, c) b.toUInt16
      ({ κ' with pending := [], served := κ.served + 2 }, c) := by
  have happ : C.reply (κ.saying []) (55 &&& 0x3F) 0 (intactCommand 55 0 0x01) =
      ([κ.idleBit], { κ.saying [] with phase := .idle, app := true }) := rfl
  have hbound : C.responseDelay κ.served < (C.bus p).patience := hp.response _
  rw [sdCommand, if_pos (by decide), if_neg (by decide)]
  refine (spiXfer_idle hphase pending).bind ?_
  refine (sendFrame_replies hphase (by decide) (by simp; omega) happ).bind ?_
  refine (Prog.yields_ask Bus.patience).bind ?_
  refine (awaitAnswer_yields (by exact trivial) (idleBit_ne κ) [] _ _ hbound).bind ?_
  refine (spiXfer_idle (by rfl) []).bind ?_
  refine (sendFrame_replies (by rfl) (by decide) (by simp) hreply).bind ?_
  exact retry_yields (κ := { κ' with served := κ.served + 2 }) hlisten hb [] _ _
    (C.responseDelay_lt _) 0

/-- One round of the polling: the card counts it, or is ready. -/
theorem reply_acmd41 (C : Card) (κ : Inside) (happ : κ.app = true) (intact : Bool) :
    C.reply κ 41 0x40000000 intact =
      if κ.polls < C.startup then
        ([1], { κ with phase := .idle, app := false, polls := κ.polls + 1 })
      else ([0], { κ with phase := .idle, app := false, ready := true }) := by
  have hcapable : ¬ ((0x40000000 : UInt32) &&& 0x40000000 = 0) := by decide
  simp [Card.reply, happ]

/-- The polling ends once the card has been asked often enough. -/
theorem awaitReady_yields (hp : C.Patient p) (fuel : Nat) : ∀ {κ : Inside} (pending : List UInt8),
    κ.phase = .idle → pending.length ≤ 7 → C.startup - κ.polls < fuel →
    ∃ κ', (awaitReady fuel).Yields (C.bus p) C.view (κ.saying pending, c) () (κ', c) ∧
      κ'.Settled (κ.served + 2 * (C.startup - κ.polls + 1)) κ.sector := by
  induction fuel with
  | zero => exact fun _ _ _ hfuel => absurd hfuel (Nat.not_lt_zero _)
  | succ fuel ih =>
    intro κ pending hphase hlen hfuel
    have hreply := reply_acmd41 C κ.prefixed rfl (intactCommand acmd41 0x40000000 1)
    by_cases hpoll : κ.polls < C.startup
    · rw [if_pos (by exact hpoll)] at hreply
      have hround := acmd41_yields (c := c) hp hphase hlen hreply (by decide) trivial
      obtain ⟨κ', hrest, hsettled⟩ := ih (κ := { κ.prefixed with
        app := false, polls := κ.polls + 1, served := κ.served + 2 }) [] rfl (by simp)
        (by show C.startup - (κ.polls + 1) < fuel; omega)
      have hserved : κ.served + 2 * (C.startup - κ.polls + 1) =
          κ.served + 2 + 2 * (C.startup - (κ.polls + 1) + 1) := by omega
      exact ⟨κ', hround.bind hrest, hserved ▸ hsettled⟩
    · rw [if_neg (by exact hpoll)] at hreply
      have hround := acmd41_yields (c := c) hp hphase hlen hreply (by decide) trivial
      have hserved : C.startup - κ.polls = 0 := by omega
      exact ⟨_, hround.bind Prog.yields_pure, rfl, by simp, rfl, by rw [hserved], rfl⟩

/-! ## The register -/

/-- Listening to the card, byte by byte. -/
theorem after_listens (h : κ.phase.Listens) {sent pending : List UInt8}
    (hafter : C.machine.after sent = κ.saying pending) (k : Nat) :
    C.machine.after (List.replicate k 0xFF ++ sent) = κ.saying (pending.drop k) := by
  induction k with
  | zero => exact hafter
  | succ k ih =>
    rw [List.replicate_succ, List.cons_append, Mealy.after_cons, ih]
    change C.take (κ.saying (pending.drop k).tail) 0xFF = _
    rw [take_listens (by exact h), List.tail_drop]

theorem delivers_after (h : κ.phase.Listens) {sent rest : List UInt8}
    (hafter : C.machine.after sent = κ.saying (Window.slice C.csd 0 16 ++ rest)) :
    Delivers (C.bus p) C.csd sent := by
  intro k hk
  have hlen : k < (Window.slice C.csd 0 16).length := by simpa using hk
  change ((C.machine.after (List.replicate k 0xFF ++ sent)).pending).headD 0xFF = _
  rw [after_listens h hafter, Inside.saying_pending, List.drop_append_of_le_length (by omega),
    List.drop_eq_getElem_cons hlen, Window.getElem_slice, Nat.zero_add]
  rfl

/-- What the driver notes down of a card. -/
def Card.record (C : Card) (c : SDCard) : SDCard :=
  C.csd.protect { c with
    cardType := if C.high then sdCardHc else sdCardSc
    size := if C.high then C.csd.sizeHc else C.csd.sizeSc }

theorem Card.bits_layout_iff (C : Card) : C.csd.bits 126 126 = 1 ↔ C.high = true := by
  have hstruct := C.csd.csdStructure_eq
  have hlayout := C.csd.bits_layout
  have hle := C.structure_le
  rw [Card.high, decide_eq_true_iff]
  omega

theorem readCsd_yields (h : κ.phase.Listens) (rest : List UInt8) :
    readCsd.Yields (C.bus p) C.view (κ.saying (Window.slice C.csd 0 16 ++ rest), c) 0
      (κ.saying rest, C.record c) := by
  intro m hm
  simp only [Card.view, Prod.mk.injEq] at hm
  obtain ⟨hafter, rfl⟩ := hm
  have hdelivers := delivers_after (p := p) h hafter
  have hend := after_listens h hafter 16
  rw [List.drop_left' (by simp)] at hend
  refine ⟨m.after 16 (C.record m.card), ?_, Prod.ext hend rfl⟩
  by_cases hhigh : C.high = true
  · rw [readCsd_hc hdelivers (C.bits_layout_iff.2 hhigh), Card.record, if_pos hhigh, if_pos hhigh]
  · have hversion : C.csd.csdStructure = 0 := by
      have hle := C.structure_le
      rw [Card.high, decide_eq_true_iff] at hhigh
      omega
    rw [readCsd_sc hdelivers (fun hbit => hhigh (C.bits_layout_iff.1 hbit))
      (C.readBlLen_mem hversion).1, Card.record, if_neg hhigh, if_neg hhigh]

/-! ## The reset -/

theorem setCard_yields (f : SDCard → SDCard) (κ : Inside) (c : SDCard) :
    (setCard f).Yields (C.bus p) C.view (κ, c) () (κ, f c) := by
  intro m hm
  simp only [Card.view, Prod.mk.injEq] at hm
  obtain ⟨rfl, rfl⟩ := hm
  exact ⟨_, rfl, rfl⟩

theorem checkVoltage_yields (h : κ.phase.Listens) (bytes : List UInt8) :
    (checkVoltage (bytes.map UInt8.toUInt16)).Yields (C.bus p) C.view (κ.saying bytes, c) true
      (κ.saying [], c) := by
  induction bytes with
  | nil => exact Prog.yields_pure
  | cons b rest ih =>
    refine (spiXfer_speaks h b rest).bind ?_
    rwa [if_neg (by simp)]

/-- The card after a command, with what is left of its answer. -/
def Inside.answered (κ : Inside) (rest : List UInt8) : Inside :=
  { κ with phase := .idle, pending := rest, app := false, served := κ.served + 1 }

theorem Inside.Settled.answered {n : Nat} {sector : UInt32 → Sector} (h : κ.Settled n sector)
    {rest : List UInt8} (hlen : rest.length ≤ 2) : (κ.answered rest).Settled (n + 1) sector :=
  ⟨rfl, hlen, h.ready, congrArg (· + 1) h.served, h.sector⟩

theorem reply_cmd9 (hready : κ.ready = true) (arg : UInt32) (intact : Bool) :
    C.reply κ cmd9 arg intact = (0 :: C.block κ.served (Window.slice C.csd 0 16),
      { κ with phase := .idle, app := false }) := by
  simp [Card.reply, cmd9, hready]

/-- A data block is waited for and its token taken off. -/
theorem awaitAnswer_block (hp : C.Patient p) (h : κ.phase.Listens) (n : Nat) (bytes : List UInt8) :
    (awaitAnswer p).Yields (C.bus p) C.view (κ.saying (C.block n bytes), c) 0xFE
      (κ.saying (bytes ++ [(C.checksum bytes).1, (C.checksum bytes).2]), c) :=
  awaitAnswer_yields h (by decide) _ p _ (hp.token n)

/-- The part of the reset after the kind of card is known. -/
theorem resetReady_yields (hp : C.Patient p) (hphase : κ.phase = .idle) (hpolls : κ.polls = 0)
    (pending : List UInt8) (hlen : pending.length ≤ 7) :
    ∃ κ', resetReady.Yields (C.bus p) C.view (κ.saying pending, c) 0 (κ', C.record c) ∧
      κ'.Settled (κ.served + 2 * C.startup + 3) κ.sector := by
  obtain ⟨κ₁, hready, hsettled⟩ := awaitReady_yields (c := c) hp p pending hphase hlen
    (by rw [hpolls]; exact hp.startup)
  have hserved : κ.served + 2 * (C.startup - κ.polls + 1) + 1 = κ.served + 2 * C.startup + 3 := by
    omega
  have hreply := reply_cmd9 (C := C) (κ := κ₁.saying []) hsettled.ready 0 (intactCommand cmd9 0 1)
  have hcommand := sdCommand_yields (c := c) (p := p) hsettled.phase (by decide) (by decide) 0 1
    κ₁.pending (hsettled.pending.trans (by decide)) hreply (by decide) trivial
  have htoken := awaitAnswer_block (c := c) (κ := κ₁.answered []) hp trivial κ₁.served
    (Window.slice C.csd 0 16)
  have hcsd := readCsd_yields (C := C) (p := p) (c := c) (κ := κ₁.answered []) trivial
    [(C.checksum (Window.slice C.csd 0 16)).1, (C.checksum (Window.slice C.csd 0 16)).2]
  exact ⟨κ₁.answered _, (Prog.yields_ask Bus.patience).bind
    (hready.bind (hcommand.bind (htoken.bind hcsd))), hserved ▸ hsettled.answered (by simp)⟩

/-- The card after `CMD0`. -/
def Inside.restarted (κ : Inside) : Inside :=
  { κ.answered [] with polls := 0, ready := false }

theorem reply_cmd0 (C : Card) (κ : Inside) : C.reply κ cmd0 0 (intactCommand cmd0 0 0x95) =
    ([1], { κ with phase := .idle, app := false, ready := false, polls := 0 }) := by
  have hintact : intactCommand cmd0 0 0x95 = true := by decide +kernel
  rw [hintact]
  rfl

theorem reply_cmd8 (C : Card) (hready : κ.ready = false) :
    C.reply κ cmd8 0x000001AA (intactCommand cmd8 0x000001AA 0x87) =
      (if C.second then [1, 0, 0, 1, 0xAA] else [5], { κ with phase := .idle, app := false }) := by
  have hintact : intactCommand cmd8 0x000001AA 0x87 = true := by decide +kernel
  have hbit : κ.idleBit = 1 := by simp [Inside.idleBit, hready]
  rw [hintact, Card.reply, hbit]
  cases C.second <;> rfl

/-- **The reset finds the card**: on any card that is idle, whatever its delays, the driver notes
down what the register says and leaves the card ready, with its sectors as they were. -/
theorem sdCardReset_yields (hp : C.Patient p) (hphase : κ.phase = .idle)
    (hlen : κ.pending.length ≤ 20) :
    ∃ κ', sdCardReset.Yields (C.bus p) C.view (κ, c) 0 (κ', C.record c) ∧
      κ'.Settled (κ.served + 2 * C.startup + 5) κ.sector := by
  have hlisten : κ.phase.Listens := by rw [hphase]; trivial
  have hskip := skip_yields (C := C) (p := p) (c := c) hlisten 20 κ.pending
  rw [List.drop_eq_nil_of_le hlen] at hskip
  have hcmd0 := sdCommand_yields (p := p) (c := c) hphase (by decide) (by decide) 0 0x95 []
    (by simp) (reply_cmd0 C _) (by decide) trivial
  have hcmd8 := reply_cmd8 (κ := κ.restarted.saying []) C rfl
  have hready : ∀ t : UInt16, ∃ κ', (setCard (fun card => { card with cardType := t }) >>=
      fun _ => resetReady).Yields (C.bus p) C.view ((κ.restarted.answered []).saying [], c) 0
        (κ', C.record c) ∧ κ'.Settled (κ.served + 2 * C.startup + 5) κ.sector := by
    intro t
    obtain ⟨κ', hrun, hsettled⟩ := resetReady_yields (κ := κ.restarted.answered [])
      (c := { c with cardType := t }) hp rfl rfl [] (by simp)
    have hserved : κ.served + 2 + 2 * C.startup + 3 = κ.served + 2 * C.startup + 5 := by omega
    exact ⟨κ', (setCard_yields _ _ _).bind hrun, hserved ▸ hsettled⟩
  by_cases hsecond : C.second = true
  · rw [if_pos hsecond] at hcmd8
    obtain ⟨κ', hrun, hsettled⟩ := hready sdCardHc
    have hcommand := sdCommand_yields (p := p) (c := c) (κ := κ.restarted) rfl (by decide)
      (by decide) 0x000001AA 0x87 [] (by simp) hcmd8 (by decide) trivial
    have hvoltage := checkVoltage_yields (C := C) (p := p) (c := c) (κ := κ.restarted.answered [])
      trivial [0, 0, 1, 0xAA]
    refine ⟨κ', hskip.bind (hcmd0.bind ?_), hsettled⟩
    exact hcommand.bind (hvoltage.bind hrun)
  · rw [if_neg hsecond] at hcmd8
    obtain ⟨κ', hrun, hsettled⟩ := hready sdCardSc
    have hcommand := sdCommand_yields (p := p) (c := c) (κ := κ.restarted) rfl (by decide)
      (by decide) 0x000001AA 0x87 [] (by simp) hcmd8 (by decide) trivial
    refine ⟨κ', hskip.bind (hcmd0.bind ?_), hsettled⟩
    exact hcommand.bind hrun

end Embext.BlockSd
