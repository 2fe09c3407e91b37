import Embext.Proofs.CardCalls

set_option autoImplicit false

/-! # Sessions with a card

From power up: the driver starts the card and then serves any calls. Byte by byte this is the card at
the level of transactions. A card that fails nothing is the sector array of the other driver, for the
block numbers it can tell apart. A sector the card refuses to store is lost without a word. -/

namespace Embext.BlockSd

open BlockPc (Op SectorArray)

variable {C : Card} {p n : Nat} {κ : Inside} {c : SDCard} {sector sector' : UInt32 → Sector}

/-! ## Runs of calls -/

theorem calls_yields (hp : C.Patient p) (hknown : C.Known c) (ops : List Op) :
    ∀ {n : Nat} {κ : Inside} {sector : UInt32 → Sector} {replies : List BlockPc.Reply}, κ.Settled n sector →
    C.transactions n sector ops = some (replies, sector') →
    ∃ κ', (calls ops).Yields (C.bus p) C.view (κ, c) replies (κ', c) ∧
      κ'.Settled (n + ops.length) sector' := by
  induction ops with
  | nil =>
    intro n κ sector replies h hrun
    cases hrun
    exact ⟨κ, Prog.yields_pure, h⟩
  | cons op rest ih =>
    intro n κ sector replies h hrun
    rw [Card.transactions] at hrun
    rcases hop : C.transact n sector op with _ | ⟨reply, sector₁⟩
    · simp [hop] at hrun
    · rcases hrest : C.transactions (n + 1) sector₁ rest with _ | ⟨later, sector₂⟩
      · simp [hop, hrest] at hrun
      · simp only [hop, hrest, Option.some.injEq, Prod.mk.injEq] at hrun
        obtain ⟨rfl, rfl⟩ := hrun
        obtain ⟨κ₁, hcall, h₁⟩ := call_yields hp h hknown op hop
        obtain ⟨κ₂, hcalls, h₂⟩ := ih h₁ hrest
        refine ⟨κ₂, hcall.bind (hcalls.bind Prog.yields_pure), ?_⟩
        rwa [List.length_cons, Nat.add_comm rest.length, ← Nat.add_assoc]

theorem calls_stops (hp : C.Patient p) (hknown : C.Known c) (ops : List Op) :
    ∀ {n : Nat} {κ : Inside} {sector : UInt32 → Sector}, κ.Settled n sector →
    C.transactions n sector ops = none →
    (calls ops).Stops (C.bus p) C.view (κ, c) .noReturn := by
  induction ops with
  | nil => exact fun _ hrun => absurd hrun (by simp [Card.transactions])
  | cons op rest ih =>
    intro n κ sector h hrun
    rw [Card.transactions] at hrun
    rcases hop : C.transact n sector op with _ | ⟨reply, sector₁⟩
    · exact (call_stops h hknown op hop).bind
    · rcases hrest : C.transactions (n + 1) sector₁ rest with _ | ⟨later, sector₂⟩
      · obtain ⟨κ₁, hcall, h₁⟩ := call_yields hp h hknown op hop
        exact hcall.bind_stops (ih h₁ hrest).bind
      · simp [hop, hrest] at hrun

/-! ## Sessions -/

/-- The driver after power up: it starts the card and serves the calls. -/
def session (ops : List Op) : Sd (Int × List BlockPc.Reply) := do
  let r ← blockInit
  let replies ← calls ops
  pure (r, replies)

theorem session_eq (ops : List Op) :
    session ops = (sdCardReset >>= fun r => calls ops >>= fun replies => pure (r, replies)) := by
  rw [session, blockInit]

/-- How many commands the start of a card takes. -/
def Card.startCommands (C : Card) : Nat := 2 * C.startup + 5

theorem Card.record_known (C : Card) (c : SDCard) : C.Known (C.record c) := by
  unfold Card.Known Card.record Csd.protect
  split <;> rfl

/-- The card is started, and waits. -/
theorem session_starts (hp : C.Patient p) : ∃ κ,
    sdCardReset.Yields (C.bus p) C.view (C.machine.start, noCard.card) 0 (κ, C.record noCard.card) ∧
      κ.Settled C.startCommands C.content := by
  obtain ⟨κ, hinit, hsettled⟩ := sdCardReset_yields (κ := C.machine.start) (c := noCard.card) hp rfl
    (by simp [Card.machine])
  have hstart : C.machine.start.served + 2 * C.startup + 5 = C.startCommands := by
    simp [Card.machine, Card.startCommands]
  rw [hstart] at hsettled
  exact ⟨κ, hinit, hsettled⟩

/-- A session whose transactions all end. -/
theorem session_ends (hp : C.Patient p) (ops : List Op) {replies : List BlockPc.Reply}
    {sector : UInt32 → Sector}
    (hrun : C.transactions C.startCommands C.content ops = some (replies, sector)) :
    ∃ m, session ops (C.bus p) noCard = .ok ((0, replies), m) ∧ m.card = C.record noCard.card ∧
      (C.machine.after m.sent).sector = sector := by
  obtain ⟨κ, hinit, hsettled⟩ := session_starts hp
  obtain ⟨κ', hcalls, hsettled'⟩ := calls_yields hp (C.record_known _) ops hsettled hrun
  have hyields : (session ops).Yields (C.bus p) C.view (C.machine.start, noCard.card)
      (0, replies) (κ', C.record noCard.card) := by
    rw [session_eq]
    refine hinit.bind ?_
    exact hcalls.bind Prog.yields_pure
  obtain ⟨m, hsession, hview⟩ := hyields noCard rfl
  simp only [Card.view, Prod.mk.injEq] at hview
  exact ⟨m, hsession, hview.2, by rw [hview.1, hsettled'.sector]⟩

/-- A session with a transaction that does not end. -/
theorem session_hangs (hp : C.Patient p) (ops : List Op)
    (hrun : C.transactions C.startCommands C.content ops = none) :
    session ops (C.bus p) noCard = .error .noReturn := by
  obtain ⟨κ, hinit, hsettled⟩ := session_starts hp
  have hstops : (session ops).Stops (C.bus p) C.view (C.machine.start, noCard.card) .noReturn := by
    rw [session_eq]
    refine hinit.bind_stops ?_
    exact (calls_stops hp (C.record_known _) ops hsettled hrun).bind
  exact hstops noCard rfl

/-- **Byte by byte a session is its transactions**: it returns their replies and leaves the card with
their sectors, or does not return where one of them does not. -/
theorem session_transactions (hp : C.Patient p) (ops : List Op) :
    match C.transactions C.startCommands C.content ops with
    | some (replies, sector) => ∃ m, session ops (C.bus p) noCard = .ok ((0, replies), m) ∧
        m.card = C.record noCard.card ∧ (C.machine.after m.sent).sector = sector
    | none => session ops (C.bus p) noCard = .error .noReturn := by
  split
  · next replies sector hrun => exact session_ends hp ops hrun
  · next hrun => exact session_hangs hp ops hrun

/-! ## A card that fails nothing -/

/-- Every sector can be read and is stored. -/
structure Card.Reliable (C : Card) : Prop where
  reads : ∀ n index, C.readError n index = none
  stores : ∀ n index, C.writeResponse n index = .accepted

/-- The card as an array of sectors. -/
def Card.array (C : Card) (sector : UInt32 → Sector) : SectorArray := ⟨C.count, sector⟩

/-- Both calls fail or both succeed, with the same buffer. -/
def Agrees (reply reply' : BlockPc.Reply) : Prop := (reply.1 = 0 ↔ reply'.1 = 0) ∧ reply.2 = reply'.2

/-- The block numbers the card can tell apart from those of its sectors. -/
def Card.Addresses (C : Card) (block : UInt32) : Prop :=
  C.high = true ∨ block.toNat < C.count ∨ C.count ≤ block.toNat % 2 ^ 23

/-- The call is a write that the card does not store. The number is that of the `CMD24`. -/
def Card.loses (C : Card) (n : Nat) : Op → Bool
  | .read _ _ => false
  | .write block _ => C.writeResponse n (C.index block) ≠ .accepted

/-- A session returns what the array returns, and leaves the card with the array's sectors. -/
def ActsAsArray (C : Card) (p : Nat) (ops : List Op) : Prop :=
  ∃ replies m, session ops (C.bus p) noCard = .ok ((0, replies), m) ∧
    List.Forall₂ Agrees replies (SectorArray.run ops (C.array C.content)).1 ∧
    (C.machine.after m.sent).sector = (SectorArray.run ops (C.array C.content)).2.sector

theorem Card.count_le (C : Card) (hlow : C.high = false) : C.count ≤ 2 ^ 23 := by
  have hle := C.structure_le
  have hversion : C.csd.csdStructure = 0 := by
    have hne : C.csd.csdStructure ≠ 1 := by simpa [Card.high] using hlow
    omega
  have hlen := (C.readBlLen_mem hversion).2
  have hcount : C.csd.cSizeSc < 2 ^ 12 := Nat.mod_lt _ (by decide)
  have hmult : C.csd.cSizeMult < 8 := Nat.mod_lt _ (by decide)
  rw [Card.count, if_neg (by simp [hlow]), Csd.blocksSc]
  calc (C.csd.cSizeSc + 1) * 2 ^ (C.csd.cSizeMult + 2) * 2 ^ (C.csd.readBlLen - 9)
      ≤ 2 ^ 12 * 2 ^ 9 * 2 ^ 2 := by gcongr <;> omega
    _ = 2 ^ 23 := by norm_num

/-- A number of the card names its own sector. -/
theorem Card.index_eq {block : UInt32} (hin : block.toNat < C.count) : C.index block = block := by
  cases hhigh : C.high with
  | true => rw [Card.index, if_pos hhigh]
  | false =>
    have hcount := C.count_le hhigh
    apply UInt32.toNat_inj.1
    rw [Card.toNat_index hhigh]
    exact Nat.mod_eq_of_lt (by omega)

/-- The card finds a sector for a number it should refuse, unless it addresses the number truly. -/
theorem Card.addresses_iff (C : Card) (block : UInt32) :
    C.Addresses block ↔ ((C.index block).toNat < C.count → block.toNat < C.count) := by
  unfold Card.Addresses
  cases hhigh : C.high with
  | true =>
    have hindex : C.index block = block := by rw [Card.index, if_pos hhigh]
    simp [hindex]
  | false =>
    have hle := Nat.mod_le block.toNat (2 ^ 23)
    rw [Card.toNat_index hhigh]
    constructor
    · rintro (h | h | h) hin
      · simp at h
      · exact h
      · omega
    · intro h
      omega

/-- A call on a number the card addresses truly is the call on the array, but for a write that is
    not stored. -/
theorem transact_agrees (hreads : ∀ n index, C.readError n index = none) (n : Nat)
    (sector : UInt32 → Sector) (op : Op) (haddr : C.Addresses op.block) :
    ∃ reply sector', C.transact n sector op = some (reply, sector') ∧
      Agrees reply (SectorArray.exec op (C.array sector)).1 ∧
      C.array sector' = if C.loses n op then C.array sector
        else (SectorArray.exec op (C.array sector)).2 := by
  have hindex := (C.addresses_iff _).1 haddr
  cases op with
  | read block buffer =>
    by_cases hin : block.toNat < C.count
    · refine ⟨(0, sector block), sector, ?_, ?_, ?_⟩
      · simp [Card.transact, C.index_eq hin, hin, hreads]
      · simp [SectorArray.exec, Card.array, hin, Agrees]
      · simp [SectorArray.exec, Card.array, hin]
    · have hout : ¬ (C.index block).toNat < C.count := fun h => hin (hindex h)
      refine ⟨(0x40, buffer), sector, ?_, ?_, ?_⟩
      · simp [Card.transact, hout]
      · simp [SectorArray.exec, Card.array, hin, Agrees]
      · simp [SectorArray.exec, Card.array, hin]
  | write block buffer =>
    by_cases hin : block.toNat < C.count
    · refine ⟨(0, buffer), C.stored n block buffer sector, ?_, ?_, ?_⟩
      · simp [Card.transact, C.index_eq hin, hin]
      · simp [SectorArray.exec, Card.array, hin, Agrees]
      · by_cases hstored : C.writeResponse n block = .accepted
        · simp [SectorArray.exec, Card.array, hin, Card.stored, Card.loses, C.index_eq hin, hstored]
        · simp [Card.array, Card.stored, Card.loses, C.index_eq hin, hstored]
    · have hout : ¬ (C.index block).toNat < C.count := fun h => hin (hindex h)
      refine ⟨(0x40, buffer), sector, ?_, ?_, ?_⟩
      · simp [Card.transact, hout]
      · simp [SectorArray.exec, Card.array, hin, Agrees]
      · simp [SectorArray.exec, Card.array, hin]

/-- On any other number a call that returns does not fail where the array does. -/
theorem transact_disagrees (op : Op) (haddr : ¬ C.Addresses op.block) {reply : BlockPc.Reply}
    (htransact : C.transact n sector op = some (reply, sector')) :
    ¬ Agrees reply (SectorArray.exec op (C.array sector)).1 := by
  rw [C.addresses_iff, Classical.not_imp] at haddr
  obtain ⟨hin, hout⟩ := haddr
  intro hagrees
  cases op with
  | read block buffer =>
    have hin' : (C.index block).toNat < C.count := hin
    have hout' : ¬ block.toNat < C.count := hout
    rw [Card.transact, if_pos hin'] at htransact
    cases hread : C.readError n (C.index block) with
    | some t => simp [hread] at htransact
    | none =>
      simp only [hread, Option.some.injEq, Prod.mk.injEq] at htransact
      rw [← htransact.1] at hagrees
      simp [Agrees, SectorArray.exec, Card.array, hout'] at hagrees
  | write block buffer =>
    have hin' : (C.index block).toNat < C.count := hin
    have hout' : ¬ block.toNat < C.count := hout
    rw [Card.transact, if_pos hin'] at htransact
    cases htransact
    simp [Agrees, SectorArray.exec, Card.array, hout'] at hagrees

theorem run_cons (op : Op) (rest : List Op) (a : SectorArray) :
    SectorArray.run (op :: rest) a = ((SectorArray.exec op a).1 ::
      (SectorArray.run rest (SectorArray.exec op a).2).1,
      (SectorArray.run rest (SectorArray.exec op a).2).2) := rfl

theorem Card.Reliable.loses (h : C.Reliable) (n : Nat) (op : Op) : C.loses n op = false := by
  cases op with
  | read block buffer => rfl
  | write block buffer => simp [Card.loses, h.stores]

theorem transactions_agree_iff (hreliable : C.Reliable) (ops : List Op) :
    ∀ (n : Nat) (sector : UInt32 → Sector),
    (∃ replies sector', C.transactions n sector ops = some (replies, sector') ∧
      List.Forall₂ Agrees replies (SectorArray.run ops (C.array sector)).1 ∧
      sector' = (SectorArray.run ops (C.array sector)).2.sector) ↔
    ∀ op ∈ ops, C.Addresses op.block := by
  induction ops with
  | nil =>
    intro n sector
    simp [Card.transactions, SectorArray.run, Card.array]
  | cons op rest ih =>
    intro n sector
    rw [List.forall_mem_cons, Card.transactions, run_cons]
    by_cases haddr : C.Addresses op.block
    · obtain ⟨reply, sector₁, htransact, hagrees, harray⟩ :=
        transact_agrees hreliable.reads n sector op haddr
      rw [if_neg (by simp [hreliable.loses])] at harray
      rw [htransact, ← harray, ← ih (n + 1) sector₁]
      rcases hrest : C.transactions (n + 1) sector₁ rest with _ | ⟨later, sector₂⟩
      · simp [hrest]
      · simp [hrest, haddr, hagrees]
    · refine iff_of_false ?_ fun h => haddr h.1
      rintro ⟨replies, sector', hrun, hreplies, -⟩
      rcases htransact : C.transact n sector op with _ | ⟨reply, sector₁⟩
      · simp [htransact] at hrun
      · rcases hrest : C.transactions (n + 1) sector₁ rest with _ | ⟨later, sector₂⟩
        · simp [htransact, hrest] at hrun
        · simp only [htransact, hrest, Option.some.injEq, Prod.mk.injEq] at hrun
          rw [← hrun.1, List.forall₂_cons] at hreplies
          exact transact_disagrees op haddr htransact hreplies.1

/-- **A reliable card is a sector array** exactly on the block numbers it can tell apart: all of them
on a high capacity card, on a standard capacity card those that do not wrap around into its
sectors. -/
theorem session_actsAsArray_iff (hp : C.Patient p) (hreliable : C.Reliable) (ops : List Op) :
    ActsAsArray C p ops ↔ ∀ op ∈ ops, C.Addresses op.block := by
  rw [← transactions_agree_iff hreliable ops C.startCommands C.content, ActsAsArray]
  rcases hrun : C.transactions C.startCommands C.content ops with _ | ⟨replies, sector⟩
  · simp [session_hangs hp ops hrun]
  · obtain ⟨m, hsession, -, hsector⟩ := session_ends hp ops hrun
    simp [hsession, hsector, and_comm]

/-- A card of version 1 with 1536 sectors of zeros, each command and each transfer slower than the one
    before until it recovers, which says "not ready" three times. -/
def scCard (response : Nat → UInt32 → DataResponse) (failing : Nat → UInt32 → Option UInt8)
    (htoken : ∀ n index t, failing n index = some t → t &&& 0xE0 = 0) : Card where
  csd k := if k = 5 then 9 else if k = 8 then 0x80 else if k = 9 then 3 else if k = 10 then 0x80 else 0
  second := false
  startup := 3
  responseDelay n := n % 8
  tokenDelay n := n % 100
  busyTime n := n % 200
  checksum _ := (0, 0)
  readError := failing
  writeResponse := response
  content _ _ := 0
  structure_le := by decide +kernel
  readBlLen_mem _ := by decide +kernel
  second_of_high h := absurd h (by decide +kernel)
  responseDelay_lt n := (Nat.mod_lt n (by decide)).trans (by decide)
  errorToken := htoken

theorem scCard_patient {response : Nat → UInt32 → DataResponse}
    {failing : Nat → UInt32 → Option UInt8} {htoken} : (scCard response failing htoken).Patient 200 where
  response n := (Nat.mod_lt n (by decide)).trans (by decide)
  token n := (Nat.mod_lt n (by decide)).trans (by decide)
  busy n := Nat.mod_lt n (by decide)
  startup := by
    show 3 < 200
    decide

/-- A card that fails nothing. -/
def goodCard : Card := scCard (fun _ _ => .accepted) (fun _ _ => none) (by simp)

/-- A card that answers a read of sector 2 with an error token. -/
def unreadableCard : Card :=
  scCard (fun _ _ => .accepted) (fun _ index => if index = 2 then some 4 else none) (by
    intro n index t ht
    split at ht
    · cases ht
      decide
    · cases ht)

/-- A session with a card whose sector 2 cannot be read never returns. -/
theorem session_transactions_unreadable : session [.write 1 fun _ => 7, .read 2 fun _ => 0]
    (unreadableCard.bus 200) noCard = .error .noReturn := by
  have hnone : unreadableCard.transactions unreadableCard.startCommands unreadableCard.content
      [.write 1 fun _ => 7, .read 2 fun _ => 0] = none := by rfl
  have hsession := session_transactions (C := unreadableCard) scCard_patient
    [.write 1 fun _ => 7, .read 2 fun _ => 0]
  rwa [hnone] at hsession

/-- A sector written is read back, and a number past the card is refused. -/
theorem session_actsAsArray_goodCard : ActsAsArray goodCard 200
    [.write 1 fun _ => 7, .read 1 fun _ => 0, .read 4096 fun _ => 0] := by
  refine (session_actsAsArray_iff scCard_patient ⟨fun _ _ => rfl, fun _ _ => rfl⟩ _).2 ?_
  intro op hop
  simp only [List.mem_cons, List.not_mem_nil, or_false] at hop
  rcases hop with rfl | rfl | rfl
  · exact .inr (.inl (by decide +kernel))
  · exact .inr (.inl (by decide +kernel))
  · exact .inr (.inr (by decide +kernel))

/-! ## A card that refuses to store -/

/-- What is left of a list that goes with the calls when the lost writes are taken out. -/
def Card.keep {β : Type} (C : Card) : Nat → List Op → List β → List β
  | n, op :: ops, x :: xs =>
    if C.loses n op then C.keep (n + 1) ops xs else x :: C.keep (n + 1) ops xs
  | _, _, _ => []

/-- A call on the array succeeds exactly on the array's own numbers. -/
theorem exec_code (op : Op) (a : SectorArray) :
    (SectorArray.exec op a).1.1 = 0 ↔ op.block.toNat < a.count := by
  cases op with
  | read block buffer => by_cases h : block.toNat < a.count <;> simp [SectorArray.exec, Op.block, h]
  | write block buffer => by_cases h : block.toNat < a.count <;> simp [SectorArray.exec, Op.block, h]

/-- The replies to calls on a card that stores what it likes: the calls succeed exactly on its own
    block numbers, and without the lost writes they are those of the array. -/
theorem transactions_keep (hreads : ∀ n index, C.readError n index = none) (ops : List Op) :
    ∀ (n : Nat) (sector : UInt32 → Sector), (∀ op ∈ ops, C.Addresses op.block) →
    ∃ replies sector', C.transactions n sector ops = some (replies, sector') ∧
      List.Forall₂ (fun op reply => reply.1 = 0 ↔ op.block.toNat < C.count) ops replies ∧
      List.Forall₂ Agrees (C.keep n ops replies)
        (SectorArray.run (C.keep n ops ops) (C.array sector)).1 ∧
      C.array sector' = (SectorArray.run (C.keep n ops ops) (C.array sector)).2 := by
  induction ops with
  | nil => exact fun n sector _ => ⟨[], sector, rfl, .nil, .nil, rfl⟩
  | cons op rest ih =>
    intro n sector haddr
    rw [List.forall_mem_cons] at haddr
    obtain ⟨reply, sector₁, htransact, hagrees, harray⟩ :=
      transact_agrees hreads n sector op haddr.1
    obtain ⟨later, sector₂, hrest, hcodes, hkept, hlast⟩ := ih (n + 1) sector₁ haddr.2
    have hcode : reply.1 = 0 ↔ op.block.toNat < C.count := hagrees.1.trans (exec_code op _)
    refine ⟨reply :: later, sector₂, by simp [Card.transactions, htransact, hrest],
      .cons hcode hcodes, ?_⟩
    cases hlost : C.loses n op with
    | true =>
      rw [hlost, if_pos rfl] at harray
      simp only [Card.keep, hlost, if_true]
      rw [← harray]
      exact ⟨hkept, hlast⟩
    | false =>
      rw [hlost, if_neg (by decide)] at harray
      simp only [Card.keep, hlost, Bool.false_eq_true, if_false, run_cons, List.forall₂_cons]
      rw [← harray]
      exact ⟨⟨hagrees, hkept⟩, hlast⟩

/-- **A sector the card refuses to store is lost without a word**: every call on a block of the card
returns 0, and the session goes on as if the lost writes had not been asked for. -/
theorem session_loses (hp : C.Patient p) (hreads : ∀ n index, C.readError n index = none)
    (ops : List Op) (haddr : ∀ op ∈ ops, C.Addresses op.block) :
    ∃ replies m, session ops (C.bus p) noCard = .ok ((0, replies), m) ∧
      List.Forall₂ (fun op reply => reply.1 = 0 ↔ op.block.toNat < C.count) ops replies ∧
      List.Forall₂ Agrees (C.keep C.startCommands ops replies)
        (SectorArray.run (C.keep C.startCommands ops ops) (C.array C.content)).1 ∧
      C.array (C.machine.after m.sent).sector =
        (SectorArray.run (C.keep C.startCommands ops ops) (C.array C.content)).2 := by
  obtain ⟨replies, sector, hrun, hcodes, hkept, hlast⟩ :=
    transactions_keep hreads ops C.startCommands C.content haddr
  obtain ⟨m, hsession, -, hsector⟩ := session_ends hp ops hrun
  exact ⟨replies, m, hsession, hcodes, hkept, hsector ▸ hlast⟩

/-- A card whose third write is not stored. -/
def forgetfulCard : Card :=
  scCard (fun n _ => if n = 13 then .writeError else .accepted) (fun _ _ => none) (by simp)

/-- Its write of sector 1 returns 0 and changes nothing. -/
theorem session_loses_forgetfulCard : ∃ replies m,
    session [.write 5 fun _ => 9, .read 5 fun _ => 0, .write 1 fun _ => 7]
      (forgetfulCard.bus 200) noCard = .ok ((0, replies), m) ∧
    replies.map Prod.fst = [0, 0, 0] ∧
    (forgetfulCard.machine.after m.sent).sector 1 = fun _ => 0 := by
  have haddr : ∀ op ∈ [Op.write 5 fun _ => 9, .read 5 fun _ => 0, .write 1 fun _ => 7],
      forgetfulCard.Addresses op.block := by
    intro op hop
    simp only [List.mem_cons, List.not_mem_nil, or_false] at hop
    rcases hop with rfl | rfl | rfl
    · exact .inr (.inl (by decide +kernel))
    · exact .inr (.inl (by decide +kernel))
    · exact .inr (.inl (by decide +kernel))
  obtain ⟨replies, m, hrun, hcodes, -, hlast⟩ :=
    session_loses (C := forgetfulCard) scCard_patient (fun _ _ => rfl) _ haddr
  refine ⟨replies, m, hrun, ?_, ?_⟩
  · have hcount : 5 < forgetfulCard.count ∧ 1 < forgetfulCard.count := by decide +kernel
    rcases hcodes with _ | ⟨h₁, _ | ⟨h₂, _ | ⟨h₃, _ | _⟩⟩⟩
    simp only [Op.block, UInt32.reduceToNat, hcount, iff_true] at h₁ h₂ h₃
    simp [h₁, h₂, h₃]
  · exact congrFun (congrArg SectorArray.sector hlast) 1

/-! ## The volume -/

/-- A file system's view of a session: it asks for the size of the volume first. -/
def volumeSession (ops : List Op) : Sd (UInt32 × List BlockPc.Reply) := do
  let _ ← blockInit
  let size ← blockGetVolumeSize
  let replies ← calls ops
  pure (size, replies)

/-- The size reported never exceeds the card. -/
theorem Card.record_size_le (C : Card) (c : SDCard) : (C.record c).size.toNat ≤ C.count := by
  have hle := C.structure_le
  rw [Card.record, Csd.protect_size, Card.count]
  dsimp only
  cases hhigh : C.high with
  | true =>
    rw [if_pos rfl, if_pos rfl, Csd.toNat_sizeHc, Csd.blocksHc, Csd.cSizeHc_eq]
    omega
  | false =>
    have hversion : C.csd.csdStructure = 0 := by
      have hne : C.csd.csdStructure ≠ 1 := by simpa [Card.high] using hhigh
      omega
    obtain ⟨hlo, hhi⟩ := C.readBlLen_mem hversion
    rw [if_neg (by decide), if_neg (by decide), C.csd.toNat_sizeSc hlo hhi]

theorem blockGetVolumeSize_yields (C : Card) (p : Nat) (κ : Inside) (c : SDCard) :
    blockGetVolumeSize.Yields (C.bus p) C.view (κ, c) c.size (κ, c) := by
  intro m hm
  simp only [Card.view, Prod.mk.injEq] at hm
  obtain ⟨rfl, rfl⟩ := hm
  exact ⟨m, rfl, rfl⟩

/-- Calls on numbers of the card succeed. -/
theorem codes_zero {count : Nat} {ops : List Op} {replies : List BlockPc.Reply}
    (h : List.Forall₂ (fun op reply => reply.1 = 0 ↔ op.block.toNat < count) ops replies)
    (hops : ∀ op ∈ ops, op.block.toNat < count) : ∀ reply ∈ replies, reply.1 = 0 := by
  induction h with
  | nil => simp
  | cons hcode _ ih =>
    rw [List.forall_mem_cons] at hops ⊢
    exact ⟨hcode.2 hops.1, ih hops.2⟩

theorem volumeSession_eq (ops : List Op) :
    volumeSession ops = (sdCardReset >>= fun _ => blockGetVolumeSize >>= fun size =>
      calls ops >>= fun replies => pure (size, replies)) := by
  rw [volumeSession, blockInit]

/-- **The volume is on the card**: whatever the register says, the calls on block numbers below the
size reported all succeed on a reliable card, each on its own sector. -/
theorem volumeSession_succeeds (hp : C.Patient p) (hreliable : C.Reliable) (ops : List Op)
    (hops : ∀ op ∈ ops, op.block < (C.record noCard.card).size) : ∃ replies m,
      volumeSession ops (C.bus p) noCard = .ok (((C.record noCard.card).size, replies), m) ∧
      (∀ reply ∈ replies, reply.1 = 0) ∧
      List.Forall₂ Agrees replies (SectorArray.run ops (C.array C.content)).1 ∧
      (C.machine.after m.sent).sector = (SectorArray.run ops (C.array C.content)).2.sector := by
  have hin : ∀ op ∈ ops, op.block.toNat < C.count := fun op hop =>
    (UInt32.lt_iff_toNat_lt.1 (hops op hop)).trans_le (C.record_size_le _)
  have haddr : ∀ op ∈ ops, C.Addresses op.block := fun op hop => .inr (.inl (hin op hop))
  obtain ⟨κ, hinit, hsettled⟩ := sdCardReset_yields (κ := C.machine.start) (c := noCard.card) hp rfl
    (by simp [Card.machine])
  obtain ⟨replies, sector, hrun, hagrees, hsector⟩ :=
    (transactions_agree_iff hreliable ops κ.served κ.sector).2 haddr
  obtain ⟨replies', sector', hrun', hcodes, -, -⟩ :=
    transactions_keep hreliable.reads ops κ.served κ.sector haddr
  rw [hrun] at hrun'
  cases hrun'
  obtain ⟨κ', hcalls, hsettled'⟩ := calls_yields hp (C.record_known _) ops
    ⟨hsettled.phase, hsettled.pending, hsettled.ready, rfl, rfl⟩ hrun
  have hyields : (volumeSession ops).Yields (C.bus p) C.view (C.machine.start, noCard.card)
      ((C.record noCard.card).size, replies) (κ', C.record noCard.card) := by
    rw [volumeSession_eq]
    refine hinit.bind ((blockGetVolumeSize_yields C p κ _).bind ?_)
    exact hcalls.bind Prog.yields_pure
  obtain ⟨m, hsession, hview⟩ := hyields noCard rfl
  simp only [Card.view, Prod.mk.injEq] at hview
  have hcontent : κ.sector = C.content := hsettled.sector
  rw [hcontent] at hagrees hsector
  exact ⟨replies, m, hsession, codes_zero hcodes hin, hagrees,
    by rw [hview.1, hsettled'.sector, hsector]⟩

/-- The last sector of a card is within the volume. -/
theorem volumeSession_goodCard : ∃ replies m,
    volumeSession [.write 1535 fun _ => 7, .read 1535 fun _ => 0] (goodCard.bus 200) noCard =
      .ok (((goodCard.record noCard.card).size, replies), m) ∧
    (∀ reply ∈ replies, reply.1 = 0) ∧
    List.Forall₂ Agrees replies (SectorArray.run [.write 1535 fun _ => 7, .read 1535 fun _ => 0]
      (goodCard.array goodCard.content)).1 ∧
    (goodCard.machine.after m.sent).sector = (SectorArray.run
      [.write 1535 fun _ => 7, .read 1535 fun _ => 0] (goodCard.array goodCard.content)).2.sector := by
  refine volumeSession_succeeds scCard_patient ⟨fun _ _ => rfl, fun _ _ => rfl⟩ _ fun op hop => ?_
  simp only [List.mem_cons, List.not_mem_nil, or_false] at hop
  rcases hop with rfl | rfl
  · show 1535 < (goodCard.record noCard.card).size
    decide +kernel
  · show 1535 < (goodCard.record noCard.card).size
    decide +kernel

end Embext.BlockSd
