import Embext.Implementation.Types
import Embext.Library.Program
import Embext.Library.Window

set_option autoImplicit false

/-! # The SD card driver

`block_sd.c`. The card answers each byte it is sent with a byte of its own, which may depend on every
byte sent before. The lines that select the card and power it and the set-up of the controller's own
pins and clocks carry no data and are left out. -/

namespace Embext.BlockSd

/-! ## Constants of `block_sd.h` -/

def sdCardSc : UInt16 := 2
def sdCardHc : UInt16 := 3
def sdCardError : UInt16 := 99

def cmd0 : UInt8 := 0
def cmd8 : UInt8 := 8
def cmd9 : UInt8 := 9
def cmd12 : UInt8 := 12
def cmd17 : UInt8 := 17
def cmd24 : UInt8 := 24
def acmd41 : UInt8 := 0x80 + 41

def sdErrNotPresent : UInt8 := 2

def sdRetries : Nat := 1000

/-- `SDCard`. -/
structure SDCard where
  cardType : UInt16
  readOnly : UInt8
  size : UInt32
  error : UInt8
  deriving DecidableEq

/-! ## The bus -/

/-- What the card answers after the bytes sent, newest first, and how many rounds of a loop without
    a bound are followed. -/
structure Bus where
  answer : List UInt8 → UInt8
  patience : Nat

/-- The bytes sent, newest first, and the driver's `card`. -/
structure State where
  sent : List UInt8
  card : SDCard

inductive Fault where
  /-- a shift by a negative number -/
  | badShift
  /-- a loop still running after `Bus.patience` rounds -/
  | noReturn
  deriving DecidableEq, Repr

abbrev Sd (α : Type) := Prog Bus Fault State α

/-- `spi_xfer(SD_SPI, b)`; the answer is a byte in a `uint16_t`. -/
def spiXfer (b : UInt8) : Sd UInt16 := fun bus m =>
  .ok ((bus.answer (b :: m.sent)).toUInt16, { m with sent := b :: m.sent })

def setCard (f : SDCard → SDCard) : Sd Unit := Prog.modify fun m => { m with card := f m.card }

def patience : Sd Nat := fun bus m => .ok (bus.patience, m)

/-- `n` transfers whose answers are dropped. -/
def skip : Nat → Sd Unit
  | 0 => pure ()
  | n + 1 => do
    let _ ← spiXfer 0xFF
    skip n

/-- `do { c = spi_xfer(SD_SPI, 0xFF); } while(c == 0xFF)`. -/
def awaitAnswer : Nat → Sd UInt16
  | 0 => Prog.fault .noReturn
  | fuel + 1 => do
    let c ← spiXfer 0xFF
    if c = 0xFF then awaitAnswer fuel else pure c

/-! ## Commands -/

/-- The six bytes of a command. -/
def sendFrame (code : UInt8) (data : UInt32) (chksm : UInt8) : Sd Unit := do
  let _ ← spiXfer (0x40 + (code &&& 0x7F))
  let _ ← spiXfer (data >>> 24).toUInt8
  let _ ← spiXfer (data >>> 16).toUInt8
  let _ ← spiXfer (data >>> 8).toUInt8
  let _ ← spiXfer data.toUInt8
  let _ ← spiXfer chksm

/-- `for(i=0;i<SD_RETRIES;i++)`, with the last answer. -/
def retry : Nat → UInt16 → Sd UInt16
  | 0, c => pure c
  | n + 1, _ => do
    let c ← spiXfer 0xFF
    if c ≠ 0xFF then pure c else retry n c

/-- `sd_command`. -/
def sdCommand (code : UInt8) (data : UInt32) (chksm : UInt8) : Sd UInt16 := do
  if code &&& 0x80 ≠ 0 then
    let _ ← spiXfer 0xFF
    sendFrame 55 0 0x01
    let bound ← patience
    let _ ← awaitAnswer bound
  let _ ← spiXfer 0xFF
  sendFrame code data chksm
  if code = cmd12 then
    let _ ← spiXfer 0xFF
  retry sdRetries 0

/-- `while(c == 1)` around `ACMD41`. -/
def awaitReady : Nat → Sd Unit
  | 0 => Prog.fault .noReturn
  | fuel + 1 => do
    let c ← sdCommand acmd41 0x40000000 1
    if c = 1 then awaitReady fuel else pure ()

/-! ## The reset -/

/-- The write protect flags, and the checksum behind them. -/
def readProtection : Sd Unit := do
  let c ← spiXfer 0xFF
  if c &&& 0x30 ≠ 0 then setCard fun card => { card with readOnly := 1 }
  skip 1

/-- The register of version 2 after its first byte. -/
def readCsdHc : Sd Unit := do
  setCard fun card => { card with cardType := sdCardHc }
  -- fixed bytes, the speed, the command classes and the DSR bit
  skip 6
  let c ← spiXfer 0xFF
  setCard fun card => { card with size := (c &&& 0xF).toUInt32 <<< 16 }
  let c ← spiXfer 0xFF
  setCard fun card => { card with size := card.size + c.toUInt32 <<< 8 }
  let c ← spiXfer 0xFF
  setCard fun card => { card with size := card.size + c.toUInt32 }
  setCard fun card => { card with size := card.size + 1 }
  setCard fun card => { card with size := card.size <<< 10 }
  skip 4
  readProtection

/-- The register of version 1 after its first byte. -/
def readCsdSc : Sd Unit := do
  setCard fun card => { card with cardType := sdCardSc }
  -- the access times, the speed and the first command classes
  skip 4
  let c ← spiXfer 0xFF
  let i := c &&& 0xF
  let c ← spiXfer 0xFF
  setCard fun card => { card with size := (c &&& 0x03).toUInt32 <<< 10 }
  let c ← spiXfer 0xFF
  setCard fun card => { card with size := card.size + c.toUInt32 <<< 2 }
  let c ← spiXfer 0xFF
  setCard fun card => { card with size := card.size + ((c &&& 0xC0) >>> 6).toUInt32 }
  let c ← spiXfer 0xFF
  let next ← spiXfer 0xFF
  let c := (c <<< 1) + (next >>> 7)
  let c := (1 : UInt16) <<< ((c &&& 0x7) + 2)
  setCard fun card => { card with size := card.size + 1 }
  setCard fun card => { card with size := card.size * c.toUInt32 }
  if i < 9 then Prog.fault .badShift
  else setCard fun card => { card with size := card.size <<< (i - 9).toUInt32 }
  skip 3
  readProtection

/-- The part of `sd_card_reset` that deals with the actual content of the CSD. -/
def readCsd : Sd Int := do
  let c ← spiXfer 0xFF
  if c &&& 0x40 ≠ 0 then readCsdHc else readCsdSc
  pure 0

/-- The answer to `CMD8`: the voltage and the check pattern have to come back. -/
def checkVoltage : List UInt16 → Sd Bool
  | [] => pure true
  | expected :: rest => do
    let c ← spiXfer 0xFF
    if c ≠ expected then pure false else checkVoltage rest

/-- The part of `sd_card_reset` after the kind of card is known. -/
def resetReady : Sd Int := do
  let bound ← patience
  awaitReady bound
  let c ← sdCommand cmd9 0 1
  if c ≠ 0 then
    setCard fun card => { card with cardType := sdCardError }
    pure (-1)
  else
    let _ ← awaitAnswer bound
    readCsd

/-- `sd_card_reset`. -/
def sdCardReset : Sd Int := do
  skip 20
  let c ← sdCommand cmd0 0 0x95
  if c = 0xFF then
    setCard fun card => { card with cardType := sdCardError, error := sdErrNotPresent }
    pure (-1)
  else
    let c ← sdCommand cmd8 0x000001AA 0x87
    if c = 5 then
      setCard fun card => { card with cardType := sdCardSc }
      resetReady
    else if c = 1 then
      let good ← checkVoltage [0, 0, 1, 0xAA]
      if good then
        setCard fun card => { card with cardType := sdCardHc }
        resetReady
      else
        setCard fun card => { card with cardType := sdCardError }
        pure (-1)
    else
      setCard fun card => { card with cardType := sdCardError }
      pure (-1)

/-- `block_init`, after the set-up of the controller. -/
def blockInit : Sd Int := sdCardReset

/-! ## Transfers -/

/-- `do { c = spi_xfer(SD_SPI, 0xFF); } while(c != 0xFE)`. -/
def awaitToken : Nat → Sd Unit
  | 0 => Prog.fault .noReturn
  | fuel + 1 => do
    let c ← spiXfer 0xFF
    if c ≠ 0xFE then awaitToken fuel else pure ()

/-- `while(spi_xfer(SD_SPI, 0xFF) != 0xFF)`. -/
def awaitIdle : Nat → Sd Unit
  | 0 => Prog.fault .noReturn
  | fuel + 1 => do
    let c ← spiXfer 0xFF
    if c ≠ 0xFF then awaitIdle fuel else pure ()

/-- `*bp++ = spi_xfer(SD_SPI, 0xFF)`, the last `n` rounds from position `i` on. -/
def receive : Nat → Nat → Sector → Sd Sector
  | 0, _, buffer => pure buffer
  | n + 1, i, buffer => do
    let c ← spiXfer 0xFF
    receive n (i + 1) (Window.patch buffer i [c.toUInt8])

/-- `spi_xfer(SD_SPI, *bp++)`, the last `n` rounds from position `i` on. -/
def transmit : Nat → Nat → Sector → Sd Unit
  | 0, _, _ => pure ()
  | n + 1, i, buffer => do
    let _ ← spiXfer (Window.item buffer i)
    transmit n (i + 1) buffer

/-- `if(card.card_type == SD_CARD_SC) block <<= 9`. -/
def blockArgument (block : UInt32) : Sd UInt32 := fun _ m =>
  .ok (if m.card.cardType = sdCardSc then block <<< 9 else block, m)

/-- `block_read`: the result and the caller's buffer. -/
def blockRead (block : UInt32) (buffer : Sector) : Sd (Int × Sector) := do
  let block ← blockArgument block
  let c ← sdCommand cmd17 block 1
  if c ≠ 0 then pure (c.toNat, buffer)
  else
    let bound ← patience
    awaitToken bound
    let buffer ← receive 512 0 buffer
    -- read checksum bytes and dispose of
    skip 2
    pure (0, buffer)

/-- `block_write`. -/
def blockWrite (block : UInt32) (buffer : Sector) : Sd Int := do
  let block ← blockArgument block
  let c ← sdCommand cmd24 block 1
  if c ≠ 0 then pure c.toNat
  else
    -- make sure there's long enough from the command response before the data
    skip 2
    let _ ← spiXfer 0xFE
    transmit 512 0 buffer
    -- two dummy checksum bytes
    skip 2
    -- the card response, which nothing looks at
    skip 1
    let bound ← patience
    awaitIdle bound
    pure 0

/-! ## What the card says -/

/-- `block_get_volume_size`. -/
def blockGetVolumeSize : Sd UInt32 := fun _ m => .ok (m.card.size, m)

/-- `block_get_block_size`. -/
def blockGetBlockSize : Sd Int := pure 512

/-- `block_get_device_read_only`, on a board without a write protect switch. -/
def blockGetDeviceReadOnly : Sd Int := fun _ m => .ok (if m.card.readOnly ≠ 0 then 1 else 0, m)

/-- `block_sync`. -/
def blockSync : Sd Int := pure 0

/-- `block_halt`. -/
def blockHalt : Sd Int := pure 0

/-- `block_get_error`. -/
def blockGetError : Sd Int := fun _ m => .ok (m.card.error.toNat, m)

end Embext.BlockSd
