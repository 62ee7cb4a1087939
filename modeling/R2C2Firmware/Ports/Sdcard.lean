import R2C2Firmware.Verified.BusyWait
import R2C2Firmware.Ports.Sermsg

/-!
# The driver of the memory card

A transcription of `sdcard.c`.  The driver talks to the card byte by byte, and
waits for it with two timers.  While a byte is exchanged or a timer runs,
`MMC_disk_timerproc` may be called by the system tick: it counts the timers down
and clears the disk status.

What the card sends and when the ticks come is the list of interrupts of a
`World`.  A tick between two waits is served at the second of them; those behind
the last wait are left over when the call returns.  A loop that waits for the card
ends with the list, so a call that does not return is one that is still waiting.

The clock of the bus and the pins of its port are left out.
-/

namespace R2C2Firmware.Ports.Sdcard

open R2C2Firmware.Verified.BusyWait
open R2C2Firmware.Ports.Sermsg

/-! ## Commands -/

/-- `CMD0` -/
def cmd0 : UInt8 := 0x40

/-- `CMD1` -/
def cmd1 : UInt8 := 0x41

/-- `ACMD41` -/
def acmd41 : UInt8 := 0xe9

/-- `CMD8` -/
def cmd8 : UInt8 := 0x48

/-- `CMD9` -/
def cmd9 : UInt8 := 0x49

/-- `CMD10` -/
def cmd10 : UInt8 := 0x4a

/-- `CMD12` -/
def cmd12 : UInt8 := 0x4c

/-- `ACMD13` -/
def acmd13 : UInt8 := 0xcd

/-- `CMD16` -/
def cmd16 : UInt8 := 0x50

/-- `CMD17` -/
def cmd17 : UInt8 := 0x51

/-- `CMD18` -/
def cmd18 : UInt8 := 0x52

/-- `ACMD23` -/
def acmd23 : UInt8 := 0xd7

/-- `CMD24` -/
def cmd24 : UInt8 := 0x58

/-- `CMD25` -/
def cmd25 : UInt8 := 0x59

/-- `CMD55` -/
def cmd55 : UInt8 := 0x77

/-- `CMD58` -/
def cmd58 : UInt8 := 0x7a

/-! ## State -/

/-- `STA_NOINIT` -/
def staNoinit : UInt8 := 1

/-- `STA_NODISK` -/
def staNodisk : UInt8 := 2

/-- `STA_PROTECT` -/
def staProtect : UInt8 := 4

/-- `CT_MMC` -/
def ctMmc : UInt8 := 1

/-- `CT_SD1` -/
def ctSd1 : UInt8 := 2

/-- `CT_SD2` -/
def ctSd2 : UInt8 := 4

/-- `CT_BLOCK` -/
def ctBlock : UInt8 := 8

/-- The statics of `sdcard.c`, the bytes that were put on the bus, and the text
that was sent to the host. -/
structure Sd where
  stat : UInt8
  timer1 : UInt32
  timer2 : UInt32
  cardType : UInt8
  selected : Bool
  sent : List UInt8
  tx : List UInt8

/-- The statics at program start. -/
def Sd.boot : Sd where
  stat := staNoinit
  timer1 := 0
  timer2 := 0
  cardType := 0
  selected := false
  sent := []
  tx := []

/-- What can happen while the driver waits. -/
inductive BusEvent where
  | tick
  | byte (b : UInt8)
  deriving DecidableEq, Repr

/-- A timer of `MMC_disk_timerproc`; `n` is a `BYTE`. -/
def countDown (timer : UInt32) : UInt32 :=
  let n := timer.toUInt8
  if n ≠ 0 then (n - 1).toUInt32 else timer

/-- `MMC_disk_timerproc` -/
def mmcDiskTimerproc (s : Sd) : Sd :=
  { s with timer1 := countDown s.timer1, timer2 := countDown s.timer2, stat := 0 }

/-- A tick is served when it comes; a byte is there for who asks. -/
def serve : BusEvent → Sd → Sd
  | .tick, s => mmcDiskTimerproc s
  | .byte _, s => s

/-- The driver. -/
abbrev SdM (α : Type) := Prog Sd BusEvent α

/-! ## The bus -/

/-- `spi_rw` -/
def spiRw (out : UInt8) : SdM UInt8 := do
  modify fun s => { s with sent := s.sent ++ [out] }
  await serve fun
    | .byte b => some b
    | .tick => none

/-- `xmit_spi` -/
def xmitSpi (dat : UInt8) : SdM Unit := do
  let _ ← spiRw dat
  return ()

/-- `rcvr_spi` -/
def rcvrSpi : SdM UInt8 := spiRw 0xff

/-- `select_card` -/
def selectCard : SdM Unit := modify fun s => { s with selected := true }

/-- `de_select_card` -/
def deSelectCard : SdM Unit := modify fun s => { s with selected := false }

/-- `wait_ready` -/
def waitReady : SdM UInt8 := do
  modify fun s => { s with timer2 := 50 }
  let _ ← rcvrSpi
  doWhile rcvrSpi fun res s => res != 0xff && s.timer2 != 0

/-- `release_spi` -/
def releaseSpi : SdM Unit := do
  deSelectCard
  let _ ← rcvrSpi
  return ()

/-- `power_on` -/
def powerOn : SdM Unit := do
  modify fun s => { s with timer1 := 25 }
  spinUntil serve fun s => s.timer1 == 0
  deSelectCard

/-- `power_off` -/
def powerOff : SdM Unit := do
  let s ← get
  when (s.stat &&& staNoinit == 0) do
    selectCard
    let _ ← waitReady
    releaseSpi
  modify fun s => { s with stat := s.stat ||| staNoinit }

/-- `rcvr_datablock` -/
def rcvrDatablock (btr : Nat) : SdM (Option (List UInt8)) := do
  modify fun s => { s with timer1 := 10 }
  let token ← doWhile rcvrSpi fun token s => token == 0xff && s.timer1 != 0
  if token ≠ 0xfe then return none
  else
    let buff ← times btr rcvrSpi
    let _ ← times 2 rcvrSpi
    return some buff

/-- `xmit_datablock` -/
def xmitDatablock (buff : List UInt8) (token : UInt8) : SdM Bool := do
  let res ← waitReady
  if res ≠ 0xff then return false
  else
    xmitSpi token
    if token ≠ 0xfd then
      let _ ← buff.foldlM (fun _ b => xmitSpi b) ()
      xmitSpi 0xff
      xmitSpi 0xff
      let resp ← rcvrSpi
      return resp &&& 0x1f == 0x05
    else return true

/-- The response to a command: so many attempts. -/
def response : Nat → SdM UInt8
  | 0 => rcvrSpi
  | n + 1 => do
      let res ← rcvrSpi
      if res &&& 0x80 ≠ 0 ∧ n ≠ 0 then response n else return res

/-- A command of the card. -/
def sendPlain (cmd : UInt8) (arg : UInt32) : SdM UInt8 := do
  deSelectCard
  selectCard
  let ready ← waitReady
  if ready ≠ 0xff then return 0xff
  else
    xmitSpi cmd
    xmitSpi (arg >>> 24).toUInt8
    xmitSpi (arg >>> 16).toUInt8
    xmitSpi (arg >>> 8).toUInt8
    xmitSpi arg.toUInt8
    xmitSpi (if cmd = cmd8 then 0x87 else if cmd = cmd0 then 0x95 else 0x01)
    when (cmd == cmd12) do
      let _ ← rcvrSpi
      return ()
    response 10

/-- `send_cmd`.  The commands with the top bit set follow `CMD55`. -/
def sendCmd (cmd : UInt8) (arg : UInt32) : SdM UInt8 :=
  if cmd &&& 0x80 ≠ 0 then do
    let res ← sendPlain cmd55 0
    if res > 1 then return res else sendPlain (cmd &&& 0x7f) arg
  else sendPlain cmd arg

/-- `while (Timer1 && send_cmd(cmd, arg));` -/
def leaveIdle (cmd : UInt8) (arg : UInt32) : SdM Unit := do
  let _ ← doWhile
    (do
      let s ← get
      if s.timer1 = 0 then return false
      else
        let res ← sendCmd cmd arg
        return res != 0)
    fun again _ => again
  return ()

/-! ## The functions of the driver -/

/-- What kind of card answers; zero, if none does. -/
def probeCard : SdM UInt8 := do
  let idle ← sendCmd cmd0 0
  if idle ≠ 1 then return 0
  else
    modify fun s => { s with timer1 := 100 }
    let ifCond ← sendCmd cmd8 0x1aa
    if ifCond = 1 then
      let ocr ← times 4 rcvrSpi
      if ocr.getD 2 0 = 0x01 ∧ ocr.getD 3 0 = 0xaa then
        leaveIdle acmd41 0x40000000
        let s ← get
        if s.timer1 = 0 then return 0
        else
          let res ← sendCmd cmd58 0
          if res ≠ 0 then return 0
          else
            let ocr ← times 4 rcvrSpi
            return if ocr.getD 0 0 &&& 0x40 ≠ 0 then ctSd2 ||| ctBlock else ctSd2
      else return 0
    else
      let opCond ← sendCmd acmd41 0
      let sdsc := decide (opCond ≤ 1)
      leaveIdle (if sdsc then acmd41 else cmd1) 0
      let s ← get
      if s.timer1 = 0 then return 0
      else
        let res ← sendCmd cmd16 512
        if res ≠ 0 then return 0
        else return if sdsc then ctSd1 else ctMmc

/-- The status at the end of `MMC_disk_initialize`. -/
def markType (ty : UInt8) : SdM Unit :=
  if ty ≠ 0 then modify fun s => { s with stat := s.stat &&& ~~~staNoinit }
  else do
    powerOff
    modify fun s => { s with tx := s.tx ++ str "\nmemory card init failed\n" }

/-- The end of `MMC_disk_initialize`. -/
def enterType (ty : UInt8) : SdM UInt8 := do
  modify fun s => { s with cardType := ty }
  releaseSpi
  markType ty
  let s ← get
  return s.stat

/-- `MMC_disk_initialize` -/
def mmcDiskInitialize : SdM UInt8 := do
  let s ← get
  if s.stat &&& staNodisk ≠ 0 then return s.stat
  else
    powerOn
    let _ ← times 10 rcvrSpi
    let ty ← probeCard
    enterType ty

/-- `DRESULT` -/
inductive DResult where
  | ok | error | wrPrt | notRdy | parErr
  deriving DecidableEq, Repr

/-- The address of a sector on the card. -/
def address (s : Sd) (sector : UInt32) : UInt32 :=
  if s.cardType &&& ctBlock = 0 then sector * 512 else sector

/-- The blocks of a read: how many are missing, and what was read. -/
def readBlocks : Nat → SdM (Nat × List UInt8)
  | 0 => return (0, [])
  | n + 1 => do
      let block ← rcvrDatablock 512
      match block with
      | none => return (n + 1, [])
      | some data =>
          let (count, rest) ← readBlocks n
          return (count, data ++ rest)

/-- The blocks, if the card has accepted the command. -/
def readAnswered (res count : UInt8) : SdM (Nat × List UInt8) :=
  if res = 0 then readBlocks count.toNat else return (count.toNat, [])

/-- `MMC_disk_read`, with the bytes that were read. -/
def mmcDiskRead (sector : UInt32) (count : UInt8) :
    SdM (DResult × List UInt8) := do
  let s ← get
  if count = 0 then return (.parErr, [])
  else if s.stat &&& staNoinit ≠ 0 then return (.notRdy, [])
  else
    let res ← sendCmd (if count = 1 then cmd17 else cmd18) (address s sector)
    let out ← readAnswered res count
    when (count != 1 && res == 0) do
      let _ ← sendCmd cmd12 0
      return ()
    releaseSpi
    return (if out.1 = 0 then .ok else .error, out.2)

/-- The blocks of a write: how many are missing. -/
def writeBlocks (token : UInt8) : Nat → List UInt8 → SdM Nat
  | 0, _ => return 0
  | n + 1, buff => do
      let done ← xmitDatablock (buff.take 512) token
      if done then writeBlocks token n (buff.drop 512) else return n + 1

/-- A write of several blocks, and the token that ends it. -/
def writeThenStop (buff : List UInt8) (count : Nat) : SdM Nat := do
  let missing ← writeBlocks 0xfc count buff
  let stopped ← xmitDatablock [] 0xfd
  return if stopped then missing else 1

/-- The write of one block: whether it is missing. -/
def writeSingle (buff : List UInt8) (addr : UInt32) : SdM Nat := do
  let res ← sendCmd cmd24 addr
  if res = 0 then writeBlocks 0xfe 1 buff else return 1

/-- The write of several blocks: how many are missing. -/
def writeMultiple (buff : List UInt8) (addr : UInt32) (count cardType : UInt8) :
    SdM Nat := do
  when (cardType &&& (ctSd1 ||| ctSd2) != 0) do
    let _ ← sendCmd acmd23 count.toUInt32
    return ()
  let res ← sendCmd cmd25 addr
  if res = 0 then writeThenStop buff count.toNat else return count.toNat

/-- `MMC_disk_write` -/
def mmcDiskWrite (buff : List UInt8) (sector : UInt32) (count : UInt8) :
    SdM DResult := do
  let s ← get
  if count = 0 then return .parErr
  else if s.stat &&& staNoinit ≠ 0 then return .notRdy
  else if s.stat &&& staProtect ≠ 0 then return .wrPrt
  else
    let missing ←
      (if count = 1 then writeSingle buff (address s sector)
      else writeMultiple buff (address s sector) count s.cardType)
    releaseSpi
    return if missing = 0 then .ok else .error

/-- The codes of `MMC_disk_ioctl` with a case of their own. -/
inductive Ctrl where
  | sync | getSectorCount | getSectorSize | getBlockSize | power
  | getType | getCsd | getCid | getOcr | getSdstat
  | other
  deriving DecidableEq, Repr

/-- What `MMC_disk_ioctl` stores behind its pointer. -/
inductive Stored where
  | nothing
  | number (n : UInt32)
  | bytes (l : List UInt8)

/-- The number of sectors, by the CSD. -/
def sectorCount (csd : List UInt8) : UInt32 :=
  let b (i : Nat) : UInt8 := csd.getD i 0
  if b 0 >>> 6 = 1 then
    let csize : UInt16 := (b 9).toUInt16 + ((b 8).toUInt16 <<< 8) + 1
    csize.toUInt32 <<< 10
  else
    let mult : UInt8 := (b 10 >>> 7) + ((b 9 &&& (3 : UInt8)) <<< 1)
    let n : UInt8 := (b 5 &&& (15 : UInt8)) + mult + 2
    let csize : UInt16 :=
      (b 8 >>> 6).toUInt16 + ((b 7).toUInt16 <<< 2) +
        ((b 6 &&& (3 : UInt8)).toUInt16 <<< 10) + 1
    csize.toUInt32 <<< (n - 9).toUInt32

/-- The erase block of a card of version 1, by the CSD. -/
def eraseBlock (cardType : UInt8) (csd : List UInt8) : UInt32 :=
  let b (i : Nat) : UInt32 := (csd.getD i 0).toUInt32
  if cardType &&& ctSd1 ≠ 0 then
    let size : UInt32 := ((b 10 &&& (63 : UInt32)) <<< 1) + (b 11 >>> 7) + 1
    size <<< ((b 13 >>> 6) - 1)
  else
    let grp : UInt32 := ((b 10 &&& (124 : UInt32)) >>> 2) + 1
    let mult : UInt32 := ((b 11 &&& (3 : UInt32)) <<< 3) + (b 11 >>> 5) + 1
    grp * mult

/-- A register of the card as a data block. -/
def readRegister (cmd : UInt8) (btr : Nat) : SdM (Option (List UInt8)) := do
  let res ← sendCmd cmd 0
  if res ≠ 0 then return none
  else
    when (cmd == acmd13) do
      let _ ← rcvrSpi
      return ()
    rcvrDatablock btr

/-- A register that is stored as it is. -/
def storeRegister (cmd : UInt8) (btr : Nat) : SdM (DResult × Stored) := do
  let block ← readRegister cmd btr
  match block with
  | some data => return (.ok, .bytes data)
  | none => return (.error, .nothing)

/-- The cases of `MMC_disk_ioctl` for a card that is ready. -/
def ioctlReady (ctrl : Ctrl) (cardType : UInt8) : SdM (DResult × Stored) :=
  match ctrl with
  | .sync => do
      selectCard
      let res ← waitReady
      return (if res = 0xff then .ok else .error, .nothing)
  | .getSectorCount => do
      let block ← readRegister cmd9 16
      match block with
      | some csd => return (.ok, .number (sectorCount csd))
      | none => return (.error, .nothing)
  | .getSectorSize => return (.ok, .number 512)
  | .getBlockSize =>
      if cardType &&& ctSd2 ≠ 0 then do
        let block ← readRegister acmd13 16
        match block with
        | some status =>
            let _ ← times 48 rcvrSpi
            return (.ok, .number ((16 : UInt32) <<< (status.getD 10 0 >>> 4).toUInt32))
        | none => return (.error, .nothing)
      else do
        let block ← readRegister cmd9 16
        match block with
        | some csd => return (.ok, .number (eraseBlock cardType csd))
        | none => return (.error, .nothing)
  | .getType => return (.ok, .bytes [cardType])
  | .getCsd => storeRegister cmd9 16
  | .getCid => storeRegister cmd10 16
  | .getOcr => do
      let res ← sendCmd cmd58 0
      if res ≠ 0 then return (.error, .nothing)
      else
        let ocr ← times 4 rcvrSpi
        return (.ok, .bytes ocr)
  | .getSdstat => storeRegister acmd13 64
  | .power | .other => return (.parErr, .nothing)

/-- `MMC_disk_ioctl`, with the byte its pointer points at. -/
def mmcDiskIoctl (ctrl : Ctrl) (ptr : UInt8) : SdM (DResult × Stored) := do
  let s ← get
  if ctrl = .power then
    return (if ptr ≤ 2 then .ok else .parErr, .nothing)
  else if s.stat &&& staNoinit ≠ 0 then return (.notRdy, .nothing)
  else
    let out ← ioctlReady ctrl s.cardType
    releaseSpi
    return out

end R2C2Firmware.Ports.Sdcard
