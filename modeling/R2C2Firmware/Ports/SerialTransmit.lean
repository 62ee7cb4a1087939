import R2C2Firmware.Ports.GcodeProcess
import R2C2Firmware.Ports.SerialFifo

/-!
# The transmit queue of the serial port

A transcription of the writing half of `serial.c` and of `BulkIn` and
`USBFrameHandler` in `usb.c`.

The program puts its bytes into a ring like that of the receiver, and the USB
interrupt fetches up to a packet of them at a time.  `fifo_put` runs with the
interrupt off, so an interrupt comes between two bytes.  When the ring is full
`_fifo_put` returns `FALSE`, which `BulkOut` tests and `serial_writechar` does
not.

## Main results

* `run_append` — what has been sent and what is in the ring is what was written,
  as long as the program is never 255 bytes ahead.
* `replies_sent_iff` — and only so long.
-/

namespace R2C2Firmware.Ports.SerialTransmit

open R2C2Firmware.Verified
open R2C2Firmware.Ports.Config R2C2Firmware.Ports.GcodeProcess
open R2C2Firmware.Ports.SerialFifo R2C2Firmware.Ports.Sermsg

/-! ## The port -/

/-- The port.  `written` and `sent` record the bytes passed to
`serial_writechar` and to `USBHwEPWrite`. -/
structure TxPort where
  txfifo : Fifo
  abBulkBuf : Nat → UInt8
  nakInt : Bool
  written : List UInt8
  sent : List UInt8

/-- The port after `USBSerial_Init`. -/
def TxPort.init (txbuf abBulkBuf : Nat → UInt8) : TxPort where
  txfifo := fifoInit txbuf
  abBulkBuf
  nakInt := true
  written := []
  sent := []

/-- `serial_writechar`; the result of `fifo_put` is not used. -/
def serialWritechar (p : TxPort) (data : UInt8) : TxPort :=
  { p with
    txfifo := (fifoPut p.txfifo data).2
    written := p.written ++ [data] }

/-- The loop of `BulkIn` with `fuel` turns to go: the number of bytes, the ring
and the buffer. -/
def getLoop : Nat → Nat → Fifo → (Nat → UInt8) → Nat × Fifo × (Nat → UInt8)
  | 0, i, f, abBulkBuf => (i, f, abBulkBuf)
  | fuel + 1, i, f, abBulkBuf =>
      match fifoGet f with
      | (some c, f) => getLoop fuel (i + 1) f (Function.update abBulkBuf i c)
      | (none, f) => (i, f, abBulkBuf)

/-- `BulkIn` -/
def bulkIn (p : TxPort) : TxPort :=
  if fifoAvail p.txfifo = 0 then { p with nakInt := false }
  else
    let (iLen, txfifo, abBulkBuf) := getLoop maxPacketSize 0 p.txfifo p.abBulkBuf
    { p with
      txfifo
      abBulkBuf
      sent :=
        if iLen > 0 then p.sent ++ (List.range iLen).map abBulkBuf
        else p.sent }

/-- `USBFrameHandler` -/
def usbFrameHandler (p : TxPort) : TxPort :=
  if fifoAvail p.txfifo > 0 then { p with nakInt := true } else p

/-- A byte of the program, or an interrupt. -/
inductive Event where
  | write (data : UInt8)
  | bulkIn
  | frame

def Event.run (p : TxPort) : Event → TxPort
  | .write data => serialWritechar p data
  | .bulkIn => SerialTransmit.bulkIn p
  | .frame => usbFrameHandler p

/-- The bytes of the program. -/
def writes (es : List Event) : List UInt8 :=
  es.filterMap fun
    | .write data => some data
    | _ => none

/-! ## The calls of the program -/

/-- A call that writes to the port.  As its index is a byte, `serial_writestr` does
not leave a string without a zero in the first 256 places: `turns` tells how far it
has come. -/
inductive Call (R : Type*) where
  | serialWritechar (data : UInt8)
  | serialWriteblock (data : List UInt8)
  | serialWritestr (data : List UInt8) (turns : Nat)
  | sersendf (format : String) (args : List (Arg R))

/-- The bytes a call passes to `serial_writechar`. -/
def Call.bytes {R : Type*} [Field R] [LinearOrder R] [FloorRing R] :
    Call R → List UInt8
  | .serialWritechar data => [data]
  | .serialWriteblock data => data
  | .serialWritestr data turns => (Sermsg.serialWritestr data turns 0).1
  | .sersendf format args => Sermsg.sersendf format args

/-! ## One event -/

theorem fifoPut_full {f : Fifo} (h : ¬ fifoAvail f < serialFifoSize - 1)
    (c : UInt8) : (fifoPut f c).2 = f := by
  have hlt := fifoAvail_lt f
  have hfull : (f.head + 1) % serialFifoSize = f.tail := by
    rw [next_eq f.head_lt, Ring.next_eq_iff f.head_lt f.tail_lt,
      ← Ring.length_contents serialFifoSize f.buf]
    rw [fifoAvail_eq] at h hlt
    rw [Fifo.contents] at h hlt
    omega
  unfold fifoPut
  dsimp only
  rw [if_pos hfull]

/-- The loop of `BulkIn` moves bytes from the ring to the buffer. -/
theorem getLoop_spec (fuel i : Nat) (f : Fifo) (abBulkBuf : Nat → UInt8) :
    (List.range (getLoop fuel i f abBulkBuf).1).map
          (getLoop fuel i f abBulkBuf).2.2 ++
        (getLoop fuel i f abBulkBuf).2.1.contents =
      (List.range i).map abBulkBuf ++ f.contents ∧
    fifoAvail (getLoop fuel i f abBulkBuf).2.1 = fifoAvail f - fuel := by
  induction fuel generalizing i f abBulkBuf with
  | zero => exact ⟨rfl, rfl⟩
  | succ fuel ih =>
      obtain ⟨hcontents, hnone⟩ := fifoGet_contents f
      rw [getLoop]
      rcases hget : fifoGet f with ⟨_ | c, f'⟩
      · rw [hget] at hcontents hnone
        dsimp only at hcontents hnone ⊢
        have hempty := hnone.1 rfl
        have hsame : f'.contents = f.contents := hcontents.symm
        refine ⟨by rw [hsame], ?_⟩
        rw [fifoAvail_eq, hsame, ← fifoAvail_eq]
        omega
      · rw [hget] at hcontents
        dsimp only at hcontents ⊢
        obtain ⟨hmoved, havail⟩ := ih (i + 1) f' (Function.update abBulkBuf i c)
        have hbuf : (List.range (i + 1)).map (Function.update abBulkBuf i c) =
            (List.range i).map abBulkBuf ++ [c] := by
          rw [List.range_succ, List.map_append, List.map_singleton,
            Function.update_self]
          congr 1
          refine List.map_congr_left fun j hj => ?_
          rw [Function.update_of_ne (List.mem_range.1 hj).ne]
        constructor
        · rw [hmoved, hbuf, hcontents, List.append_assoc]
          rfl
        · rw [havail, fifoAvail_eq f, hcontents, fifoAvail_eq f']
          simp only [Option.toList_some, List.length_append,
            List.length_singleton]
          omega

/-- What has left the program and is not lost. -/
def TxPort.kept (p : TxPort) : List UInt8 := p.sent ++ p.txfifo.contents

/-- `BulkIn` fetches a packet. -/
theorem bulkIn_spec (p : TxPort) :
    (bulkIn p).kept = p.kept ∧
      fifoAvail (bulkIn p).txfifo = fifoAvail p.txfifo - maxPacketSize ∧
      (bulkIn p).written = p.written := by
  unfold bulkIn
  split
  · next hempty =>
    refine ⟨rfl, ?_, rfl⟩
    show fifoAvail p.txfifo = _
    omega
  · obtain ⟨hmoved, havail⟩ :=
      getLoop_spec maxPacketSize 0 p.txfifo p.abBulkBuf
    refine ⟨?_, havail, rfl⟩
    generalize getLoop maxPacketSize 0 p.txfifo p.abBulkBuf = got at hmoved ⊢
    obtain ⟨iLen, f, buf⟩ := got
    have hmoved' : (List.range iLen).map buf ++ f.contents =
        p.txfifo.contents := hmoved
    show (if iLen > 0 then p.sent ++ (List.range iLen).map buf else p.sent) ++
      f.contents = p.sent ++ p.txfifo.contents
    rw [← hmoved']
    split
    · exact List.append_assoc _ _ _
    · next hzero =>
      rw [Nat.eq_zero_of_not_pos hzero]
      rfl

theorem frame_spec (p : TxPort) :
    (usbFrameHandler p).kept = p.kept ∧
      fifoAvail (usbFrameHandler p).txfifo = fifoAvail p.txfifo ∧
      (usbFrameHandler p).written = p.written := by
  unfold usbFrameHandler
  split
  · exact ⟨rfl, rfl, rfl⟩
  · exact ⟨rfl, rfl, rfl⟩

/-- A byte for which there is room is kept. -/
theorem write_room {p : TxPort} (h : fifoAvail p.txfifo < serialFifoSize - 1)
    (c : UInt8) :
    (serialWritechar p c).kept = p.kept ++ [c] ∧
      fifoAvail (serialWritechar p c).txfifo = fifoAvail p.txfifo + 1 := by
  have hput := (fifoPut_contents h c).2
  constructor
  · show p.sent ++ (fifoPut p.txfifo c).2.contents = _
    rw [hput, ← List.append_assoc]
    rfl
  · show fifoAvail (fifoPut p.txfifo c).2 = _
    rw [fifoAvail_eq, hput, List.length_append, ← fifoAvail_eq]
    rfl

/-- A byte for which there is none is lost. -/
theorem write_full {p : TxPort} (h : ¬ fifoAvail p.txfifo < serialFifoSize - 1)
    (c : UInt8) : (serialWritechar p c).kept = p.kept := by
  show p.sent ++ (fifoPut p.txfifo c).2.contents = _
  rw [fifoPut_full h c]
  rfl

/-! ## Runs -/

/-- The program, with `pending` bytes not yet fetched, is never so far ahead of
the interrupts that a byte finds the ring full. -/
def Paced : Nat → List Event → Prop
  | _, [] => True
  | pending, .write _ :: es =>
      pending < serialFifoSize - 1 ∧ Paced (pending + 1) es
  | pending, .bulkIn :: es => Paced (pending - maxPacketSize) es
  | pending, .frame :: es => Paced pending es

theorem run_written (es : List Event) (p : TxPort) :
    (es.foldl Event.run p).written = p.written ++ writes es := by
  induction es generalizing p with
  | nil => exact (List.append_nil _).symm
  | cons e es ih =>
      rw [List.foldl_cons, ih]
      cases e with
      | write c =>
          show p.written ++ [c] ++ writes es = p.written ++ (c :: writes es)
          rw [List.append_assoc]
          rfl
      | bulkIn => exact congrArg (· ++ writes es) (bulkIn_spec p).2.2
      | frame => exact congrArg (· ++ writes es) (frame_spec p).2.2

/-- No run keeps more than is written. -/
theorem run_kept_le (es : List Event) (p : TxPort) :
    (es.foldl Event.run p).kept.length ≤ p.kept.length + (writes es).length := by
  induction es generalizing p with
  | nil => exact le_rfl
  | cons e es ih =>
      rw [List.foldl_cons]
      refine (ih _).trans ?_
      cases e with
      | write c =>
          show (serialWritechar p c).kept.length + (writes es).length ≤
            p.kept.length + ((writes es).length + 1)
          by_cases hroom : fifoAvail p.txfifo < serialFifoSize - 1
          · rw [(write_room hroom c).1, List.length_append,
              List.length_singleton]
            omega
          · rw [write_full hroom c]
            omega
      | bulkIn =>
          show (bulkIn p).kept.length + (writes es).length ≤ _
          rw [(bulkIn_spec p).1]
          exact le_rfl
      | frame =>
          show (usbFrameHandler p).kept.length + (writes es).length ≤ _
          rw [(frame_spec p).1]
          exact le_rfl

/-- Everything written is kept exactly if no byte finds the ring full. -/
theorem run_append (es : List Event) (p : TxPort) :
    (es.foldl Event.run p).kept = p.kept ++ writes es ↔
      Paced (fifoAvail p.txfifo) es := by
  induction es generalizing p with
  | nil => exact iff_of_true (List.append_nil _).symm trivial
  | cons e es ih =>
      rw [List.foldl_cons]
      cases e with
      | write c =>
          have hcons : p.kept ++ writes (.write c :: es) =
              p.kept ++ [c] ++ writes es := by
            rw [List.append_assoc]
            rfl
          rw [hcons]
          show (es.foldl Event.run (serialWritechar p c)).kept = _ ↔ _ ∧ _
          by_cases hroom : fifoAvail p.txfifo < serialFifoSize - 1
          · obtain ⟨hkept, havail⟩ := write_room hroom c
            rw [← hkept, ih, havail, and_iff_right hroom]
          · -- one byte is missing, and nothing written later makes up for it
            refine iff_of_false (fun heq => ?_) fun h => hroom h.1
            have hle := run_kept_le es (serialWritechar p c)
            rw [heq, write_full hroom c, List.length_append,
              List.length_append, List.length_singleton] at hle
            omega
      | bulkIn =>
          obtain ⟨hkept, havail, -⟩ := bulkIn_spec p
          show (es.foldl Event.run (bulkIn p)).kept = p.kept ++ writes es ↔
            Paced (fifoAvail p.txfifo - maxPacketSize) es
          rw [← havail, ← ih, hkept]
      | frame =>
          obtain ⟨hkept, havail, -⟩ := frame_spec p
          show (es.foldl Event.run (usbFrameHandler p)).kept =
            p.kept ++ writes es ↔ Paced (fifoAvail p.txfifo) es
          rw [← havail, ← ih, hkept]

/-- From the start of the program everything written is kept exactly if the host takes
the packets in time. -/
theorem run_init (es : List Event) (txbuf abBulkBuf : Nat → UInt8) :
    (es.foldl Event.run (.init txbuf abBulkBuf)).kept = writes es ↔
      Paced 0 es := by
  have hinit : (TxPort.init txbuf abBulkBuf).kept = [] :=
    fifoInit_contents txbuf
  have hempty : fifoAvail (TxPort.init txbuf abBulkBuf).txfifo = 0 := by
    rw [fifoAvail_eq, show (TxPort.init txbuf abBulkBuf).txfifo.contents = []
      from fifoInit_contents txbuf]
    rfl
  have hrun := run_append es (.init txbuf abBulkBuf)
  rwa [hinit, List.nil_append, hempty] at hrun

/-- A run of some calls with interrupts between their bytes: what was passed to
`USBHwEPWrite` and what is in `txfifo` is what the calls passed to
`serial_writechar`, exactly if no byte found the ring full. -/
theorem replies_sent_iff {R : Type*} [Field R] [LinearOrder R] [FloorRing R]
    {calls : List (Call R)} {es : List Event}
    (h : writes es = calls.flatMap Call.bytes) (txbuf abBulkBuf : Nat → UInt8) :
    (es.foldl Event.run (.init txbuf abBulkBuf)).written =
        calls.flatMap Call.bytes ∧
      ((es.foldl Event.run (.init txbuf abBulkBuf)).sent ++
            (es.foldl Event.run (.init txbuf abBulkBuf)).txfifo.contents =
          calls.flatMap Call.bytes ↔
        Paced 0 es) := by
  refine ⟨(run_written es _).trans h, ?_⟩
  rw [← h]
  exact run_init es txbuf abBulkBuf

/-- A reply, with a packet fetched in between. -/
theorem replies_sent_ok :
    ([.write 111, .write 107, .bulkIn, .write 13, .write 10].foldl Event.run
        (.init (fun _ => 0) fun _ => 0)).sent ++
      ([.write 111, .write 107, .bulkIn, .write 13, .write 10].foldl Event.run
        (.init (fun _ => 0) fun _ => 0)).txfifo.contents = [111, 107, 13, 10] := by
  have hwrites : writes [.write 111, .write 107, .bulkIn, .write 13, .write 10] =
      List.flatMap Call.bytes [Call.serialWritestr (R := ℚ) (str "ok\r\n") 5] := by
    decide
  exact (replies_sent_iff hwrites _ _).2.2
    ⟨by decide, by decide, by decide, by decide, trivial⟩

/-! ## The reply to `M600` -/

/-- The call that one turn of the loop of `print_config` makes. -/
def printCall {R : Type*} (cfg : Configuration R) (item : ConfigItem R) :
    Option (Call R) :=
  match item.value with
  | .int read _ _ =>
      some (.sersendf "%s = %d\r\n"
        [.string (str item.name), .int (read cfg)])
  | .double read _ _ =>
      some (.sersendf "%s = %g\r\n"
        [.string (str item.name), .double (read cfg)])
  | .other => none

/-- The calls made for a line `M600`. -/
def m600Calls {R : Type*} [Field R] (cfg : Configuration R) : List (Call R) :=
  configLookup.filterMap (printCall cfg) ++ [.serialWritestr (str "ok\r\n") 5]

/-- The calls of `print_config` send the bytes that its model sends, for any items. -/
theorem printCall_bytes {R : Type} [Field R] [LinearOrder R] [FloorRing R]
    (cfg : Configuration R) (items : List (ConfigItem R)) :
    (items.filterMap (printCall cfg)).flatMap Call.bytes =
      items.flatMap (printItem cfg) := by
  induction items with
  | nil => rfl
  | cons item items ih =>
      rw [List.filterMap_cons, List.flatMap_cons, ← ih]
      unfold printCall printItem
      cases item.value with
      | int read set val => rfl
      | double read set val => rfl
      | other => rfl

theorem not_paced_writes {n : Nat} {bs : List UInt8}
    (h : serialFifoSize - 1 < n + bs.length) (hn : n ≤ serialFifoSize - 1) :
    ¬ Paced n (bs.map .write) := by
  induction bs generalizing n with
  | nil => exact absurd h (by simpa using hn)
  | cons b bs ih =>
      rintro ⟨hroom, hrest⟩
      rw [List.length_cons] at h
      exact ih (by omega) (by omega) hrest

theorem writes_map (bs : List UInt8) : writes (bs.map .write) = bs := by
  induction bs with
  | nil => rfl
  | cons b bs ih => exact congrArg (b :: ·) ih

/-- No interrupt comes while the configuration is printed, and the `ok` behind
it is lost with everything after the first 255 bytes. -/
theorem m600_loses_bytes :
    ∃ es : List Event,
      writes es = (m600Calls (.default : Configuration ℚ)).flatMap Call.bytes ∧
        (es.foldl Event.run (.init (fun _ => 0) fun _ => 0)).sent ++
            (es.foldl Event.run (.init (fun _ => 0) fun _ => 0)).txfifo.contents ≠
          (m600Calls (.default : Configuration ℚ)).flatMap Call.bytes := by
  have hwrites := writes_map
    ((m600Calls (.default : Configuration ℚ)).flatMap Call.bytes)
  refine ⟨_, hwrites, fun hkept => ?_⟩
  have hpaced := (run_init _ _ _).1 (hkept.trans hwrites.symm)
  exact not_paced_writes (by decide +kernel) (by decide) hpaced

end R2C2Firmware.Ports.SerialTransmit
