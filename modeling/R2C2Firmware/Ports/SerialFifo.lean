import R2C2Firmware.Verified.Ring

/-!
# The receive queue of the serial port

A transcription of `serial_fifo.c`, of `BulkOut` in `usb.c` and of the reading
half of `serial.c`.

The USB interrupt puts the bytes of a packet into a ring of 256 slots; the main
loop takes them out one by one, each after it has seen that there is one.  The
functions of the ring that the main loop calls run with the USB interrupt off,
so an interrupt comes between two calls and not inside one.  `BulkOut` leaves a
packet in the hardware unless the largest one would fit.

A ring is a structure with the ranges of its two indices as fields.

## Main results

* `bulkOut_contents` — a packet is left where it is or taken up as a whole.
* `received_eq` — what has been read is what has been popped and what is in the
  ring.
* `nothing_lost` — the same, in the words of the main loop.
-/

namespace R2C2Firmware.Ports.SerialFifo

open R2C2Firmware.Verified

/-! ## The ring -/

/-- `SERIAL_FIFO_SIZE` -/
def serialFifoSize : Nat := 256

/-- `fifo_t`, with its indices in range. -/
structure Fifo where
  head : Nat
  tail : Nat
  buf : Nat → UInt8
  head_lt : head < serialFifoSize
  tail_lt : tail < serialFifoSize

/-- `fifo_init` -/
def fifoInit (buf : Nat → UInt8) : Fifo where
  head := 0
  tail := 0
  buf
  head_lt := by decide
  tail_lt := by decide

theorem mod_size_lt (i : Nat) : i % serialFifoSize < serialFifoSize :=
  Nat.mod_lt i (by decide)

/-- `_fifo_put` -/
def fifoPut (f : Fifo) (c : UInt8) : Bool × Fifo :=
  let next := (f.head + 1) % serialFifoSize
  if next = f.tail then (false, f)
  else
    (true,
      { f with
        buf := Function.update f.buf f.head c
        head := next
        head_lt := mod_size_lt _ })

/-- `_fifo_get`: the byte, unless there is none. -/
def fifoGet (f : Fifo) : Option UInt8 × Fifo :=
  if f.head = f.tail then (none, f)
  else
    let next := (f.tail + 1) % serialFifoSize
    (some (f.buf f.tail), { f with tail := next, tail_lt := mod_size_lt _ })

/-- `_fifo_avail` -/
def fifoAvail (f : Fifo) : Nat :=
  (serialFifoSize + f.head - f.tail) % serialFifoSize

/-- `_fifo_free` -/
def fifoFree (f : Fifo) : Nat := serialFifoSize - 1 - fifoAvail f

/-- The bytes in the ring, oldest first. -/
def Fifo.contents (f : Fifo) : List UInt8 :=
  Ring.contents serialFifoSize f.buf f.head f.tail

theorem next_eq {i : Nat} (h : i < serialFifoSize) :
    (i + 1) % serialFifoSize = Ring.next serialFifoSize i := by
  unfold Ring.next
  split
  · next hlast => rw [hlast, Nat.mod_self]
  · exact Nat.mod_eq_of_lt (by omega)

theorem fifoAvail_eq (f : Fifo) : fifoAvail f = f.contents.length := by
  rw [Fifo.contents, Ring.length_contents, Ring.count, fifoAvail,
    Nat.add_comm serialFifoSize]

theorem fifoAvail_lt (f : Fifo) : fifoAvail f < serialFifoSize := mod_size_lt _

theorem fifoInit_contents (buf : Nat → UInt8) :
    (fifoInit buf).contents = [] :=
  (Ring.contents_eq_nil (fifoInit buf).head_lt (fifoInit buf).tail_lt).2 rfl

/-- A byte for which there is room is appended. -/
theorem fifoPut_contents {f : Fifo} (h : fifoAvail f < serialFifoSize - 1)
    (c : UInt8) :
    (fifoPut f c).1 = true ∧
      (fifoPut f c).2.contents = f.contents ++ [c] := by
  have hroom : Ring.next serialFifoSize f.head ≠ f.tail := by
    intro hfull
    have hcount := (Ring.next_eq_iff f.head_lt f.tail_lt).1 hfull
    rw [fifoAvail_eq, Fifo.contents, Ring.length_contents] at h
    omega
  have hnext := next_eq f.head_lt
  unfold fifoPut
  dsimp only
  rw [if_neg (by rw [hnext]; exact hroom)]
  refine ⟨rfl, ?_⟩
  show Ring.contents serialFifoSize (Function.update f.buf f.head c)
    ((f.head + 1) % serialFifoSize) f.tail = _
  rw [hnext]
  exact Ring.contents_push f.head_lt f.tail_lt hroom c

/-- The oldest byte is taken out. -/
theorem fifoGet_contents (f : Fifo) :
    f.contents = (fifoGet f).1.toList ++ (fifoGet f).2.contents ∧
      ((fifoGet f).1 = none ↔ fifoAvail f = 0) := by
  have hnil : f.contents = [] ↔ f.head = f.tail :=
    Ring.contents_eq_nil f.head_lt f.tail_lt
  rw [fifoAvail_eq, List.length_eq_zero_iff]
  unfold fifoGet
  by_cases hempty : f.head = f.tail
  · rw [if_pos hempty]
    exact ⟨rfl, iff_of_true rfl (hnil.2 hempty)⟩
  · rw [if_neg hempty]
    dsimp only
    have hhead : f.contents.head? = some (f.buf f.tail) :=
      Ring.head?_contents f.head_lt f.tail_lt hempty
    have hpop : Ring.contents serialFifoSize f.buf f.head
        (Ring.next serialFifoSize f.tail) = f.contents.tail :=
      Ring.contents_pop f.head_lt f.tail_lt hempty
    refine ⟨?_, iff_of_false (by simp) fun h => hempty (hnil.1 h)⟩
    show f.contents = f.buf f.tail :: Ring.contents serialFifoSize f.buf f.head
      ((f.tail + 1) % serialFifoSize)
    rw [next_eq f.tail_lt, hpop]
    exact (List.cons_head?_tail hhead).symm

/-! ## The USB interrupt -/

/-- `MAX_PACKET_SIZE`, and the size of `abBulkBuf`. -/
def maxPacketSize : Nat := 64

/-- `USBHwEPRead`: the number of bytes in the packet, or -1, and the buffer. -/
def usbHwEPRead (packet : Option (List UInt8)) (abBulkBuf : Nat → UInt8) :
    Int × (Nat → UInt8) :=
  match packet with
  | none => (-1, abBulkBuf)
  | some bytes =>
      (bytes.length, fun i =>
        if i < maxPacketSize then bytes.getD i (abBulkBuf i) else abBulkBuf i)

/-- The loop of `BulkOut` over the indices given; the first component tells that
`ASSERT(FALSE)` was reached. -/
def putLoop (abBulkBuf : Nat → UInt8) : List Nat → Fifo → Bool × Fifo
  | [], f => (false, f)
  | i :: is, f =>
      match fifoPut f (abBulkBuf i) with
      | (true, f) => putLoop abBulkBuf is f
      | (false, f) => (true, f)

/-- The port: the ring, the buffer of the interrupt, and whether the main loop
has seen a byte that it has not popped yet.  `received`, `popped` and
`overflowed` record what happened. -/
structure Port where
  rxfifo : Fifo
  abBulkBuf : Nat → UInt8
  seen : Bool
  received : List UInt8
  popped : List UInt8
  overflowed : Bool

/-- `BulkOut`, with the packet that waits in the hardware. -/
def bulkOut (packet : Option (List UInt8)) (p : Port) : Port :=
  if fifoFree p.rxfifo < maxPacketSize then p
  else
    let read := usbHwEPRead packet p.abBulkBuf
    let put := putLoop read.2 (List.range read.1.toNat) p.rxfifo
    { p with
      rxfifo := put.2
      abBulkBuf := read.2
      received := p.received ++ packet.getD []
      overflowed := p.overflowed || put.1 }

/-- The loop of `BulkOut`, where there is room for everything. -/
theorem putLoop_contents (abBulkBuf : Nat → UInt8) {is : List Nat} {f : Fifo}
    (h : fifoAvail f + is.length ≤ serialFifoSize - 1) :
    (putLoop abBulkBuf is f).1 = false ∧
      (putLoop abBulkBuf is f).2.contents =
        f.contents ++ is.map abBulkBuf := by
  induction is generalizing f with
  | nil => exact ⟨rfl, (List.append_nil _).symm⟩
  | cons i is ih =>
      rw [List.length_cons] at h
      obtain ⟨hput, hcontents⟩ := fifoPut_contents (f := f) (by omega)
        (abBulkBuf i)
      rcases hstep : fifoPut f (abBulkBuf i) with ⟨ok, f'⟩
      rw [hstep] at hput hcontents
      dsimp only at hput hcontents
      subst hput
      have hroom : fifoAvail f' + is.length ≤ serialFifoSize - 1 := by
        rw [fifoAvail_eq, hcontents, List.length_append, List.length_singleton,
          ← fifoAvail_eq]
        omega
      obtain ⟨hrest, htail⟩ := ih hroom
      rw [putLoop, hstep]
      refine ⟨hrest, htail.trans ?_⟩
      rw [hcontents, List.append_assoc]
      rfl

theorem usbHwEPRead_bytes {packet : Option (List UInt8)}
    (h : ∀ bytes ∈ packet, bytes.length ≤ maxPacketSize)
    (abBulkBuf : Nat → UInt8) :
    (List.range (usbHwEPRead packet abBulkBuf).1.toNat).map
      (usbHwEPRead packet abBulkBuf).2 = packet.getD [] := by
  cases packet with
  | none => rfl
  | some bytes =>
      have hlen := h bytes rfl
      refine List.ext_getElem (by simp [usbHwEPRead]) fun i hi hi' => ?_
      have hbound : i < bytes.length := hi'
      rw [List.getElem_map, List.getElem_range]
      show (if i < maxPacketSize then bytes.getD i _ else _) = _
      rw [if_pos (by omega), List.getD_eq_getElem?_getD,
        List.getElem?_eq_getElem hbound]
      rfl

/-- A packet is left where it is or taken up as a whole. -/
theorem bulkOut_contents {packet : Option (List UInt8)} {p : Port}
    (h : ∀ bytes ∈ packet, bytes.length ≤ maxPacketSize) :
    bulkOut packet p = p ∨
      (bulkOut packet p).rxfifo.contents =
          p.rxfifo.contents ++ packet.getD [] ∧
        (bulkOut packet p).received = p.received ++ packet.getD [] ∧
        (bulkOut packet p).overflowed = p.overflowed := by
  unfold bulkOut
  split
  · exact .inl rfl
  · next hfree =>
    have hlen : (usbHwEPRead packet p.abBulkBuf).1.toNat ≤ maxPacketSize := by
      cases packet with
      | none => exact Nat.zero_le _
      | some bytes => exact h bytes rfl
    have hroom : fifoAvail p.rxfifo +
        (List.range (usbHwEPRead packet p.abBulkBuf).1.toNat).length ≤
        serialFifoSize - 1 := by
      have havail := fifoAvail_lt p.rxfifo
      rw [List.length_range]
      unfold fifoFree at hfree
      omega
    obtain ⟨hassert, hcontents⟩ :=
      putLoop_contents (usbHwEPRead packet p.abBulkBuf).2 hroom
    rw [usbHwEPRead_bytes h] at hcontents
    refine .inr ⟨hcontents, rfl, ?_⟩
    show (p.overflowed || _) = _
    rw [hassert, Bool.or_false]

/-! ## The main loop -/

/-- `serial_rxchars` -/
def serialRxchars (p : Port) : Nat := fifoAvail p.rxfifo

/-- `serial_popchar`: zero, if there is no byte. -/
def serialPopchar (p : Port) : UInt8 × Port :=
  let (c, rxfifo) := fifoGet p.rxfifo
  (c.getD 0, { p with rxfifo })

/-- An interrupt, or a call of the main loop.  It pops a byte only after it has
seen that there is one. -/
inductive PortStep : Port → Port → Prop where
  | bulkOut {packet : Option (List UInt8)} (p : Port) :
      (∀ bytes ∈ packet, bytes.length ≤ maxPacketSize) →
      PortStep p (bulkOut packet p)
  | rxchars (p : Port) : PortStep p { p with seen := serialRxchars p != 0 }
  | popchar {p : Port} : p.seen = true →
      PortStep p
        { (serialPopchar p).2 with
          seen := false
          popped := p.popped ++ [(serialPopchar p).1] }

/-- The port after `USBSerial_Init`. -/
def Port.init (rxbuf abBulkBuf : Nat → UInt8) : Port where
  rxfifo := fifoInit rxbuf
  abBulkBuf
  seen := false
  received := []
  popped := []
  overflowed := false

/-- The ports that can be reached. -/
inductive Port.Reachable : Port → Prop where
  | init (rxbuf abBulkBuf : Nat → UInt8) : Reachable (.init rxbuf abBulkBuf)
  | step {p p' : Port} : Reachable p → PortStep p p' → Reachable p'

/-- Nothing is lost, and a byte that has been seen is there. -/
structure PortInv (p : Port) : Prop where
  received : p.received = p.popped ++ p.rxfifo.contents
  overflowed : p.overflowed = false
  seen : p.seen = true → serialRxchars p ≠ 0

theorem portStep_inv {p p' : Port} (h : PortInv p) (hs : PortStep p p') :
    PortInv p' := by
  cases hs with
  | @bulkOut packet _ hlen =>
      rcases bulkOut_contents (p := p) hlen with
        hsame | ⟨hcontents, hreceived, hover⟩
      · rw [hsame]
        exact h
      · have hkeep : (bulkOut packet p).popped = p.popped ∧
            (bulkOut packet p).seen = p.seen := by
          unfold bulkOut
          split
          · exact ⟨rfl, rfl⟩
          · exact ⟨rfl, rfl⟩
        refine ⟨?_, hover.trans h.overflowed, fun hseen => ?_⟩
        · rw [hreceived, hcontents, hkeep.1, h.received, List.append_assoc]
        · have hsome := h.seen (hkeep.2.symm.trans hseen)
          rw [serialRxchars, fifoAvail_eq] at hsome
          rw [serialRxchars, fifoAvail_eq, hcontents, List.length_append]
          omega
  | rxchars =>
      refine ⟨h.received, h.overflowed, fun hseen => ?_⟩
      have hne : (serialRxchars p != 0) = true := hseen
      exact bne_iff_ne.1 hne
  | popchar hseen =>
      obtain ⟨hcontents, hnone⟩ := fifoGet_contents p.rxfifo
      have hsome := h.seen hseen
      rcases hget : fifoGet p.rxfifo with ⟨_ | c, f⟩
      · rw [hget] at hnone
        exact absurd (hnone.1 rfl) hsome
      · rw [hget] at hcontents
        have hpop : serialPopchar p = (c, { p with rxfifo := f }) := by
          rw [serialPopchar, hget]
          rfl
        rw [hpop]
        refine ⟨?_, h.overflowed, fun hfalse => absurd hfalse (by simp)⟩
        show p.received = p.popped ++ [c] ++ f.contents
        rw [h.received, hcontents, List.append_assoc]
        rfl

/-- What has been read is what has been popped and what is in the ring. -/
theorem received_eq {p : Port} (h : p.Reachable) : PortInv p := by
  induction h with
  | init rxbuf abBulkBuf =>
      refine ⟨?_, rfl, fun hfalse => absurd hfalse (by simp [Port.init])⟩
      show [] = [] ++ (fifoInit rxbuf).contents
      rw [fifoInit_contents]
      rfl
  | step _ hs ih => exact portStep_inv ih hs

/-- The bytes popped are the first ones of those read, the interrupt never finds
the ring full, and `serial_rxchars` counts the others. -/
theorem nothing_lost {p : Port} (h : p.Reachable) :
    p.popped <+: p.received ∧ p.overflowed = false ∧
      p.popped.length + serialRxchars p = p.received.length ∧
      serialRxchars p ≤ serialFifoSize - 1 := by
  have hinv := received_eq h
  refine ⟨⟨_, hinv.received.symm⟩, hinv.overflowed, ?_, ?_⟩
  · rw [hinv.received, List.length_append, serialRxchars, fifoAvail_eq]
  · have hlt := fifoAvail_lt p.rxfifo
    rw [serialRxchars]
    omega

/-- A packet of two bytes has arrived, and one has been popped. -/
def halfRead : Port :=
  let p := bulkOut (some [71, 49]) (.init (fun _ => 0) fun _ => 0)
  let p := { p with seen := serialRxchars p != 0 }
  { (serialPopchar p).2 with
    seen := false
    popped := p.popped ++ [(serialPopchar p).1] }

/-- A packet of two bytes of which one has been read: the other one is in the ring. -/
theorem nothing_lost_halfRead :
    halfRead.received = [71, 49] ∧ halfRead.popped = [71] ∧
      halfRead.popped.length + serialRxchars halfRead = 2 := by
  have hpacket : Port.Reachable
      (bulkOut (some [71, 49]) (.init (fun _ => 0) fun _ => 0)) :=
    .step (.init _ _) (.bulkOut _ fun bytes h => by
      rw [← Option.some.inj h]
      decide)
  have hreach : halfRead.Reachable :=
    .step (.step hpacket (.rxchars _)) (.popchar (by decide))
  exact ⟨by decide, by decide, (nothing_lost hreach).2.2.1⟩

end R2C2Firmware.Ports.SerialFifo
