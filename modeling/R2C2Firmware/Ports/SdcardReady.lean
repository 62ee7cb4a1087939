import R2C2Firmware.Ports.Sdcard

/-!
# When the card counts as ready

`MMC_disk_initialize` clears `STA_NOINIT` when it has found a card and sets it
when it has not.  `MMC_disk_timerproc` clears the whole status, every tenth of a
second.  So the status says no more than whether a tick has come since the last
failure.

A run of the driver is a sequence of calls that return, with ticks inside them
and between them.  A tick that comes while a call waits for the card or for a
timer does no harm: `MMC_disk_initialize` sets the status behind its last wait,
and the others do not wait unless the card is ready.  A tick behind the last wait
of a call is like one between two calls: it clears the status that the call
leaves.  One before the first wait is like one before the call.

## Main results

* `mmcDiskInitialize_status` — what an initialisation leaves.
* `call_keeps` — what the other calls leave.
* `ready_iff` — when the status can be believed, in a run.
* `ready_after_tick` — a tick after the start.
-/

namespace R2C2Firmware.Ports.Sdcard

open R2C2Firmware.Verified.BusyWait

/-! ## The calls -/

/-- The type of the card stays; the status stays, or has been cleared. -/
structure Waits (s s' : Sd) : Prop where
  cardType : s'.cardType = s.cardType
  stat : s'.stat = s.stat ∨ s'.stat = 0

instance waits_isPreorder : IsPreorder Sd Waits where
  refl _ := ⟨rfl, .inl rfl⟩
  trans _ _ _ h h' :=
    ⟨h'.cardType.trans h.cardType, by
      rcases h'.stat with heq | hzero
      · rw [heq]
        exact h.stat
      · exact .inr hzero⟩

/-- An event of the bus, a timer tick included, does to the card only what the waits of
a call allow. -/
theorem serve_waits (e : BusEvent) (s : Sd) : Waits s (serve e s) := by
  cases e with
  | tick => exact ⟨rfl, .inr rfl⟩
  | byte b => exact ⟨rfl, .inl rfl⟩

/-- A change of anything but the status and the card type is allowed in a wait. -/
theorem modify_waits {f : Sd → Sd} (hstat : ∀ s, (f s).stat = s.stat)
    (htype : ∀ s, (f s).cardType = s.cardType) :
    Moves Waits (modify f : SdM Unit) :=
  Moves.modify fun s => ⟨htype s, .inl (hstat s)⟩

theorem spiRw_waits (out : UInt8) : Moves Waits (spiRw out) :=
  (modify_waits (fun _ => by rfl) fun _ => by rfl).bind fun _ =>
    Moves.await serve_waits _

theorem rcvrSpi_waits : Moves Waits rcvrSpi := spiRw_waits _

theorem xmitSpi_waits (dat : UInt8) : Moves Waits (xmitSpi dat) :=
  (spiRw_waits dat).bind fun _ => Moves.pure ()

theorem selectCard_waits : Moves Waits selectCard :=
  modify_waits (fun _ => rfl) fun _ => rfl

theorem deSelectCard_waits : Moves Waits deSelectCard :=
  modify_waits (fun _ => rfl) fun _ => rfl

theorem waitReady_waits : Moves Waits waitReady :=
  (modify_waits (fun _ => by rfl) fun _ => by rfl).bind fun _ =>
    rcvrSpi_waits.bind fun _ => rcvrSpi_waits.doWhile _

theorem releaseSpi_waits : Moves Waits releaseSpi :=
  deSelectCard_waits.bind fun _ => rcvrSpi_waits.bind fun _ => Moves.pure ()

theorem rcvrDatablock_waits (btr : Nat) : Moves Waits (rcvrDatablock btr) := by
  refine (modify_waits (fun _ => by rfl) fun _ => by rfl).bind fun _ =>
    (rcvrSpi_waits.doWhile _).bind fun token => ?_
  exact Moves.ite (fun _ => Moves.pure _) fun _ =>
    (rcvrSpi_waits.times btr).bind fun _ =>
      (rcvrSpi_waits.times 2).bind fun _ => Moves.pure _

theorem xmitAll_waits (buff : List UInt8) :
    Moves Waits (buff.foldlM (fun _ b => xmitSpi b) () : SdM Unit) := by
  induction buff with
  | nil => exact Moves.pure ()
  | cons b buff ih => exact (xmitSpi_waits b).bind fun _ => ih

theorem xmitDatablock_waits (buff : List UInt8) (token : UInt8) :
    Moves Waits (xmitDatablock buff token) := by
  refine waitReady_waits.bind fun res => Moves.ite (fun _ => Moves.pure _)
    fun _ => (xmitSpi_waits token).bind fun _ => Moves.ite (fun _ => ?_)
      fun _ => Moves.pure _
  exact (xmitAll_waits buff).bind fun _ => (xmitSpi_waits _).bind fun _ =>
    (xmitSpi_waits _).bind fun _ => rcvrSpi_waits.bind fun _ => Moves.pure _

theorem response_waits (n : Nat) : Moves Waits (response n) := by
  induction n with
  | zero => exact rcvrSpi_waits
  | succ n ih =>
      exact rcvrSpi_waits.bind fun res =>
        Moves.ite (fun _ => ih) fun _ => Moves.pure _

theorem sendPlain_waits (cmd : UInt8) (arg : UInt32) :
    Moves Waits (sendPlain cmd arg) := by
  refine deSelectCard_waits.bind fun _ => selectCard_waits.bind fun _ =>
    waitReady_waits.bind fun ready => Moves.ite (fun _ => Moves.pure _)
      fun _ => ?_
  refine (xmitSpi_waits _).bind fun _ => (xmitSpi_waits _).bind fun _ =>
    (xmitSpi_waits _).bind fun _ => (xmitSpi_waits _).bind fun _ =>
    (xmitSpi_waits _).bind fun _ => (xmitSpi_waits _).bind fun _ => ?_
  exact (Moves.when fun _ => rcvrSpi_waits.bind fun _ => Moves.pure ()).bind
    fun _ => response_waits 10

/-- The repeated command and the application command in front of it, too, only wait for
the card. -/
theorem sendCmd_waits (cmd : UInt8) (arg : UInt32) :
    Moves Waits (sendCmd cmd arg) :=
  Moves.ite
    (fun _ => (sendPlain_waits _ _).bind fun _ =>
      Moves.ite (fun _ => Moves.pure _) fun _ => sendPlain_waits _ _)
    fun _ => sendPlain_waits cmd arg

/-- Leaving the idle state is a loop of commands, each of which only waits for the card.
-/
theorem leaveIdle_waits (cmd : UInt8) (arg : UInt32) :
    Moves Waits (leaveIdle cmd arg) := by
  refine (Moves.doWhile (Moves.get.bind fun s => ?_) _).bind fun _ =>
    Moves.pure ()
  exact Moves.ite (fun _ => Moves.pure _) fun _ =>
    (sendCmd_waits cmd arg).bind fun _ => Moves.pure _

/-- Reading blocks does not touch the status of the disk, apart from the ticks served
meanwhile. -/
theorem readBlocks_waits (n : Nat) : Moves Waits (readBlocks n) := by
  induction n with
  | zero => exact Moves.pure _
  | succ n ih =>
      refine (rcvrDatablock_waits 512).bind fun block => ?_
      cases block with
      | none => exact Moves.pure _
      | some data => exact ih.bind fun _ => Moves.pure _

/-- Writing blocks does not touch the status of the disk, apart from the ticks served
meanwhile. -/
theorem writeBlocks_waits (token : UInt8) (n : Nat) (buff : List UInt8) :
    Moves Waits (writeBlocks token n buff) := by
  induction n generalizing buff with
  | zero => exact Moves.pure _
  | succ n ih =>
      exact (xmitDatablock_waits _ _).bind fun _ =>
        Moves.ite (fun _ => ih _) fun _ => Moves.pure _

/-- A read returns with the status it was called with, apart from the ticks served
meanwhile. -/
theorem mmcDiskRead_waits (sector : UInt32) (count : UInt8) :
    Moves Waits (mmcDiskRead sector count) := by
  refine Moves.get.bind fun s => Moves.ite (fun _ => Moves.pure _) fun _ =>
    Moves.ite (fun _ => Moves.pure _) fun _ => ?_
  refine (sendCmd_waits _ _).bind fun res =>
    Moves.bind (Moves.ite (fun _ => readBlocks_waits _) fun _ => Moves.pure _)
      fun out => ?_
  exact (Moves.when fun _ => (sendCmd_waits _ _).bind fun _ =>
    Moves.pure ()).bind fun _ => releaseSpi_waits.bind fun _ => Moves.pure _

/-- A write returns with the status it was called with, apart from the ticks served
meanwhile. -/
theorem mmcDiskWrite_waits (buff : List UInt8) (sector : UInt32)
    (count : UInt8) : Moves Waits (mmcDiskWrite buff sector count) := by
  refine Moves.get.bind fun s => Moves.ite (fun _ => Moves.pure _) fun _ =>
    Moves.ite (fun _ => Moves.pure _) fun _ =>
    Moves.ite (fun _ => Moves.pure _) fun _ => Moves.bind ?_ fun missing =>
      releaseSpi_waits.bind fun _ => Moves.pure _
  refine Moves.ite (fun _ => (sendCmd_waits _ _).bind fun res => ?_) fun _ => ?_
  · exact Moves.ite (fun _ => writeBlocks_waits _ _ _) fun _ => Moves.pure _
  · refine (Moves.when fun _ =>
      (sendCmd_waits _ _).bind fun _ => Moves.pure ()).bind fun _ =>
      (sendCmd_waits _ _).bind fun res => Moves.ite (fun _ => ?_) fun _ =>
        Moves.pure _
    exact (writeBlocks_waits _ _ _).bind fun _ =>
      (xmitDatablock_waits _ _).bind fun _ => Moves.pure _

theorem readRegister_waits (cmd : UInt8) (btr : Nat) :
    Moves Waits (readRegister cmd btr) :=
  (sendCmd_waits cmd 0).bind fun _ => Moves.ite (fun _ => Moves.pure _)
    fun _ => (Moves.when fun _ => rcvrSpi_waits.bind fun _ => Moves.pure ()).bind
      fun _ => rcvrDatablock_waits btr

/-- Reading a register of the card and looking at its bytes only waits for the card. -/
theorem register_waits {cmd : UInt8} {btr : Nat} {α : Type}
    {f : List UInt8 → SdM α} {a : α} (hf : ∀ data, Moves Waits (f data)) :
    Moves Waits (readRegister cmd btr >>= fun block =>
      match block with
      | some data => f data
      | none => pure a) := by
  refine (readRegister_waits cmd btr).bind fun block => ?_
  cases block with
  | some data => exact hf data
  | none => exact Moves.pure a

theorem ioctlReady_waits (ctrl : Ctrl) (cardType : UInt8) :
    Moves Waits (ioctlReady ctrl cardType) := by
  cases ctrl with
  | sync =>
      exact selectCard_waits.bind fun _ => waitReady_waits.bind fun _ =>
        Moves.pure _
  | getSectorCount => exact register_waits fun _ => Moves.pure _
  | getBlockSize =>
      refine Moves.ite (fun _ => register_waits fun _ => ?_)
        fun _ => register_waits fun _ => Moves.pure _
      exact (rcvrSpi_waits.times 48).bind fun _ => Moves.pure _
  | getCsd | getCid | getSdstat => exact register_waits fun _ => Moves.pure _
  | getOcr =>
      exact (sendCmd_waits _ _).bind fun _ => Moves.ite (fun _ => Moves.pure _)
        fun _ => (rcvrSpi_waits.times 4).bind fun _ => Moves.pure _
  | getSectorSize | getType | power | other => exact Moves.pure _

/-- A control call returns with the status it was called with, apart from the ticks
served meanwhile. -/
theorem mmcDiskIoctl_waits (ctrl : Ctrl) (ptr : UInt8) :
    Moves Waits (mmcDiskIoctl ctrl ptr) :=
  Moves.get.bind fun _ => Moves.ite (fun _ => Moves.pure _) fun _ =>
    Moves.ite (fun _ => Moves.pure _) fun _ =>
      (ioctlReady_waits _ _).bind fun _ => releaseSpi_waits.bind fun _ =>
        Moves.pure _

/-- Turning the card on leaves the status alone; only `powerOff` and the end of a start
write it. -/
theorem powerOn_waits : Moves Waits powerOn :=
  (modify_waits (fun _ => by rfl) fun _ => by rfl).bind fun _ =>
    (Moves.spinUntil serve_waits _).bind fun _ => deSelectCard_waits

/-- Finding out the type of the card leaves the status alone. -/
theorem probeCard_waits : Moves Waits probeCard := by
  refine (sendCmd_waits _ _).bind fun idle => Moves.ite (fun _ => Moves.pure _)
    fun _ => (modify_waits (fun _ => by rfl) fun _ => by rfl).bind fun _ =>
      (sendCmd_waits _ _).bind fun ifCond => Moves.ite (fun _ => ?_) fun _ => ?_
  · refine (rcvrSpi_waits.times 4).bind fun ocr =>
      Moves.ite (fun _ => ?_) fun _ => Moves.pure _
    exact (leaveIdle_waits _ _).bind fun _ => Moves.get.bind fun s =>
      Moves.ite (fun _ => Moves.pure _) fun _ => (sendCmd_waits _ _).bind fun _ =>
        Moves.ite (fun _ => Moves.pure _) fun _ =>
          (rcvrSpi_waits.times 4).bind fun _ => Moves.pure _
  · exact (sendCmd_waits _ _).bind fun _ => (leaveIdle_waits _ _).bind fun _ =>
      Moves.get.bind fun s => Moves.ite (fun _ => Moves.pure _) fun _ =>
        (sendCmd_waits _ _).bind fun _ =>
          Moves.ite (fun _ => Moves.pure _) fun _ => Moves.pure _

/-! ## The status -/

/-- No other bit of the status is ever set. -/
def Known (s : Sd) : Prop := s.stat = 0 ∨ s.stat = staNoinit

/-- A status that is one of the known two stays one of them over a wait. -/
theorem Waits.known {s s' : Sd} (h : Waits s s') (hs : Known s) : Known s' := by
  rcases h.stat with heq | hzero
  · rw [Known, heq]
    exact hs
  · exact .inl hzero

/-- Turning the card off marks the disk as not initialized, whatever came before. -/
theorem powerOff_status {w w' : World Sd BusEvent} {a : Unit} (hs : Known w.state)
    (h : powerOff w = (some a, w')) :
    w'.state.cardType = w.state.cardType ∧ w'.state.stat = staNoinit := by
  rw [powerOff, get_bind_apply] at h
  obtain ⟨_, w₂, hwait, h⟩ := bind_eq_some.1 h
  have hwaits : Waits w.state w₂.state :=
    Moves.of_eq (Moves.when fun _ => selectCard_waits.bind fun _ =>
      waitReady_waits.bind fun _ => releaseSpi_waits) hwait
  obtain ⟨-, rfl⟩ := Prod.mk.inj h
  refine ⟨hwaits.cardType, ?_⟩
  show w₂.state.stat ||| staNoinit = staNoinit
  rcases hwaits.known hs with hstat | hstat
  · rw [hstat]
    decide
  · rw [hstat]
    decide

/-- The end of a start marks the disk as initialized exactly if a card type was found.
-/
theorem markType_status {ty : UInt8} {w w' : World Sd BusEvent} {a : Unit}
    (hs : Known w.state) (h : markType ty w = (some a, w')) :
    w'.state.cardType = w.state.cardType ∧
      w'.state.stat = if ty = 0 then staNoinit else 0 := by
  unfold markType at h
  by_cases hty : ty = 0
  · rw [if_neg (not_not.2 hty)] at h
    obtain ⟨_, w₁, hoff, h⟩ := bind_eq_some.1 h
    obtain ⟨htype, hstat⟩ := powerOff_status hs hoff
    obtain ⟨-, rfl⟩ := Prod.mk.inj h
    rw [if_pos hty]
    exact ⟨htype, hstat⟩
  · rw [if_pos hty] at h
    obtain ⟨-, rfl⟩ := Prod.mk.inj h
    rw [if_neg hty]
    refine ⟨rfl, ?_⟩
    show w.state.stat &&& ~~~staNoinit = 0
    rcases hs with hstat | hstat
    · rw [hstat]
      decide
    · rw [hstat]
      decide

/-- What an initialisation leaves. -/
theorem mmcDiskInitialize_status {w w' : World Sd BusEvent} {r : UInt8}
    (hs : Known w.state) (h : mmcDiskInitialize w = (some r, w')) :
    w'.state.stat = if w'.state.cardType = 0 then staNoinit else 0 := by
  have hdisk : ¬w.state.stat &&& staNodisk ≠ 0 := by
    rcases hs with hstat | hstat
    · rw [hstat]
      decide
    · rw [hstat]
      decide
  rw [mmcDiskInitialize, get_bind_apply, if_neg hdisk] at h
  obtain ⟨_, w₁, hon, h⟩ := bind_eq_some.1 h
  obtain ⟨_, w₂, hclocks, h⟩ := bind_eq_some.1 h
  obtain ⟨ty, w₃, hprobe, h⟩ := bind_eq_some.1 h
  have hknown : Known w₃.state :=
    (probeCard_waits.of_eq hprobe).known (((rcvrSpi_waits.times 10).of_eq
      hclocks).known ((powerOn_waits.of_eq hon).known hs))
  obtain ⟨_, w₄, hset, h⟩ := bind_eq_some.1 h
  obtain ⟨-, rfl⟩ := Prod.mk.inj hset
  obtain ⟨_, w₅, hrelease, h⟩ := bind_eq_some.1 h
  have hwaits := releaseSpi_waits.of_eq hrelease
  obtain ⟨_, w₆, hmark, h⟩ := bind_eq_some.1 h
  obtain ⟨htype, hstat⟩ := markType_status (hwaits.known hknown) hmark
  obtain ⟨-, rfl⟩ := Prod.mk.inj h
  have hcard : w₆.state.cardType = ty := htype.trans hwaits.cardType
  rw [hcard]
  exact hstat

/-! ## Runs -/

/-- A call of the driver; `start` is `MMC_disk_initialize`. -/
inductive Call where
  | start
  | read (sector : UInt32) (count : UInt8)
  | write (buff : List UInt8) (sector : UInt32) (count : UInt8)
  | ioctl (ctrl : Ctrl) (ptr : UInt8)

/-- The call, with what happens while it runs: whether it has returned, and the
world behind its last wait. -/
def Call.run (call : Call) (w : World Sd BusEvent) : Bool × World Sd BusEvent :=
  match call with
  | .start => ((mmcDiskInitialize w).1.isSome, (mmcDiskInitialize w).2)
  | .read sector count =>
      ((mmcDiskRead sector count w).1.isSome, (mmcDiskRead sector count w).2)
  | .write buff sector count =>
      ((mmcDiskWrite buff sector count w).1.isSome,
        (mmcDiskWrite buff sector count w).2)
  | .ioctl ctrl ptr =>
      ((mmcDiskIoctl ctrl ptr w).1.isSome, (mmcDiskIoctl ctrl ptr w).2)

/-- The interrupts that come inside a call, behind its last wait. -/
def serveAll (events : List BusEvent) (s : Sd) : Sd :=
  events.foldl (fun s e => serve e s) s

/-- Ticks that come inside a call, behind its last wait, do no more than ticks during a
wait. -/
theorem serveAll_waits (events : List BusEvent) (s : Sd) :
    Waits s (serveAll events s) := by
  induction events generalizing s with
  | nil => exact refl_of Waits s
  | cons e events ih => exact trans_of Waits (serve_waits e s) (ih (serve e s))

/-- A tick among them leaves the status clear. -/
theorem serveAll_stat {events : List BusEvent} (h : .tick ∈ events) (s : Sd) :
    (serveAll events s).stat = 0 := by
  induction events generalizing s with
  | nil => exact absurd h List.not_mem_nil
  | cons e events ih =>
      by_cases hrest : .tick ∈ events
      · exact ih hrest (serve e s)
      · obtain rfl : .tick = e := (List.mem_cons.1 h).resolve_right hrest
        rcases (serveAll_waits events (serve .tick s)).stat with heq | hzero
        · exact heq
        · exact hzero

/-- Without a timer tick the interrupts behind the last wait change nothing. -/
theorem serveAll_eq {events : List BusEvent} (h : .tick ∉ events) (s : Sd) :
    serveAll events s = s := by
  induction events with
  | nil => rfl
  | cons e events ih =>
      rw [List.mem_cons, not_or] at h
      cases e with
      | tick => exact absurd rfl h.1
      | byte b => exact ih h.2

/-- The driver between two calls, and whether the most recent initialisation
succeeded, if there was one. -/
structure Driver where
  sd : Sd
  last : Option Bool

/-- A tick between two calls, or a call and what happens while it runs. -/
inductive Action where
  | tick
  | call (call : Call) (events : List BusEvent)

/-- Whether the most recent initialisation succeeded, after a call. -/
def Call.last (call : Call) (sd : Sd) (before : Option Bool) : Option Bool :=
  match call with
  | .start => some (sd.cardType != 0)
  | _ => before

/-- The driver after an action; a call has to return.  Ticks behind its last wait
are served when it is done. -/
def Driver.act (d : Driver) : Action → Option Driver
  | .tick => some { d with sd := mmcDiskTimerproc d.sd }
  | .call call events =>
      let (returned, w) := call.run ⟨d.sd, events⟩
      if returned then
        some
          { sd := serveAll w.irqs w.state
            last := call.last w.state d.last }
      else none

/-- A tick comes while nothing waits: between two calls, or in a call behind its
last wait. -/
def TicksIdle (d : Driver) : Action → Prop
  | .tick => True
  | .call call events => .tick ∈ (call.run ⟨d.sd, events⟩).2.irqs

/-- A run of the driver from the start of the program, with its actions, latest
first, each with the driver it found. -/
inductive DriverRun : List (Driver × Action) → Driver → Prop where
  | boot : DriverRun [] ⟨.boot, none⟩
  | act {hist : List (Driver × Action)} {d d' : Driver} {a : Action}
      (h : DriverRun hist d) (ha : d.act a = some d') :
      DriverRun ((d, a) :: hist) d'

/-- The status can be believed: it is clear only after a successful
initialisation, and before one nothing is sent to the card. -/
structure Believed (d : Driver) : Prop where
  ready : d.sd.stat &&& staNoinit = 0 → d.last = some true ∧ d.sd.cardType ≠ 0
  read : d.last ≠ some true → ∀ sector count events, count ≠ 0 →
    mmcDiskRead sector count ⟨d.sd, events⟩ =
      (some (.notRdy, []), ⟨d.sd, events⟩)
  write : d.last ≠ some true → ∀ buff sector count events, count ≠ 0 →
    mmcDiskWrite buff sector count ⟨d.sd, events⟩ =
      (some .notRdy, ⟨d.sd, events⟩)

/-- The status agrees with the most recent initialisation. -/
structure Agrees (d : Driver) : Prop where
  known : Known d.sd
  stat : d.sd.stat = 0 ↔ d.last = some true
  cardType : d.last = some true → d.sd.cardType ≠ 0

/-- Of the known values of the status only zero has the bit of an uninitialized disk
clear. -/
theorem known_clear {s : Sd} (h : Known s) :
    s.stat &&& staNoinit = 0 ↔ s.stat = 0 := by
  rcases h with hstat | hstat
  · rw [hstat]
    decide
  · rw [hstat]
    decide

/-- As long as the last start has not succeeded, the disk reports itself uninitialized.
-/
theorem Agrees.busy {d : Driver} (h : Agrees d) (hlast : d.last ≠ some true) :
    d.sd.stat &&& staNoinit ≠ 0 :=
  fun hclear => hlast (h.stat.1 ((known_clear h.known).1 hclear))

/-- Where flag and card agree, the driver believes the card ready only if it is. -/
theorem Agrees.believed {d : Driver} (h : Agrees d) : Believed d := by
  have hbusy := fun hlast => h.busy hlast
  refine ⟨fun hclear => ?_, fun hlast sector count events hcount => ?_,
    fun hlast buff sector count events hcount => ?_⟩
  · have hlast := h.stat.1 ((known_clear h.known).1 hclear)
    exact ⟨hlast, h.cardType hlast⟩
  · rw [mmcDiskRead, get_bind_apply, if_neg hcount, if_pos (hbusy hlast)]
    rfl
  · rw [mmcDiskWrite, get_bind_apply, if_neg hcount, if_pos (hbusy hlast)]
    rfl

/-- Calls other than an initialisation keep the agreement. -/
theorem Agrees.waits {d : Driver} (h : Agrees d) {sd : Sd}
    (hw : Waits d.sd sd) (hidle : d.last ≠ some true → sd = d.sd) :
    Agrees { d with sd } := by
  by_cases hlast : d.last = some true
  · have hzero := h.stat.2 hlast
    have hzero' : sd.stat = 0 := by
      rcases hw.stat with heq | hz
      · exact heq.trans hzero
      · exact hz
    refine ⟨.inl hzero', iff_of_true hzero' hlast, fun _ => ?_⟩
    show sd.cardType ≠ 0
    rw [hw.cardType]
    exact h.cardType hlast
  · rw [hidle hlast]
    exact h

/-- Before a successful initialisation the other calls do nothing. -/
theorem call_idle {call : Call} {w : World Sd BusEvent}
    (hbusy : w.state.stat &&& staNoinit ≠ 0) (hcall : call ≠ .start) :
    (call.run w).2.state = w.state := by
  cases call with
  | start => exact absurd rfl hcall
  | read sector count =>
      show (mmcDiskRead sector count w).2.state = _
      rw [mmcDiskRead, get_bind_apply]
      by_cases hcount : count = 0
      · rw [if_pos hcount]
        rfl
      · rw [if_neg hcount, if_pos hbusy]
        rfl
  | write buff sector count =>
      show (mmcDiskWrite buff sector count w).2.state = _
      rw [mmcDiskWrite, get_bind_apply]
      by_cases hcount : count = 0
      · rw [if_pos hcount]
        rfl
      · rw [if_neg hcount, if_pos hbusy]
        rfl
  | ioctl ctrl ptr =>
      show (mmcDiskIoctl ctrl ptr w).2.state = _
      rw [mmcDiskIoctl, get_bind_apply]
      by_cases hpower : ctrl = .power
      · rw [if_pos hpower]
        rfl
      · rw [if_neg hpower, if_pos hbusy]
        rfl

/-- Every call but the start of the card does only what a wait may do. -/
theorem call_keeps {call : Call} (hcall : call ≠ .start)
    (w : World Sd BusEvent) : Waits w.state (call.run w).2.state := by
  cases call with
  | start => exact absurd rfl hcall
  | read sector count => exact mmcDiskRead_waits sector count w
  | write buff sector count => exact mmcDiskWrite_waits buff sector count w
  | ioctl ctrl ptr => exact mmcDiskIoctl_waits ctrl ptr w

/-- A timer tick between two calls is no start. -/
theorem act_tick_last {d d' : Driver} (h : d.act .tick = some d') :
    d'.last = d.last := by
  rw [← Option.some.inj h]

/-- Behind the last wait of a call the status agrees. -/
theorem run_agrees {d : Driver} {call : Call} {events : List BusEvent}
    (h : Agrees d) (hret : (call.run ⟨d.sd, events⟩).1 = true) :
    Agrees
      { sd := (call.run ⟨d.sd, events⟩).2.state
        last := call.last (call.run ⟨d.sd, events⟩).2.state d.last } := by
  by_cases hcall : call = .start
  · subst hcall
    obtain ⟨r, hr⟩ := Option.isSome_iff_exists.1 hret
    have hstat := mmcDiskInitialize_status h.known
      (show mmcDiskInitialize ⟨d.sd, events⟩ = (some r, _) from Prod.ext hr rfl)
    dsimp only [Call.run, Call.last]
    generalize (mmcDiskInitialize ⟨d.sd, events⟩).2.state = sd at hstat ⊢
    by_cases htype : sd.cardType = 0
    · rw [if_pos htype] at hstat
      refine ⟨.inr hstat, iff_of_false ?_ ?_, fun hlast => ?_⟩
      · rw [hstat]
        decide
      · simp [htype]
      · simp [htype] at hlast
    · rw [if_neg htype] at hstat
      refine ⟨.inl hstat, iff_of_true hstat ?_, fun _ => htype⟩
      simp [htype]
  · have hwaits := call_keeps hcall ⟨d.sd, events⟩
    have hagrees := h.waits hwaits fun hlast =>
      call_idle (h.busy hlast) hcall
    cases call with
    | start => exact absurd rfl hcall
    | read | write | ioctl => exact hagrees

/-- One action keeps flag and card in agreement, if a tick outside a wait comes only
behind a start that succeeded. -/
theorem act_agrees {d d' : Driver} {a : Action} (h : Agrees d)
    (ha : d.act a = some d') (htick : TicksIdle d a → d'.last = some true) :
    Agrees d' := by
  cases a with
  | tick =>
      obtain rfl := Option.some.inj ha
      exact h.waits (serve_waits .tick d.sd) fun hlast =>
        absurd (htick trivial) hlast
  | call call events =>
      unfold Driver.act at ha
      dsimp only at ha
      split at ha
      · next hret =>
        obtain rfl := Option.some.inj ha
        exact (run_agrees h hret).waits (serveAll_waits _ _) fun hlast =>
          serveAll_eq (fun hmem => hlast (htick hmem)) _
      · exact absurd ha (by simp)

/-- After a tick while nothing waits, the status is clear. -/
theorem act_stat {d d' : Driver} {a : Action} (ha : d.act a = some d')
    (htick : TicksIdle d a) : d'.sd.stat = 0 := by
  cases a with
  | tick =>
      obtain rfl := Option.some.inj ha
      rfl
  | call call events =>
      unfold Driver.act at ha
      dsimp only at ha
      split at ha
      · obtain rfl := Option.some.inj ha
        exact serveAll_stat htick _
      · exact absurd ha (by simp)

/-- In a run of the driver the status can be believed all the time exactly if no
tick comes while nothing waits, unless the most recent initialisation has
succeeded: the one it comes in, if it comes at the end of one. -/
theorem ready_iff {hist : List (Driver × Action)} {d : Driver}
    (h : DriverRun hist d) :
    ((∀ x ∈ hist, Believed x.1) ∧ Believed d) ↔
      ∀ x ∈ hist, TicksIdle x.1 x.2 →
        ∀ d' ∈ x.1.act x.2, d'.last = some true := by
  constructor
  · induction h with
    | boot => exact fun _ x hx => absurd hx List.not_mem_nil
    | @act hist d d' a _ ha ih =>
        rintro ⟨hall, hlast⟩ x hx htick
        rcases List.mem_cons.1 hx with rfl | hx
        · intro d'' hd
          obtain rfl : d' = d'' := Option.some.inj (ha.symm.trans hd)
          have hclear : d'.sd.stat &&& staNoinit = 0 := by
            rw [act_stat ha htick]
            decide
          exact (hlast.ready hclear).1
        · exact ih ⟨fun y hy => hall y (List.mem_cons_of_mem _ hy),
            hall (d, a) List.mem_cons_self⟩ x hx htick
  · intro hticks
    have hagrees : Agrees d ∧ ∀ x ∈ hist, Agrees x.1 := by
      induction h with
      | boot =>
          refine ⟨⟨.inr rfl, ?_, fun hlast => absurd hlast (by simp)⟩,
            fun x hx => absurd hx List.not_mem_nil⟩
          exact iff_of_false (by decide) (by simp)
      | @act hist d d' a _ ha ih =>
          obtain ⟨hd, hhist⟩ := ih fun x hx =>
            hticks x (List.mem_cons_of_mem _ hx)
          refine ⟨act_agrees hd ha fun htick =>
            hticks (d, a) List.mem_cons_self htick d' ha, fun x hx => ?_⟩
          rcases List.mem_cons.1 hx with rfl | hx
          · exact hd
          · exact hhist x hx
    exact ⟨fun x hx => (hagrees.2 x hx).believed, hagrees.1.believed⟩

/-- The first tick makes the card ready, and `MMC_disk_read` sends a command. -/
theorem ready_after_tick :
    DriverRun [(⟨.boot, none⟩, .tick)] ⟨mmcDiskTimerproc .boot, none⟩ ∧
      (mmcDiskTimerproc .boot).stat &&& staNoinit = 0 ∧
      (mmcDiskRead 0 1 ⟨mmcDiskTimerproc .boot,
        List.replicate 20 (.byte 0xff)⟩).2.state.sent ≠ [] ∧
      ¬Believed ⟨mmcDiskTimerproc .boot, none⟩ := by
  refine ⟨.act .boot rfl, rfl, by decide +kernel, fun h => ?_⟩
  exact absurd (h.ready rfl).1 (by simp)

/-- A card of version 1 that answers at once, and a tick when it has been found. -/
def promptCard : List BusEvent :=
  List.replicate 25 .tick ++ List.replicate 10 (.byte 0xff) ++
    ([0x01, 0x05, 0x01, 0x00, 0x01, 0x00, 0x00] : List UInt8).flatMap
      (fun r => List.replicate 8 (.byte 0xff) ++ [.byte r]) ++ [.byte 0xff, .tick]

/-- The card has been found. -/
def found : Driver :=
  (Driver.act ⟨.boot, none⟩ (.call .start promptCard)).get (by decide +kernel)

/-- The start of a card that answers at once succeeds. -/
theorem found_act :
    Driver.act ⟨.boot, none⟩ (.call .start promptCard) = some found :=
  (Option.some_get _).symm

/-- A timer tick behind a start that succeeded does no harm. -/
theorem ready_found :
    found.last = some true ∧ Believed ⟨mmcDiskTimerproc found.sd, found.last⟩ := by
  have hlast : found.last = some true := by decide +kernel
  have hrun : DriverRun
      [(found, .tick), (⟨.boot, none⟩, .call .start promptCard)]
      ⟨mmcDiskTimerproc found.sd, found.last⟩ :=
    .act (.act .boot found_act) rfl
  refine ⟨hlast, ((ready_iff hrun).2 fun x hx _ d' hd => ?_).2⟩
  rcases List.mem_cons.1 hx with rfl | hx
  · exact (act_tick_last hd).trans hlast
  · rw [List.mem_singleton.1 hx] at hd
    exact Option.some.inj (found_act.symm.trans hd) ▸ hlast

end R2C2Firmware.Ports.Sdcard
