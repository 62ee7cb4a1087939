import R2C2Firmware.Verified.BusyWait
import R2C2Firmware.Ports.Stepper
import R2C2Firmware.Ports.Temp
import R2C2Firmware.Ports.Sermsg

/-!
# The firmware around the parser

The state the command handlers of `gcode_process.c` act on, the interrupts that
may arrive while a handler waits, and the primitive operations the handlers are
made of.

Two parts are parameters, gathered in `Platform`: the FatFs calls, on a card
whose state is of any type, and the endstop functions of X and Z, which the
repository declares nowhere.  `tx` is everything handed to the serial port.
-/

namespace R2C2Firmware.Ports.Mendel

open R2C2Firmware.Verified.Number
open R2C2Firmware.Verified.BusyWait
open R2C2Firmware.Ports.Config
open R2C2Firmware.Ports.MotionPlanner
open R2C2Firmware.Ports.Stepper
open R2C2Firmware.Ports.Temp
open R2C2Firmware.Ports.Sermsg

/-! ## The card -/

/-- A short file name as FatFs returns it: no control characters. -/
structure FatName where
  bytes : List UInt8
  printable : ∀ b ∈ bytes, 32 ≤ b.toNat

/-- What `f_opendir` and `f_readdir` yield for a directory: its entries in
order, ended by success or failure.  A directory that cannot be opened is
`done false`. -/
inductive DirList where
  | done (ok : Bool)
  | file (name : FatName) (rest : DirList)
  | dir (name : FatName) (sub rest : DirList)

/-- The FatFs calls on the one open file, and the endstop functions that are
not part of the repository.  Result codes are those of `FRESULT`, zero for
`FR_OK`. -/
structure Platform (σ : Type) where
  fOpen : List UInt8 → Bool → σ → Nat × σ
  fClose : σ → σ
  fWrite : List UInt8 → σ → Nat × σ
  fGets : Nat → σ → Option (List UInt8) × σ
  fSize : σ → Int
  fLseek : Int → σ → σ
  root : σ → DirList
  hitHomeStopX : Bool → Bool → Bool
  hitHomeStopZ : Bool → Bool → Bool

/-! ## State -/

/-- Effects outside the machine: `delay_ms` and `buzzer_play`. -/
inductive Effect where
  | delayMs (ms : Int)
  | buzzerPlay (frequency duration : Int)
  deriving DecidableEq, Repr

/-- The globals of `gcode_process.c` and what they control. -/
structure Firmware (R σ : Type) where
  machine : Machine R
  temp : TempState
  steptimeout : Int
  fs : σ
  filesize : Int
  sdPos : Int
  sdPrinting : Bool
  sdActive : Bool
  sdWritingFile : Bool
  extrudersOn : Int
  extruder1Speed : R
  autoPrimeSteps : Int
  autoReverseSteps : Int
  /-- `x_min()`, `y_min()` and `z_min()` -/
  endstop : Axis → Bool
  /-- `buzzerTimer.Running` -/
  buzzerRunning : Bool
  tx : List UInt8
  effects : List Effect

variable {R σ : Type}

/-- `_planner_startpoint` -/
def Firmware.startpoint (fw : Firmware R σ) : Target R :=
  fw.machine.planner.startpoint

/-- The configuration. -/
def Firmware.config (fw : Firmware R σ) : Configuration R := fw.machine.config

/-! ## Interrupts -/

/-- An interrupt, or a change of an input. -/
inductive Irq where
  /-- the step timer -/
  | step
  /-- the acceleration timer -/
  | accel
  /-- the temperature timer, with the readings of the converter -/
  | temperature (extruder bed : Int)
  /-- the buzzer timer -/
  | buzzerOff
  /-- the endstops change -/
  | endstops (x y z : Bool)

/-- `hit_home_stop_y` -/
def hitHomeStopY (cfg : Configuration R) (yMin dir : Bool) : Bool :=
  if cfg.homeDirectionY < 0 then yMin && !dir else yMin && dir

/-- The answers the stepper interrupt gets. -/
def stInputs (P : Platform σ) (fw : Firmware R σ) : StInputs where
  tempAchieved := tempAchieved .extruder0 fw.temp
  hitHomeStop
    | .x, dir => P.hitHomeStopX (fw.endstop .x) dir
    | .y, dir => hitHomeStopY fw.config (fw.endstop .y) dir
    | .z, dir => P.hitHomeStopZ (fw.endstop .z) dir
    | .e, _ => false

/-- `digital_write` -/
def digitalWrite (port : Nat) (bit : Nat) (state : Bool) (fw : Firmware R σ) :
    Firmware R σ :=
  let pin : BitVec 32 := 1#32 <<< bit
  { fw with
    machine :=
      { fw.machine with
        gpio :=
          if state then gpioSetValue port pin fw.machine.gpio
          else gpioClearValue port pin fw.machine.gpio } }

/-- `temperatureTimerCallback` -/
def temperatureTimerCallback (extruder bed : Int) (fw : Firmware R σ) :
    Firmware R σ :=
  let (temp, heaters) := tempTick
    (fun | .extruder0 => extruder | .heatedBed0 => bed) fw.temp
  let fw := { fw with temp }
  match heaters with
  | none => fw
  | some on =>
      digitalWrite 2 5 (on .heatedBed0) (digitalWrite 2 4 (on .extruder0) fw)

/-- Serve one interrupt.  A timer that is stopped delivers none. -/
def serveIrq (P : Platform σ) (irq : Irq) (fw : Firmware R σ) :
    Firmware R σ :=
  match irq with
  | .step =>
      if fw.machine.timers.enabled 1 then
        { fw with machine := stepCallback (stInputs P fw) fw.machine }
      else fw
  | .accel =>
      if fw.machine.timers.enabled 0 then
        { fw with machine := accelCallback fw.machine }
      else fw
  | .temperature extruder bed => temperatureTimerCallback extruder bed fw
  | .buzzerOff => { fw with buzzerRunning := false }
  | .endstops x y z =>
      { fw with
        endstop := fun | .x => x | .y => y | .z => z | .e => false }

/-! ## Primitive operations -/

/-- A handler. -/
abbrev FwM (R σ α : Type) := Prog (Firmware R σ) Irq α

/-- Hand bytes to the serial port. -/
def serialWrite (text : List UInt8) : FwM R σ Unit :=
  modify fun fw => { fw with tx := fw.tx ++ text }

/-- `serial_writestr` -/
def serialWritestr (s : String) : FwM R σ Unit := serialWrite (str s)

/-- Change the configuration. -/
def setConfig (f : Configuration R → Configuration R) : FwM R σ Unit :=
  modify fun fw =>
    { fw with machine := { fw.machine with config := f fw.machine.config } }

/-- Act on the planner without queueing anything. -/
def onPlanner (f : Configuration R → Planner R → Planner R) : FwM R σ Unit :=
  modify fun fw =>
    { fw with
      machine :=
        { fw.machine with planner := f fw.machine.config fw.machine.planner } }

/-- `delay_ms` -/
def delayMs (ms : Int) : FwM R σ Unit :=
  modify fun fw => { fw with effects := .delayMs ms :: fw.effects }

/-- `buzzer_wait` -/
def buzzerWait (P : Platform σ) : FwM R σ Unit :=
  spinUntil (serveIrq P) fun fw => !fw.buzzerRunning

/-- `buzzer_play` -/
def buzzerPlay (frequency duration : Int) : FwM R σ Unit :=
  modify fun fw =>
    { fw with
      buzzerRunning := true
      effects := .buzzerPlay frequency duration :: fw.effects }

/-- `temp_set` -/
def tempSet (t : Int) (sensor : Sensor) : FwM R σ Unit :=
  modify fun fw =>
    { fw with
      steptimeout := if t ≠ 0 then 0 else fw.steptimeout
      temp := setTarget t sensor fw.temp }

/-- `synch_queue`, that is `st_synchronize`. -/
def synchQueue (P : Platform σ) : FwM R σ Unit :=
  spinUntil (serveIrq P) fun fw =>
    (planGetCurrentBlock fw.machine.planner).isNone

section Motion

variable [Field R] [LinearOrder R] [HasSqrt R] [FloorRing R]

/-- `plan_buffer_action`, which first waits for room in the ring. -/
def planBufferActionWait (P : Platform σ) (request : ActionRequest R) :
    FwM R σ Unit := do
  spinUntil (serveIrq P) fun fw => !planQueueFull fw.machine.planner
  modify fun fw => { fw with machine := bufferAction request fw.machine }

/-- The target differs from the current point. -/
def departs (t : Target R) (fw : Firmware R σ) : Bool :=
  let start := fw.startpoint
  decide (t.x ≠ start.x ∨ t.y ≠ start.y ∨ t.z ≠ start.z ∨ t.e ≠ start.e)

/-- The request of `enqueue_moved`; a disabled extruder stays where it is. -/
def moveRequest (t : Target R) (fw : Firmware R σ) : ActionRequest R where
  actionType := .move
  target :=
    { t with
      invertFeedRate := false
      e := if fw.config.enableExtruder1 = 0 then fw.startpoint.e else t.e }

/-- `enqueue_moved` -/
def enqueueMoved (P : Platform σ) (t : Target R) : FwM R σ Unit := do
  let fw ← get
  if departs t fw then planBufferActionWait P (moveRequest t fw)
  else onPlanner fun _ => planSetFeedRate t

/-- `enqueue_wait_temp` -/
def enqueueWaitTemp (P : Platform σ) : FwM R σ Unit :=
  planBufferActionWait P { actionType := .waitTemps, target := .zero }

/-- A move that stops at the endstops. -/
def specialMove (P : Platform σ) (t : Target R) (feedRate : R) :
    FwM R σ Unit :=
  planBufferActionWait P
    { actionType := .moveEndstop
      target := { t with feedRate, invertFeedRate := false } }

/-- `SpecialMoveXY` -/
def specialMoveXY (P : Platform σ) (x y f : R) : FwM R σ Unit := do
  let fw ← get
  specialMove P { fw.startpoint with x, y } f

/-- `SpecialMoveZ` -/
def specialMoveZ (P : Platform σ) (z f : R) : FwM R σ Unit := do
  let fw ← get
  specialMove P { fw.startpoint with z } f

/-- The target of an extruder move. -/
def extrusion (e feedRate : R) (fw : Firmware R σ) : Target R :=
  { fw.startpoint with e := fw.startpoint.e + e, feedRate }

/-- `SpecialMoveE` -/
def specialMoveE (P : Platform σ) (e feedRate : R) : FwM R σ Unit := do
  let fw ← get
  if fw.config.enableExtruder1 ≠ 0 then
    enqueueMoved P (extrusion e feedRate fw)

/-- `plan_set_current_position` -/
def setCurrentPosition (t : Target R) : FwM R σ Unit :=
  onPlanner fun cfg => planSetCurrentPosition cfg t

/-- `zero_x` -/
def zeroX (P : Platform σ) : FwM R σ Unit := do
  let fw ← get
  specialMoveXY P (fw.startpoint.x - 300) fw.startpoint.y
    (fw.config.homingFeedrateX : R)
  synchQueue P
  let fw ← get
  specialMoveXY P (fw.startpoint.x + 3) fw.startpoint.y
    (fw.config.searchFeedrate .x : R)
  let fw ← get
  specialMoveXY P (fw.startpoint.x - 6) fw.startpoint.y
    (fw.config.searchFeedrate .x : R)
  synchQueue P
  let fw ← get
  setCurrentPosition { fw.startpoint with x := (fw.config.homePosX : R) }

/-- `zero_y` -/
def zeroY (P : Platform σ) : FwM R σ Unit := do
  let fw ← get
  let dir : R := if fw.config.homeDirectionY < 0 then -1 else 1
  specialMoveXY P fw.startpoint.x (fw.startpoint.y + dir * 250)
    (fw.config.homingFeedrateY : R)
  synchQueue P
  let fw ← get
  specialMoveXY P fw.startpoint.x (fw.startpoint.y - dir * 3)
    (fw.config.searchFeedrate .y : R)
  let fw ← get
  specialMoveXY P fw.startpoint.x (fw.startpoint.y + dir * 6)
    (fw.config.searchFeedrate .y : R)
  synchQueue P
  let fw ← get
  setCurrentPosition { fw.startpoint with y := (fw.config.homePosY : R) }

/-- `zero_z` -/
def zeroZ (P : Platform σ) : FwM R σ Unit := do
  let fw ← get
  specialMoveZ P (fw.startpoint.z - 250) (fw.config.homingFeedrateZ : R)
  synchQueue P
  let fw ← get
  specialMoveZ P (fw.startpoint.z + 1) (fw.config.searchFeedrate .z : R)
  synchQueue P
  let fw ← get
  specialMoveZ P (fw.startpoint.z - 6) (fw.config.searchFeedrate .z : R)
  synchQueue P
  let fw ← get
  setCurrentPosition { fw.startpoint with z := (fw.config.homePosZ : R) }

/-- `zero_e` -/
def zeroE : FwM R σ Unit := do
  let fw ← get
  setCurrentPosition { fw.startpoint with e := 0 }

end Motion

/-! ## Files -/

/-- `sd_list_dir_sub`: the text, and whether the directory could be read to its
end. -/
def sdListDirSub (path : List UInt8) : DirList → List UInt8 × Bool
  | .done ok => ([], ok)
  | .file name rest =>
      if name.bytes.head? = some 46 then sdListDirSub path rest
      else
        let (text, ok) := sdListDirSub path rest
        (path ++ str "/" ++ name.bytes ++ str "\r\n" ++ text, ok)
  | .dir name sub rest =>
      if name.bytes.head? = some 46 then sdListDirSub path rest
      else
        let line := path ++ str "/" ++ name.bytes ++ str "/\r\n"
        let (text, ok) := sdListDirSub (path ++ str "/" ++ name.bytes) sub
        if ok then
          let (text', ok') := sdListDirSub path rest
          (line ++ text ++ text', ok')
        else (line ++ text, false)

/-- `sd_list_dir` -/
def sdListDir (P : Platform σ) : FwM R σ Unit := do
  let fw ← get
  serialWrite (sdListDirSub [] (P.root fw.fs)).1

/-- `sd_initialise` -/
def sdInitialise : FwM R σ Unit :=
  modify fun fw => { fw with sdActive := true }

/-- `sd_close` -/
def sdClose (P : Platform σ) : FwM R σ Unit :=
  modify fun fw => { fw with fs := P.fClose fw.fs }

/-- `sd_open` -/
def sdOpen (P : Platform σ) (path : List UInt8) (write : Bool) :
    FwM R σ Bool := do
  let fw ← get
  let res := P.fOpen path write fw.fs
  modify fun fw => { fw with fs := res.2 }
  if res.1 = 0 then return true
  else
    serialWrite (str "sd_open:" ++ serwriteInt32 (int32 res.1))
    return false

/-- `sd_write_to_file` -/
def sdWriteToFile (P : Platform σ) (bytes : List UInt8) : FwM R σ Bool := do
  let fw ← get
  let res := P.fWrite bytes fw.fs
  modify fun fw => { fw with fs := res.2 }
  return res.1 == 0

end R2C2Firmware.Ports.Mendel
