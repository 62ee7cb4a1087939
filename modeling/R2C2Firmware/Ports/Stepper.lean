import R2C2Firmware.Ports.MotionPlanner

/-!
# The stepper interrupt

A transcription of `stepper.c` for the build option `STEP_LED_FLASH_VARIABLE`:
the interrupt that pops blocks from the planner ring, traces them with one
Bresenham accumulator per axis and pulses the step pins.

`Machine` gathers the state the interrupt shares with the planner and the
hardware it drives.  The output pins are the port registers; `Gpio.trace`
records the rising edges on the step pins, newest first, together with the
level of the direction pin at that moment and a mark at each hand-over of a
block.  Nothing in the program reads the trace.

`hit_home_stop_*` and `temp_achieved` are inputs of the interrupt.
-/

namespace R2C2Firmware.Ports.Stepper

open R2C2Firmware.Verified.Number
open R2C2Firmware.Ports.Config
open R2C2Firmware.Ports.MotionPlanner

variable {R : Type*}

/-! ## Pins -/

/-- `X_STEP_PORT` to `E_STEP_PORT` -/
def stepPort : Axis → Nat
  | .e => 0
  | _ => 1

/-- `X_STEP_BIT` to `E_STEP_BIT` -/
def stepBit : Axis → Nat
  | .x => 20
  | .y => 25
  | .z => 29
  | .e => 10

/-- `X_DIR_PORT` to `E_DIR_PORT`; the pin within the port is
`directionBit`. -/
def dirPort : Axis → Nat
  | .x | .y => 1
  | .z | .e => 0

/-- `X_STEP_PIN` to `E_STEP_PIN` -/
def stepPin (a : Axis) : BitVec 32 := 1#32 <<< stepBit a

/-- `X_DIR_PIN` to `E_DIR_PIN` -/
def dirPin (a : Axis) : BitVec 32 := 1#32 <<< directionBit a

/-- What the trace records. -/
inductive PinEvent where
  /-- a block was handed to the interrupt -/
  | load
  /-- a rising edge on the step pin of an axis, with the level of its
  direction pin -/
  | rise (a : Axis) (direction : Bool)
  deriving DecidableEq, Repr

/-- The output ports. -/
structure Gpio where
  pins : Nat → BitVec 32
  trace : List PinEvent

/-- The level of one output pin. -/
def Gpio.level (g : Gpio) (port bit : Nat) : Bool := (g.pins port).getLsbD bit

/-- The level of the direction pin of an axis. -/
def Gpio.direction (g : Gpio) (a : Axis) : Bool :=
  g.level (dirPort a) (directionBit a)

/-- The axes whose step pin goes from low to high when `value` is set. -/
def Gpio.rising (g : Gpio) (port : Nat) (value : BitVec 32) : List Axis :=
  Axis.all.filter fun a =>
    stepPort a == port && value.getLsbD (stepBit a)
      && !g.level port (stepBit a)

/-- `GPIO_SetValue` -/
def gpioSetValue (port : Nat) (value : BitVec 32) (g : Gpio) : Gpio where
  pins := Function.update g.pins port (g.pins port ||| value)
  trace :=
    (g.rising port value).map (fun a => .rise a (g.direction a)) ++ g.trace

/-- `GPIO_ClearValue` -/
def gpioClearValue (port : Nat) (value : BitVec 32) (g : Gpio) : Gpio :=
  { g with pins := Function.update g.pins port (g.pins port &&& ~~~value) }

/-! ## State -/

/-- The hardware timers: which are running, and their intervals. -/
structure HwTimers where
  enabled : Nat → Bool
  interval : Nat → Int

/-- `enableHwTimer` -/
def enableHwTimer (n : Nat) (t : HwTimers) : HwTimers :=
  { t with enabled := Function.update t.enabled n true }

/-- `disableHwTimer` -/
def disableHwTimer (n : Nat) (t : HwTimers) : HwTimers :=
  { t with enabled := Function.update t.enabled n false }

/-- `setHwTimerInterval` -/
def setHwTimerInterval (n : Nat) (ticks : Int) (t : HwTimers) : HwTimers :=
  { t with interval := Function.update t.interval n ticks }

/-- The statics of `stepper.c`.  `dacValue` is what was last handed to
`DAC_UpdateValue`. -/
structure StepperState where
  ledCount : Axis → Int
  ledOn : BitVec 8
  ledsEnabled : Bool
  dacScale : Int
  dacValue : Int
  currentBlock : Option Nat
  directionBits : BitVec 32
  stepBitsE : BitVec 32
  stepBitsXyz : BitVec 32
  counter : Axis → Int
  stepEventsCompleted : Int
  busy : Bool
  cyclesPerStepEvent : Int
  trapezoidTickCycleCounter : Int
  trapezoidAdjustedRate : Int
  minSafeRate : Int
  accelFlag : Bool

/-- Configuration, planner, stepper and the hardware they drive. -/
structure Machine (R : Type*) where
  config : Configuration R
  planner : Planner R
  stepper : StepperState
  gpio : Gpio
  timers : HwTimers

/-- What the interrupt asks the rest of the firmware: `temp_achieved` of the
extruder, and `hit_home_stop_*` of an axis for the direction bit given. -/
structure StInputs where
  tempAchieved : Bool
  hitHomeStop : Axis → Bool → Bool

/-! ## Driving the pins -/

/-- The bit of an axis in `led_on`. -/
def ledMask : Axis → BitVec 8
  | .x => 1#8 <<< 0
  | .y => 1#8 <<< 1
  | .z => 1#8 <<< 2
  | .e => 1#8 <<< 3

/-- `inc_led_count` -/
def incLedCount (a : Axis) (s : StepperState) : StepperState :=
  let count := uint8 (s.ledCount a + 1)
  if count = 128 then
    { s with ledOn := s.ledOn ^^^ ledMask a, ledCount := a.set 0 s.ledCount }
  else { s with ledCount := a.set count s.ledCount }

/-- One axis of `set_direction_pins`. -/
def setDirectionPin (directionBits : BitVec 32) (g : Gpio) (a : Axis) : Gpio :=
  if directionBits &&& dirPin a ≠ 0 then gpioClearValue (dirPort a) (dirPin a) g
  else gpioSetValue (dirPort a) (dirPin a) g

/-- `set_direction_pins` -/
def setDirectionPins (directionBits : BitVec 32) (g : Gpio) : Gpio :=
  Axis.all.foldl (setDirectionPin directionBits) g

/-- Count a step on the LED of an axis if its bit is set. -/
def countStep (bits : BitVec 32) (a : Axis) (s : StepperState) : StepperState :=
  if bits &&& stepPin a ≠ 0 then incLedCount a s else s

/-- `set_step_pins` -/
def setStepPins (m : Machine R) : Machine R :=
  let xyz := m.stepper.stepBitsXyz
  let e := m.stepper.stepBitsE
  let m :=
    { m with
      stepper := countStep xyz .z (countStep xyz .y (countStep xyz .x m.stepper))
      gpio := gpioSetValue 1 xyz m.gpio }
  if e ≠ 0 then
    { m with
      stepper := countStep e .e m.stepper
      gpio := gpioSetValue 0 e m.gpio }
  else m

/-- `clear_all_step_pins` -/
def clearAllStepPins (g : Gpio) : Gpio :=
  gpioClearValue 0 (stepPin .e)
    (gpioClearValue 1 (stepPin .x ||| stepPin .y ||| stepPin .z) g)

/-- `clear_step_pins` -/
def clearStepPins (s : StepperState) (g : Gpio) : Gpio :=
  let g := gpioClearValue 1 s.stepBitsXyz g
  if s.stepBitsE ≠ 0 then gpioClearValue 0 s.stepBitsE g else g

/-- `clear_step_pins_by_state`: the pins whose LED is on stay as they are. -/
def clearStepPinsByState (s : StepperState) (g : Gpio) : Gpio :=
  let off (a : Axis) : Bool := s.ledOn &&& ledMask a == 0
  let stepPins : BitVec 32 :=
    (if off .x then stepPin .x else 0) ||| (if off .y then stepPin .y else 0)
      ||| (if off .z then stepPin .z else 0)
  let g := gpioClearValue 1 stepPins g
  if off .e then gpioClearValue 0 (stepPin .e) g else g

/-! ## Timer and trapezoid -/

/-- `MINIMUM_STEPS_PER_MINUTE` -/
def minimumStepsPerMinute : Int := 1200

/-- `TICKS_PER_MICROSECOND` -/
def ticksPerMicrosecond : Int := 100

/-- `CYCLES_PER_ACCELERATION_TICK` -/
def cyclesPerAccelerationTick : Int :=
  ticksPerMicrosecond * 1000000 / accelerationTicksPerSecond

/-- The interval `config_step_timer` programs. -/
def configStepTimer (cycles : Int) : Int :=
  if cycles > 0x3ffffff then 0x4000000 else cycles

/-- `set_step_events_per_minute` -/
def setStepEventsPerMinute (stepsPerMinute : Int) (m : Machine R) : Machine R :=
  let stepsPerMinute := max stepsPerMinute minimumStepsPerMinute
  let cycles := configStepTimer
    (uint32 (ticksPerMicrosecond * 1000000 * 6 / stepsPerMinute * 10))
  { m with
    stepper :=
      { m.stepper with
        cyclesPerStepEvent := cycles
        dacValue := stepsPerMinute / m.stepper.dacScale }
    timers := setHwTimerInterval 1 cycles m.timers }

/-- Set the current rate and program the timer with it. -/
def adjustRate (rate : Int) (m : Machine R) : Machine R :=
  setStepEventsPerMinute rate
    { m with stepper := { m.stepper with trapezoidAdjustedRate := rate } }

/-- `trapezoid_generator_reset` -/
def trapezoidGeneratorReset (b : Block R) (m : Machine R) : Machine R :=
  adjustRate b.initialRate
    { m with
      stepper :=
        { m.stepper with
          minSafeRate := uint32 (b.rateDelta + b.rateDelta / 2)
          trapezoidTickCycleCounter := cyclesPerAccelerationTick / 2 } }

/-- The acceleration part of the interrupt, while the block goes on. -/
def trapezoidTick (b : Block R) (m : Machine R) : Machine R :=
  let s := m.stepper
  if s.stepEventsCompleted < b.accelerateUntil then
    if s.accelFlag then
      let rate := uint32 (s.trapezoidAdjustedRate + b.rateDelta)
      let m := adjustRate (if rate ≥ b.nominalRate then b.nominalRate else rate) m
      { m with stepper := { m.stepper with accelFlag := false } }
    else m
  else if s.stepEventsCompleted ≥ b.decelerateAfter then
    if s.stepEventsCompleted = b.decelerateAfter then
      { m with
        stepper :=
          { s with
            trapezoidTickCycleCounter := cyclesPerAccelerationTick / 2 } }
    else if s.accelFlag then
      let rate :=
        if s.trapezoidAdjustedRate > uint32 b.rateDelta then
          uint32 (s.trapezoidAdjustedRate - b.rateDelta)
        else s.trapezoidAdjustedRate
      let m := adjustRate (if rate < b.finalRate then b.finalRate else rate) m
      { m with stepper := { m.stepper with accelFlag := false } }
    else m
  else if s.trapezoidAdjustedRate ≠ b.nominalRate then adjustRate b.nominalRate m
  else m

/-- `st_wake_up` -/
def stWakeUp [Field R] [LinearOrder R] [FloorRing R] (m : Machine R) :
    Machine R :=
  { m with
    timers := enableHwTimer 1 m.timers
    stepper :=
      { m.stepper with
        dacScale := uint32 (truncate
          (33 * 60 * m.config.stepsPerMm .x * 200 / 1024 / 10)) } }

/-- `st_go_idle` -/
def stGoIdle (m : Machine R) : Machine R :=
  { m with
    timers := disableHwTimer 1 m.timers
    gpio := clearAllStepPins m.gpio }

/-! ## The interrupt -/

/-- Record the hand-over of a block. -/
def Gpio.mark (g : Gpio) : Gpio := { g with trace := .load :: g.trace }

/-- Start tracing the block in slot `i`. -/
def loadBlock (i : Nat) (m : Machine R) : Machine R :=
  let b := m.planner.blockBuffer i
  let m := trapezoidGeneratorReset b
    { m with stepper := { m.stepper with currentBlock := some i } }
  { m with
    stepper :=
      { m.stepper with
        counter := fun _ => -(b.stepEventCount / 2)
        stepEventsCompleted := 0
        directionBits := b.directionBits
        stepBitsXyz := 0
        stepBitsE := 0 }
    gpio := setDirectionPins b.directionBits m.gpio.mark }

/-- If there is no current block, attempt to pop one from the buffer. -/
def popBlock (m : Machine R) : Machine R :=
  match m.stepper.currentBlock with
  | some _ => m
  | none =>
      match planGetCurrentBlock m.planner with
      | some i => loadBlock i m
      | none => stGoIdle m

/-- The Bresenham step of one axis. -/
def traceAxis (b : Block R) (s : StepperState) (a : Axis) : StepperState :=
  let count := int32 (s.counter a + b.steps a)
  if count > 0 then
    let s :=
      { s with counter := a.set (int32 (count - b.stepEventCount)) s.counter }
    if a = .e then { s with stepBitsE := s.stepBitsE ||| stepPin a }
    else { s with stepBitsXyz := s.stepBitsXyz ||| stepPin a }
  else { s with counter := a.set count s.counter }

/-- The Bresenham step of all axes. -/
def traceAxes (b : Block R) (s : StepperState) : StepperState :=
  Axis.all.foldl (traceAxis b) { s with stepBitsXyz := 0, stepBitsE := 0 }

/-- The endstop condition of a homing block. -/
def endstopHit (inp : StInputs) (directionBits : BitVec 32) (b : Block R) :
    Bool :=
  [Axis.x, Axis.y, Axis.z].any fun a =>
    decide (b.steps a ≠ 0) &&
      inp.hitHomeStop a (directionBits &&& dirPin a ≠ 0)

/-- A homing block that has hit its endstop ends at once. -/
def checkEndstops (inp : StInputs) (b : Block R) (s : StepperState) : StepperState :=
  if b.checkEndstops && endstopHit inp s.directionBits b then
    { s with
      stepEventsCompleted := uint32 b.stepEventCount
      stepBitsXyz := 0
      stepBitsE := 0 }
  else s

/-- The current block is finished. -/
def discardCurrent (m : Machine R) : Machine R :=
  { m with
    stepper := { m.stepper with currentBlock := none }
    planner := planDiscardCurrentBlock m.planner }

/-- One step event of a move: trace, count, check the endstops, pulse. -/
def stepEvent (inp : StInputs) (b : Block R) (m : Machine R) : Machine R :=
  let s := traceAxes b m.stepper
  let gpio := clearStepPins s m.gpio
  let s := { s with stepEventsCompleted := uint32 (s.stepEventsCompleted + 1) }
  setStepPins { m with stepper := checkEndstops inp b s, gpio }

/-- The interrupt for a block of type `AT_MOVE`. -/
def moveInterrupt (inp : StInputs) (b : Block R) (m : Machine R) : Machine R :=
  let m := stepEvent inp b m
  if m.stepper.stepEventsCompleted < uint32 b.stepEventCount then
    trapezoidTick b m
  else discardCurrent m

/-- The interrupt for a block of type `AT_WAIT_TEMPS`. -/
def waitInterrupt (inp : StInputs) (m : Machine R) : Machine R :=
  let m :=
    { m with stepper := { m.stepper with stepBitsXyz := 0, stepBitsE := 0 } }
  if inp.tempAchieved then discardCurrent m else m

/-- Serve the current block, if there is one. -/
def serveBlock (inp : StInputs) (m : Machine R) : Machine R :=
  match m.stepper.currentBlock with
  | some i =>
      let b := m.planner.blockBuffer i
      match b.actionType with
      | .move => moveInterrupt inp b m
      | .waitTemps => waitInterrupt inp m
      | .moveEndstop | .wait => m
  | none =>
      { m with stepper := { m.stepper with stepBitsXyz := 0, stepBitsE := 0 } }

/-- The LEDs at the end of the interrupt. -/
def settlePins (m : Machine R) : Machine R :=
  match m.stepper.currentBlock with
  | none =>
      { m with
        stepper := { m.stepper with ledsEnabled := false, ledOn := 0 }
        gpio := clearAllStepPins m.gpio }
  | some _ => { m with gpio := clearStepPinsByState m.stepper m.gpio }

/-- `st_interrupt` -/
def stInterrupt (inp : StInputs) (m : Machine R) : Machine R :=
  if m.stepper.busy then m
  else
    let m := { m with stepper := { m.stepper with busy := true } }
    let m := settlePins (serveBlock inp (popBlock m))
    { m with stepper := { m.stepper with busy := false } }

/-- `accelCallback` -/
def accelCallback (m : Machine R) : Machine R :=
  { m with stepper := { m.stepper with accelFlag := true } }

/-- `stepCallback`, with its debug pin. -/
def stepCallback (inp : StInputs) (m : Machine R) : Machine R :=
  let m := stInterrupt inp { m with gpio := gpioSetValue 1 (1#32 <<< 15) m.gpio }
  { m with gpio := gpioClearValue 1 (1#32 <<< 15) m.gpio }

/-- The statics of `stepper.c` at program start. -/
def StepperState.zero : StepperState where
  ledCount := fun _ => 0
  ledOn := 0
  ledsEnabled := false
  dacScale := 0
  dacValue := 0
  currentBlock := none
  directionBits := 0
  stepBitsE := 0
  stepBitsXyz := 0
  counter := fun _ => 0
  stepEventsCompleted := 0
  busy := false
  cyclesPerStepEvent := 0
  trapezoidTickCycleCounter := 0
  trapezoidAdjustedRate := 0
  minSafeRate := 0
  accelFlag := false

/-- `st_init`: timer 0 ticks for the acceleration, timer 1 for the steps. -/
def stInit (m : Machine R) : Machine R :=
  let m :=
    { m with
      timers := enableHwTimer 0
        (setHwTimerInterval 0 (ticksPerMicrosecond * 1000) m.timers) }
  let m := setStepEventsPerMinute 6000 m
  stGoIdle { m with stepper := { m.stepper with trapezoidTickCycleCounter := 0 } }

/-- The machine at power-up, with every pin low and every timer stopped. -/
def Machine.zero [Field R] (config : Configuration R) : Machine R where
  config
  planner := .zero
  stepper := .zero
  gpio := { pins := fun _ => 0, trace := [] }
  timers := { enabled := fun _ => false, interval := fun _ => 0 }

/-- The machine after `plan_init` and `st_init`. -/
def Machine.start [Field R] (config : Configuration R) : Machine R :=
  let m := Machine.zero config
  stInit { m with planner := planInit m.planner }

/-- `plan_buffer_action` with its final `st_wake_up()`. -/
def bufferAction [Field R] [LinearOrder R] [HasSqrt R] [FloorRing R]
    (pAction : ActionRequest R) (m : Machine R) : Machine R :=
  let (planner, woken) := planBufferAction m.config pAction m.planner
  let m := { m with planner }
  if woken then stWakeUp m else m

end R2C2Firmware.Ports.Stepper
