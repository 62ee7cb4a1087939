import R2C2Firmware.Ports.StepperConservation

/-!
# Pulses of an earlier time

The trace of the pins is only written to, never read.  So a machine whose trace
also holds what happened before some point does the same as one whose trace
begins there.

The balance of steps and pulses is stated from the first pulse on.  With a past
put in front of the trace it can be stated from any point on.

## Main results

* `stInterrupt_after` — the interrupt does not look at the past.
* `netPulses_after` — the past adds its own pulses.
-/

namespace R2C2Firmware.Ports.Stepper

open R2C2Firmware.Verified.Number
open R2C2Firmware.Ports.Config
open R2C2Firmware.Ports.MotionPlanner

variable {R : Type*}

/-- The ports with a past behind the trace.  A hand-over ends the past, so that
its pulses do not count as those of a block. -/
def Gpio.after (past : List PinEvent) (g : Gpio) : Gpio :=
  { g with trace := g.trace ++ .load :: past }

/-- The machine with a past behind the trace. -/
def Machine.after (past : List PinEvent) (m : Machine R) : Machine R :=
  { m with gpio := m.gpio.after past }

/-- The net number of pulses in a list of events. -/
def netOf (evs : List PinEvent) (a : Axis) : Int :=
  evs.count (.rise a true) - evs.count (.rise a false)

/-- Pulses that add up to a number on each axis. -/
def pulsesOf (n : Axis → Int) : List PinEvent :=
  Axis.all.flatMap fun a =>
    List.replicate (n a).toNat (.rise a true) ++
      List.replicate (-n a).toNat (.rise a false)

theorem netOf_pulsesOf (n : Axis → Int) (a : Axis) : netOf (pulsesOf n) a = n a := by
  cases a <;>
    simp [netOf, pulsesOf, Axis.all, List.count_append, List.count_replicate]

section Pins

variable (past : List PinEvent) (g : Gpio)

/-- The pulses of the past are added to the net pulses of each axis. -/
@[simp] theorem netPulses_after (a : Axis) :
    (g.after past).netPulses a = g.netPulses a + netOf past a := by
  have hcount : ∀ d, (PinEvent.load :: past).count (.rise a d) =
      past.count (.rise a d) := fun d => List.count_cons_of_ne (by simp)
  simp only [Gpio.netPulses, Gpio.rises, Gpio.after, netOf, List.count_append, hcount]
  omega

/-- The pulses emitted since the block was taken up leave those of the past out. -/
@[simp] theorem emitted_after (a : Axis) :
    (g.after past).emitted a = g.emitted a := by
  have htake : ∀ l : List PinEvent, (l ++ .load :: past).takeWhile (· != .load) =
      l.takeWhile (· != .load) := by
    intro l
    induction l with
    | nil => rfl
    | cons ev l ih => simp [List.takeWhile_cons, ih]
  simp only [Gpio.emitted, Gpio.after, htake]

/-- Raising pins counts new pulses the same on top of any past. -/
@[simp] theorem gpioSetValue_after (port : Nat) (value : BitVec 32) :
    gpioSetValue port value (g.after past) = (gpioSetValue port value g).after past := by
  simp [gpioSetValue, Gpio.after, Gpio.rising, Gpio.level, Gpio.direction]

@[simp] theorem gpioClearValue_after (port : Nat) (value : BitVec 32) :
    gpioClearValue port value (g.after past) =
      (gpioClearValue port value g).after past :=
  rfl

@[simp] theorem mark_after : (g.after past).mark = g.mark.after past :=
  rfl

@[simp] theorem setDirectionPin_after (bits : BitVec 32) (a : Axis) :
    setDirectionPin bits (g.after past) a =
      (setDirectionPin bits g a).after past := by
  unfold setDirectionPin
  split
  · rfl
  · exact gpioSetValue_after past g _ _

/-- Setting the directions changes no pulse that was made before. -/
@[simp] theorem setDirectionPins_after (bits : BitVec 32) :
    setDirectionPins bits (g.after past) =
      (setDirectionPins bits g).after past := by
  simp [setDirectionPins, Axis.all]

@[simp] theorem clearAllStepPins_after :
    clearAllStepPins (g.after past) = (clearAllStepPins g).after past :=
  rfl

@[simp] theorem clearStepPins_after (s : StepperState) :
    clearStepPins s (g.after past) = (clearStepPins s g).after past := by
  simp [clearStepPins_eq]

/-- Lowering the step pins makes no pulse, whatever was made before. -/
@[simp] theorem clearStepPinsByState_after (s : StepperState) :
    clearStepPinsByState s (g.after past) =
      (clearStepPinsByState s g).after past := by
  simp only [clearStepPinsByState, gpioClearValue_after]
  split <;> rfl

end Pins

/-! ## The interrupt -/

section Interrupt

variable (past : List PinEvent) (m : Machine R)

@[simp] theorem config_after : (m.after past).config = m.config :=
  rfl

@[simp] theorem planner_after : (m.after past).planner = m.planner :=
  rfl

@[simp] theorem stepper_after : (m.after past).stepper = m.stepper :=
  rfl

@[simp] theorem gpio_after : (m.after past).gpio = m.gpio.after past :=
  rfl

/-- Taking up a block does not look at the pulses of the past. -/
theorem loadBlock_after (i : Nat) :
    loadBlock i (m.after past) = (loadBlock i m).after past := by
  simp [loadBlock, trapezoidGeneratorReset, adjustRate, setStepEventsPerMinute,
    Machine.after]

theorem popBlock_after : popBlock (m.after past) = (popBlock m).after past := by
  unfold popBlock
  rw [stepper_after, planner_after]
  split
  · rfl
  · split
    · exact loadBlock_after past m _
    · rfl

theorem setStepPins_after :
    setStepPins (m.after past) = (setStepPins m).after past := by
  unfold setStepPins
  dsimp only
  rw [stepper_after, gpio_after, gpioSetValue_after, gpioSetValue_after]
  split <;> rfl

/-- A step event adds its pulses to those of the past. -/
theorem stepEvent_after (inp : StInputs) (b : Block R) :
    stepEvent inp b (m.after past) = (stepEvent inp b m).after past := by
  unfold stepEvent
  dsimp only
  rw [stepper_after, gpio_after, clearStepPins_after, ← setStepPins_after]
  rfl

theorem trapezoidTick_after (b : Block R) :
    trapezoidTick b (m.after past) = (trapezoidTick b m).after past := by
  unfold trapezoidTick
  dsimp only
  rw [stepper_after]
  repeat' split
  all_goals rfl

/-- The interrupt of a move adds its pulses to those of the past. -/
theorem moveInterrupt_after (inp : StInputs) (b : Block R) :
    moveInterrupt inp b (m.after past) = (moveInterrupt inp b m).after past := by
  unfold moveInterrupt
  dsimp only
  rw [stepEvent_after, stepper_after]
  split
  · exact trapezoidTick_after past _ b
  · rfl

/-- The interrupt of any block adds its pulses to those of the past. -/
theorem serveBlock_after (inp : StInputs) :
    serveBlock inp (m.after past) = (serveBlock inp m).after past := by
  unfold serveBlock
  rw [stepper_after, planner_after]
  split
  · next i _ =>
      dsimp only
      split
      · exact moveInterrupt_after past m inp _
      · unfold waitInterrupt
        dsimp only
        split <;> rfl
      · rfl
      · rfl
  · rfl

theorem settlePins_after :
    settlePins (m.after past) = (settlePins m).after past := by
  unfold settlePins
  rw [stepper_after]
  split
  · rfl
  · rw [gpio_after, clearStepPinsByState_after]
    rfl

/-- The interrupt does not look at the past. -/
theorem stInterrupt_after (inp : StInputs) :
    stInterrupt inp (m.after past) = (stInterrupt inp m).after past := by
  unfold stInterrupt
  dsimp only
  rw [stepper_after]
  split
  · rfl
  · have hbusy : { m.after past with stepper := { m.stepper with busy := true } } =
        Machine.after past { m with stepper := { m.stepper with busy := true } } :=
      rfl
    rw [hbusy, popBlock_after, serveBlock_after, settlePins_after]
    rfl

/-- A request for a move or a wait does not look at the pulses of the past. -/
theorem bufferAction_after [Field R] [LinearOrder R] [HasSqrt R] [FloorRing R]
    (request : ActionRequest R) :
    bufferAction request (m.after past) = (bufferAction request m).after past := by
  unfold bufferAction
  dsimp only
  rw [config_after, planner_after]
  split <;> rfl

end Interrupt

end R2C2Firmware.Ports.Stepper
