import R2C2Firmware.Ports.PositionAgreement

/-!
# Setting the step rate

`set_step_events_per_minute` divides twice: by the rate, which it has raised to
at least 1200 by then, and by `dac_scale`, which `st_wake_up` computes whenever a
block is queued.

`st_init` sets a first rate.  It runs before any block of the main loop is
queued, so `dac_scale` is then what the boot code has left: zero, unless playing
`autoexec.g` has queued a block.  In the main loop the rate is set by the step
interrupt only.  Its timer is started by `st_wake_up`, so there the divisor is
always right.

The functions are written down a second time with every execution of
`set_step_events_per_minute` noted.

## Main results

* `fst_stepCallback` — the record apart, the interrupt is the same.
* `rates_divide` — runs in which `autoexec.g` leaves a block pending.
* `rate_divides_by_zero` — power-up without `autoexec.g`.
-/

set_option linter.unusedSectionVars false

namespace R2C2Firmware.Ports.RateSetting

open Relation
open R2C2Firmware.Verified.Number
open R2C2Firmware.Verified.BusyWait
open R2C2Firmware.Ports.Config
open R2C2Firmware.Ports.MotionPlanner
open R2C2Firmware.Ports.Stepper (Machine Gpio StInputs StepperState
  minimumStepsPerMinute cyclesPerAccelerationTick bufferAction)
open R2C2Firmware.Ports.Temp
open R2C2Firmware.Ports.Sermsg
open R2C2Firmware.Ports.GcodeParse
open R2C2Firmware.Ports.Mendel (Platform Firmware Irq FwM stInputs)
open R2C2Firmware.Ports.GcodeProcess
open R2C2Firmware.Ports.MainLoop
open R2C2Firmware.Ports.PositionAgreement

variable {R σ : Type}

/-! ## The executions -/

/-- An execution of `set_step_events_per_minute`: its two divisors. -/
structure RateCall where
  stepsPerMinute : Int
  dacScale : Int
  deriving DecidableEq, Repr

/-- The machine with the executions so far, latest first. -/
abbrev Noted (R : Type) := Machine R × List RateCall

/-- A part of the program that sets no rate. -/
def plain (f : Machine R → Machine R) (m : Noted R) : Noted R := (f m.1, m.2)

/-- `set_step_events_per_minute` -/
def setStepEventsPerMinute (stepsPerMinute : Int) (m : Noted R) : Noted R :=
  (Stepper.setStepEventsPerMinute stepsPerMinute m.1,
    { stepsPerMinute := max stepsPerMinute minimumStepsPerMinute
      dacScale := m.1.stepper.dacScale } :: m.2)

/-- Set the current rate and program the timer with it. -/
def adjustRate (rate : Int) (m : Noted R) : Noted R :=
  setStepEventsPerMinute rate (plain (fun m =>
    { m with stepper := { m.stepper with trapezoidAdjustedRate := rate } }) m)

/-- `trapezoid_generator_reset` -/
def trapezoidGeneratorReset (b : Block R) (m : Noted R) : Noted R :=
  adjustRate b.initialRate (plain (fun m =>
    { m with
      stepper :=
        { m.stepper with
          minSafeRate := uint32 (b.rateDelta + b.rateDelta / 2)
          trapezoidTickCycleCounter := cyclesPerAccelerationTick / 2 } }) m)

/-- The flag of the acceleration tick is taken. -/
def clearAccelFlag (m : Machine R) : Machine R :=
  { m with stepper := { m.stepper with accelFlag := false } }

/-- The acceleration part of the interrupt, while the block goes on. -/
def trapezoidTick (b : Block R) (m : Noted R) : Noted R :=
  let s := m.1.stepper
  if s.stepEventsCompleted < b.accelerateUntil then
    if s.accelFlag then
      let rate := uint32 (s.trapezoidAdjustedRate + b.rateDelta)
      plain clearAccelFlag
        (adjustRate (if rate ≥ b.nominalRate then b.nominalRate else rate) m)
    else m
  else if s.stepEventsCompleted ≥ b.decelerateAfter then
    if s.stepEventsCompleted = b.decelerateAfter then
      plain (fun m =>
        { m with
          stepper :=
            { m.stepper with
              trapezoidTickCycleCounter := cyclesPerAccelerationTick / 2 } }) m
    else if s.accelFlag then
      let rate :=
        if s.trapezoidAdjustedRate > uint32 b.rateDelta then
          uint32 (s.trapezoidAdjustedRate - b.rateDelta)
        else s.trapezoidAdjustedRate
      plain clearAccelFlag
        (adjustRate (if rate < b.finalRate then b.finalRate else rate) m)
    else m
  else if s.trapezoidAdjustedRate ≠ b.nominalRate then adjustRate b.nominalRate m
  else m

/-- Start tracing the block in slot `i`. -/
def loadBlock (i : Nat) (m : Noted R) : Noted R :=
  let b := m.1.planner.blockBuffer i
  let m := trapezoidGeneratorReset b (plain (fun m =>
    { m with stepper := { m.stepper with currentBlock := some i } }) m)
  plain (fun m =>
    { m with
      stepper :=
        { m.stepper with
          counter := fun _ => -(b.stepEventCount / 2)
          stepEventsCompleted := 0
          directionBits := b.directionBits
          stepBitsXyz := 0
          stepBitsE := 0 }
      gpio := Stepper.setDirectionPins b.directionBits m.gpio.mark }) m

/-- If there is no current block, attempt to pop one from the buffer. -/
def popBlock (m : Noted R) : Noted R :=
  match m.1.stepper.currentBlock with
  | some _ => m
  | none =>
      match planGetCurrentBlock m.1.planner with
      | some i => loadBlock i m
      | none => plain Stepper.stGoIdle m

/-- The interrupt for a block of type `AT_MOVE`. -/
def moveInterrupt (inp : StInputs) (b : Block R) (m : Noted R) : Noted R :=
  let m := plain (Stepper.stepEvent inp b) m
  if m.1.stepper.stepEventsCompleted < uint32 b.stepEventCount then
    trapezoidTick b m
  else plain Stepper.discardCurrent m

/-- Serve the current block, if there is one. -/
def serveBlock (inp : StInputs) (m : Noted R) : Noted R :=
  match m.1.stepper.currentBlock with
  | some i =>
      let b := m.1.planner.blockBuffer i
      match b.actionType with
      | .move => moveInterrupt inp b m
      | .waitTemps => plain (Stepper.waitInterrupt inp) m
      | .moveEndstop | .wait => m
  | none => plain (fun m =>
      { m with
        stepper := { m.stepper with stepBitsXyz := 0, stepBitsE := 0 } }) m

/-- `st_interrupt` -/
def stInterrupt (inp : StInputs) (m : Noted R) : Noted R :=
  if m.1.stepper.busy then m
  else
    let m := plain (fun m =>
      { m with stepper := { m.stepper with busy := true } }) m
    let m := plain Stepper.settlePins (serveBlock inp (popBlock m))
    plain (fun m => { m with stepper := { m.stepper with busy := false } }) m

/-- `stepCallback`, with its debug pin. -/
def stepCallback (inp : StInputs) (m : Noted R) : Noted R :=
  let m := stInterrupt inp (plain (fun m =>
    { m with gpio := Stepper.gpioSetValue 1 (1#32 <<< 15) m.gpio }) m)
  plain (fun m =>
    { m with gpio := Stepper.gpioClearValue 1 (1#32 <<< 15) m.gpio }) m

/-- `st_init` -/
def stInit (m : Noted R) : Noted R :=
  let m := plain (fun m =>
    { m with
      timers := Stepper.enableHwTimer 0 (Stepper.setHwTimerInterval 0
        (Stepper.ticksPerMicrosecond * 1000) m.timers) }) m
  let m := setStepEventsPerMinute 6000 m
  plain (fun m => Stepper.stGoIdle
    { m with stepper := { m.stepper with trapezoidTickCycleCounter := 0 } }) m

/-- The executions while an interrupt is served. -/
def irqCalls (P : Platform σ) (irq : Irq) (fw : Firmware R σ) : List RateCall :=
  match irq with
  | .step =>
      if fw.machine.timers.enabled 1 then
        (stepCallback (stInputs P fw) (fw.machine, [])).2
      else []
  | _ => []

/-! ## The record apart -/

section Same

theorem fst_trapezoidTick (b : Block R) (m : Noted R) :
    (trapezoidTick b m).1 = Stepper.trapezoidTick b m.1 := by
  unfold trapezoidTick Stepper.trapezoidTick
  dsimp only
  split
  · split <;> rfl
  · split
    · split
      · rfl
      · split <;> rfl
    · split <;> rfl

theorem fst_popBlock (m : Noted R) : (popBlock m).1 = Stepper.popBlock m.1 := by
  unfold popBlock Stepper.popBlock
  cases m.1.stepper.currentBlock with
  | some c => rfl
  | none =>
      dsimp only
      cases planGetCurrentBlock m.1.planner <;> rfl

theorem fst_moveInterrupt (inp : StInputs) (b : Block R) (m : Noted R) :
    (moveInterrupt inp b m).1 = Stepper.moveInterrupt inp b m.1 := by
  unfold moveInterrupt Stepper.moveInterrupt
  dsimp only [plain]
  split
  · exact fst_trapezoidTick b _
  · rfl

theorem fst_serveBlock (inp : StInputs) (m : Noted R) :
    (serveBlock inp m).1 = Stepper.serveBlock inp m.1 := by
  unfold serveBlock Stepper.serveBlock
  cases m.1.stepper.currentBlock with
  | none => rfl
  | some i =>
      dsimp only
      cases (m.1.planner.blockBuffer i).actionType with
      | move => exact fst_moveInterrupt inp _ m
      | waitTemps => rfl
      | moveEndstop => rfl
      | wait => rfl

theorem fst_stInterrupt (inp : StInputs) (m : Noted R) :
    (stInterrupt inp m).1 = Stepper.stInterrupt inp m.1 := by
  unfold stInterrupt Stepper.stInterrupt
  split
  · rfl
  · dsimp only [plain]
    rw [fst_serveBlock, fst_popBlock]

/-- An interrupt does what it does without the record. -/
theorem fst_stepCallback (inp : StInputs) (m : Noted R) :
    (stepCallback inp m).1 = Stepper.stepCallback inp m.1 := by
  unfold stepCallback Stepper.stepCallback
  dsimp only [plain]
  rw [fst_stInterrupt]

end Same

/-! ## The divisors -/

/-- Neither divisor is zero. -/
def RateCall.Divides (c : RateCall) : Prop :=
  c.stepsPerMinute ≠ 0 ∧ c.dacScale ≠ 0

/-- `dac_scale` is `d`, and the executions noted have used it. -/
def Uses (d : Int) (m : Noted R) : Prop :=
  m.1.stepper.dacScale = d ∧
    ∀ c ∈ m.2, minimumStepsPerMinute ≤ c.stepsPerMinute ∧ c.dacScale = d

section Uses

variable {d : Int} {m : Noted R}

theorem Uses.plain (h : Uses d m) {f : Machine R → Machine R}
    (hf : (f m.1).stepper.dacScale = m.1.stepper.dacScale) :
    Uses d (plain f m) :=
  ⟨hf.trans h.1, h.2⟩

theorem Uses.setStepEventsPerMinute (h : Uses d m) (rate : Int) :
    Uses d (setStepEventsPerMinute rate m) :=
  ⟨h.1, List.forall_mem_cons.2 ⟨⟨le_max_right _ _, h.1⟩, h.2⟩⟩

theorem Uses.adjustRate (h : Uses d m) (rate : Int) :
    Uses d (adjustRate rate m) :=
  (h.plain rfl).setStepEventsPerMinute rate

theorem Uses.trapezoidTick (h : Uses d m) (b : Block R) :
    Uses d (trapezoidTick b m) := by
  unfold RateSetting.trapezoidTick
  dsimp only
  split
  · split
    · exact (h.adjustRate _).plain rfl
    · exact h
  · split
    · split
      · exact h.plain rfl
      · split
        · exact (h.adjustRate _).plain rfl
        · exact h
    · split
      · exact h.adjustRate _
      · exact h

theorem Uses.popBlock (h : Uses d m) : Uses d (popBlock m) := by
  unfold RateSetting.popBlock
  split
  · exact h
  · split
    · exact (((h.plain rfl).plain rfl).adjustRate _).plain rfl
    · exact h.plain rfl

theorem traceAxes_dacScale (b : Block R) (s : StepperState) :
    (Stepper.traceAxes b s).dacScale = s.dacScale := by
  have hstep : ∀ (s : StepperState) (a : Axis),
      (Stepper.traceAxis b s a).dacScale = s.dacScale := by
    intro s a
    unfold Stepper.traceAxis
    dsimp only
    split
    · split <;> rfl
    · rfl
  unfold Stepper.traceAxes
  simp only [Axis.all, List.foldl_cons, List.foldl_nil, hstep]

theorem setStepPins_dacScale (m : Machine R) :
    (Stepper.setStepPins m).stepper.dacScale = m.stepper.dacScale := by
  have hcount : ∀ bits a (s : StepperState),
      (Stepper.countStep bits a s).dacScale = s.dacScale := by
    intro bits a s
    unfold Stepper.countStep Stepper.incLedCount
    split
    · dsimp only
      split <;> rfl
    · rfl
  unfold Stepper.setStepPins
  dsimp only
  split <;> simp only [hcount]

theorem stepEvent_dacScale (inp : StInputs) (b : Block R) (m : Machine R) :
    (Stepper.stepEvent inp b m).stepper.dacScale = m.stepper.dacScale := by
  have hcheck : ∀ s : StepperState,
      (Stepper.checkEndstops inp b s).dacScale = s.dacScale := by
    intro s
    unfold Stepper.checkEndstops
    split <;> rfl
  unfold Stepper.stepEvent
  dsimp only
  rw [setStepPins_dacScale, hcheck]
  exact traceAxes_dacScale b m.stepper

theorem Uses.moveInterrupt (h : Uses d m) (inp : StInputs) (b : Block R) :
    Uses d (moveInterrupt inp b m) := by
  have hstep := h.plain (stepEvent_dacScale inp b m.1)
  unfold RateSetting.moveInterrupt
  dsimp only
  split
  · exact hstep.trapezoidTick b
  · exact hstep.plain rfl

theorem Uses.serveBlock (h : Uses d m) (inp : StInputs) :
    Uses d (serveBlock inp m) := by
  unfold RateSetting.serveBlock
  split
  · dsimp only
    split
    · exact h.moveInterrupt inp _
    · refine h.plain ?_
      unfold Stepper.waitInterrupt
      dsimp only
      split <;> rfl
    · exact h
    · exact h
  · exact h.plain rfl

theorem Uses.stInterrupt (h : Uses d m) (inp : StInputs) :
    Uses d (stInterrupt inp m) := by
  unfold RateSetting.stInterrupt
  split
  · exact h
  · refine ((((h.plain rfl).popBlock).serveBlock inp).plain ?_).plain rfl
    unfold Stepper.settlePins
    split <;> rfl

theorem Uses.stepCallback (h : Uses d m) (inp : StInputs) :
    Uses d (stepCallback inp m) :=
  ((h.plain rfl).stInterrupt inp).plain rfl

theorem Uses.divides (h : Uses d m) (hd : d ≠ 0) : ∀ c ∈ m.2, c.Divides := by
  intro c hc
  obtain ⟨hrate, hscale⟩ := h.2 c hc
  unfold minimumStepsPerMinute at hrate
  exact ⟨by omega, hscale ▸ hd⟩

end Uses

/-! ## The scale -/

section Runs

variable [Field R] [LinearOrder R] [IsStrictOrderedRing R] [HasSqrt R]
  [FloorRing R] {P : Platform σ}

/-- The steps per millimetre are at least one, and `dac_scale` fits its type. -/
structure InRange (scale : R) : Prop where
  one_le : 1 ≤ scale
  fits : 396000 * scale < 43980465111040

theorem stWakeUp_dacScale {m : Machine R}
    (h : InRange (m.config.stepsPerMm .x)) :
    (Stepper.stWakeUp m).stepper.dacScale ≠ 0 := by
  have hval : 33 * 60 * m.config.stepsPerMm .x * 200 / 1024 / 10 =
      396000 * m.config.stepsPerMm .x / 10240 := by ring
  have hlow : (1 : R) ≤ 396000 * m.config.stepsPerMm .x / 10240 := by
    rw [le_div_iff₀ (by norm_num)]
    linarith [h.one_le]
  have hhigh : 396000 * m.config.stepsPerMm .x / 10240 < 4294967296 := by
    rw [div_lt_iff₀ (by norm_num)]
    linarith [h.fits]
  show uint32 (truncate (33 * 60 * m.config.stepsPerMm .x * 200 / 1024 / 10)) ≠ 0
  rw [hval, truncate, if_pos (by linarith)]
  have hfloor : 1 ≤ ⌊396000 * m.config.stepsPerMm .x / 10240⌋ :=
    Int.le_floor.2 (by simpa using hlow)
  have hfloor' : ⌊396000 * m.config.stepsPerMm .x / 10240⌋ < 4294967296 :=
    Int.floor_lt.2 (by simpa using hhigh)
  rw [uint32_of_range (by omega) hfloor']
  omega

/-- The scale is in range; and `dac_scale` has been computed when the step timer
runs or a block is pending. -/
structure Scaled (fw : Firmware R σ) : Prop where
  scale : InRange (fw.config.stepsPerMm .x)
  timer : fw.machine.timers.enabled 1 = true → fw.machine.stepper.dacScale ≠ 0
  pending : fw.machine.planner.queue ≠ [] → fw.machine.stepper.dacScale ≠ 0

/-- The step interrupt leaves `dac_scale` alone. -/
theorem stepCallback_dacScale (inp : StInputs) (m : Machine R) :
    (Stepper.stepCallback inp m).stepper.dacScale = m.stepper.dacScale := by
  have huses : Uses m.stepper.dacScale (stepCallback inp (m, [])) :=
    Uses.stepCallback ⟨rfl, fun _ h => absurd h List.not_mem_nil⟩ inp
  rw [← fst_stepCallback inp (m, [])]
  exact huses.1

theorem Scaled.irq {fw : Firmware R σ} (h : Scaled fw) (i : Irq) :
    Scaled (Mendel.serveIrq P i fw) := by
  have hscale : InRange ((Mendel.serveIrq P i fw).config.stepsPerMm .x) := by
    rw [Firmware.config, (serveIrq_samePoint P i fw).config]
    exact h.scale
  cases i with
  | step =>
      by_cases hon : fw.machine.timers.enabled 1 = true
      · have heq : (Mendel.serveIrq P .step fw).machine =
            Stepper.stepCallback (stInputs P fw) fw.machine := by
          show (if _ then _ else _ : Firmware R σ).machine = _
          rw [if_pos hon]
        have hne : (Mendel.serveIrq P .step fw).machine.stepper.dacScale ≠ 0 := by
          rw [heq, stepCallback_dacScale]
          exact h.timer hon
        exact ⟨hscale, fun _ => hne, fun _ => hne⟩
      · have heq : Mendel.serveIrq P .step fw = fw := by
          show (if _ then _ else _ : Firmware R σ) = _
          rw [if_neg hon]
        rw [heq]
        exact h
  | accel =>
      show Scaled (if _ then _ else _ : Firmware R σ)
      split
      · exact ⟨h.scale, h.timer, h.pending⟩
      · exact h
  | temperature extruder bed =>
      show Scaled (Mendel.temperatureTimerCallback extruder bed fw)
      unfold Mendel.temperatureTimerCallback
      dsimp only
      split <;> exact ⟨h.scale, h.timer, h.pending⟩
  | buzzerOff => exact ⟨h.scale, h.timer, h.pending⟩
  | endstops x y z => exact ⟨h.scale, h.timer, h.pending⟩

/-- A request that wakes nobody queues nothing. -/
theorem queue_length_of_not_woken {cfg : Configuration R}
    {request : ActionRequest R} {pl : Planner R}
    (h : (planBufferAction cfg request pl).2 = false) :
    (planBufferAction cfg request pl).1.queue.length = pl.queue.length := by
  have hline : (planBufferLine cfg request pl).2 = false →
      (planBufferLine cfg request pl).1.queue.length = pl.queue.length := by
    intro hwoken
    cases hzero : zeroLength cfg request pl with
    | true =>
        rw [planBufferLine_fst_of_zeroLength hzero]
        simp only [Planner.queue, Verified.Ring.length_contents]
    | false =>
        rw [planBufferLine, hzero, if_neg (by decide)] at hwoken
        exact absurd hwoken Bool.noConfusion
  unfold planBufferAction at h ⊢
  split at h
  · exact hline h
  · exact hline h
  · exact absurd (show true = false from h) Bool.noConfusion
  · exact absurd (show true = false from h) Bool.noConfusion

theorem Scaled.bufferAction {fw : Firmware R σ} (h : Scaled fw)
    (request : ActionRequest R) :
    Scaled { fw with machine := Stepper.bufferAction request fw.machine } := by
  have hscale : InRange
      ((Stepper.bufferAction request fw.machine).config.stepsPerMm .x) := by
    rw [(Stepper.bufferAction_frame request fw.machine).1]
    exact h.scale
  cases hwoken : (planBufferAction fw.machine.config request
      fw.machine.planner).2 with
  | true =>
      have heq : Stepper.bufferAction request fw.machine = Stepper.stWakeUp
          { fw.machine with
            planner := (planBufferAction fw.machine.config request
              fw.machine.planner).1 } := by
        unfold Stepper.bufferAction
        dsimp only
        rw [if_pos hwoken]
      have hne :
          (Stepper.bufferAction request fw.machine).stepper.dacScale ≠ 0 := by
        rw [heq]
        exact stWakeUp_dacScale h.scale
      exact ⟨hscale, fun _ => hne, fun _ => hne⟩
  | false =>
      have heq : Stepper.bufferAction request fw.machine =
          { fw.machine with
            planner := (planBufferAction fw.machine.config request
              fw.machine.planner).1 } := by
        unfold Stepper.bufferAction
        dsimp only
        rw [if_neg (by simp [hwoken])]
      refine ⟨hscale, ?_, ?_⟩
      · show (Stepper.bufferAction request fw.machine).timers.enabled 1 = true →
          (Stepper.bufferAction request fw.machine).stepper.dacScale ≠ 0
        rw [heq]
        exact h.timer
      · show (Stepper.bufferAction request fw.machine).planner.queue ≠ [] →
          (Stepper.bufferAction request fw.machine).stepper.dacScale ≠ 0
        rw [heq]
        intro hne
        refine h.pending fun hempty => hne (List.eq_nil_of_length_eq_zero ?_)
        rw [queue_length_of_not_woken hwoken, hempty]
        rfl

theorem Scaled.quiet {fw fw' : Firmware R σ} (hq : Quiet P fw fw')
    (h : Scaled fw) : Scaled fw' := by
  cases hq with
  | irq i => exact h.irq i
  | frame heq =>
      refine ⟨?_, ?_, ?_⟩
      · rw [Firmware.config, heq]
        exact h.scale
      · rw [heq]
        exact h.timer
      · rw [heq]
        exact h.pending
  | @settings f hf =>
      refine ⟨?_, h.timer, h.pending⟩
      show InRange ((f fw.machine.config).stepsPerMm .x)
      rw [hf]
      exact h.scale
  | pin hpin state => exact ⟨h.scale, h.timer, h.pending⟩
  | stopTicks =>
      refine ⟨h.scale, fun hon => h.timer ?_, h.pending⟩
      rwa [show (Stepper.disableHwTimer 0 fw.machine.timers).enabled 1 =
        fw.machine.timers.enabled 1 from rfl] at hon
  | wait hroom => exact h.bufferAction waitRequest
  | place ht => exact ⟨h.scale, h.timer, h.pending⟩

theorem Scaled.touch {fw fw' : Firmware R σ} (ht : Touch P fw fw')
    (h : Scaled fw) : Scaled fw' := by
  cases ht with
  | quiet hq => exact h.quiet hq
  | @move request fw hkind hroom => exact h.bufferAction request
  | feed t => exact ⟨h.scale, h.timer, h.pending⟩

theorem Scaled.background {fw fw' : Firmware R σ} (hb : Background P fw fw')
    (h : Scaled fw) : Scaled fw' := by
  cases hb with
  | irq i => exact h.irq i
  | sdPoll =>
      unfold sdPoll
      split
      · split <;> exact ⟨h.scale, h.timer, h.pending⟩
      · exact h
  | countTimeout =>
      unfold countTimeout
      split <;> exact ⟨h.scale, h.timer, h.pending⟩

/-- If the line is an `M200` that is processed and names the X axis, the new
scale is in range. -/
def ScaleInRange (s : Session R σ) (data : List UInt8) : Prop :=
  Processes s data → commandOf (parsed s data) = .m .m200 →
    (parsed s data).seenX = true → InRange (parsed s data).target.x

theorem Scaled.rescaled {fw : Firmware R σ} (h : Scaled fw) {c : GcodeCommand R}
    (hc : c.seenX = true → InRange c.target.x) :
    Scaled (GcodeProcess.rescaled c fw) := by
  refine ⟨?_, h.timer, h.pending⟩
  show InRange (if seenAxis c .x then c.target.x else fw.config.stepsPerMm .x)
  split
  · next hx => exact hc hx
  · exact h.scale

theorem takeLine_scaled (s : Session R σ) (data : List UInt8)
    (irqs : List Irq) (hok : ScaleInRange s data) (h : Scaled s.fw) :
    Scaled (takeLine P s data irqs).2.state := by
  by_cases hc : Processes s data ∧ commandOf (parsed s data) = .m .m200
  · exact keep_of_reflTransGen Scaled
      (takeLine_rescales hc.1 ((rescales_iff _).2 hc.2) irqs)
      (fun _ _ hq h => Scaled.quiet hq h) (h.rescaled (hok hc.1 hc.2))
  · refine keep_of_reflTransGen Scaled (takeLine_touch ?_ irqs)
      (fun _ _ ht h => Scaled.touch ht h) h
    intro hproc
    by_contra hne
    exact hc ⟨hproc, (rescales_iff _).1 (by simpa using hne)⟩

theorem Scaled.visited {s₀ : Session R σ}
    {hist : List (Session R σ × List UInt8)} {fw : Firmware R σ}
    (h₀ : Scaled s₀.fw) (hv : Visited P s₀ hist fw)
    (hok : ∀ x ∈ hist, ScaleInRange x.1 x.2) : Scaled fw :=
  hv.invariant (fun _ _ hb h => Scaled.background hb h)
    (fun s data irqs => takeLine_scaled s data irqs) h₀ hok

theorem scaled_boot {config : Configuration R}
    (h : InRange (config.stepsPerMm .x)) (fs : σ) :
    Scaled (Session.boot config fs).fw := by
  have hqueue : (Planner.zero : Planner R).queue = [] := by
    simp [Planner.queue, Planner.zero, Verified.Ring.contents, Verified.Ring.count]
  exact ⟨h, fun hon => Bool.noConfusion (show false = true from hon),
    fun hne => (hne hqueue).elim⟩

/-- `st_init` leaves the step timer stopped. -/
theorem scaled_init {s : Session R σ} (h : InRange (s.fw.config.stepsPerMm .x)) :
    Scaled s.init.fw :=
  ⟨h, fun hon => Bool.noConfusion (show false = true from hon),
    fun hne => (hne (planInit_queue _)).elim⟩

/-- Every execution that an interrupt brings about divides. -/
theorem Scaled.irqCalls {fw : Firmware R σ} (h : Scaled fw) (i : Irq) :
    ∀ c ∈ irqCalls P i fw, c.Divides := by
  intro c hc
  cases i with
  | step =>
      unfold RateSetting.irqCalls at hc
      dsimp only at hc
      split at hc
      · next hon =>
          have huses : Uses fw.machine.stepper.dacScale
              (stepCallback (stInputs P fw) (fw.machine, [])) :=
            Uses.stepCallback ⟨rfl, fun _ h => absurd h List.not_mem_nil⟩ _
          exact huses.divides (h.timer hon) c hc
      · exact absurd hc List.not_mem_nil
  | accel => exact absurd hc List.not_mem_nil
  | temperature extruder bed => exact absurd hc List.not_mem_nil
  | buzzerOff => exact absurd hc List.not_mem_nil
  | endstops x y z => exact absurd hc List.not_mem_nil

/-- The executions in `app_main`, between `read_config` and the main loop. -/
def initCalls (s : Session R σ) : List RateCall :=
  (stInit ({ s.fw.machine with planner := planInit s.fw.machine.planner }, [])).2

theorem initCalls_divide_iff (s : Session R σ) :
    (∀ c ∈ initCalls s, c.Divides) ↔ s.fw.machine.stepper.dacScale ≠ 0 := by
  have hcalls : initCalls s =
      [{ stepsPerMinute := max 6000 minimumStepsPerMinute
         dacScale := s.fw.machine.stepper.dacScale }] := rfl
  rw [hcalls]
  constructor
  · intro h
    exact (h _ (List.mem_singleton.2 rfl)).2
  · intro h c hc
    rw [List.mem_singleton.1 hc]
    exact ⟨show (6000 : Int) ≠ 0 by decide, h⟩

/-- A run from power-up in which the scale stays in range: when a block queued
by `autoexec.g` is pending as `plan_init` is called, every rate that is set,
while the file is played, in `st_init` and in the main loop, divides. -/
theorem rates_divide {config : Configuration R} {fs : σ}
    (hconfig : InRange (config.stepsPerMm .x))
    {hist₁ hist₂ : List (Session R σ × List UInt8)} {s₁ : Session R σ}
    {fw₂ : Firmware R σ} (hboot : Run P (Session.boot config fs) hist₁ s₁)
    (hmain : Visited P s₁.init hist₂ fw₂)
    (hscale : ∀ x ∈ hist₂ ++ hist₁, ScaleInRange x.1 x.2)
    (hpending : s₁.fw.machine.planner.queue ≠ []) :
    (∀ hist fw, hist <:+ hist₁ → Visited P (Session.boot config fs) hist fw →
        ∀ i, ∀ c ∈ irqCalls P i fw, c.Divides) ∧
      (∀ c ∈ initCalls s₁, c.Divides) ∧
      ∀ i, ∀ c ∈ irqCalls P i fw₂, c.Divides := by
  have h₀ := scaled_boot hconfig fs
  have h₁ : Scaled s₁.fw := h₀.visited (.between hboot) fun x hx =>
    hscale x (List.mem_append_right _ hx)
  have h₂ : Scaled fw₂ := (scaled_init h₁.scale).visited hmain fun x hx =>
    hscale x (List.mem_append_left _ hx)
  refine ⟨?_, ?_, fun i => h₂.irqCalls i⟩
  · intro hist fw hsuffix hv i
    refine (h₀.visited hv fun x hx => ?_).irqCalls i
    exact hscale x (List.mem_append_right _ (hsuffix.subset hx))
  · exact (initCalls_divide_iff s₁).2 (h₁.pending hpending)

end Runs

/-! ## Two power-ups -/

section Example

/-- `autoexec.g` has one line. -/
def startMove : List UInt8 := str "G1 X1 F600\n"

/-- The line has been played. -/
def afterStartMove : Session ℚ Unit :=
  (playLine noCard defaultBoot startMove).get (by decide +kernel)

/-- A block is pending when `st_init` sets its rate. -/
theorem rates_divide_startMove :
    Run noCard defaultBoot [(defaultBoot, startMove)] afterStartMove ∧
      ∀ c ∈ initCalls afterStartMove, c.Divides := by
  have hdone : LineDone noCard defaultBoot startMove afterStartMove :=
    lineDone_of_playLine (Option.some_get _).symm
  have hrun := Run.refl.line hdone
  refine ⟨hrun, (rates_divide ?_ hrun (.between .refl) ?_ ?_).2.1⟩
  · exact ⟨by decide +kernel, by decide +kernel⟩
  · intro x hx _ hcmd
    obtain rfl := List.mem_singleton.1 hx
    exact absurd hcmd (by decide +kernel)
  · intro hempty
    have hlength : afterStartMove.fw.machine.planner.queue.length ≠ 0 := by
      decide +kernel
    rw [hempty] at hlength
    exact hlength rfl

/-- Without `autoexec.g`, `st_init` divides by a `dac_scale` of zero. -/
theorem rate_divides_by_zero :
    Run noCard defaultBoot [] defaultBoot ∧
      InRange (defaultBoot.fw.config.stepsPerMm .x) ∧
      ∃ c ∈ initCalls defaultBoot, c.dacScale = 0 := by
  refine ⟨.refl, ⟨by decide +kernel, by decide +kernel⟩, ?_⟩
  exact ⟨⟨6000, 0⟩, by decide +kernel, rfl⟩

end Example

end R2C2Firmware.Ports.RateSetting
