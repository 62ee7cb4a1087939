import R2C2Firmware.Ports.OriginFree
import R2C2Firmware.Ports.PulseHistory
import R2C2Firmware.Ports.StepperDrain

/-!
# What is printed is what was asked for

From the bytes of a line to the pulses on the pins: between two moments of a
session, with no line in between that says where the machine is, each motor has
been given the change of the planned position, less what is still outstanding.
When the queue has run empty both times, nothing is outstanding, and the pulses
are the distance between the two points, each rounded to steps by itself.
However many moves led from one to the other, no rounding adds up.

The planner and the motors may disagree at the start, and do after homing: then
they keep disagreeing by the same number of steps.

## Main results

* `pulses_follow_plan` — at every moment.
* `pulses_between_points` — between two moments with nothing queued.
-/

set_option linter.unusedSectionVars false

namespace R2C2Firmware.Ports.PulseBalance

open Relation
open R2C2Firmware.Verified.Number
open R2C2Firmware.Verified.BusyWait
open R2C2Firmware.Ports.Config
open R2C2Firmware.Ports.MotionPlanner
open R2C2Firmware.Ports.Stepper
open R2C2Firmware.Ports.Temp
open R2C2Firmware.Ports.Sermsg
open R2C2Firmware.Ports.GcodeParse
open R2C2Firmware.Ports.Mendel
open R2C2Firmware.Ports.GcodeProcess
open R2C2Firmware.Ports.MainLoop
open R2C2Firmware.Ports.PositionAgreement
open R2C2Firmware.Ports.OriginFree

variable {R σ : Type}

/-- The motors are behind the plan by what is outstanding, but for an offset. -/
def Balanced (offset : Axis → Int) (m : Machine R) : Prop :=
  ∃ past, (∀ a, netOf past a = offset a) ∧ (m.after past).Conserved

section Machine

variable {offset : Axis → Int} {m m' : Machine R}

theorem Balanced.position (h : Balanced offset m) (a : Axis) :
    m.planner.position a = m.gpio.netPulses a + offset a +
      outstanding a m.stepper.currentBlock m.gpio m.planner.queue := by
  obtain ⟨past, hnet, hcons⟩ := h
  have hbalance := hcons.balance a
  have hout : outstanding a m.stepper.currentBlock (m.gpio.after past)
        m.planner.queue =
      outstanding a m.stepper.currentBlock m.gpio m.planner.queue := by
    unfold outstanding
    simp only [emitted_after]
  simp only [planner_after, gpio_after, stepper_after, netPulses_after, hnet,
    hout] at hbalance
  exact hbalance

/-- The balance is about the plan, the pins and the block in execution. -/
theorem Balanced.congr (h : Balanced offset m) (hplan : m'.planner = m.planner)
    (hgpio : m'.gpio = m.gpio)
    (htracing : m'.stepper.tracing = m.stepper.tracing) : Balanced offset m' := by
  obtain ⟨past, hnet, hcons⟩ := h
  simp only [StepperState.tracing, Prod.mk.injEq] at htracing
  obtain ⟨hcur, hcounter, hdone, -⟩ := htracing
  refine ⟨past, hnet, ?_⟩
  unfold Machine.Conserved at hcons ⊢
  simp only [planner_after, gpio_after, stepper_after] at hcons ⊢
  rwa [hplan, hgpio, hcur, hcounter, hdone]

/-- Pins may change that neither step nor turn a motor. -/
theorem Balanced.quiet {g : Gpio} (h : Balanced offset m)
    (hq : Pulses (fun _ => false) m.gpio g) :
    Balanced offset { m with gpio := g } := by
  obtain ⟨past, hnet, hcons⟩ := h
  refine ⟨past, hnet, hcons.quiet ?_⟩
  obtain ⟨hdir, evs, htrace, hload, hcount⟩ := hq
  refine ⟨hdir, evs, ?_, hload, hcount⟩
  simp [Gpio.after, htrace]

theorem Balanced.interrupt (inp : StInputs) (h : Balanced offset m) :
    Balanced offset (stInterrupt inp m) := by
  obtain ⟨past, hnet, hcons⟩ := h
  refine ⟨past, hnet, ?_⟩
  rw [← stInterrupt_after]
  exact stInterrupt_conserved inp hcons

/-- A machine with nothing queued is in balance. -/
theorem balanced_of_idle (hready : Ready m) (hempty : m.planner.queue = [])
    (hrange : ∀ a, |m.planner.position a| < 1073741824) :
    Balanced (fun a => m.planner.position a - m.gpio.netPulses a) m := by
  have hcur : m.stepper.currentBlock = none := by
    cases hc : m.stepper.currentBlock with
    | none => rfl
    | some i =>
        exact absurd (hready.wf.queue_eq_nil.1 hempty) (hready.current i hc).2
  refine ⟨pulsesOf fun a => m.planner.position a - m.gpio.netPulses a,
    netOf_pulsesOf _, ?_⟩
  refine ⟨hready.wf, ?_, fun a => abs_lt.1 (hrange a), ?_, fun a => ?_⟩
  · simp [hempty]
  · intro i hi
    rw [stepper_after, hcur] at hi
    exact absurd hi (by simp)
  · simp only [planner_after, gpio_after, stepper_after, netPulses_after, hcur,
      hempty, netOf_pulsesOf]
    simp [outstanding, totalSteps]

end Machine

/-! ## Operations -/

section Operations

variable [Field R] [LinearOrder R] [HasSqrt R] [FloorRing R]
variable {P : Platform σ} {offset : Axis → Int}

theorem Balanced.request {m : Machine R} (h : Balanced offset m)
    {request : ActionRequest R} (hroom : planQueueFull m.planner = false)
    (hkind : request.actionType = .waitTemps ∨
      request.actionType = .move ∧ InRange m.config request.target) :
    Balanced offset (bufferAction request m) := by
  obtain ⟨past, hnet, hcons⟩ := h
  refine ⟨past, hnet, ?_⟩
  rw [← bufferAction_after]
  refine bufferAction_conserved ?_
  rcases hkind with hwait | ⟨hmove, hrange⟩
  · rw [planBufferAction, hwait]
    exact hcons.wait hroom hwait
  · rw [planBufferAction, hmove]
    exact hcons.line hroom hmove hrange

/-- The pins that neither step nor turn a motor: fans, heaters, the enables of the
drivers, and the one for debugging. -/
def OtherPin (port bit : Nat) : Prop :=
  ∀ a, (1#32 <<< bit).getLsbD (directionBit a) = false ∧
    (stepPort a == port && (1#32 <<< bit).getLsbD (stepBit a)) = false

theorem OtherPin.set {port bit : Nat} (h : OtherPin port bit) (g : Gpio) :
    Pulses (fun _ => false) g (gpioSetValue port (1#32 <<< bit) g) := by
  refine (gpioSetValue_pulses g fun a => (h a).1).congr fun a => ?_
  rw [(h a).2, Bool.false_and]

theorem OtherPin.clear {port bit : Nat} (h : OtherPin port bit) (g : Gpio) :
    Pulses (fun _ => false) g (gpioClearValue port (1#32 <<< bit) g) :=
  .of_trace_eq rfl (gpioClearValue_direction g fun a => (h a).1)

theorem OtherPin.write {port bit : Nat} (h : OtherPin port bit) (state : Bool)
    {fw : Firmware R σ} (hfw : Balanced offset fw.machine) :
    Balanced offset (digitalWrite port bit state fw).machine := by
  cases state with
  | true => exact hfw.quiet (h.set _)
  | false => exact hfw.quiet (h.clear _)

theorem otherPin_control {port bit : Nat} (h : (port, bit) ∈ controlPins) :
    OtherPin port bit := by
  simp only [controlPins, List.mem_cons, Prod.mk.injEq, List.not_mem_nil,
    or_false] at h
  intro a
  rcases h with ⟨rfl, rfl⟩ | ⟨rfl, rfl⟩ | ⟨rfl, rfl⟩ | ⟨rfl, rfl⟩ | ⟨rfl, rfl⟩ <;>
    cases a <;> decide

theorem otherPin_heater (bit : Nat) (h : bit = 4 ∨ bit = 5) : OtherPin 2 bit := by
  intro a
  rcases h with rfl | rfl <;> cases a <;> decide

theorem otherPin_debug : OtherPin 1 15 := by
  intro a
  cases a <;> decide

theorem balanced_irq (i : Irq) {fw : Firmware R σ}
    (h : Balanced offset fw.machine) :
    Balanced offset (serveIrq P i fw).machine := by
  cases i with
  | step =>
      show Balanced offset (if fw.machine.timers.enabled 1 then _ else _ :
        Firmware R σ).machine
      split
      · exact ((h.quiet (otherPin_debug.set _)).interrupt _).quiet
          (otherPin_debug.clear _)
      · exact h
  | accel =>
      show Balanced offset (if fw.machine.timers.enabled 0 then _ else _ :
        Firmware R σ).machine
      split
      · exact h.congr rfl rfl rfl
      · exact h
  | temperature extruder bed =>
      show Balanced offset (temperatureTimerCallback extruder bed fw).machine
      unfold temperatureTimerCallback
      dsimp only
      split
      · exact h
      · exact (otherPin_heater 5 (.inr rfl)).write _
          ((otherPin_heater 4 (.inl rfl)).write _ h)
  | buzzerOff | endstops => exact h

/-- What a command that sets no origin does keeps the balance. -/
theorem balanced_advance {fw fw' : Firmware R σ} (hstep : Advance P fw fw')
    (h : Balanced offset fw.machine) : Balanced offset fw'.machine := by
  cases hstep with
  | irq i => exact balanced_irq i h
  | frame hsame => rwa [hsame]
  | settings f => exact h.congr rfl rfl rfl
  | pin hpin state => exact (otherPin_control hpin).write state h
  | stopTicks => exact h.congr rfl rfl rfl
  | wait fw hroom => exact h.request hroom (.inl rfl)
  | move fw hkind hrange hroom => exact h.request hroom (.inr ⟨hkind, hrange⟩)
  | feed t =>
      obtain ⟨past, hnet, hcons⟩ := h
      exact ⟨past, hnet, ⟨hcons.wf.head_lt, hcons.wf.tail_lt⟩, hcons.blocks,
        hcons.range, hcons.current, hcons.balance⟩

theorem balanced_background {fw fw' : Firmware R σ} (hb : Background P fw fw')
    (h : Balanced offset fw.machine) : Balanced offset fw'.machine := by
  cases hb with
  | irq i => exact balanced_irq i h
  | sdPoll =>
      unfold sdPoll
      split
      · split <;> exact h
      · exact h
  | countTimeout =>
      unfold countTimeout
      split <;> exact h

/-- The balance is kept as long as no line sets an origin. -/
theorem visited_balanced {s : Session R σ}
    {hist : List (Session R σ × List UInt8)} {fw : Firmware R σ}
    (h : Visited P s hist fw) (h₀ : Balanced offset s.fw.machine)
    (hreach : ∀ x ∈ hist, LineReaches x.1 x.2) : Balanced offset fw.machine :=
  @Visited.invariant R σ _ _ _ _ _ P (fun fw => Balanced offset fw.machine)
    LineReaches (fun _ _ => balanced_background)
    (fun _ _ irqs hline hs => keep_of_reflTransGen
      (fun fw => Balanced offset fw.machine) (takeLine_advances hline irqs)
      (fun _ _ => balanced_advance) hs) _ _ _ h h₀ hreach

/-! ## The block in execution -/

theorem ready_irq (i : Irq) {fw : Firmware R σ} (h : Ready fw.machine) :
    Ready (serveIrq P i fw).machine := by
  cases i with
  | step =>
      show Ready (if fw.machine.timers.enabled 1 then _ else _ :
        Firmware R σ).machine
      split
      · have hpin : Ready { fw.machine with
            gpio := gpioSetValue 1 (1#32 <<< 15) fw.machine.gpio } :=
          h.other rfl rfl rfl rfl
        exact (hpin.interrupt _).other rfl rfl rfl rfl
      · exact h
  | accel =>
      show Ready (if fw.machine.timers.enabled 0 then _ else _ :
        Firmware R σ).machine
      split
      · exact h.other rfl rfl rfl rfl
      · exact h
  | temperature extruder bed =>
      show Ready (temperatureTimerCallback extruder bed fw).machine
      unfold temperatureTimerCallback
      dsimp only
      split
      · exact h
      · exact h.other rfl rfl rfl rfl
  | buzzerOff | endstops => exact h

theorem ready_touch {fw fw' : Firmware R σ} (hstep : Touch P fw fw')
    (h : Ready fw.machine) : Ready fw'.machine := by
  cases hstep with
  | quiet hq =>
      cases hq with
      | irq i => exact ready_irq i h
      | frame hsame => rwa [hsame]
      | settings | pin | stopTicks | place => exact h.other rfl rfl rfl rfl
      | wait fw hroom => exact h.request waitRequest hroom
  | move fw hkind hroom => exact h.request _ hroom
  | feed t => exact h.other rfl rfl rfl rfl

theorem ready_background {fw fw' : Firmware R σ} (hb : Background P fw fw')
    (h : Ready fw.machine) : Ready fw'.machine := by
  cases hb with
  | irq i => exact ready_irq i h
  | sdPoll =>
      unfold sdPoll
      split
      · split <;> exact h
      · exact h
  | countTimeout =>
      unfold countTimeout
      split <;> exact h

/-- The block in execution is the oldest one queued, whatever the lines are. -/
theorem visited_ready {s : Session R σ}
    {hist : List (Session R σ × List UInt8)} {fw : Firmware R σ}
    (h : Visited P s hist fw) (h₀ : Ready s.fw.machine) : Ready fw.machine :=
  @Visited.invariant R σ _ _ _ _ _ P (fun fw => Ready fw.machine)
    (fun _ _ => True) (fun _ _ => ready_background)
    (fun _ _ irqs _ hs => takeLine_keep (fun fw => Ready fw.machine)
      (fun _ _ => ready_touch) (fun _ _ h => h.other rfl rfl rfl rfl) irqs hs)
    _ _ _ h h₀ fun _ _ => trivial

/-- The main loop is entered ready, unless a block was taken up before. -/
theorem ready_init {s : Session R σ}
    (hcur : s.fw.machine.stepper.currentBlock = none)
    (hbusy : s.fw.machine.stepper.busy = false) : Ready s.init.fw.machine :=
  (MachineRun.init (R := R) s.init.fw.machine s.fw.machine.planner rfl hcur
    hbusy).ready

/-! ## Between two moments -/

section Between

variable {s₀ s : Session R σ} {hist hist' : List (Session R σ × List UInt8)}
  {fw : Firmware R σ}

/-- From a moment with nothing queued on, as long as no line sets an origin: the
motors have been given the change of the planned position, less what is
outstanding. -/
theorem pulses_follow_plan (hcur : s₀.fw.machine.stepper.currentBlock = none)
    (hbusy : s₀.fw.machine.stepper.busy = false) (h : Run P s₀.init hist s)
    (hempty : s.fw.machine.planner.queue = [])
    (hrange : ∀ a, |s.fw.machine.planner.position a| < 1073741824)
    (h' : Visited P s hist' fw) (hreach : ∀ x ∈ hist', LineReaches x.1 x.2)
    (a : Axis) :
    fw.machine.gpio.netPulses a - s.fw.machine.gpio.netPulses a =
      fw.machine.planner.position a - s.fw.machine.planner.position a -
        outstanding a fw.machine.stepper.currentBlock fw.machine.gpio
          fw.machine.planner.queue := by
  have hready := visited_ready (.between h) (ready_init hcur hbusy)
  have hbalanced := visited_balanced h' (balanced_of_idle hready hempty hrange) hreach
  have hposition := hbalanced.position a
  omega

/-- Between two moments with nothing queued, the pulses on an axis are the
difference of the two points, each rounded to steps. -/
theorem pulses_between_points [IsStrictOrderedRing R]
    (hcur : s₀.fw.machine.stepper.currentBlock = none)
    (hbusy : s₀.fw.machine.stepper.busy = false) (h : Run P s₀.init hist s)
    (hempty : s.fw.machine.planner.queue = [])
    (hrange : ∀ a, |s.fw.machine.planner.position a| < 1073741824)
    (h' : Visited P s hist' fw) (hempty' : fw.machine.planner.queue = [])
    (hreach : ∀ x ∈ hist', LineReaches x.1 x.2)
    (hscale : ∀ x ∈ hist' ++ hist, ScaleKept x.1 x.2) (a : Axis) :
    fw.machine.gpio.netPulses a - s.fw.machine.gpio.netPulses a =
      int32 (lround (fw.startpoint.coord a * fw.config.stepsPerMm a)) -
        int32 (lround (s.fw.startpoint.coord a * s.fw.config.stepsPerMm a)) := by
  have hready := visited_ready h' (visited_ready (.between h) (ready_init hcur hbusy))
  have hnone : fw.machine.stepper.currentBlock = none := by
    cases hc : fw.machine.stepper.currentBlock with
    | none => rfl
    | some i =>
        exact absurd (hready.wf.queue_eq_nil.1 hempty') (hready.current i hc).2
  have hpulses := pulses_follow_plan hcur hbusy h hempty hrange h' hreach a
  have hagrees : Agrees s.fw :=
    @Visited.invariant R σ _ _ _ _ _ P Agrees ScaleKept
      (fun _ _ => background_agrees)
      (fun s data irqs => takeLine_agrees s data irqs) _ _ _ (.between h)
      (init_agrees s₀)
      fun x hx => hscale x (List.mem_append_right _ hx)
  have hagrees' : Agrees fw :=
    @Visited.invariant R σ _ _ _ _ _ P Agrees ScaleKept
      (fun _ _ => background_agrees)
      (fun s data irqs => takeLine_agrees s data irqs) _ _ _ h' hagrees
      fun x hx => hscale x (List.mem_append_left _ hx)
  rw [← hagrees a, ← hagrees' a, hpulses, hempty', hnone]
  simp [outstanding, totalSteps]

end Between

end Operations

/-! ## Two moves -/

section Example

/-- Two moves of 0.017 mm, which are 1.36 steps each. -/
def firstLine : List UInt8 := str "G1 X0.017 F600\n"

@[inherit_doc firstLine]
def secondLine : List UInt8 := str "G1 X0.034\n"

/-- The session when the first move has been queued. -/
def firstQueued : Session ℚ Unit :=
  (playLine noCard defaultStart firstLine).get (by decide +kernel)

/-- The session when the interrupt of the single step of the first move has come. -/
def firstMoved : Session ℚ Unit :=
  { firstQueued with fw := serveIrq noCard .step firstQueued.fw }

/-- The session when the second move has been queued. -/
def secondQueued : Session ℚ Unit :=
  (playLine noCard firstMoved secondLine).get (by decide +kernel)

/-- The first of its two steps has been made. -/
def halfway : Session ℚ Unit :=
  { secondQueued with fw := serveIrq noCard .step secondQueued.fw }

/-- The lines, latest first. -/
def twoLines : List (Session ℚ Unit × List UInt8) :=
  [(firstMoved, secondLine), (defaultStart, firstLine)]

/-- The moment after an interrupt. -/
theorem visited_next {R σ : Type} [Field R] [LinearOrder R] [HasSqrt R] [FloorRing R]
    {P : Platform σ} {s₀ s : Session R σ} {hist : List (Session R σ × List UInt8)}
    (h : Run P s₀ hist s) (i : Irq) : Visited P s₀ hist (serveIrq P i s.fw) :=
  .between (h.background (.irq i s.fw))

theorem secondQueued_run : Run noCard defaultStart twoLines secondQueued := by
  have hfirst : LineDone noCard defaultStart firstLine firstQueued :=
    lineDone_of_playLine (Option.some_get _).symm
  have hsecond : LineDone noCard firstMoved secondLine secondQueued :=
    lineDone_of_playLine (Option.some_get _).symm
  exact ((Run.refl.line hfirst).background (.irq .step firstQueued.fw)).line hsecond

theorem halfway_run : Run noCard defaultStart twoLines halfway :=
  secondQueued_run.background (.irq .step secondQueued.fw)

theorem twoLines_reach (x : Session ℚ Unit × List UInt8) (hx : x ∈ twoLines) :
    LineReaches x.1 x.2 ∧ ScaleKept x.1 x.2 := by
  have hcmd : ∀ y ∈ twoLines, commandOf (parsed y.1 y.2) = .g .g1 := by
    intro y hy
    rcases List.mem_pair.1 hy with rfl | rfl <;> decide +kernel
  refine ⟨fun _ => ⟨by rw [hcmd x hx]; rfl, reaches_g1 (hcmd x hx) fun a => ?_⟩,
    fun _ h => absurd ((hcmd x hx).symm.trans h) (by decide)⟩
  rcases List.mem_pair.1 hx with rfl | rfl <;> cases a <;> decide +kernel

theorem start_range (a : Axis) :
    |defaultStart.fw.machine.planner.position a| < 1073741824 := by
  cases a <;> decide +kernel

/-- Two pulses have come, and one is outstanding. -/
theorem pulses_follow_plan_halfway :
    halfway.fw.machine.gpio.netPulses .x - defaultStart.fw.machine.gpio.netPulses .x =
      3 - outstanding .x halfway.fw.machine.stepper.currentBlock halfway.fw.machine.gpio
        halfway.fw.machine.planner.queue ∧
    halfway.fw.machine.gpio.netPulses .x = 2 := by
  have hvisited : Visited noCard defaultStart twoLines halfway.fw :=
    .between halfway_run
  have hpulses := pulses_follow_plan
    (show defaultBoot.fw.machine.stepper.currentBlock = none from rfl) rfl .refl
    (by decide +kernel) start_range hvisited
    (fun x hx => (twoLines_reach x hx).1) .x
  have hposition : halfway.fw.machine.planner.position .x -
      defaultBoot.init.fw.machine.planner.position .x = 3 := by decide +kernel
  rw [hposition] at hpulses
  exact ⟨hpulses, by decide +kernel⟩

/-- Each move by itself would be rounded to one step. -/
theorem pulses_between_points_uneven :
    (serveIrq noCard .step halfway.fw).machine.gpio.netPulses .x -
        defaultStart.fw.machine.gpio.netPulses .x = 3 := by
  have hvisited : Visited noCard defaultStart twoLines (serveIrq noCard .step halfway.fw) :=
    visited_next halfway_run .step
  have hpulses := pulses_between_points
    (show defaultBoot.fw.machine.stepper.currentBlock = none from rfl) rfl .refl
    (by decide +kernel) start_range hvisited (by decide +kernel)
    (fun x hx => (twoLines_reach x hx).1)
    (fun x hx => (twoLines_reach x (by simpa using hx)).2) .x
  exact hpulses.trans (by decide +kernel)

end Example

end R2C2Firmware.Ports.PulseBalance
