import R2C2Firmware.Ports.StepperFrame

/-!
# The step rate stays within the plan

While a block is executed the planner may move the ends of its ramps and its
final rate, and acceleration ticks come when they like.  The rate is an unsigned
integer that is added to and subtracted from.  This file shows that it stays
between what the block starts and ends with and its nominal rate, whatever
happens between the interrupts, and that the timer is programmed accordingly.

## Main results

* `rate_within_plan` — the bounds, over every run of the interrupt through a
  block.
-/

set_option linter.unusedSectionVars false

namespace R2C2Firmware.Ports.Stepper

open R2C2Firmware.Verified.Number
open R2C2Firmware.Ports.Config
open R2C2Firmware.Ports.MotionPlanner

variable {R : Type*}

/-! ## What sets the rate -/

/-- The interval of the step timer for a rate, `set_step_events_per_minute`. -/
def stepInterval (rate : Int) : Int :=
  configStepTimer (uint32 (ticksPerMicrosecond * 1000000 * 6 / rate * 10))

/-- The part of a machine that the trapezoid generator is about. -/
structure Pace where
  rate : Int
  interval : Int

/-- The pace of a machine. -/
def Machine.pace (m : Machine R) : Pace where
  rate := m.stepper.trapezoidAdjustedRate
  interval := m.timers.interval 1

theorem adjustRate_pace (rate : Int) (m : Machine R) :
    (adjustRate rate m).pace =
      ⟨rate, stepInterval (max rate minimumStepsPerMinute)⟩ := by
  have hinterval : (adjustRate rate m).timers.interval 1 =
      stepInterval (max rate minimumStepsPerMinute) := by
    show Function.update m.timers.interval 1 _ 1 = _
    rw [Function.update_self]
    rfl
  unfold Machine.pace
  rw [hinterval]
  rfl

theorem accelFlag_pace (m : Machine R) (accelFlag : Bool) :
    Machine.pace { m with stepper := { m.stepper with accelFlag } } = m.pace :=
  rfl

theorem countStep_rate (bits : BitVec 32) (a : Axis) (s : StepperState) :
    (countStep bits a s).trapezoidAdjustedRate = s.trapezoidAdjustedRate := by
  unfold countStep
  split
  · unfold incLedCount
    dsimp only
    split <;> rfl
  · rfl

theorem setStepPins_pace (m : Machine R) : (setStepPins m).pace = m.pace := by
  unfold Machine.pace setStepPins
  dsimp only
  split <;> simp only [countStep_rate]

theorem stepEvent_pace (inp : StInputs) (b : Block R) (m : Machine R) :
    (stepEvent inp b m).pace = m.pace := by
  unfold stepEvent
  dsimp only
  rw [setStepPins_pace, traceAxes_eq]
  unfold Machine.pace checkEndstops
  dsimp only
  split <;> rfl

theorem settlePins_pace (m : Machine R) : (settlePins m).pace = m.pace := by
  unfold settlePins
  split <;> rfl

/-! ## One interrupt -/

/-- What the bounds rest on: the rates of a block when it is taken up. -/
structure Ramp (b : Block R) : Prop where
  initial : 0 ≤ b.initialRate ∧ b.initialRate ≤ b.nominalRate
  delta : 0 ≤ b.rateDelta
  room : b.nominalRate + b.rateDelta < 4294967296

/-- The bounds of the rate.  `finals` are the final rates that have been in
force. -/
structure Paced (b : Block R) (finals : List Int) (p : Pace) : Prop where
  nonneg : 0 ≤ p.rate
  upper : p.rate ≤ b.nominalRate
  lower : b.initialRate ≤ p.rate ∨ ∃ f ∈ finals, f ≤ p.rate
  interval : p.interval = stepInterval (max p.rate minimumStepsPerMinute)

/-- The block in execution, as the planner has left it: ramps and final rate
may differ from what they were when it was taken up. -/
structure SameRates (b c : Block R) : Prop where
  kind : c.actionType = .move
  nominal : c.nominalRate = b.nominalRate
  delta : c.rateDelta = b.rateDelta
  final : 0 ≤ c.finalRate ∧ c.finalRate ≤ b.nominalRate

section Tick

variable {b c : Block R} {finals : List Int} {m : Machine R}

theorem Paced.more {p : Pace} (h : Paced b finals p) (f : Int) :
    Paced b (f :: finals) p :=
  { h with
    lower := h.lower.imp id fun ⟨g, hg, hle⟩ =>
      ⟨g, List.mem_cons_of_mem f hg, hle⟩ }

/-- Setting a rate no lower than the present one, or no lower than the final
one. -/
theorem Paced.adjust (h : Paced b finals m.pace) {rate : Int}
    (hupper : rate ≤ b.nominalRate)
    (hlower : m.pace.rate ≤ rate ∨ 0 ≤ c.finalRate ∧ c.finalRate ≤ rate) :
    Paced b (c.finalRate :: finals) (adjustRate rate m).pace := by
  have hnonneg := h.nonneg
  rw [adjustRate_pace]
  refine ⟨?_, hupper, ?_, rfl⟩
  · dsimp only
    omega
  · rcases hlower with hle | ⟨-, hle⟩
    · exact (h.more c.finalRate).lower.imp (fun h => h.trans hle)
        fun ⟨g, hg, hgle⟩ => ⟨g, hg, hgle.trans hle⟩
    · exact .inr ⟨c.finalRate, List.mem_cons_self, hle⟩

theorem trapezoidTick_paced (hb : Ramp b) (hc : SameRates b c)
    (h : Paced b finals m.pace) :
    Paced b (c.finalRate :: finals) (trapezoidTick c m).pace := by
  have hnonneg : 0 ≤ m.stepper.trapezoidAdjustedRate := h.nonneg
  have hupper : m.stepper.trapezoidAdjustedRate ≤ b.nominalRate := h.upper
  have hdelta := hb.delta
  have hroom := hb.room
  have hfinal := hc.final
  have hup : uint32 (m.stepper.trapezoidAdjustedRate + b.rateDelta) =
      m.stepper.trapezoidAdjustedRate + b.rateDelta :=
    uint32_of_range (by omega) (by omega)
  have hdown : uint32 b.rateDelta = b.rateDelta :=
    uint32_of_range hdelta (by omega)
  have hslow : (if m.stepper.trapezoidAdjustedRate > uint32 b.rateDelta
      then uint32 (m.stepper.trapezoidAdjustedRate - b.rateDelta)
      else m.stepper.trapezoidAdjustedRate) ≤ b.nominalRate := by
    split
    · rw [uint32_of_range (by omega) (by omega)]
      omega
    · exact hupper
  unfold trapezoidTick
  dsimp only
  rw [hc.nominal, hc.delta]
  split
  · split
    · -- an acceleration tick, up to the nominal rate
      rw [accelFlag_pace]
      refine h.adjust ?_ (.inl ?_)
      · split <;> omega
      · show m.stepper.trapezoidAdjustedRate ≤ _
        split <;> omega
    · exact h.more _
  · split
    · split
      · exact h.more _
      · split
        · -- a deceleration tick, down to the final rate
          rw [accelFlag_pace]
          generalize (if m.stepper.trapezoidAdjustedRate > uint32 b.rateDelta
            then uint32 (m.stepper.trapezoidAdjustedRate - b.rateDelta)
            else m.stepper.trapezoidAdjustedRate) = slowed at hslow ⊢
          refine h.adjust ?_ (.inr ⟨hfinal.1, ?_⟩)
          · split <;> omega
          · split <;> omega
        · exact h.more _
    · split
      · exact h.adjust (le_refl _) (.inl hupper)
      · exact h.more _

/-- In the cruise phase the tick sets the nominal rate. -/
theorem trapezoidTick_cruise
    (haccel : c.accelerateUntil ≤ m.stepper.stepEventsCompleted)
    (hdecel : m.stepper.stepEventsCompleted < c.decelerateAfter) :
    (trapezoidTick c m).pace.rate = c.nominalRate := by
  unfold trapezoidTick
  dsimp only
  rw [if_neg (not_lt.2 haccel), if_neg (not_le.2 hdecel)]
  split
  · rw [adjustRate_pace]
  · next heq => exact not_not.1 heq

end Tick

/-- The bounds after an interrupt, with the nominal rate while cruising. -/
structure PacedAt (i : Nat) (b : Block R) (finals : List Int) (m : Machine R) :
    Prop where
  bounds : Paced b finals m.pace
  cruise : m.stepper.currentBlock = some i →
    (m.planner.blockBuffer i).accelerateUntil ≤ m.stepper.stepEventsCompleted →
    m.stepper.stepEventsCompleted < (m.planner.blockBuffer i).decelerateAfter →
    m.stepper.trapezoidAdjustedRate = b.nominalRate

section Interrupt

variable {i : Nat} {b : Block R} {finals : List Int} {m : Machine R}

theorem stepEvent_planner (inp : StInputs) (c : Block R) (m : Machine R) :
    (stepEvent inp c m).planner = m.planner :=
  (setStepPins_frame _).1

theorem moveInterrupt_pacedAt (inp : StInputs) (hb : Ramp b)
    (hc : SameRates b (m.planner.blockBuffer i)) (h : Paced b finals m.pace) :
    PacedAt i b ((m.planner.blockBuffer i).finalRate :: finals)
      (moveInterrupt inp (m.planner.blockBuffer i) m) := by
  have hpace := stepEvent_pace inp (m.planner.blockBuffer i) m
  have hplan := stepEvent_planner inp (m.planner.blockBuffer i) m
  unfold moveInterrupt
  dsimp only
  generalize stepEvent inp (m.planner.blockBuffer i) m = m' at hpace hplan ⊢
  rw [← hpace] at h
  split
  · obtain ⟨hplan', -, htracing⟩ :=
      trapezoidTick_frame (m.planner.blockBuffer i) m'
    have hdone : (trapezoidTick (m.planner.blockBuffer i)
        m').stepper.stepEventsCompleted = m'.stepper.stepEventsCompleted :=
      congrArg (fun t => t.2.2.1) htracing
    refine ⟨trapezoidTick_paced hb hc h, ?_⟩
    rw [hplan', hplan, hdone]
    intro _ haccel hdecel
    rw [← hc.nominal]
    exact trapezoidTick_cruise haccel hdecel
  · exact ⟨h.more _, fun hcur => absurd hcur (by simp [discardCurrent])⟩

theorem PacedAt.settle (h : PacedAt i b finals m) :
    PacedAt i b finals (settlePins m) := by
  refine ⟨(settlePins_pace m).symm ▸ h.bounds, ?_⟩
  have hcruise := h.cruise
  unfold settlePins
  split <;> exact hcruise

/-- An interrupt in the middle of a block. -/
theorem stInterrupt_pacedAt (inp : StInputs) (hb : Ramp b)
    (hc : SameRates b (m.planner.blockBuffer i)) (h : Paced b finals m.pace)
    (hbusy : m.stepper.busy = false) (hcur : m.stepper.currentBlock = some i) :
    PacedAt i b ((m.planner.blockBuffer i).finalRate :: finals)
      (stInterrupt inp m) := by
  rw [stInterrupt_move inp hbusy hcur hc.kind]
  have hmove := moveInterrupt_pacedAt (m := setBusy true m) inp hb hc h
  obtain ⟨hbounds, hcruise⟩ := hmove.settle
  exact ⟨hbounds, hcruise⟩

/-- The interrupt that takes a block up leaves the pace within the bounds of the block.
-/
theorem stInterrupt_load_pacedAt (inp : StInputs)
    (hb : Ramp (m.planner.blockBuffer i))
    (hc : SameRates (m.planner.blockBuffer i) (m.planner.blockBuffer i))
    (hbusy : m.stepper.busy = false) (hcur : m.stepper.currentBlock = none)
    (hget : planGetCurrentBlock m.planner = some i) :
    PacedAt i (m.planner.blockBuffer i)
      [(m.planner.blockBuffer i).finalRate] (stInterrupt inp m) := by
  rw [stInterrupt_load inp hbusy hcur hget hc.kind]
  have hload : (loadBlock i (setBusy true m)).pace =
      ⟨(m.planner.blockBuffer i).initialRate,
        stepInterval (max (m.planner.blockBuffer i).initialRate
          minimumStepsPerMinute)⟩ :=
    adjustRate_pace _ _
  have hstart : Paced (m.planner.blockBuffer i) []
      (loadBlock i (setBusy true m)).pace := by
    rw [hload]
    exact ⟨hb.initial.1, hb.initial.2, .inl (le_refl _), rfl⟩
  have hmove := moveInterrupt_pacedAt (m := loadBlock i (setBusy true m)) inp
    hb hc hstart
  obtain ⟨hbounds, hcruise⟩ := hmove.settle
  exact ⟨hbounds, hcruise⟩

end Interrupt

/-! ## Runs -/

/-- Between two interrupts: the tick flag, the ramps and the final rate of the
block in execution may change, and so may the rest of the queue. -/
structure Replanned (i : Nat) (b : Block R) (m m' : Machine R) : Prop where
  pace : m'.pace = m.pace
  busy : m'.stepper.busy = m.stepper.busy
  current : m'.stepper.currentBlock = m.stepper.currentBlock
  block : SameRates b (m'.planner.blockBuffer i)

/-- The interrupts over the block in slot `i`, which was `b` when it was taken
up, with the final rates in force at each of them. -/
inductive RateRun (i : Nat) (b : Block R) : List Int → Machine R → Prop
  | load {m : Machine R} (inp : StInputs) : m.stepper.busy = false →
      m.stepper.currentBlock = none →
      planGetCurrentBlock m.planner = some i → m.planner.blockBuffer i = b →
      SameRates b b → RateRun i b [b.finalRate] (stInterrupt inp m)
  | next {finals : List Int} {m m' : Machine R} (inp : StInputs) :
      RateRun i b finals m → Replanned i b m m' →
      m'.stepper.currentBlock = some i →
      RateRun i b ((m'.planner.blockBuffer i).finalRate :: finals)
        (stInterrupt inp m')

theorem RateRun.pacedAt {i : Nat} {b : Block R} {finals : List Int}
    {m : Machine R} (hb : Ramp b) (h : RateRun i b finals m) :
    PacedAt i b finals m ∧ m.stepper.busy = false := by
  induction h with
  | load inp hbusy hcur hget hblock hc =>
      subst hblock
      exact ⟨stInterrupt_load_pacedAt inp hb hc hbusy hcur hget,
        stInterrupt_busy inp hbusy⟩
  | next inp _ hplan hcur ih =>
      have hbusy := hplan.busy.trans ih.2
      have hbounds := ih.1.bounds
      rw [← hplan.pace] at hbounds
      exact ⟨stInterrupt_pacedAt inp hb hplan.block hbounds hbusy hcur,
        stInterrupt_busy inp hbusy⟩

/-- Along every run over a block the rate lies between the smaller of its
initial rate and the final rates in force and its nominal rate; it is the
nominal rate while cruising; and the timer is programmed for exactly this rate,
or for the minimum rate when that is larger. -/
theorem rate_within_plan {i : Nat} {b : Block R} {finals : List Int}
    {m : Machine R} (hinitial : 0 ≤ b.initialRate ∧ b.initialRate ≤ b.nominalRate)
    (hdelta : 0 ≤ b.rateDelta)
    (hroom : b.nominalRate + b.rateDelta < 4294967296)
    (h : RateRun i b finals m) :
    0 ≤ m.stepper.trapezoidAdjustedRate ∧
      m.stepper.trapezoidAdjustedRate ≤ b.nominalRate ∧
      (m.stepper.currentBlock = some i →
        (m.planner.blockBuffer i).accelerateUntil ≤
          m.stepper.stepEventsCompleted →
        m.stepper.stepEventsCompleted <
          (m.planner.blockBuffer i).decelerateAfter →
        m.stepper.trapezoidAdjustedRate = b.nominalRate) ∧
      (b.initialRate ≤ m.stepper.trapezoidAdjustedRate ∨
        ∃ f ∈ finals, f ≤ m.stepper.trapezoidAdjustedRate) ∧
      m.timers.interval 1 = stepInterval
        (max m.stepper.trapezoidAdjustedRate minimumStepsPerMinute) ∧
      max m.stepper.trapezoidAdjustedRate minimumStepsPerMinute ≤
        max b.nominalRate minimumStepsPerMinute := by
  have hat := (h.pacedAt ⟨hinitial, hdelta, hroom⟩).1
  have hupper : m.stepper.trapezoidAdjustedRate ≤ b.nominalRate :=
    hat.bounds.upper
  refine ⟨hat.bounds.nonneg, hupper, hat.cruise, hat.bounds.lower,
    hat.bounds.interval, ?_⟩
  exact max_le_max hupper (le_refl _)

/-- Ten steps along X, on exact rationals. -/
def tenSteps : ActionRequest ℚ := ⟨.move, ⟨1 / 8, 0, 0, 0, 600, false⟩⟩

/-- The first two interrupts over ten steps, with an acceleration tick in
between. -/
theorem rate_within_plan_tenSteps :
    let inp : StInputs := ⟨false, fun _ _ => false⟩
    let m₀ := bufferAction tenSteps (Machine.start .default)
    let m := stInterrupt inp (accelCallback (stInterrupt inp m₀))
    0 < m.stepper.trapezoidAdjustedRate ∧
      m.stepper.trapezoidAdjustedRate ≤
        (m₀.planner.blockBuffer 0).nominalRate := by
  intro inp m₀ m
  have hfinal : 0 ≤ (m₀.planner.blockBuffer 0).finalRate ∧
      (m₀.planner.blockBuffer 0).finalRate ≤
        (m₀.planner.blockBuffer 0).nominalRate := by decide +kernel
  have hsame : SameRates (m₀.planner.blockBuffer 0)
      (m₀.planner.blockBuffer 0) :=
    ⟨by decide +kernel, rfl, rfl, hfinal⟩
  have hload : RateRun 0 (m₀.planner.blockBuffer 0)
      [(m₀.planner.blockBuffer 0).finalRate] (stInterrupt inp m₀) :=
    .load inp (by decide +kernel) (by decide +kernel) (by decide +kernel) rfl
      hsame
  have hplan : Replanned 0 (m₀.planner.blockBuffer 0) (stInterrupt inp m₀)
      (accelCallback (stInterrupt inp m₀)) :=
    ⟨rfl, rfl, rfl, by decide +kernel, by decide +kernel, by decide +kernel,
      by decide +kernel⟩
  have hrun := RateRun.next inp hload hplan (by decide +kernel)
  exact ⟨by decide +kernel, (rate_within_plan (by decide +kernel)
    (by decide +kernel) (by decide +kernel) hrun).2.1⟩

end R2C2Firmware.Ports.Stepper
