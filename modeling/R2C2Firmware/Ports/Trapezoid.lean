import R2C2Firmware.Ports.MotionPlanner

/-!
# The trapezoid of a block

`calculate_trapezoid_for_block` rounds the two rates, the ramp up to the nominal
rate, the ramp down from it and the intersection of the ramps separately.  Both
rates stay below the nominal rate, the two switch points are in order, and
wherever there is a plateau the nominal rate is reached before it and the final
rate behind it.

The lengths of the ramps are `int32_t`.  A ramp of 2³¹ steps or more does not fit,
and the switch points come out past the end of the block.

## Main results

* `trapezoid_wellFormed` — the shape, for ramps that fit.
* `calculateTrapezoidForBlock_eq` — the same for the code, where the acceleration
  fits its variable, too.
* `ramp_overflows` — a ramp that does not.
-/

set_option linter.unusedSectionVars false

namespace R2C2Firmware.Ports.Trapezoid

open R2C2Firmware.Verified.Number
open R2C2Firmware.Ports.MotionPlanner

variable {R : Type*} [Field R] [LinearOrder R] [FloorRing R]

/-! ## The function, after the acceleration -/

/-- `calculate_trapezoid_for_block`, when `acceleration_per_minute` has been
computed. -/
def trapezoidFor (accelerationPerMinute : Int) (block : Block R)
    (entryFactor exitFactor : R) : Block R :=
  let initialRate := uint32 ⌈(block.nominalRate : R) * entryFactor⌉
  let finalRate := uint32 ⌈(block.nominalRate : R) * exitFactor⌉
  let accelerateSteps := int32 ⌈estimateAccelerationDistance
    (initialRate : R) (block.nominalRate : R) (accelerationPerMinute : R)⌉
  let decelerateSteps := int32 ⌊estimateAccelerationDistance
    (block.nominalRate : R) (finalRate : R) (-accelerationPerMinute : Int)⌋
  let plateauSteps :=
    int32 (block.stepEventCount - accelerateSteps - decelerateSteps)
  if plateauSteps < 0 then
    let accelerateSteps := int32 ⌈intersectionDistance (initialRate : R)
      (finalRate : R) (accelerationPerMinute : R) (block.stepEventCount : R)⌉
    let accelerateSteps := min (max accelerateSteps 0) block.stepEventCount
    { block with
      initialRate, finalRate
      accelerateUntil := uint32 accelerateSteps
      decelerateAfter := uint32 accelerateSteps }
  else
    { block with
      initialRate, finalRate
      accelerateUntil := uint32 accelerateSteps
      decelerateAfter := uint32 (accelerateSteps + plateauSteps) }

/-- `rate_delta * ACCELERATION_TICKS_PER_SECOND * 60` -/
def exactAcceleration (block : Block R) : Int :=
  block.rateDelta * accelerationTicksPerSecond * 60

/-- Where the acceleration fits its variable, it is taken exactly. -/
theorem calculateTrapezoidForBlock_eq [IsStrictOrderedRing R] {block : Block R}
    (hdelta : 1 ≤ block.rateDelta) (hfits : exactAcceleration block < 2147483648)
    (entryFactor exitFactor : R) :
    calculateTrapezoidForBlock block entryFactor exitFactor =
      trapezoidFor (exactAcceleration block) block entryFactor exitFactor := by
  have hticks : accelerationTicksPerSecond = 1000 := rfl
  unfold exactAcceleration at hfits ⊢
  rw [hticks] at hfits ⊢
  have hint : int32 (block.rateDelta * 1000) = block.rateDelta * 1000 :=
    int32_of_range (by omega) (by omega)
  have hcast : ((block.rateDelta * 1000 : Int) : R) * 60 =
      ((block.rateDelta * 1000 * 60 : Int) : R) := by
    push_cast
    ring
  have htrunc : truncate ((block.rateDelta * 1000 * 60 : Int) : R) =
      block.rateDelta * 1000 * 60 := by
    unfold truncate
    split
    · exact Int.floor_intCast _
    · exact Int.ceil_intCast _
  have hacc : int32 (truncate ((int32 (block.rateDelta * accelerationTicksPerSecond) :
      R) * 60)) = block.rateDelta * 1000 * 60 := by
    rw [hticks, hint, hcast, htrunc]
    exact int32_of_range (by omega) (by omega)
  have hneg : int32 (-(block.rateDelta * 1000 * 60)) =
      -(block.rateDelta * 1000 * 60) :=
    int32_of_range (by omega) (by omega)
  unfold calculateTrapezoidForBlock trapezoidFor
  rw [hacc]
  dsimp only
  rw [hneg]

/-! ## The shape -/

section Shape

variable [IsStrictOrderedRing R]

/-- The steps from the initial rate up to the nominal rate. -/
def rampUp (block : Block R) (entryFactor : R) : Int :=
  ⌈estimateAccelerationDistance ((⌈(block.nominalRate : R) * entryFactor⌉ : Int) : R)
    (block.nominalRate : R) (exactAcceleration block : R)⌉

/-- The steps from the nominal rate down to the final rate. -/
def rampDown (block : Block R) (exitFactor : R) : Int :=
  ⌊estimateAccelerationDistance (block.nominalRate : R)
    ((⌈(block.nominalRate : R) * exitFactor⌉ : Int) : R)
    (-exactAcceleration block : Int)⌋

/-- A factor up to one of the nominal rate, rounded up. -/
theorem ceil_factor {n : Int} {x : R} (hn : 0 ≤ n) (hx0 : 0 ≤ x) (hx1 : x ≤ 1) :
    0 ≤ ⌈(n : R) * x⌉ ∧ ⌈(n : R) * x⌉ ≤ n := by
  have hnR : (0 : R) ≤ n := by exact_mod_cast hn
  constructor
  · exact Int.ceil_nonneg (mul_nonneg hnR hx0)
  · rw [Int.ceil_le]
    exact mul_le_of_le_one_right hnR hx1

/-- A ramp up that is rounded up is long enough. -/
theorem rampUp_spec {i n acc : Int} (hacc : 0 < acc) (hi0 : 0 ≤ i) (hin : i ≤ n) :
    let steps := ⌈estimateAccelerationDistance (i : R) (n : R) (acc : R)⌉
    0 ≤ steps ∧ n ^ 2 ≤ i ^ 2 + 2 * acc * steps := by
  intro steps
  have haccR : (0 : R) < 2 * acc := by
    have : (0 : R) < acc := by exact_mod_cast hacc
    linarith
  have hsq : i * i ≤ n * n := mul_self_le_mul_self hi0 hin
  have hsqR : (i : R) * i ≤ n * n := by exact_mod_cast hsq
  constructor
  · exact Int.ceil_nonneg (div_nonneg (sub_nonneg.2 hsqR) haccR.le)
  · have hle : estimateAccelerationDistance (i : R) (n : R) (acc : R) ≤ steps :=
      Int.le_ceil _
    unfold estimateAccelerationDistance at hle
    rw [div_le_iff₀ haccR] at hle
    have hint : n * n - i * i ≤ steps * (2 * acc) := by exact_mod_cast hle
    nlinarith

/-- A ramp down that is rounded down ends less than a step too early. -/
theorem rampDown_spec {f n acc : Int} (hacc : 0 < acc) (hf0 : 0 ≤ f) (hfn : f ≤ n) :
    let steps := ⌊estimateAccelerationDistance (n : R) (f : R) (-acc : Int)⌋
    0 ≤ steps ∧ f ^ 2 ≤ n ^ 2 - 2 * acc * steps ∧
      n ^ 2 - 2 * acc * steps < f ^ 2 + 2 * acc := by
  intro steps
  have haccR : (0 : R) < 2 * acc := by
    have : (0 : R) < acc := by exact_mod_cast hacc
    linarith
  have hsq : f * f ≤ n * n := mul_self_le_mul_self hf0 hfn
  have hsqR : (f : R) * f ≤ n * n := by exact_mod_cast hsq
  have heq : estimateAccelerationDistance (n : R) (f : R) (-acc : Int) =
      ((n : R) * n - f * f) / (2 * acc) := by
    unfold estimateAccelerationDistance
    push_cast
    rw [mul_neg, div_neg, ← neg_div]
    ring
  have hlo : (steps : R) ≤ ((n : R) * n - f * f) / (2 * acc) := by
    rw [← heq]
    exact Int.floor_le _
  have hhi : ((n : R) * n - f * f) / (2 * acc) < steps + 1 := by
    rw [← heq]
    exact Int.lt_floor_add_one _
  rw [le_div_iff₀ haccR] at hlo
  rw [div_lt_iff₀ haccR] at hhi
  have hloZ : steps * (2 * acc) ≤ n * n - f * f := by exact_mod_cast hlo
  have hhiZ : n * n - f * f < (steps + 1) * (2 * acc) := by exact_mod_cast hhi
  refine ⟨?_, by nlinarith, by nlinarith⟩
  show 0 ≤ ⌊estimateAccelerationDistance (n : R) (f : R) (-acc : Int)⌋
  rw [heq]
  exact Int.floor_nonneg.2 (div_nonneg (sub_nonneg.2 hsqR) haccR.le)

/-- The intersection of two ramps that fit does, too. -/
theorem intersection_range {i f n acc events : Int} (hacc : 0 < acc)
    (hi : 0 ≤ i ∧ i ≤ n) (hf : 0 ≤ f ∧ f ≤ n) (hevents : 1 ≤ events)
    (hevents' : events < 2147483648)
    (hup : ⌈estimateAccelerationDistance (i : R) (n : R) (acc : R)⌉ < 2147483648)
    (hdown : ⌊estimateAccelerationDistance (n : R) (f : R) (-acc : Int)⌋ <
      2147483648) :
    -2147483648 ≤ ⌈intersectionDistance (i : R) (f : R) (acc : R) (events : R)⌉ ∧
      ⌈intersectionDistance (i : R) (f : R) (acc : R) (events : R)⌉ < 2147483648 := by
  obtain ⟨-, hup'⟩ := rampUp_spec (R := R) hacc hi.1 hi.2
  obtain ⟨-, -, hdown'⟩ := rampDown_spec (R := R) hacc hf.1 hf.2
  have haccR : (0 : R) < 4 * acc := by
    have : (0 : R) < acc := by exact_mod_cast hacc
    linarith
  have hfi : f ^ 2 ≤ n ^ 2 := by nlinarith [hf.1, hf.2]
  have hii : i ^ 2 ≤ n ^ 2 := by nlinarith [hi.1, hi.2]
  constructor
  · rw [Int.le_ceil_iff]
    unfold intersectionDistance
    rw [lt_div_iff₀ haccR]
    have hint : (-2147483648 - 1) * (4 * acc) < 2 * acc * events - i * i + f * f := by
      nlinarith
    have hR : (((-2147483648 - 1) * (4 * acc) : Int) : R) <
        ((2 * acc * events - i * i + f * f : Int) : R) := by exact_mod_cast hint
    push_cast at hR ⊢
    linarith
  · have hle : ⌈intersectionDistance (i : R) (f : R) (acc : R) (events : R)⌉ ≤
        2147483647 := by
      rw [Int.ceil_le]
      unfold intersectionDistance
      rw [div_le_iff₀ haccR]
      have hint : 2 * acc * events - i * i + f * f ≤ 2147483647 * (4 * acc) := by
        nlinarith
      have hR : ((2 * acc * events - i * i + f * f : Int) : R) ≤
          ((2147483647 * (4 * acc) : Int) : R) := by exact_mod_cast hint
      push_cast at hR ⊢
      exact hR
    omega

/-- The steps of the plateau; negative if the ramps meet before. -/
def plateau (block : Block R) (entryFactor exitFactor : R) : Int :=
  block.stepEventCount - rampUp block entryFactor - rampDown block exitFactor

/-- Where the ramps meet, within the block. -/
def meeting (block : Block R) (entryFactor exitFactor : R) : Int :=
  min (max ⌈intersectionDistance
    ((⌈(block.nominalRate : R) * entryFactor⌉ : Int) : R)
    ((⌈(block.nominalRate : R) * exitFactor⌉ : Int) : R)
    (exactAcceleration block : R) (block.stepEventCount : R)⌉ 0) block.stepEventCount

/-- A block with its factors, and ramps that fit their variables. -/
structure RampsFit (block : Block R) (entryFactor exitFactor : R) : Prop where
  events : 1 ≤ block.stepEventCount ∧ block.stepEventCount < 2147483648
  nominal : 1 ≤ block.nominalRate ∧ block.nominalRate < 4294967296
  delta : 1 ≤ block.rateDelta
  entry : 0 ≤ entryFactor ∧ entryFactor ≤ 1
  exit : 0 ≤ exitFactor ∧ exitFactor ≤ 1
  up : rampUp block entryFactor < 2147483648
  down : rampDown block exitFactor < 2147483648
  plateau : -2147483648 ≤ plateau block entryFactor exitFactor

section Fitting

variable {block : Block R} {entryFactor exitFactor : R}

theorem RampsFit.acceleration_pos (h : RampsFit block entryFactor exitFactor) :
    0 < exactAcceleration block := by
  have hdelta := h.delta
  unfold exactAcceleration accelerationTicksPerSecond
  omega

theorem RampsFit.initial (h : RampsFit block entryFactor exitFactor) :
    0 ≤ ⌈(block.nominalRate : R) * entryFactor⌉ ∧
      ⌈(block.nominalRate : R) * entryFactor⌉ ≤ block.nominalRate :=
  ceil_factor (by have := h.nominal; omega) h.entry.1 h.entry.2

theorem RampsFit.final (h : RampsFit block entryFactor exitFactor) :
    0 ≤ ⌈(block.nominalRate : R) * exitFactor⌉ ∧
      ⌈(block.nominalRate : R) * exitFactor⌉ ≤ block.nominalRate :=
  ceil_factor (by have := h.nominal; omega) h.exit.1 h.exit.2

theorem RampsFit.rampUp_spec (h : RampsFit block entryFactor exitFactor) :
    0 ≤ rampUp block entryFactor ∧
      block.nominalRate ^ 2 ≤ ⌈(block.nominalRate : R) * entryFactor⌉ ^ 2 +
        2 * exactAcceleration block * rampUp block entryFactor :=
  Trapezoid.rampUp_spec (R := R) h.acceleration_pos h.initial.1 h.initial.2

theorem RampsFit.rampDown_spec (h : RampsFit block entryFactor exitFactor) :
    0 ≤ rampDown block exitFactor ∧
      ⌈(block.nominalRate : R) * exitFactor⌉ ^ 2 ≤ block.nominalRate ^ 2 -
        2 * exactAcceleration block * rampDown block exitFactor ∧
      block.nominalRate ^ 2 - 2 * exactAcceleration block * rampDown block exitFactor <
        ⌈(block.nominalRate : R) * exitFactor⌉ ^ 2 + 2 * exactAcceleration block :=
  Trapezoid.rampDown_spec (R := R) h.acceleration_pos h.final.1 h.final.2

theorem RampsFit.meeting_range (h : RampsFit block entryFactor exitFactor) :
    0 ≤ meeting block entryFactor exitFactor ∧
      meeting block entryFactor exitFactor ≤ block.stepEventCount := by
  have hevents := h.events
  exact ⟨le_min (le_max_right _ _) (by omega), min_le_right _ _⟩

/-- Nothing is reduced if the ramps fit. -/
theorem RampsFit.trapezoid (h : RampsFit block entryFactor exitFactor) :
    trapezoidFor (exactAcceleration block) block entryFactor exitFactor =
      { block with
        initialRate := ⌈(block.nominalRate : R) * entryFactor⌉
        finalRate := ⌈(block.nominalRate : R) * exitFactor⌉
        accelerateUntil :=
          if Trapezoid.plateau block entryFactor exitFactor < 0 then
            meeting block entryFactor exitFactor
          else rampUp block entryFactor
        decelerateAfter :=
          if Trapezoid.plateau block entryFactor exitFactor < 0 then
            meeting block entryFactor exitFactor
          else block.stepEventCount - rampDown block exitFactor } := by
  have hevents := h.events
  have hnominal := h.nominal
  have hi := h.initial
  have hf := h.final
  have hup0 := h.rampUp_spec.1
  have hdown0 := h.rampDown_spec.1
  have hup := int32_of_range (by omega) h.up
  have hdown := int32_of_range (by omega) h.down
  have hplateau : int32 (Trapezoid.plateau block entryFactor exitFactor) = _ :=
    int32_of_range h.plateau (by unfold Trapezoid.plateau; omega)
  obtain ⟨hlo, hhi⟩ := intersection_range h.acceleration_pos hi hf hevents.1 hevents.2
    h.up h.down
  have hmeet := h.meeting_range
  unfold rampUp at hup
  unfold rampDown at hdown
  unfold Trapezoid.plateau rampUp rampDown at hplateau
  unfold trapezoidFor
  dsimp only
  rw [uint32_of_range hi.1 (by omega), uint32_of_range hf.1 (by omega), hup, hdown,
    hplateau, int32_of_range hlo hhi]
  change (if Trapezoid.plateau block entryFactor exitFactor < 0 then
    { block with
      initialRate := ⌈(block.nominalRate : R) * entryFactor⌉
      finalRate := ⌈(block.nominalRate : R) * exitFactor⌉
      accelerateUntil := uint32 (meeting block entryFactor exitFactor)
      decelerateAfter := uint32 (meeting block entryFactor exitFactor) }
    else
    { block with
      initialRate := ⌈(block.nominalRate : R) * entryFactor⌉
      finalRate := ⌈(block.nominalRate : R) * exitFactor⌉
      accelerateUntil := uint32 (rampUp block entryFactor)
      decelerateAfter := uint32 (rampUp block entryFactor +
        Trapezoid.plateau block entryFactor exitFactor) }) = _
  split
  · rw [uint32_of_range hmeet.1 (by omega)]
  · next hneg =>
      have hlast : rampUp block entryFactor +
          Trapezoid.plateau block entryFactor exitFactor =
            block.stepEventCount - rampDown block exitFactor := by
        unfold Trapezoid.plateau
        omega
      have hfit : Trapezoid.plateau block entryFactor exitFactor =
          block.stepEventCount - rampUp block entryFactor -
            rampDown block exitFactor := rfl
      rw [hlast, uint32_of_range hup0 (by omega), uint32_of_range (by omega) (by omega)]

end Fitting

/-- The trapezoid of every block whose ramps fit their variables. -/
theorem trapezoid_wellFormed (block : Block R) (entryFactor exitFactor : R)
    (h : RampsFit block entryFactor exitFactor) :
    let t := trapezoidFor (exactAcceleration block) block entryFactor exitFactor
    let plateauSteps := plateau block entryFactor exitFactor
    (exactAcceleration block < 2147483648 →
      calculateTrapezoidForBlock block entryFactor exitFactor = t) ∧
      t.initialRate ≤ block.nominalRate ∧ t.finalRate ≤ block.nominalRate ∧
      0 ≤ t.accelerateUntil ∧ t.accelerateUntil ≤ t.decelerateAfter ∧
      t.decelerateAfter ≤ block.stepEventCount ∧
      (0 ≤ plateauSteps →
        block.nominalRate ^ 2 ≤
          t.initialRate ^ 2 + 2 * exactAcceleration block * t.accelerateUntil ∧
        t.finalRate ^ 2 ≤ block.nominalRate ^ 2 -
          2 * exactAcceleration block * (block.stepEventCount - t.decelerateAfter) ∧
        block.nominalRate ^ 2 -
            2 * exactAcceleration block * (block.stepEventCount - t.decelerateAfter) <
          t.finalRate ^ 2 + 2 * exactAcceleration block) ∧
      (plateauSteps < 0 →
        t.accelerateUntil = t.decelerateAfter ∧
        t.accelerateUntil = min (max ⌈intersectionDistance (t.initialRate : R)
          (t.finalRate : R) (exactAcceleration block : R)
            (block.stepEventCount : R)⌉ 0) block.stepEventCount) := by
  intro t plateauSteps
  have ht : t = trapezoidFor (exactAcceleration block) block entryFactor exitFactor :=
    rfl
  rw [h.trapezoid] at ht
  clear_value t
  subst ht
  obtain ⟨hup0, hreach⟩ := h.rampUp_spec
  obtain ⟨hdown0, hstop, hstop'⟩ := h.rampDown_spec
  have hsteps : plateauSteps = block.stepEventCount - rampUp block entryFactor -
    rampDown block exitFactor := rfl
  refine ⟨fun hacc => ?_, ?_⟩
  · rw [calculateTrapezoidForBlock_eq h.delta hacc]
    exact h.trapezoid
  dsimp only
  by_cases hneg : plateauSteps < 0
  · -- the ramps meet before the nominal rate is reached
    rw [if_pos hneg, if_pos hneg]
    exact ⟨h.initial.2, h.final.2, h.meeting_range.1, le_refl _, h.meeting_range.2,
      fun hpos => absurd hneg (by omega), fun _ => ⟨rfl, rfl⟩⟩
  · rw [if_neg hneg, if_neg hneg]
    refine ⟨h.initial.2, h.final.2, hup0, by omega, by omega, fun _ => ⟨hreach, ?_⟩,
      fun h => absurd h hneg⟩
    rw [sub_sub_cancel]
    exact ⟨hstop, hstop'⟩

end Shape

/-- A block of a hundred events at 1,200 steps a minute. -/
def hundredEvents : Block ℚ where
  actionType := .move
  steps := fun _ => 100
  directionBits := 0
  stepEventCount := 100
  nominalRate := 1200
  nominalSpeed := 1
  entrySpeed := 0
  maxEntrySpeed := 0
  millimeters := 1
  recalculateFlag := false
  nominalLengthFlag := false
  initialRate := 0
  finalRate := 0
  rateDelta := 1
  accelerateUntil := 0
  decelerateAfter := 0
  checkEndstops := false

theorem trapezoid_wellFormed_hundredEvents :
    RampsFit hundredEvents 0 0 ∧
      (trapezoidFor (exactAcceleration hundredEvents) hundredEvents 0
        0).decelerateAfter ≤ 100 := by
  have hfits : RampsFit hundredEvents 0 0 := by
    constructor <;> decide +kernel
  obtain ⟨-, -, -, -, -, hlast, -⟩ := trapezoid_wellFormed hundredEvents 0 0 hfits
  exact ⟨hfits, hlast⟩

/-- A thousand events at 24,000 mm a minute and 6,400 steps/mm, with the least
acceleration. -/
def longRamps : Block ℚ :=
  { hundredEvents with stepEventCount := 1000, nominalRate := 153600000 }

/-- Each ramp of the block would take 196,608,000,000 steps, and the switch points
come out past its end. -/
theorem ramp_overflows :
    1 ≤ longRamps.stepEventCount ∧ 1 ≤ longRamps.nominalRate ∧
      1 ≤ longRamps.rateDelta ∧ exactAcceleration longRamps = 60000 ∧
      ¬(calculateTrapezoidForBlock longRamps 0 0).decelerateAfter ≤
        longRamps.stepEventCount := by
  decide +kernel


end R2C2Firmware.Ports.Trapezoid
