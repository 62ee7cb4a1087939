import R2C2Firmware.Ports.FeedRate
import R2C2Firmware.Ports.StepperConservation

/-!
# The acceleration under the default configuration

`rate_delta` is the acceleration of a block in step events: it grows with the
step events for each millimetre of travel.  `calculate_trapezoid_for_block` makes
steps per minute squared of it, 60,000 times as much, in an `int32_t`.

With the default scales the product fits for up to 35,791 / 6 step events a
millimetre.  A move along Z has 6,400; so has, for one of X or Y, a move that
extrudes enough on a short way.

## Main results

* `acceleration_fits_iff` — which moves fit, by their displacements in steps.
* `z_move_overflows` — a millimetre along Z does not.
-/

set_option linter.unusedSectionVars false

namespace R2C2Firmware.Ports.DefaultAcceleration

open R2C2Firmware.Verified.Number
open R2C2Firmware.Ports.Config
open R2C2Firmware.Ports.MotionPlanner
open R2C2Firmware.Ports.Stepper
open R2C2Firmware.Ports.FeedRate (default_stepsPerMm defaultScale)

section Model

variable {R : Type} [Field R] [LinearOrder R] [HasSqrt R] [FloorRing R]

/-- The displacement of a request, in steps. -/
def displacement (cfg : Configuration R) (pAction : ActionRequest R)
    (pl : Planner R) (a : Axis) : Int :=
  int32 (targetSteps cfg pAction.target a - pl.position a)

/-- The number that is stored in `rate_delta`. -/
def pathRateDelta (cfg : Configuration R) (pAction : ActionRequest R)
    (pl : Planner R) : Int :=
  let target := targetSteps cfg pAction.target
  ⌈(moveEventCount (moveSteps target pl.position) : R)
    * (1 / travelMillimeters (deltaMm cfg target pl.position))
    * cfg.acceleration * 60 / (accelerationTicksPerSecond : R)⌉

/-- `rate_delta` holds the number, it is positive, and what
`calculate_trapezoid_for_block` makes of it fits an `int32_t`. -/
structure AccelerationFits (cfg : Configuration R) (pAction : ActionRequest R)
    (pl : Planner R) : Prop where
  stored : (newBlock cfg pAction pl).rateDelta = pathRateDelta cfg pAction pl
  pos : 0 < (newBlock cfg pAction pl).rateDelta
  product : (newBlock cfg pAction pl).rateDelta * accelerationTicksPerSecond * 60 <
    2147483648

/-- The largest displacement. -/
def longest (d : Axis → Int) : Int :=
  max (max |d .x| (max |d .y| |d .z|)) |d .e|

/-- The displacements of a move that fits: it is one of the extruder alone, or it
has at most 35,791 / 6 step events a millimetre.  Both sides are squared and
multiplied by 6,400². -/
def Gentle (d : Axis → Int) : Prop :=
  (∀ a, d a ≠ -2147483648) ∧
    ((d .x = 0 ∧ d .y = 0 ∧ d .z = 0) ∨
      36 * 6400 ^ 2 * longest d ^ 2 ≤
        35791 ^ 2 * (6400 * d .x ^ 2 + 6400 * d .y ^ 2 + d .z ^ 2))

/-- The rate of the queued block, if the acceleration manager is on. -/
theorem newBlock_rateDelta (cfg : Configuration R) (pAction : ActionRequest R)
    (pl : Planner R) :
    (newBlock cfg pAction pl).rateDelta =
      if pl.accelerationManagerEnabled then int32 (pathRateDelta cfg pAction pl)
      else 0 := by
  unfold newBlock
  dsimp only
  split <;> rfl

end Model

/-! ## Step events -/

section Events

variable {target position d : Axis → Int}

theorem moveSteps_displacement (hd : ∀ a, d a = int32 (target a - position a))
    (a : Axis) : moveSteps target position a = |d a| := by
  have hrange := int32_range (target a - position a)
  rw [← hd] at hrange
  have habs : |d a| ≤ 2147483648 := abs_le.2 ⟨hrange.1, by omega⟩
  rw [moveSteps, ← hd]
  exact uint32_of_range (abs_nonneg _) (by omega)

theorem moveEventCount_longest (hd : ∀ a, d a = int32 (target a - position a))
    (hall : ∀ a, d a ≠ -2147483648) :
    moveEventCount (moveSteps target position) = longest d := by
  have hlt : ∀ a, 0 ≤ moveSteps target position a ∧
      moveSteps target position a < 2147483648 := by
    intro a
    have hrange := int32_range (target a - position a)
    have hne := hall a
    rw [← hd] at hrange
    rw [moveSteps_displacement hd]
    exact ⟨abs_nonneg _, abs_lt.2 ⟨by omega, hrange.2⟩⟩
  rw [moveEventCount_eq hlt]
  simp only [moveSteps_displacement hd]
  rfl

/-- A move of 2³¹ steps has a negative number of events. -/
theorem moveEventCount_overflow {steps : Axis → Int}
    (hle : ∀ a, 0 ≤ steps a ∧ steps a ≤ 2147483648) {a : Axis}
    (ha : steps a = 2147483648) : moveEventCount steps = -2147483648 := by
  have hx := hle .x
  have hy := hle .y
  have hz := hle .z
  have he := hle .e
  have hmax : max (max (steps .x) (max (steps .y) (steps .z))) (steps .e) =
      2147483648 := by
    cases a <;> omega
  unfold moveEventCount int32 uint32 wrapSigned wrapUnsigned
  dsimp only
  omega

theorem moveEventCount_extreme (hd : ∀ a, d a = int32 (target a - position a))
    {a : Axis} (ha : d a = -2147483648) :
    moveEventCount (moveSteps target position) = -2147483648 := by
  refine moveEventCount_overflow (fun a' => ?_) (a := a) ?_
  · have hrange := int32_range (target a' - position a')
    rw [← hd] at hrange
    rw [moveSteps_displacement hd]
    exact ⟨abs_nonneg _, abs_le.2 ⟨hrange.1, by omega⟩⟩
  · rw [moveSteps_displacement hd, ha]
    rfl

end Events

/-! ## The default configuration -/

section Default

variable {pAction : ActionRequest ℝ} {pl : Planner ℝ}

theorem default_acceleration :
    (Configuration.default : Configuration ℝ).acceleration = 100 := rfl

/-- Six for each step event a millimetre. -/
theorem pathRateDelta_default :
    pathRateDelta .default pAction pl =
      ⌈6 * (moveEventCount (moveSteps (targetSteps .default pAction.target)
          pl.position) : ℝ) /
        travelMillimeters (deltaMm .default (targetSteps .default pAction.target)
          pl.position)⌉ := by
  unfold pathRateDelta accelerationTicksPerSecond
  dsimp only
  rw [default_acceleration]
  congr 1
  push_cast
  ring

/-- The square of the way, times 6,400². -/
theorem travelSquare_default (d : Axis → Int) (delta : Axis → ℝ)
    (hdelta : ∀ a, delta a = (d a : ℝ) / (defaultScale a : ℝ)) :
    6400 ^ 2 * travelSquare delta =
      ((6400 * d .x ^ 2 + 6400 * d .y ^ 2 + d .z ^ 2 : Int) : ℝ) := by
  unfold travelSquare
  rw [hdelta, hdelta, hdelta]
  simp only [defaultScale]
  push_cast
  ring

/-- Whether a number of step events and a way fit, in terms of both. -/
theorem accelerationFits_iff (cfg : Configuration ℝ) :
    AccelerationFits cfg pAction pl ↔
      pl.accelerationManagerEnabled = true ∧ 0 < pathRateDelta cfg pAction pl ∧
        pathRateDelta cfg pAction pl ≤ 35791 := by
  have hrate := newBlock_rateDelta cfg pAction pl
  have hticks : accelerationTicksPerSecond = 1000 := rfl
  constructor
  · rintro ⟨hstored, hpos, hproduct⟩
    rw [hticks, hstored] at hproduct
    rw [hstored] at hpos
    refine ⟨?_, hpos, by omega⟩
    by_contra hoff
    rw [if_neg hoff] at hrate
    omega
  · rintro ⟨hon, hpos, hle⟩
    rw [if_pos hon, int32_of_range (by omega) (by omega)] at hrate
    exact ⟨hrate, by omega, by rw [hticks]; omega⟩

theorem travelSquare_nonneg (delta : Axis → ℝ) : 0 ≤ travelSquare delta := by
  unfold travelSquare
  nlinarith [mul_self_nonneg (delta .x), mul_self_nonneg (delta .y),
    mul_self_nonneg (delta .z)]

/-- The way of a move that is not one of the extruder alone. -/
theorem travelMillimeters_spatial {delta : Axis → ℝ} (h : 0 < travelSquare delta) :
    travelMillimeters delta = Real.sqrt (travelSquare delta) := by
  unfold travelMillimeters
  rw [sqrt_real]
  exact if_neg (Real.sqrt_pos.2 h).ne'

theorem travelMillimeters_extruder {delta : Axis → ℝ} (h : travelSquare delta = 0) :
    travelMillimeters delta = |delta .e| := by
  unfold travelMillimeters
  rw [sqrt_real, h, Real.sqrt_zero]
  exact if_pos rfl

/-- The step events and the way of a move of at least a step. -/
theorem six_le_iff {d : Axis → Int} {delta : Axis → ℝ}
    (hdelta : ∀ a, delta a = (d a : ℝ) / (defaultScale a : ℝ)) (hpos : 0 < longest d) :
    (0 < 6 * (longest d : ℝ) / travelMillimeters delta ∧
        6 * (longest d : ℝ) / travelMillimeters delta ≤ 35791) ↔
      (d .x = 0 ∧ d .y = 0 ∧ d .z = 0) ∨
        36 * 6400 ^ 2 * longest d ^ 2 ≤
          35791 ^ 2 * (6400 * d .x ^ 2 + 6400 * d .y ^ 2 + d .z ^ 2) := by
  have hposR : (0 : ℝ) < longest d := by exact_mod_cast hpos
  have hsquare := travelSquare_default d delta hdelta
  rcases (travelSquare_nonneg delta).eq_or_lt with hzero | hspatial
  · -- the extruder alone: 36 step events a millimetre
    have hsum : 6400 * d .x ^ 2 + 6400 * d .y ^ 2 + d .z ^ 2 = 0 := by
      rw [← hzero, mul_zero] at hsquare
      exact_mod_cast hsquare.symm
    have hx : d .x = 0 := by
      nlinarith [sq_nonneg (d .x), sq_nonneg (d .y), sq_nonneg (d .z)]
    have hy : d .y = 0 := by
      nlinarith [sq_nonneg (d .x), sq_nonneg (d .y), sq_nonneg (d .z)]
    have hz : d .z = 0 := by
      nlinarith [sq_nonneg (d .x), sq_nonneg (d .y), sq_nonneg (d .z)]
    have hlongest : longest d = |d .e| := by
      unfold longest
      rw [hx, hy, hz]
      simp
    rw [travelMillimeters_extruder hzero.symm, hdelta, hlongest]
    rw [hlongest] at hpos
    have he : (0 : ℝ) < |(d .e : ℝ)| := by exact_mod_cast hpos
    have hratio : 6 * ((|d .e| : Int) : ℝ) / |(d .e : ℝ) / (defaultScale .e : ℝ)| =
        216 := by
      simp only [defaultScale]
      push_cast
      rw [abs_div, abs_of_pos (by norm_num : (0 : ℝ) < 36)]
      field_simp
      norm_num
    rw [hratio]
    exact iff_of_true ⟨by norm_num, by norm_num⟩ (.inl ⟨hx, hy, hz⟩)
  · have hway : 0 < Real.sqrt (travelSquare delta) := Real.sqrt_pos.2 hspatial
    rw [travelMillimeters_spatial hspatial, div_le_iff₀ hway]
    have hnot : ¬(d .x = 0 ∧ d .y = 0 ∧ d .z = 0) := by
      rintro ⟨hx, hy, hz⟩
      rw [hx, hy, hz] at hsquare
      norm_num at hsquare
      exact hspatial.ne' hsquare
    rw [or_iff_right hnot, and_iff_right (by positivity)]
    -- both sides are positive, so their squares compare as they do
    have hsq : 6 * (longest d : ℝ) ≤ 35791 * Real.sqrt (travelSquare delta) ↔
        (6 * (longest d : ℝ)) ^ 2 ≤ (35791 * Real.sqrt (travelSquare delta)) ^ 2 :=
      (sq_le_sq₀ (by positivity) (by positivity)).symm
    rw [hsq, mul_pow, mul_pow, Real.sq_sqrt hspatial.le]
    have hcast : (36 * 6400 ^ 2 * longest d ^ 2 ≤
        35791 ^ 2 * (6400 * d .x ^ 2 + 6400 * d .y ^ 2 + d .z ^ 2)) ↔
        (36 * 6400 ^ 2 * (longest d : ℝ) ^ 2 ≤
          35791 ^ 2 * (6400 ^ 2 * travelSquare delta)) := by
      rw [hsquare]
      exact_mod_cast Iff.rfl
    rw [hcast]
    constructor
    · intro h
      linarith
    · intro h
      linarith

/-- With the default configuration, exactly the gentle moves stay in range. -/
theorem pathRateDelta_gentle (hsteps : zeroLength .default pAction pl = false) :
    (0 < pathRateDelta .default pAction pl ∧
        pathRateDelta .default pAction pl ≤ 35791) ↔
      Gentle (displacement .default pAction pl) := by
  set d := displacement .default pAction pl with hdisplacement
  have hd : ∀ a, d a = int32 (targetSteps .default pAction.target a - pl.position a) :=
    fun _ => rfl
  have hdelta : ∀ a, deltaMm .default (targetSteps .default pAction.target) pl.position
      a = (d a : ℝ) / (defaultScale a : ℝ) := by
    intro a
    rw [← default_stepsPerMm]
    rfl
  rw [pathRateDelta_default]
  unfold Gentle
  by_cases hall : ∀ a, d a ≠ -2147483648
  · have hcount := moveEventCount_longest hd hall
    have hpos : 0 < longest d := by
      rw [zeroLength, hcount, beq_eq_false_iff_ne] at hsteps
      have hnonneg : 0 ≤ longest d := le_max_of_le_right (abs_nonneg _)
      omega
    rw [and_iff_right hall, hcount, Int.ceil_pos, Int.ceil_le]
    exact_mod_cast six_le_iff hdelta hpos
  · rw [not_forall] at hall
    obtain ⟨a, ha⟩ := hall
    rw [not_not] at ha
    have hcount := moveEventCount_extreme hd ha
    refine iff_of_false (fun h => ?_) (fun h => h.1 a ha)
    have hway : (0 : ℝ) ≤ travelMillimeters (deltaMm .default
        (targetSteps .default pAction.target) pl.position) := by
      unfold travelMillimeters
      dsimp only
      split
      · exact abs_nonneg _
      · exact Real.sqrt_nonneg _
    have hneg := Int.ceil_pos.1 h.1
    rw [hcount] at hneg
    push_cast at hneg
    exact absurd hneg (not_lt.2 (div_nonpos_of_nonpos_of_nonneg (by norm_num) hway))

/-- The acceleration of a move fits its types exactly if the move is gentle. The
calculations in `double` are read as exact: for a move on the very bound of `Gentle` the
roundings can decide. -/
theorem acceleration_fits_iff (hsteps : zeroLength .default pAction pl = false) :
    AccelerationFits .default pAction pl ↔
      pl.accelerationManagerEnabled = true ∧
        Gentle (displacement .default pAction pl) := by
  rw [accelerationFits_iff, pathRateDelta_gentle hsteps]

/-- A millimetre along one axis, from the origin. -/
def along (a : Axis) : ActionRequest ℝ :=
  ⟨.move, ⟨if a = .x then 1 else 0, if a = .y then 1 else 0, if a = .z then 1 else 0,
    if a = .e then 1 else 0, 60, false⟩⟩

theorem displacement_along (a a' : Axis) :
    displacement .default (along a) (planInit .zero) a' =
      if a' = a then defaultScale a else 0 := by
  have hcoord : (along a).target.coord a' *
      (Configuration.default : Configuration ℝ).stepsPerMm a' =
        ((if a' = a then defaultScale a else 0 : Int) : ℝ) := by
    rw [default_stepsPerMm]
    cases a <;> cases a' <;> simp [along, Target.coord, defaultScale]
  unfold displacement targetSteps
  rw [hcoord, lround_intCast]
  cases a <;> cases a' <;> decide

theorem along_steps (a : Axis) :
    zeroLength .default (along a) (planInit .zero) = false := by
  have hd := displacement_along a
  have hcount : moveEventCount (moveSteps (targetSteps .default (along a).target)
      (planInit (.zero : Planner ℝ)).position) =
      longest (displacement .default (along a) (planInit .zero)) := by
    refine moveEventCount_longest (fun _ => rfl) fun a' => ?_
    rw [hd]
    cases a <;> cases a' <;> decide
  rw [zeroLength, hcount, beq_eq_false_iff_ne]
  unfold longest
  simp only [hd]
  cases a <;> decide

theorem acceleration_fits_along_x :
    zeroLength .default (along .x) (planInit .zero) = false ∧
      AccelerationFits .default (along .x) (planInit .zero) := by
  refine ⟨along_steps .x, (acceleration_fits_iff (along_steps .x)).2 ⟨rfl, ?_, ?_⟩⟩
  · intro a
    rw [displacement_along]
    cases a <;> decide
  · unfold longest
    simp only [displacement_along]
    decide

/-- A millimetre along Z: 38,400 · 60,000 is more than an `int32_t` holds. -/
theorem z_move_overflows :
    zeroLength .default (along .z) (planInit .zero) = false ∧
      ¬AccelerationFits .default (along .z) (planInit .zero) := by
  refine ⟨along_steps .z, fun h => ?_⟩
  have hgentle := (pathRateDelta_gentle (along_steps .z)).1
    ((accelerationFits_iff .default).1 h).2
  have hd := displacement_along .z
  rcases hgentle.2 with ⟨-, -, hz⟩ | hle
  · rw [hd] at hz
    exact absurd hz (by decide)
  · unfold longest at hle
    simp only [hd] at hle
    exact absurd hle (by decide)

end Default

end R2C2Firmware.Ports.DefaultAcceleration
