import R2C2Firmware.Ports.MotionPlannerQueue

/-!
# The speed limit of the axes

`plan_buffer_line` takes the duration of a move at the requested feed rate,
rounded to microseconds, and lowers the speed until no axis is faster than its
maximum.  Four conditional updates find the factor, the first of them written
without a comparison.

The factor is the largest that is no larger than one and keeps all four limits.
Two numbers have to fit their types.  The duration is the 32-bit `long` of
`lround`: a move of more than some 36 minutes may go on as a negative number.
The step rate is rounded up into a `uint32_t`; a rate of 2³² steps a minute or
more is reduced.

## Main results

* `moveSpeedFactor_limits` — the factor after the four updates.
* `speed_limited` — speeds and rates of the block of a move.
* `rate_reduced` — a rate and a duration that do not fit.
-/

set_option linter.unusedSectionVars false

namespace R2C2Firmware.Ports.SpeedLimit

open R2C2Firmware.Verified.Number
open R2C2Firmware.Ports.Config
open R2C2Firmware.Ports.MotionPlanner

variable {R : Type*} [Field R] [LinearOrder R] [IsStrictOrderedRing R]

/-! ## The factor -/

/-- The largest factor up to one that keeps the limits of the axes. -/
structure Limits (speed : Axis → R) (maximum : Axis → Int) (axes : List Axis)
    (factor : R) : Prop where
  pos : 0 < factor
  le_one : factor ≤ 1
  limit : ∀ a ∈ axes, |speed a| * factor ≤ maximum a
  largest : factor = 1 ∨ ∃ a ∈ axes, |speed a| * factor = maximum a

variable {speed : Axis → R} {maximum : Axis → Int}

theorem Limits.none : Limits speed maximum [] 1 :=
  ⟨one_pos, le_refl 1, by simp, .inl rfl⟩

/-- Looking at one more axis gives the largest factor that keeps its limit and those of
the axes before. -/
theorem Limits.limitSpeedFactor {axes : List Axis} {factor : R}
    (h : Limits speed maximum axes factor) (a : Axis) (hmax : 0 < maximum a) :
    Limits speed maximum (a :: axes)
      (limitSpeedFactor (speed a) (maximum a) factor) := by
  have hmaxR : (0 : R) < maximum a := by exact_mod_cast hmax
  unfold MotionPlanner.limitSpeedFactor
  split
  · next hfast =>
      have hspeed : 0 < |speed a| := hmaxR.trans hfast
      have hpos : 0 < (maximum a : R) / |speed a| := div_pos hmaxR hspeed
      have hexact : |speed a| * ((maximum a : R) / |speed a|) = maximum a :=
        mul_div_cancel₀ _ hspeed.ne'
      dsimp only
      split
      · -- the axis is slower than those before it
        next hlower =>
          refine ⟨hpos, hlower.le.trans h.le_one, ?_, .inr ⟨a, by simp, hexact⟩⟩
          intro a' ha'
          rcases List.mem_cons.1 ha' with rfl | hold
          · exact hexact.le
          · exact (mul_le_mul_of_nonneg_left hlower.le (abs_nonneg _)).trans
              (h.limit a' hold)
      · next hhigher =>
          refine ⟨h.pos, h.le_one, ?_, ?_⟩
          · intro a' ha'
            rcases List.mem_cons.1 ha' with rfl | hold
            · exact (mul_le_mul_of_nonneg_left (not_lt.1 hhigher)
                (abs_nonneg _)).trans hexact.le
            · exact h.limit a' hold
          · rcases h.largest with hone | ⟨a', ha', heq⟩
            · exact .inl hone
            · exact .inr ⟨a', List.mem_cons_of_mem _ ha', heq⟩
  · next hslow =>
      refine ⟨h.pos, h.le_one, ?_, ?_⟩
      · intro a' ha'
        rcases List.mem_cons.1 ha' with rfl | hold
        · exact (mul_le_of_le_one_right (abs_nonneg _) h.le_one).trans
            (not_lt.1 hslow)
        · exact h.limit a' hold
      · rcases h.largest with hone | ⟨a', ha', heq⟩
        · exact .inl hone
        · exact .inr ⟨a', List.mem_cons_of_mem _ ha', heq⟩

/-- The first update needs no comparison. -/
theorem limitSpeedFactor_one (a : Axis) (hmax : 0 < maximum a) :
    limitSpeedFactor (speed a) (maximum a) 1 =
      if |speed a| > (maximum a : R) then (maximum a : R) / |speed a| else 1 := by
  have hmaxR : (0 : R) < maximum a := by exact_mod_cast hmax
  unfold MotionPlanner.limitSpeedFactor
  split
  · next hfast =>
      dsimp only
      rw [if_pos ((div_lt_one (hmaxR.trans hfast)).2 hfast)]
  · rfl

/-- After the four updates the factor is the largest that keeps the limits of all axes.
-/
theorem moveSpeedFactor_limits {cfg : Configuration R} (speed : Axis → R)
    (hmax : ∀ a, 0 < cfg.maximumFeedrate a) :
    Limits speed cfg.maximumFeedrate [.e, .z, .y, .x]
      (moveSpeedFactor cfg speed) := by
  unfold moveSpeedFactor
  rw [← limitSpeedFactor_one .x (hmax .x)]
  exact (((Limits.none.limitSpeedFactor .x (hmax .x)).limitSpeedFactor .y
    (hmax .y)).limitSpeedFactor .z (hmax .z)).limitSpeedFactor .e (hmax .e)

/-! ## The block -/

section Block

variable [HasSqrt R] [FloorRing R]

/-- The path of a request, in millimetres. -/
def path (cfg : Configuration R) (pAction : ActionRequest R) (pl : Planner R) :
    Axis → R :=
  deltaMm cfg (targetSteps cfg pAction.target) pl.position

/-- The duration of a request at its feed rate, rounded to microseconds. -/
def rounded (cfg : Configuration R) (pAction : ActionRequest R)
    (pl : Planner R) : Int :=
  roundedMicroseconds (travelMillimeters (path cfg pAction pl))
    pAction.target.feedRate

/-- The duration as the code goes on with it. -/
def microseconds (cfg : Configuration R) (pAction : ActionRequest R)
    (pl : Planner R) : Int :=
  moveMicroseconds (travelMillimeters (path cfg pAction pl))
    pAction.target.feedRate

/-- The multiplier of a request. -/
def multiplier (cfg : Configuration R) (pAction : ActionRequest R)
    (pl : Planner R) : R :=
  moveMultiplier cfg (path cfg pAction pl)
    (travelMillimeters (path cfg pAction pl)) pAction.target.feedRate

/-- The rates of the block are those of the multiplier. -/
theorem newBlock_rates (cfg : Configuration R) (pAction : ActionRequest R)
    (pl : Planner R) :
    (newBlock cfg pAction pl).nominalSpeed =
        (newBlock cfg pAction pl).millimeters * multiplier cfg pAction pl ∧
      (newBlock cfg pAction pl).nominalRate =
        uint32 ⌈((newBlock cfg pAction pl).stepEventCount : R) *
          multiplier cfg pAction pl⌉ := by
  unfold newBlock
  dsimp only
  split <;> exact ⟨rfl, rfl⟩

theorem microseconds_eq {cfg : Configuration R} {pAction : ActionRequest R}
    {pl : Planner R} (hlo : 1 ≤ rounded cfg pAction pl)
    (hhi : rounded cfg pAction pl ≤ 2147483647) :
    microseconds cfg pAction pl = rounded cfg pAction pl := by
  change int32 (rounded cfg pAction pl) = rounded cfg pAction pl
  exact int32_of_range (by omega) (by omega)

/-- The multiplier of every move that takes at least a microsecond and at most
2^31 - 1, along whichever axes. -/
theorem speed_limited {cfg : Configuration R} {pAction : ActionRequest R}
    {pl : Planner R} (hmax : ∀ a, 0 < cfg.maximumFeedrate a)
    (hlo : 1 ≤ rounded cfg pAction pl)
    (hhi : rounded cfg pAction pl ≤ 2147483647) :
    let m := multiplier cfg pAction pl
    let b := newBlock cfg pAction pl
    (∀ a, |path cfg pAction pl a| * m ≤ cfg.maximumFeedrate a) ∧
      b.nominalSpeed = b.millimeters * m ∧
      ((b.stepEventCount : R) * m ≤ 4294967295 → 0 ≤ b.stepEventCount →
        (b.stepEventCount : R) * m ≤ b.nominalRate ∧
          (b.nominalRate : R) < b.stepEventCount * m + 1) ∧
      (m = 60000000 / (microseconds cfg pAction pl : R) ∨
        ∃ a, |path cfg pAction pl a| * m = cfg.maximumFeedrate a) := by
  intro m b
  have htime := microseconds_eq hlo hhi
  have htimeR : (0 : R) < (microseconds cfg pAction pl : R) := by
    exact_mod_cast (by omega : 0 < microseconds cfg pAction pl)
  -- the unlimited multiplier, and the factor
  set m₀ : R := 60 * 1000000 / (microseconds cfg pAction pl : R) with hm₀
  have hm₀pos : 0 < m₀ := div_pos (by norm_num) htimeR
  set speed : Axis → R := fun a => path cfg pAction pl a * m₀ with hspeed
  have hm : m = m₀ * moveSpeedFactor cfg speed := rfl
  have hlimits := moveSpeedFactor_limits speed hmax
  have habs : ∀ a, |path cfg pAction pl a| * m =
      |speed a| * moveSpeedFactor cfg speed := by
    intro a
    rw [hm, hspeed, abs_mul, abs_of_pos hm₀pos]
    ring
  obtain ⟨hnominal, hrate⟩ := newBlock_rates cfg pAction pl
  refine ⟨fun a => ?_, hnominal, fun hfits hcount => ?_, ?_⟩
  · rw [habs]
    exact hlimits.limit a (by cases a <;> simp)
  · have hmpos : 0 < m := hm ▸ mul_pos hm₀pos hlimits.pos
    have hcountR : (0 : R) ≤ b.stepEventCount := by exact_mod_cast hcount
    have hrange : 0 ≤ ⌈(b.stepEventCount : R) * m⌉ ∧
        ⌈(b.stepEventCount : R) * m⌉ ≤ 4294967295 := by
      refine ⟨Int.ceil_nonneg (mul_nonneg hcountR hmpos.le), ?_⟩
      rw [Int.ceil_le]
      exact_mod_cast hfits
    have hceil : b.nominalRate = ⌈(b.stepEventCount : R) * m⌉ := by
      rw [← uint32_of_range hrange.1 (by omega)]
      exact hrate
    rw [hceil]
    exact ⟨Int.le_ceil _, Int.ceil_lt_add_one _⟩
  · rcases hlimits.largest with hone | ⟨a, -, heq⟩
    · left
      rw [hm, hone, mul_one, hm₀]
      norm_num
    · right
      exact ⟨a, (habs a).trans heq⟩

end Block

/-- Ten millimetres of filament. -/
def extrudeTen : ActionRequest ℚ := ⟨.move, ⟨0, 0, 0, 10, 600, false⟩⟩

/-- The extruder alone, at the default configuration. -/
theorem speed_limited_extrudeTen :
    |path .default extrudeTen (planInit .zero) .e| *
        multiplier .default extrudeTen (planInit .zero) ≤
      (Configuration.default : Configuration ℚ).maximumFeedrate .e := by
  have hmax : ∀ a, 0 < (Configuration.default : Configuration ℚ).maximumFeedrate a := by
    intro a
    cases a <;> decide
  exact (speed_limited hmax (by decide +kernel) (by decide +kernel)).1 .e

/-- 6,400 steps/mm and 1,000 m/min on every axis. -/
def fastConfig : Configuration ℚ :=
  { Configuration.default with
    stepsPerMm := fun _ => 6400
    maximumFeedrate := fun _ => 1000000 }

/-- A hundred millimetres along X, at full speed. -/
def fastHundred : ActionRequest ℚ := ⟨.move, ⟨100, 0, 0, 0, 1000000, false⟩⟩

/-- One millimetre along X at a fiftieth of a millimetre per minute. -/
def slowOne : ActionRequest ℚ := ⟨.move, ⟨1, 0, 0, 0, 1 / 50, false⟩⟩

/-- The rate of 6,400,000,000 steps a minute does not fit, and neither does the
duration of fifty minutes: its rate is that of a negative number of steps. -/
theorem rate_reduced :
    (1 ≤ rounded fastConfig fastHundred (planInit .zero) ∧
      zeroLength fastConfig fastHundred (planInit .zero) = false ∧
      ¬((newBlock fastConfig fastHundred (planInit .zero)).stepEventCount : ℚ) *
          multiplier fastConfig fastHundred (planInit .zero) ≤
        (newBlock fastConfig fastHundred (planInit .zero)).nominalRate) ∧
      1 ≤ rounded .default slowOne (planInit .zero) ∧
      zeroLength .default slowOne (planInit .zero) = false ∧
      ¬((newBlock .default slowOne (planInit .zero)).nominalRate : ℚ) <
        (newBlock .default slowOne (planInit .zero)).stepEventCount *
          multiplier .default slowOne (planInit .zero) + 1 := by
  decide +kernel

end R2C2Firmware.Ports.SpeedLimit
