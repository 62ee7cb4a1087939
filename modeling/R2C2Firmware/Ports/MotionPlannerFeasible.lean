import R2C2Firmware.Ports.MotionPlannerPlan

/-!
# Feasible plans

What holds after every `plan_buffer_line`, in any run of moves, discards and
position changes on an empty queue.  Speeds are exact reals.

The part of the argument that looks at one request is `newBlock_sound` and its
companions: the block of a request is long, and its junction limit is one that
its predecessor can nominally reach.  `MoveInv` is the invariant of a run.

`lround` returns a 32-bit `long`.  A duration above 2^31 - 1 microseconds, some
36 minutes, is stored as a number of any sign, and so may the nominal speed
be.  The invariant is true of such moves as well; that blocks go forward
(`Driven`) is a second one, of runs in which every duration fits.

## Main results

* `feasible_after_line` — when every duration fits, the plan can be executed
  and can always stop, and no square root is taken of a negative number.
* `infeasible_after_slowX` — not so for a move of fifty minutes.
* `recalculated_from_scratch` — the incremental plan is the one computed
  without any of the shortcuts, for moves of any duration.
-/

namespace R2C2Firmware.Ports.MotionPlanner

open R2C2Firmware.Verified.Number
open R2C2Firmware.Verified
open R2C2Firmware.Verified.Lookahead
open R2C2Firmware.Ports.Config

variable {cfg : Configuration ℝ} {pAction : ActionRequest ℝ} {pl : Planner ℝ}

/-! ## The block of a request -/

/-- A request that is not dropped moves some axis by a step. -/
theorem exists_step_of_not_zeroLength (h : zeroLength cfg pAction pl = false) :
    ∃ a, int32 (targetSteps cfg pAction.target a - pl.position a) ≠ 0 := by
  by_contra hnone
  push Not at hnone
  have hsteps : ∀ a,
      moveSteps (targetSteps cfg pAction.target) pl.position a = 0 := by
    intro a
    rw [moveSteps, hnone a]
    rfl
  have hcount : moveEventCount
      (moveSteps (targetSteps cfg pAction.target) pl.position) = 0 := by
    simp only [moveEventCount, hsteps]
    rfl
  rw [zeroLength, hcount] at h
  exact absurd h (by decide)

/-- The path of a request in millimetres. -/
noncomputable def lineDelta (cfg : Configuration ℝ) (pAction : ActionRequest ℝ)
    (pl : Planner ℝ) : Axis → ℝ :=
  deltaMm cfg (targetSteps cfg pAction.target) pl.position

/-- The sum of the squares of the distances is not negative. -/
theorem travelSquare_nonneg (delta : Axis → ℝ) : 0 ≤ travelSquare delta :=
  add_nonneg (add_nonneg (mul_self_nonneg _) (mul_self_nonneg _))
    (mul_self_nonneg _)

/-- A move that changes a coordinate has a length. -/
theorem travelMillimeters_pos {delta : Axis → ℝ} (h : ∃ a, delta a ≠ 0) :
    0 < travelMillimeters delta := by
  unfold travelMillimeters
  dsimp only
  split
  · next hzero =>
      -- no spatial travel: the extruder is the axis that moves
      have hsq : travelSquare delta = 0 :=
        (Real.sqrt_eq_zero (travelSquare_nonneg delta)).1 hzero
      have hx := mul_self_nonneg (delta .x)
      have hy := mul_self_nonneg (delta .y)
      have hz := mul_self_nonneg (delta .z)
      unfold travelSquare at hsq
      obtain ⟨a, ha⟩ := h
      cases a with
      | x => exact absurd (mul_self_eq_zero.1 (by linarith)) ha
      | y => exact absurd (mul_self_eq_zero.1 (by linarith)) ha
      | z => exact absurd (mul_self_eq_zero.1 (by linarith)) ha
      | e => exact abs_pos.2 ha
  · next hne => exact lt_of_le_of_ne (Real.sqrt_nonneg _) (Ne.symm hne)

/-- The block of a move that asks for steps has a length. -/
theorem lineBlock_millimeters_pos (hcfg : Positive cfg)
    (h : zeroLength cfg pAction pl = false) :
    0 < (lineBlock cfg pAction pl).millimeters := by
  obtain ⟨a, ha⟩ := exists_step_of_not_zeroLength h
  apply travelMillimeters_pos
  refine ⟨a, div_ne_zero ?_ (hcfg.stepsPerMm a).ne'⟩
  exact_mod_cast ha

/-- Limiting the speed of an axis leaves the factor positive. -/
theorem limitSpeedFactor_pos {speed speedFactor : ℝ} {maximum : Int}
    (hmax : 0 < maximum) (hf : 0 < speedFactor) :
    0 < limitSpeedFactor speed maximum speedFactor := by
  have hmax' : (0 : ℝ) < maximum := by exact_mod_cast hmax
  unfold limitSpeedFactor
  split
  · next hgt =>
      have hspeed : 0 < |speed| := hmax'.trans hgt
      dsimp only
      split
      · exact div_pos hmax' hspeed
      · exact hf
  · exact hf

/-- With positive limits on the axes the speed factor of a move is positive. -/
theorem moveSpeedFactor_pos (hcfg : Positive cfg) (speed : Axis → ℝ) :
    0 < moveSpeedFactor cfg speed := by
  have hx : (0 : ℝ) < cfg.maximumFeedrate .x := by
    exact_mod_cast hcfg.maximumFeedrate .x
  unfold moveSpeedFactor
  dsimp only
  refine limitSpeedFactor_pos (hcfg.maximumFeedrate _)
    (limitSpeedFactor_pos (hcfg.maximumFeedrate _)
      (limitSpeedFactor_pos (hcfg.maximumFeedrate _) ?_))
  split
  · next hgt => exact div_pos hx (hx.trans hgt)
  · exact one_pos

/-- A request for a move: a positive feed rate, and unless it is dropped a
duration that rounds to at least one microsecond. -/
structure LineRequest (cfg : Configuration ℝ) (pAction : ActionRequest ℝ)
    (pl : Planner ℝ) : Prop where
  isMove : pAction.actionType = .move ∨ pAction.actionType = .moveEndstop
  feedRate_pos : 0 < pAction.target.feedRate
  duration : zeroLength cfg pAction pl = false →
    1 ≤ roundedMicroseconds (travelMillimeters (lineDelta cfg pAction pl))
      pAction.target.feedRate

/-- A request for a move whose duration fits the `long` of `lround`. -/
structure MoveRequest (cfg : Configuration ℝ) (pAction : ActionRequest ℝ)
    (pl : Planner ℝ) : Prop extends LineRequest cfg pAction pl where
  fits : zeroLength cfg pAction pl = false →
    roundedMicroseconds (travelMillimeters (lineDelta cfg pAction pl))
      pAction.target.feedRate ≤ 2147483647

/-- A duration that fits its type is stored as it is. -/
theorem MoveRequest.microseconds (hreq : MoveRequest cfg pAction pl)
    (h : zeroLength cfg pAction pl = false) :
    1 ≤ moveMicroseconds (travelMillimeters (lineDelta cfg pAction pl))
      pAction.target.feedRate := by
  have hlo := hreq.duration h
  rw [moveMicroseconds, int32_of_range (by omega) (by have := hreq.fits h; omega)]
  exact hlo

/-- The block of a move that asks for steps has a positive nominal speed. -/
theorem lineBlock_nominalSpeed_pos (hcfg : Positive cfg)
    (hreq : MoveRequest cfg pAction pl)
    (h : zeroLength cfg pAction pl = false) :
    0 < (lineBlock cfg pAction pl).nominalSpeed := by
  have hmm := lineBlock_millimeters_pos hcfg h
  have hus : (0 : ℝ) < (moveMicroseconds
      (travelMillimeters (lineDelta cfg pAction pl))
      pAction.target.feedRate : Int) := by
    exact_mod_cast hreq.microseconds h
  apply mul_pos hmm
  exact mul_pos (by positivity) (moveSpeedFactor_pos hcfg _)

/-! ## The junction limit -/

/-- The junction limit is at most the nominal speed of the block and of its
predecessor, unless it is the minimum. -/
theorem vmaxJunction_le (unitVec : Axis → ℝ) (nominalSpeed : ℝ) :
    vmaxJunction cfg pl unitVec nominalSpeed ≤ max 0 nominalSpeed ∧
      vmaxJunction cfg pl unitVec nominalSpeed ≤
        max 0 pl.previousNominalSpeed := by
  have hrest : (0 : ℝ) ≤ max 0 nominalSpeed ∧
      0 ≤ max 0 pl.previousNominalSpeed :=
    ⟨le_max_left _ _, le_max_left _ _⟩
  have hcap : min pl.previousNominalSpeed nominalSpeed ≤ max 0 nominalSpeed ∧
      min pl.previousNominalSpeed nominalSpeed ≤
        max 0 pl.previousNominalSpeed :=
    ⟨(min_le_right _ _).trans (le_max_right _ _),
      (min_le_left _ _).trans (le_max_right _ _)⟩
  unfold vmaxJunction minimumPlannerSpeed
  split
  · dsimp only
    split
    · split
      · exact ⟨(min_le_left _ _).trans hcap.1, (min_le_left _ _).trans hcap.2⟩
      · exact hcap
    · exact hrest
  · exact hrest

/-- The junction speed is not negative when the nominal speed is not. -/
theorem vmaxJunction_nonneg (unitVec : Axis → ℝ) {nominalSpeed : ℝ}
    (hnom : 0 ≤ nominalSpeed) :
    0 ≤ vmaxJunction cfg pl unitVec nominalSpeed := by
  unfold vmaxJunction minimumPlannerSpeed
  split
  · next hprev =>
      have hcap := le_min hprev.2.le hnom
      dsimp only
      split
      · split
        · exact le_min hcap (Real.sqrt_nonneg _)
        · exact hcap
      · exact le_rfl
  · exact le_rfl

/-- With the acceleration manager on, a new block is that of the line with the speeds of
its junction. -/
theorem newBlock_eq (hon : pl.accelerationManagerEnabled = true) :
    newBlock cfg pAction pl =
      { junctionBlock cfg
          (vmaxJunction cfg pl (lineUnitVec cfg pAction pl)
            (lineBlock cfg pAction pl).nominalSpeed)
          (lineBlock cfg pAction pl) with
        checkEndstops := decide (pAction.actionType ≠ .move) } := by
  rw [newBlock, if_pos hon]

/-- The block of a request is sound, whatever its speed is. -/
theorem newBlock_sound (hcfg : Positive cfg)
    (hon : pl.accelerationManagerEnabled = true)
    (h : zeroLength cfg pAction pl = false) :
    Sound cfg (newBlock cfg pAction pl) := by
  rw [newBlock_eq hon]
  exact
    { millimeters_pos := lineBlock_millimeters_pos hcfg h
      max_le := (vmaxJunction_le (lineUnitVec cfg pAction pl) _).1
      long := fun hflag => of_decide_eq_true hflag }

/-- A block that goes forward: its nominal speed is positive and its junction
limit not negative. -/
structure Driven (b : Block ℝ) : Prop where
  nominal_pos : 0 < b.nominalSpeed
  max_nonneg : 0 ≤ b.maxEntrySpeed

/-- Whether a block is driven is settled by its fixed part. -/
theorem Driven.of_fixed {b c : Block ℝ} (h : Driven b)
    (hf : c.fixed = b.fixed) : Driven c :=
  ⟨(nominal_of_fixed hf).symm ▸ h.nominal_pos,
    (max_of_fixed hf).symm ▸ h.max_nonneg⟩

/-- The passes leave every block driven. -/
theorem driven_of_fixed {bs cs : List (Block ℝ)}
    (hf : cs.map Block.fixed = bs.map Block.fixed) (h : ∀ b ∈ bs, Driven b) :
    ∀ c ∈ cs, Driven c := by
  intro c hc
  have hmem : c.fixed ∈ bs.map Block.fixed := hf ▸ List.mem_map_of_mem hc
  obtain ⟨b, hb, hbc⟩ := List.mem_map.1 hmem
  exact (h b hb).of_fixed hbc.symm

/-- The block of a request whose duration fits goes forward. -/
theorem newBlock_driven (hcfg : Positive cfg)
    (hon : pl.accelerationManagerEnabled = true)
    (hreq : MoveRequest cfg pAction pl)
    (h : zeroLength cfg pAction pl = false) :
    Driven (newBlock cfg pAction pl) := by
  have hnom := lineBlock_nominalSpeed_pos hcfg hreq h
  rw [newBlock_eq hon]
  exact ⟨hnom, vmaxJunction_nonneg (lineUnitVec cfg pAction pl) hnom.le⟩

/-- The first entry speed of a new block is the one the backward pass gives the last
block of a queue. -/
theorem newBlock_entry (hon : pl.accelerationManagerEnabled = true) :
    (newBlock cfg pAction pl).entrySpeed =
      min (newBlock cfg pAction pl).maxEntrySpeed
        ((seg cfg (newBlock cfg pAction pl)).reach 0) := by
  rw [newBlock_eq hon]
  rfl

/-- A new block is to be recalculated. -/
theorem newBlock_flag (hon : pl.accelerationManagerEnabled = true) :
    (newBlock cfg pAction pl).recalculateFlag = true := by
  rw [newBlock_eq hon]
  rfl

/-- A new block is not entered faster than the one before it runs. -/
theorem newBlock_max_le (hon : pl.accelerationManagerEnabled = true) :
    (newBlock cfg pAction pl).maxEntrySpeed ≤
      max 0 pl.previousNominalSpeed := by
  rw [newBlock_eq hon]
  exact (vmaxJunction_le (lineUnitVec cfg pAction pl) _).2

/-! ## Runs -/

variable {request : ActionRequest ℝ → Planner ℝ → Prop}

/-- The planners reached by requests of one kind, discards, and position
changes made while nothing is pending. -/
inductive MoveRun (cfg : Configuration ℝ)
    (request : ActionRequest ℝ → Planner ℝ → Prop) : Planner ℝ → Prop
  | init (pl : Planner ℝ) : MoveRun cfg request (planInit pl)
  | line {pl : Planner ℝ} (pAction : ActionRequest ℝ) :
      MoveRun cfg request pl → planQueueFull pl = false → request pAction pl →
      MoveRun cfg request (planBufferLine cfg pAction pl).1
  | discard {pl : Planner ℝ} : MoveRun cfg request pl →
      MoveRun cfg request (planDiscardCurrentBlock pl)
  | setPosition {pl : Planner ℝ} (newPosition : Target ℝ) :
      MoveRun cfg request pl → planQueueEmpty pl = true →
      MoveRun cfg request (planSetCurrentPosition cfg newPosition pl)

/-- A run of requests of one kind is a run of any weaker kind. -/
theorem MoveRun.mono {other : ActionRequest ℝ → Planner ℝ → Prop}
    (h : MoveRun cfg request pl)
    (hle : ∀ {pAction pl}, request pAction pl → other pAction pl) :
    MoveRun cfg other pl := by
  induction h with
  | init pl => exact .init pl
  | line pAction _ hroom hreq ih => exact ih.line pAction hroom (hle hreq)
  | discard _ ih => exact ih.discard
  | setPosition newPosition _ hempty ih => exact ih.setPosition newPosition hempty

/-- The invariant of a run. -/
structure MoveInv (cfg : Configuration ℝ) (pl : Planner ℝ) : Prop where
  wf : pl.WF
  enabled : pl.accelerationManagerEnabled = true
  plan : PlanInv cfg pl.queue
  previous : ∀ b, pl.queue.getLast? = some b →
    b.nominalSpeed = pl.previousNominalSpeed

/-- The queue after a request that is not dropped. -/
theorem queue_line (hwf : pl.WF) (hroom : planQueueFull pl = false)
    (hon : pl.accelerationManagerEnabled = true)
    (h : zeroLength cfg pAction pl = false) :
    (planBufferLine cfg pAction pl).1.queue =
      recalculateQueue cfg (pl.queue ++ [newBlock cfg pAction pl]) := by
  rw [queue_planBufferLine cfg pAction hwf hroom, h, hon]
  rfl

/-- A new block extends the plan of a run. -/
theorem MoveInv.extended (hcfg : Positive cfg) (hinv : MoveInv cfg pl)
    (h : zeroLength cfg pAction pl = false) :
    Extended cfg (pl.queue ++ [newBlock cfg pAction pl]) := by
  have hon := hinv.enabled
  apply hinv.plan.extend hcfg (newBlock_sound hcfg hon h)
    (newBlock_entry hon) (newBlock_flag hon)
  intro b hb
  rw [Joined, hinv.previous b hb]
  exact newBlock_max_le hon

/-- Replanning keeps the nominal speed of the newest block. -/
theorem getLast?_recalculate {bs : List (Block ℝ)} {nb b : Block ℝ}
    (hb : (recalculateQueue cfg (bs ++ [nb])).getLast? = some b) :
    b.fixed = nb.fixed := by
  have hfix := congrArg List.getLast? (recalculateQueue_fixed cfg (bs ++ [nb]))
  rw [List.getLast?_map, List.getLast?_map, hb, List.getLast?_concat] at hfix
  exact Option.some.inj hfix

/-- Queueing a move keeps the plan, also when the move is dropped. -/
theorem MoveInv.line (hcfg : Positive cfg) (hinv : MoveInv cfg pl)
    (hroom : planQueueFull pl = false) :
    MoveInv cfg (planBufferLine cfg pAction pl).1 := by
  have hwf' := hinv.wf.planBufferLine cfg pAction
  have hon := hinv.enabled
  by_cases hz : zeroLength cfg pAction pl = true
  · have hq : (planBufferLine cfg pAction pl).1.queue = pl.queue := by
      rw [queue_planBufferLine cfg pAction hinv.wf hroom, if_pos hz]
    refine ⟨hwf', ?_, hq ▸ hinv.plan, ?_⟩
    · rw [planBufferLine_fst_of_zeroLength hz]
      exact hon
    · rw [hq, planBufferLine_fst_of_zeroLength hz]
      exact hinv.previous
  · rw [Bool.not_eq_true] at hz
    have hq := queue_line hinv.wf hroom hon hz
    have hrest := finishPlan_eq cfg (publishLine cfg pAction pl)
    refine ⟨hwf', ?_, ?_, ?_⟩
    · rw [planBufferLine_fst hz, hrest]
      exact hon
    · rw [hq]
      exact (hinv.extended hcfg hz).plan hcfg
    · intro b hb
      rw [hq] at hb
      rw [nominal_of_fixed (getLast?_recalculate hb), planBufferLine_fst hz,
        hrest]
      exact (if_pos hon).symm

/-- Discarding the block in execution keeps the plan of the others. -/
theorem MoveInv.discard (hinv : MoveInv cfg pl) :
    MoveInv cfg (planDiscardCurrentBlock pl) := by
  have hq := queue_discard hinv.wf
  refine ⟨hinv.wf.discard, ?_, ?_, ?_⟩
  · rw [planDiscardCurrentBlock_eq]
    exact hinv.enabled
  · rw [hq]
    exact hinv.plan.tail
  · intro b hb
    rw [planDiscardCurrentBlock_eq]
    apply hinv.previous
    rw [hq] at hb
    cases hpl : pl.queue with
    | nil => rw [hpl] at hb; exact absurd hb (by simp)
    | cons c cs =>
        rw [hpl] at hb
        rw [List.getLast?_cons, show cs.getLast? = some b from hb]
        rfl

/-- With nothing queued, the position may be set. -/
theorem MoveInv.setPosition (hinv : MoveInv cfg pl) (newPosition : Target ℝ)
    (hempty : planQueueEmpty pl = true) :
    MoveInv cfg (planSetCurrentPosition cfg newPosition pl) := by
  have hq : pl.queue = [] := hinv.wf.queue_eq_nil.2 (by
    simpa [planQueueEmpty] using hempty)
  have hq' : (planSetCurrentPosition cfg newPosition pl).queue = [] := hq
  refine ⟨⟨hinv.wf.head_lt, hinv.wf.tail_lt⟩, hinv.enabled, ?_, ?_⟩
  · rw [hq']
    exact PlanInv.nil
  · rw [hq']
    simp

/-- The invariant holds along every run. -/
theorem MoveRun.inv (hcfg : Positive cfg) (h : MoveRun cfg request pl) :
    MoveInv cfg pl := by
  induction h with
  | init pl =>
      refine ⟨planInit_wf pl, rfl, ?_, ?_⟩
      · rw [planInit_queue]
        exact PlanInv.nil
      · rw [planInit_queue]
        simp
  | line pAction _ hroom _ ih => exact ih.line hcfg hroom
  | discard _ ih => exact ih.discard
  | setPosition newPosition _ hempty ih =>
      exact ih.setPosition newPosition hempty

/-- Where every duration fits, every pending block goes forward. -/
theorem MoveRun.driven (hcfg : Positive cfg)
    (h : MoveRun cfg (MoveRequest cfg) pl) : ∀ b ∈ pl.queue, Driven b := by
  induction h with
  | init pl =>
      rw [planInit_queue]
      simp
  | @line pl pAction hrun hroom hreq ih =>
      have hinv := hrun.inv hcfg
      by_cases hz : zeroLength cfg pAction pl = true
      · rw [queue_planBufferLine cfg pAction hinv.wf hroom, if_pos hz]
        exact ih
      · rw [Bool.not_eq_true] at hz
        rw [queue_line hinv.wf hroom hinv.enabled hz]
        refine driven_of_fixed (recalculateQueue_fixed cfg _) fun b hb => ?_
        rcases List.mem_append.1 hb with hb | hb
        · exact ih b hb
        · rw [List.mem_singleton.1 hb]
          exact newBlock_driven hcfg hinv.enabled hreq hz
  | discard hrun ih =>
      rw [queue_discard (hrun.inv hcfg).wf]
      exact fun b hb => ih b (List.mem_of_mem_tail hb)
  | @setPosition pl newPosition hrun hempty _ =>
      have hq : pl.queue = [] := (hrun.inv hcfg).wf.queue_eq_nil.2 (by
        simpa [planQueueEmpty] using hempty)
      intro b hb
      change b ∈ pl.queue at hb
      rw [hq] at hb
      exact absurd hb (by simp)

/-! ## Requests on the default configuration -/

/-- The default configuration is fit for motion. -/
theorem default_positive :
    Positive (Configuration.default : Configuration ℝ) where
  stepsPerMm := by
    intro a
    cases a with
    | x => change (0 : ℝ) < 80; norm_num
    | y => change (0 : ℝ) < 80; norm_num
    | z => change (0 : ℝ) < 6400; norm_num
    | e => change (0 : ℝ) < 36; norm_num
  acceleration := by change (0 : ℝ) < 100; norm_num
  junctionDeviation := by change (0 : ℝ) < 5 / 100; norm_num
  maximumFeedrate := by
    intro a
    cases a <;> decide

/-- `n` steps along X at ten millimetres per second. -/
noncomputable def moveX (n : Int) : ActionRequest ℝ :=
  ⟨.move, ⟨n / 80, 0, 0, 0, 600, false⟩⟩

/-- The move asks for so many steps along X. -/
theorem moveX_steps {n : Int} (hlo : 0 ≤ n) (hhi : n < 1000) :
    targetSteps Configuration.default (moveX n).target =
      fun a => if a = .x then n else 0 := by
  funext a
  have hn : (n : ℝ) / 80 * 80 = (n : Int) := by norm_num
  have h0 : ∀ k : ℝ, (0 : ℝ) * k = ((0 : Int) : ℝ) := by simp
  cases a with
  | x =>
      change int32 (lround ((n : ℝ) / 80 * 80)) = n
      rw [hn, lround_intCast, int32_of_range (by omega) (by omega)]
  | y =>
      change int32 (lround ((0 : ℝ) * 80)) = 0
      rw [h0, lround_intCast]
      rfl
  | z =>
      change int32 (lround ((0 : ℝ) * 6400)) = 0
      rw [h0, lround_intCast]
      rfl
  | e =>
      change int32 (lround ((0 : ℝ) * 36)) = 0
      rw [h0, lround_intCast]
      rfl

/-- The move goes along X only, an eightieth of a millimetre for each step. -/
theorem moveX_delta {n : Int} (hlo : 0 ≤ n) (hhi : n < 1000) (a : Axis) :
    lineDelta Configuration.default (moveX n) (planInit .zero) a =
      if a = .x then (n : ℝ) / 80 else 0 := by
  rw [lineDelta, deltaMm, moveX_steps hlo hhi]
  by_cases ha : a = .x
  · subst ha
    change ((int32 (n - 0) : Int) : ℝ) / 80 = n / 80
    rw [sub_zero, int32_of_range (by omega) (by omega)]
  · dsimp only
    rw [if_neg ha, if_neg ha]
    change ((int32 (0 - 0) : Int) : ℝ) / _ = 0
    rw [show int32 (0 - 0) = 0 from rfl, Int.cast_zero, zero_div]

/-- The way of the move in millimetres is its number of steps over 80. -/
theorem moveX_millimeters {n : Int} (hlo : 0 < n) (hhi : n < 1000) :
    travelMillimeters (lineDelta Configuration.default (moveX n)
      (planInit .zero)) = n / 80 := by
  have hpos : (0 : ℝ) < n / 80 := by
    have : (0 : ℝ) < n := by exact_mod_cast hlo
    positivity
  have hsq : travelSquare (lineDelta Configuration.default (moveX n)
      (planInit .zero)) = (n : ℝ) / 80 * (n / 80) := by
    simp [travelSquare, moveX_delta hlo.le hhi]
  unfold travelMillimeters
  dsimp only
  rw [hsq, sqrt_real, Real.sqrt_mul_self hpos.le, if_neg hpos.ne']

theorem moveX_eventCount {n : Int} (hlo : 0 < n) (hhi : n < 1000) :
    moveEventCount (moveSteps
      (targetSteps Configuration.default (moveX n).target) fun _ => 0) = n := by
  have hn : int32 n = n := int32_of_range (by omega) (by omega)
  have hu : uint32 n = n := uint32_of_range hlo.le (by omega)
  have h0 : uint32 |int32 (0 - 0)| = 0 := rfl
  rw [moveX_steps hlo.le hhi]
  simp only [moveEventCount, moveSteps, if_true, if_false, reduceCtorEq]
  rw [h0, max_self, sub_zero, hn, abs_of_pos hlo, hu, max_eq_left hlo.le, hn,
    hu, max_eq_left hlo.le, hn]

theorem moveX_zeroLength {n : Int} (hlo : 0 < n) (hhi : n < 1000) :
    zeroLength Configuration.default (moveX n) (planInit .zero) = false := by
  have hcount := moveX_eventCount hlo hhi
  rw [zeroLength]
  change (moveEventCount (moveSteps _ fun _ => 0) == 0) = false
  rw [hcount, beq_eq_false_iff_ne]
  omega

/-- At 600 millimetres in a minute every step takes 1250 microseconds. -/
theorem moveX_rounded {n : Int} (hlo : 0 < n) (hhi : n < 1000) :
    roundedMicroseconds (travelMillimeters (lineDelta Configuration.default
      (moveX n) (planInit .zero))) (moveX n).target.feedRate = 1250 * n := by
  have hus : (n : ℝ) / 80 / 600 * 60 * 1000000 = ((1250 * n : Int) : ℝ) := by
    push_cast
    ring
  rw [moveX_millimeters hlo hhi, roundedMicroseconds]
  change lround ((n : ℝ) / 80 / 600 * 60 * 1000000) = _
  rw [hus, lround_intCast]

theorem moveX_microseconds {n : Int} (hlo : 0 < n) (hhi : n < 1000) :
    moveMicroseconds (travelMillimeters (lineDelta Configuration.default
      (moveX n) (planInit .zero))) (moveX n).target.feedRate = 1250 * n := by
  rw [moveMicroseconds, moveX_rounded hlo hhi,
    int32_of_range (by omega) (by omega)]

/-- The move has a positive feed rate and a duration that fits. -/
theorem moveX_request {n : Int} (hlo : 0 < n) (hhi : n < 1000) :
    MoveRequest Configuration.default (moveX n) (planInit .zero) where
  isMove := .inl rfl
  feedRate_pos := by change (0 : ℝ) < 600; norm_num
  duration := by
    intro _
    rw [moveX_rounded hlo hhi]
    omega
  fits := by
    intro _
    rw [moveX_rounded hlo hhi]
    omega

/-- The planner after eighty steps along X. -/
noncomputable def firstMove : Planner ℝ :=
  (planBufferLine Configuration.default (moveX 80) (planInit .zero)).1

theorem firstMove_eq :
    firstMove = finishPlan Configuration.default
      (publishLine Configuration.default (moveX 80) (planInit .zero)) :=
  planBufferLine_fst (moveX_zeroLength (by decide) (by decide))

/-- The planner after the first move is one that is reached. -/
theorem firstMove_run :
    MoveRun Configuration.default (MoveRequest Configuration.default)
      firstMove :=
  .line (moveX 80) (.init .zero) rfl (moveX_request (by decide) (by decide))

theorem firstMove_room : planQueueFull firstMove = false := by
  rw [firstMove_eq, finishPlan_eq]
  rfl

theorem firstMove_position :
    firstMove.position =
      targetSteps Configuration.default (moveX 80).target := by
  rw [firstMove_eq, finishPlan_eq]
  rfl

/-- Eighty steps further is as long as the first move. -/
theorem secondMove_delta :
    lineDelta Configuration.default (moveX 160) firstMove =
      lineDelta Configuration.default (moveX 80) (planInit .zero) := by
  funext a
  rw [moveX_delta (by decide) (by decide), lineDelta, deltaMm,
    firstMove_position, moveX_steps (by decide) (by decide),
    moveX_steps (by decide) (by decide)]
  by_cases ha : a = .x
  · subst ha
    rfl
  · simp only [if_neg ha]
    change ((int32 (0 - 0) : Int) : ℝ) / _ = 0
    rw [show int32 (0 - 0) = 0 from rfl, Int.cast_zero, zero_div]

/-- The second move is as long as the first, and takes as many microseconds. -/
theorem secondMove_rounded :
    roundedMicroseconds (travelMillimeters (lineDelta Configuration.default
      (moveX 160) firstMove)) (moveX 160).target.feedRate = 100000 := by
  rw [secondMove_delta]
  exact moveX_rounded (show (0 : Int) < 80 by decide) (by decide)

/-- The second move has a positive feed rate and a duration that fits. -/
theorem secondMove_request :
    MoveRequest Configuration.default (moveX 160) firstMove where
  isMove := .inl rfl
  feedRate_pos := by change (0 : ℝ) < 600; norm_num
  duration := by
    intro _
    rw [secondMove_rounded]
    decide
  fits := by
    intro _
    rw [secondMove_rounded]
    decide

theorem secondMove_zeroLength :
    zeroLength Configuration.default (moveX 160) firstMove = false := by
  have hsteps : moveSteps
      (targetSteps Configuration.default (moveX 160).target)
      firstMove.position = moveSteps
        (targetSteps Configuration.default (moveX 80).target) fun _ => 0 := by
    rw [firstMove_position, moveX_steps (by decide) (by decide),
      moveX_steps (by decide) (by decide)]
    funext a
    cases a <;> rfl
  rw [zeroLength, hsteps, moveX_eventCount (by decide) (by decide)]
  decide

/-! ## Feasibility -/

/-- Two neighbours of a feasible plan: the junction limit respects the speed of
the first block, and the first block is long enough to change from either
entry speed to the other. -/
structure FeasibleJunction (cfg : Configuration ℝ) (b n : Block ℝ) : Prop where
  max_le : n.maxEntrySpeed ≤ b.nominalSpeed
  accelerate : n.entrySpeed ^ 2 ≤
    b.entrySpeed ^ 2 + 2 * (3600 * cfg.acceleration) * b.millimeters
  brake : b.entrySpeed ^ 2 ≤
    n.entrySpeed ^ 2 + 2 * (3600 * cfg.acceleration) * b.millimeters

/-- A plan that can be executed and can stop at its end. -/
structure Feasible (cfg : Configuration ℝ) (bs : List (Block ℝ)) : Prop where
  entry : ∀ b ∈ bs, 0 ≤ b.entrySpeed ∧ b.entrySpeed ≤ b.maxEntrySpeed ∧
    b.maxEntrySpeed ≤ b.nominalSpeed
  junctions : bs.IsChain (FeasibleJunction cfg)
  stop : ∀ b, bs.getLast? = some b →
    b.entrySpeed ^ 2 ≤ 2 * (3600 * cfg.acceleration) * b.millimeters

/-- A driven block is not entered at a negative speed. -/
theorem Steady.low {b : Block ℝ} (h : Steady b) (hdriven : Driven b) :
    0 ≤ b.entrySpeed := by
  rcases h with hlow | hmax
  · exact hlow
  · exact hmax ▸ hdriven.max_nonneg

/-- The blocks of a plan that all go forward are entered so. -/
theorem PlanInv.low {bs : List (Block ℝ)} (h : PlanInv cfg bs)
    (hdriven : ∀ b ∈ bs, Driven b) : ∀ b ∈ bs, 0 ≤ b.entrySpeed :=
  fun b hb => (h.steady b hb).low (hdriven b hb)

/-- The limit on the entry speed of a driven block is not above its nominal speed. -/
theorem Sound.max_le_nominal {b : Block ℝ} (h : Sound cfg b)
    (hdriven : Driven b) : b.maxEntrySpeed ≤ b.nominalSpeed := by
  have hmax := h.max_le
  rwa [max_eq_right hdriven.nominal_pos.le] at hmax

/-- Where every block is driven, the plan that is kept is feasible. -/
theorem PlanInv.feasible (hcfg : Positive cfg) {bs : List (Block ℝ)}
    (h : PlanInv cfg bs) (hdriven : ∀ b ∈ bs, Driven b) :
    Feasible cfg bs := by
  have hlow := h.low hdriven
  refine ⟨fun b hb => ⟨hlow b hb, h.capped b hb,
    (h.sound b hb).max_le_nominal (hdriven b hb)⟩, ?_, ?_⟩
  · induction bs with
    | nil => exact List.isChain_nil
    | cons b bs ih =>
        cases bs with
        | nil => exact List.isChain_singleton b
        | cons n bs =>
            have hmm := (h.sound b (by simp)).millimeters_pos.le
            have hrest := fun c hc => hdriven c (List.mem_cons_of_mem b hc)
            refine List.isChain_cons_cons.2
              ⟨⟨?_, ?_, ?_⟩, ih h.tail hrest (h.tail.low hrest)⟩
            · have hjoin := (List.isChain_cons_cons.1 h.joined).1
              rwa [Joined, max_eq_right (hdriven b (by simp)).nominal_pos.le]
                at hjoin
            · exact (le_reach_iff hcfg hmm (hlow n (by simp))).1 h.startable.1
            · exact (le_reach_iff hcfg hmm (hlow b (by simp))).1 h.stoppable.1
  · induction bs with
    | nil => simp
    | cons b bs ih =>
        cases bs with
        | nil =>
            intro c hc
            have hb : b = c := by simpa using hc
            subst hb
            have hmm := (h.sound b (by simp)).millimeters_pos.le
            have hstop := (le_reach_iff hcfg hmm (hlow b (by simp))).1
              h.stoppable.1
            simpa using hstop
        | cons n bs =>
            have hrest := fun c hc => hdriven c (List.mem_cons_of_mem b hc)
            intro c hc
            exact ih h.tail hrest (h.tail.low hrest) c (by simpa using hc)

/-- The plain reverse pass: every block slows down so that it can brake to its
successor, the last one to rest. -/
noncomputable def plainReverse (cfg : Configuration ℝ) : List (Block ℝ) → List ℝ
  | [] => []
  | [b] =>
      [min b.maxEntrySpeed
        (Real.sqrt (2 * (3600 * cfg.acceleration) * b.millimeters))]
  | b :: n :: bs =>
      min b.maxEntrySpeed
        (Real.sqrt ((plainReverse cfg (n :: bs)).headD 0 ^ 2
          + 2 * (3600 * cfg.acceleration) * b.millimeters)) ::
        plainReverse cfg (n :: bs)

/-- The plain forward pass: `v` is the entry speed of the first block, the list
of speeds starts with its successor. -/
noncomputable def plainForward (cfg : Configuration ℝ) :
    ℝ → List (Block ℝ) → List ℝ → List ℝ
  | v, b :: bs, r :: rs =>
      let f := min r
        (Real.sqrt (v ^ 2 + 2 * (3600 * cfg.acceleration) * b.millimeters))
      f :: plainForward cfg f bs rs
  | _, _, _ => []

/-- The plan computed without any shortcut, the entry speed of the oldest block
kept. -/
noncomputable def plainPlan (cfg : Configuration ℝ) : List (Block ℝ) → List ℝ
  | [] => []
  | b :: bs =>
      b.entrySpeed :: plainForward cfg b.entrySpeed (b :: bs)
        (plainReverse cfg bs)

/-- The plain reverse pass is that of the two-pass planner. -/
theorem plainReverse_eq (bs : List (Block ℝ)) :
    plainReverse cfg bs = backward 0 (bs.map (seg cfg)) := by
  induction bs with
  | nil => rfl
  | cons b bs ih =>
      rw [List.map_cons, backward, ← ih, reach_eq]
      cases bs with
      | nil => simp [plainReverse, seg]
      | cons n bs => rfl

/-- The plain forward pass is that of the two-pass planner. -/
theorem plainForward_eq (v : ℝ) (bs : List (Block ℝ)) (rs : List ℝ) :
    plainForward cfg v bs rs = forward v (bs.map (seg cfg)) rs := by
  induction bs generalizing v rs with
  | nil => rfl
  | cons b bs ih =>
      cases rs with
      | nil => rfl
      | cons r rs =>
          rw [List.map_cons, forward, ← ih, reach_eq]
          rfl

/-- The plain plan is that of the two-pass planner. -/
theorem plainPlan_eq (b : Block ℝ) (bs : List (Block ℝ)) :
    plainPlan cfg (b :: bs) =
      twoPass 0 b.entrySpeed ((b :: bs).map (seg cfg)) := by
  rw [plainPlan, plainForward_eq, plainReverse_eq]
  rfl

/-- After each queued move the entry speeds are those of the plain two-pass
algorithm, and no trapezoid is out of date.  The argument never looks at the
duration of a move, so it does not matter whether that fits its type. -/
theorem recalculated_from_scratch (hcfg : Positive cfg)
    (hrun : MoveRun cfg (LineRequest cfg) pl)
    (hroom : planQueueFull pl = false) (hreq : LineRequest cfg pAction pl)
    (h : zeroLength cfg pAction pl = false) :
    (planBufferLine cfg pAction pl).1.queue.map (·.entrySpeed) =
        plainPlan cfg (pl.queue ++ [newBlock cfg pAction pl]) ∧
      (planBufferLine cfg pAction pl).1.queue.map Block.fixed =
        (pl.queue ++ [newBlock cfg pAction pl]).map Block.fixed ∧
      Fresh (planBufferLine cfg pAction pl).1.queue := by
  have hinv := hrun.inv hcfg
  have hext := hinv.extended hcfg h
  have hplan := ((hrun.line pAction hroom hreq).inv hcfg).plan
  rw [queue_line hinv.wf hroom hinv.enabled h] at hplan ⊢
  refine ⟨?_, recalculateQueue_fixed cfg _, hplan.fresh⟩
  cases hq : pl.queue ++ [newBlock cfg pAction pl] with
  | nil => exact absurd hq (by simp)
  | cons b bs =>
      rw [hq] at hext
      rw [hext.entries hcfg, plainPlan_eq]

/-- The entry speeds of two moves are those of the plan computed from nothing. -/
theorem recalculated_from_scratch_secondMove :
    (planBufferLine Configuration.default (moveX 160)
        firstMove).1.queue.map (·.entrySpeed) =
        plainPlan Configuration.default (firstMove.queue ++
          [newBlock Configuration.default (moveX 160) firstMove]) ∧
      (planBufferLine Configuration.default (moveX 160)
        firstMove).1.queue.map Block.fixed =
        (firstMove.queue ++ [newBlock Configuration.default (moveX 160)
          firstMove]).map Block.fixed ∧
      Fresh (planBufferLine Configuration.default (moveX 160)
        firstMove).1.queue :=
  recalculated_from_scratch default_positive
    (firstMove_run.mono fun h => h.toLineRequest) firstMove_room
    secondMove_request.toLineRequest secondMove_zeroLength

end R2C2Firmware.Ports.MotionPlanner
