import R2C2Firmware.Ports.CommandFrame
import R2C2Firmware.Ports.PlanCalls
import R2C2Firmware.Ports.PositionAgreement

/-!
# The feed rate of a move

`plan_buffer_line` divides the length of a move by its feed rate, rounds the
quotient to microseconds and divides by that.  The check against a minimum feed
rate is commented out there, so the rate has to be right when it arrives: not
zero, not so large that the move takes less than half a microsecond, and not so
small that the microseconds do not fit a `long`.

It is not right on its own.  `plan_init` leaves a feed rate of zero, the default
that `gcode_parse_init` chooses stays in the parser and is merged into no move,
and so the first `G1` after power-up is planned with zero unless it has an F
word.  An F word is taken as it is, and so is the parameter `S` of `M551`; and
`M101` and `M103` extrude a length that `M227` and `M229` set.

The moves of homing are always right.  Those the lines ask for are right when
the feed rate fits the distance, and then nothing else can go wrong.

## Main results

* `microseconds_fit_iff` — the rounding, solved for the feed rate.
* `feed_usable` — the condition on the lines is enough, in every run.
* `first_move_at_zero` — the first move after power-up.
-/

set_option linter.unusedSectionVars false

namespace R2C2Firmware.Ports.FeedRate

open R2C2Firmware.Verified.Number
open R2C2Firmware.Verified.BusyWait
open R2C2Firmware.Ports.Config
open R2C2Firmware.Ports.MotionPlanner
open R2C2Firmware.Ports.Stepper
open R2C2Firmware.Ports.Temp
open R2C2Firmware.Ports.Sermsg
open R2C2Firmware.Ports.GcodeParse
open R2C2Firmware.Ports.Mendel
open R2C2Firmware.Ports.GcodeProcess
open R2C2Firmware.Ports.MainLoop
open R2C2Firmware.Ports.PositionAgreement
open R2C2Firmware.Ports.PlanCalls (PlanEvent PlanM planEvents)

variable {R σ : Type} [Field R] [LinearOrder R] [IsStrictOrderedRing R]
  [HasSqrt R] [FloorRing R]
variable {P : Platform σ}

/-! ## Rounding -/

/-- The feed rate fits the distance: the move takes at least half a microsecond
and less than `2^31 - 1/2` of them. -/
structure Fits (feedRate distance : R) : Prop where
  pos : 0 < feedRate
  fast : feedRate ≤ 120000000 * distance
  slow : 60000000 * distance < (2147483648 - 1 / 2) * feedRate

theorem lround_fit_iff (x : R) :
    (1 ≤ lround x ∧ lround x ≤ 2147483647) ↔
      1 / 2 ≤ x ∧ x < 2147483648 - 1 / 2 := by
  unfold lround
  split
  · rw [Int.le_floor, ← Int.lt_add_one_iff, Int.floor_lt]
    push_cast
    constructor
    · rintro ⟨h1, h2⟩
      constructor <;> linarith
    · rintro ⟨h1, h2⟩
      constructor <;> linarith
  · next hneg =>
    constructor
    · rintro ⟨h1, -⟩
      have hceil : (0 : Int) < ⌈x - 1 / 2⌉ := by omega
      rw [Int.lt_ceil, Int.cast_zero] at hceil
      linarith
    · rintro ⟨h1, -⟩
      linarith

/-- The microseconds of a move are usable exactly when the feed rate fits. -/
theorem microseconds_fit_iff {feedRate : R} (hpos : 0 < feedRate) (distance : R) :
    (1 ≤ roundedMicroseconds distance feedRate ∧
        roundedMicroseconds distance feedRate ≤ 2147483647) ↔
      Fits feedRate distance := by
  have htime : distance / feedRate * 60 * 1000000 =
      60000000 * distance / feedRate := by ring
  rw [roundedMicroseconds, lround_fit_iff, htime, le_div_iff₀ hpos,
    div_lt_iff₀ hpos]
  constructor
  · rintro ⟨hfast, hslow⟩
    exact ⟨hpos, by linarith, hslow⟩
  · intro h
    exact ⟨by linarith [h.fast], h.slow⟩

theorem lround_near (x : R) : |(lround x : R) - x| ≤ 1 / 2 := by
  unfold lround
  split
  · have h1 := Int.floor_le (x + 1 / 2)
    have h2 := Int.lt_floor_add_one (x + 1 / 2)
    rw [abs_le]
    constructor <;> linarith
  · have h1 := Int.le_ceil (x - 1 / 2)
    have h2 := Int.ceil_lt_add_one (x - 1 / 2)
    rw [abs_le]
    constructor <;> linarith

/-- Rounding commutes with whole steps, up to one step. -/
theorem lround_add_int (x : R) (n : Int) :
    |lround (x + n) - lround x - n| ≤ 1 := by
  have h1 := abs_le.1 (lround_near (x + n))
  have h2 := abs_le.1 (lround_near x)
  have hcast : |((lround (x + n) - lround x - n : Int) : R)| ≤ 1 := by
    push_cast
    rw [abs_le]
    constructor <;> linarith [h1.1, h1.2, h2.1, h2.2]
  have hint : ((|lround (x + n) - lround x - n| : Int) : R) ≤ ((1 : Int) : R) := by
    rw [Int.cast_abs]
    simpa using hcast
  exact_mod_cast hint

theorem int32_sub_int32 (a b : Int) : int32 (int32 a - int32 b) = int32 (a - b) := by
  unfold int32 wrapSigned
  omega

/-! ## Calls -/

/-- The length of the way from the current position to a target, in
millimetres. -/
def distance (fw : Firmware R σ) (t : Target R) : R :=
  travelMillimeters
    (deltaMm fw.config (targetSteps fw.config t) fw.machine.planner.position)

/-- A call of `plan_buffer_line` makes at least one step. -/
def Steps (fw : Firmware R σ) (request : ActionRequest R) : Prop :=
  zeroLength fw.config request fw.machine.planner = false

/-- A call of `plan_buffer_line` has a feed rate it can plan with. -/
structure Usable (fw : Firmware R σ) (request : ActionRequest R) : Prop where
  feed : 0 < request.target.feedRate
  lower : 1 ≤ roundedMicroseconds (distance fw request.target)
    request.target.feedRate
  upper : roundedMicroseconds (distance fw request.target)
    request.target.feedRate ≤ 2147483647

theorem usable_of_fits {fw : Firmware R σ} {request : ActionRequest R}
    (h : Fits request.target.feedRate (distance fw request.target)) :
    Usable fw request :=
  have hmicro := (microseconds_fit_iff h.pos _).2 h
  ⟨h.pos, hmicro.1, hmicro.2⟩

/-- The call is one of `plan_buffer_line`. -/
def isLine (request : ActionRequest R) : Prop :=
  request.actionType = .move ∨ request.actionType = .moveEndstop

/-- A call of `plan_buffer_line` that passes the check for a length of zero has
a usable feed rate.  Position and configuration stay as they are while the call
waits for room. -/
def UsableCall : PlanEvent R σ → Prop
  | .called fw request => isLine request → Steps fw request → Usable fw request
  | .queued _ _ | .synched _ => True

/-! ## A move along one axis -/

section OneAxis

variable {cfg : Configuration R} {target position : Axis → Int} {a : Axis}

theorem moveSteps_eq_zero (h : int32 (target a - position a) = 0) :
    moveSteps target position a = 0 := by
  rw [moveSteps, h]
  rfl

theorem exists_step_of_steps {fw : Firmware R σ} {request : ActionRequest R}
    (h : Steps fw request)
    (hothers : ∀ b, b ≠ a → int32 (targetSteps fw.config request.target b -
      fw.machine.planner.position b) = 0) :
    int32 (targetSteps fw.config request.target a -
      fw.machine.planner.position a) ≠ 0 := by
  intro hzero
  have hall : ∀ b, moveSteps (targetSteps fw.config request.target)
      fw.machine.planner.position b = 0 := by
    intro b
    by_cases hb : b = a
    · exact moveSteps_eq_zero (hb ▸ hzero)
    · exact moveSteps_eq_zero (hothers b hb)
  have hcount : zeroLength fw.config request fw.machine.planner = true := by
    rw [zeroLength, moveEventCount, hall .x, hall .y, hall .z, hall .e]
    rfl
  rw [Steps, hcount] at h
  cases h

/-- The length of a move along one axis. -/
theorem travelMillimeters_axis (hsqrt : ∀ x : R, HasSqrt.sqrt (x * x) = |x|)
    (ha : a ≠ .e) {delta : Axis → R} (hothers : ∀ b, b ≠ a → delta b = 0)
    (hne : delta a ≠ 0) : travelMillimeters delta = |delta a| := by
  have hsquare : travelSquare delta = delta a * delta a := by
    unfold travelSquare
    cases a with
    | x => rw [hothers .y (by decide), hothers .z (by decide)]; ring
    | y => rw [hothers .x (by decide), hothers .z (by decide)]; ring
    | z => rw [hothers .x (by decide), hothers .y (by decide)]; ring
    | e => exact absurd rfl ha
  unfold travelMillimeters
  dsimp only
  rw [hsquare, hsqrt, if_neg (abs_ne_zero.2 hne)]

end OneAxis

/-- A move of `n` steps along one axis, from a position that agrees with the
current point, fits a feed rate that fits `n` steps and one more. -/
theorem fits_axis (hsqrt : ∀ x : R, HasSqrt.sqrt (x * x) = |x|)
    {fw : Firmware R σ} {request : ActionRequest R} {a : Axis} {k : R} {n : Int}
    (hagrees : Agrees fw) (ha : a ≠ .e) (hscale : 0 < fw.config.stepsPerMm a)
    (hn : k * fw.config.stepsPerMm a = (n : R)) (hsmall : |n| ≤ 2147483000)
    (hthere : request.target.coord a = fw.startpoint.coord a + k)
    (hothers : ∀ b, b ≠ a → request.target.coord b = fw.startpoint.coord b)
    (hpos : 0 < request.target.feedRate)
    (hfast : request.target.feedRate * fw.config.stepsPerMm a ≤ 120000000)
    (hslow : 60000000 * ((|n| + 1 : Int) : R) <
      (2147483648 - 1 / 2) * request.target.feedRate * fw.config.stepsPerMm a)
    (hsteps : Steps fw request) :
    Fits request.target.feedRate (distance fw request.target) := by
  set scale := fw.config.stepsPerMm a with hscaledef
  set F := request.target.feedRate with hF
  have hrest : ∀ b, b ≠ a → int32 (targetSteps fw.config request.target b -
      fw.machine.planner.position b) = 0 := by
    intro b hb
    rw [hagrees b, targetSteps, hothers b hb, sub_self]
    rfl
  set steps := int32 (targetSteps fw.config request.target a -
    fw.machine.planner.position a) with hstepsdef
  have hne : steps ≠ 0 := exists_step_of_steps hsteps hrest
  have hnear : |steps - n| ≤ 1 := by
    have hround := lround_add_int (fw.startpoint.coord a * scale) n
    have hsum : request.target.coord a * scale =
        fw.startpoint.coord a * scale + n := by
      rw [hthere, ← hn]
      ring
    have hval : steps = int32 (lround (fw.startpoint.coord a * scale + n) -
        lround (fw.startpoint.coord a * scale)) := by
      rw [hstepsdef, hagrees a, targetSteps, ← hscaledef, hsum, int32_sub_int32]
    rw [hval, int32_of_range (by grind) (by grind)]
    exact hround
  have hlow : (1 : R) ≤ ((|steps| : Int) : R) := by
    exact_mod_cast Int.one_le_abs hne
  have hhigh : ((|steps| : Int) : R) ≤ ((|n| + 1 : Int) : R) := by
    have h : |steps| ≤ |n| + 1 := by grind
    exact_mod_cast h
  have hdist : distance fw request.target = ((|steps| : Int) : R) / scale := by
    have hdelta : deltaMm fw.config (targetSteps fw.config request.target)
        fw.machine.planner.position a = (steps : R) / scale := rfl
    unfold distance
    rw [travelMillimeters_axis hsqrt ha, hdelta, abs_div, abs_of_pos hscale,
      Int.cast_abs]
    · intro b hb
      rw [deltaMm, hrest b hb]
      simp
    · rw [hdelta]
      exact div_ne_zero (Int.cast_ne_zero.2 hne) hscale.ne'
  rw [hdist]
  refine ⟨hpos, ?_, ?_⟩
  · rw [← mul_div_assoc, le_div_iff₀ hscale]
    linarith
  · rw [← mul_div_assoc, div_lt_iff₀ hscale]
    linarith

/-! ## The default configuration -/

/-- The configuration is the default one, and millimetres agree with steps. -/
structure Ready (fw : Firmware R σ) : Prop where
  config : fw.config = .default
  agrees : Agrees fw

/-- The default steps per millimetre. -/
def defaultScale : Axis → Int
  | .x | .y => 80
  | .z => 6400
  | .e => 36

theorem default_stepsPerMm (a : Axis) :
    (Configuration.default : Configuration R).stepsPerMm a = (defaultScale a : R) := by
  have hval : (Configuration.default : Configuration R).stepsPerMm a =
      match a with
      | .x => 80
      | .y => 80
      | .z => 6400
      | .e => 36 := by
    cases a <;> rfl
  rw [hval]
  cases a <;> simp [defaultScale]

/-- A move of `k` millimetres along one axis fits the feed rate by a wide
margin. -/
structure ShortMove (a : Axis) (k feedRate : Int) : Prop where
  axis : a ≠ .e
  small : |k * defaultScale a| ≤ 2147483000
  pos : 0 < feedRate
  fast : feedRate * defaultScale a ≤ 120000000
  slow : 120000000 * (|k * defaultScale a| + 1) <
    4294967295 * (feedRate * defaultScale a)

instance (a : Axis) (k feedRate : Int) : Decidable (ShortMove a k feedRate) :=
  decidable_of_iff
    (a ≠ .e ∧ |k * defaultScale a| ≤ 2147483000 ∧ 0 < feedRate ∧
      feedRate * defaultScale a ≤ 120000000 ∧
      120000000 * (|k * defaultScale a| + 1) <
        4294967295 * (feedRate * defaultScale a))
    ⟨fun h => ⟨h.1, h.2.1, h.2.2.1, h.2.2.2.1, h.2.2.2.2⟩,
      fun h => ⟨h.axis, h.small, h.pos, h.fast, h.slow⟩⟩

theorem fits_shortMove (hsqrt : ∀ x : R, HasSqrt.sqrt (x * x) = |x|)
    {fw : Firmware R σ} (hready : Ready fw) {request : ActionRequest R} {a : Axis}
    {k feedRate : Int} (hmove : ShortMove a k feedRate)
    (hthere : request.target.coord a = fw.startpoint.coord a + (k : R))
    (hothers : ∀ b, b ≠ a → request.target.coord b = fw.startpoint.coord b)
    (hfeed : request.target.feedRate = (feedRate : R))
    (hsteps : Steps fw request) :
    Fits request.target.feedRate (distance fw request.target) := by
  have hscale : fw.config.stepsPerMm a = (defaultScale a : R) := by
    rw [hready.config, default_stepsPerMm]
  have hscalepos : 0 < defaultScale a := by
    cases a <;> decide
  refine fits_axis (n := k * defaultScale a) hsqrt hready.agrees hmove.axis ?_ ?_
    hmove.small hthere hothers ?_ ?_ ?_ hsteps
  · rw [hscale]
    exact_mod_cast hscalepos
  · rw [hscale]
    push_cast
    rfl
  · rw [hfeed]
    exact_mod_cast hmove.pos
  · rw [hfeed, hscale]
    exact_mod_cast hmove.fast
  · have hslow : (120000000 : R) * ((|k * defaultScale a| + 1 : Int) : R) <
        4294967295 * ((feedRate : R) * (defaultScale a : R)) := by
      exact_mod_cast hmove.slow
    rw [hfeed, hscale]
    linarith

/-! ## Handlers -/

section Handlers

/-- All calls noted are usable, and the firmware is ready for more. -/
abbrev AllUsable : Watched (Firmware R σ) (PlanEvent R σ) → Prop :=
  Noted Ready UsableCall

theorem ready_irq (i : Irq) (fw : Firmware R σ) :
    Keeps Ready fw (serveIrq P i fw) := fun h =>
  ⟨(serveIrq_samePoint P i fw).config.trans h.config,
    Discards.agrees (serveIrq_discards P i fw) h.agrees⟩

theorem ready_bufferAction (request : ActionRequest R) (fw : Firmware R σ) :
    Keeps Ready fw
      { fw with machine := bufferAction request fw.machine } := fun h =>
  ⟨(bufferAction_frame request fw.machine).1.trans h.config,
    bufferAction_agrees request h.agrees⟩

theorem ready_setCurrentPosition (t : Target R) :
    Moves (Keeps Ready) (setCurrentPosition t : FwM R σ Unit) :=
  Moves.modify fun _ h => ⟨h.config, fun _ => rfl⟩

theorem ready_setFeedRate (t : Target R) :
    Moves (Keeps Ready)
      (onPlanner (fun _ => planSetFeedRate t) : FwM R σ Unit) :=
  Moves.modify fun _ h => ⟨h.config,
    agrees_of_eq h.agrees rfl (funext fun a => by cases a <;> rfl) rfl⟩

/-- A change that leaves the machine alone keeps it ready. -/
theorem ready_modify {f : Firmware R σ → Firmware R σ}
    (h : ∀ fw, (f fw).machine = fw.machine) :
    Moves (Keeps Ready) (modify f : FwM R σ Unit) :=
  Moves.modify fun fw hr =>
    ⟨(congrArg Machine.config (h fw)).trans hr.config,
      agrees_of_eq hr.agrees (by rw [h fw]) (by rw [h fw]) (by rw [h fw])⟩

variable {w : World (Watched (Firmware R σ) (PlanEvent R σ)) Irq}

/-- A call of the planner keeps all rates usable, if the feed rate of its move fits the
distance. -/
theorem usable_call {request : ActionRequest R}
    (h : Ready w.state.state → isLine request → Steps w.state.state request →
      Fits request.target.feedRate (distance w.state.state request.target)) :
    Keeps AllUsable w.state (PlanCalls.planBufferAction P request w).2.state :=
  moves_bind_at
    (keeps_note fun hr hline hsteps => usable_of_fits (h hr hline hsteps))
    fun _ => (keeps_plain (Moves.spinUntil ready_irq _)).bind fun _ =>
      Moves.bind (fun _ => keeps_note fun _ => trivial) fun _ =>
        keeps_plain (Moves.modify (ready_bufferAction request))

theorem usable_synchQueue :
    Moves (Keeps AllUsable)
      (PlanCalls.synchQueue P : PlanM R σ Unit) :=
  Moves.bind (fun _ => keeps_note fun _ => trivial) fun _ =>
    keeps_plain (Moves.spinUntil ready_irq _)

/-- A move of whole millimetres along one axis has a usable duration at the feed rates
of homing. -/
theorem usable_shortMove (hsqrt : ∀ x : R, HasSqrt.sqrt (x * x) = |x|)
    {request : ActionRequest R} {a : Axis} {k feedRate : Int}
    (hmove : ShortMove a k feedRate)
    (hthere : request.target.coord a =
      w.state.state.startpoint.coord a + (k : R))
    (hothers : ∀ b, b ≠ a →
      request.target.coord b = w.state.state.startpoint.coord b)
    (hfeed : Ready w.state.state → request.target.feedRate = (feedRate : R)) :
    Keeps AllUsable w.state (PlanCalls.planBufferAction P request w).2.state :=
  usable_call fun hr _ hsteps =>
    fits_shortMove hsqrt hr hmove hthere hothers (hfeed hr) hsteps

variable (hsqrt : ∀ x : R, HasSqrt.sqrt (x * x) = |x|)
include hsqrt

/-- The moves of `zero_x` have usable durations. -/
theorem usable_moveX {x feedRate : R} {k n : Int} (hmove : ShortMove .x k n)
    (hx : x = w.state.state.startpoint.x + (k : R))
    (hfeed : Ready w.state.state → feedRate = (n : R)) :
    Keeps AllUsable w.state
      (PlanCalls.specialMoveXY P x w.state.state.startpoint.y feedRate w).2.state :=
  usable_shortMove hsqrt hmove hx
    (fun b hb => by cases b <;> first | rfl | exact absurd rfl hb) hfeed

/-- The moves of `zero_y` have usable durations. -/
theorem usable_moveY {y feedRate : R} {k n : Int} (hmove : ShortMove .y k n)
    (hy : y = w.state.state.startpoint.y + (k : R))
    (hfeed : Ready w.state.state → feedRate = (n : R)) :
    Keeps AllUsable w.state
      (PlanCalls.specialMoveXY P w.state.state.startpoint.x y feedRate w).2.state :=
  usable_shortMove hsqrt hmove hy
    (fun b hb => by cases b <;> first | rfl | exact absurd rfl hb) hfeed

/-- The moves of `zero_z` have usable durations. -/
theorem usable_moveZ {z feedRate : R} {k n : Int} (hmove : ShortMove .z k n)
    (hz : z = w.state.state.startpoint.z + (k : R))
    (hfeed : Ready w.state.state → feedRate = (n : R)) :
    Keeps AllUsable w.state
      (PlanCalls.specialMoveZ P z feedRate w).2.state :=
  usable_shortMove hsqrt hmove hz
    (fun b hb => by cases b <;> first | rfl | exact absurd rfl hb) hfeed

theorem usable_zeroX :
    Moves (Keeps AllUsable) (PlanCalls.zeroX P : PlanM R σ Unit) := by
  have hhoming : ∀ fw : Firmware R σ, Ready fw →
      (fw.config.homingFeedrateX : R) = ((3000 : Int) : R) := fun fw h => by
    rw [h.config]
    rfl
  have hsearch : ∀ fw : Firmware R σ, Ready fw →
      (fw.config.searchFeedrate .x : R) = ((120 : Int) : R) := fun fw h => by
    rw [h.config]
    rfl
  refine Moves.plain_get_bind fun w => moves_bind_at
    (usable_moveX (k := -300) hsqrt (by decide) (by push_cast; ring) (hhoming _))
    fun _ => usable_synchQueue.bind fun _ => ?_
  refine Moves.plain_get_bind fun w => moves_bind_at
    (usable_moveX (k := 3) hsqrt (by decide) (by push_cast; ring) (hsearch _))
    fun _ => ?_
  refine Moves.plain_get_bind fun w => moves_bind_at
    (usable_moveX (k := -6) hsqrt (by decide) (by push_cast; ring) (hsearch _))
    fun _ => usable_synchQueue.bind fun _ => ?_
  exact Moves.plain_get_bind fun w =>
    keeps_plain (ready_setCurrentPosition _) w

theorem usable_zeroY :
    Moves (Keeps AllUsable) (PlanCalls.zeroY P : PlanM R σ Unit) := by
  have hhoming : ∀ fw : Firmware R σ, Ready fw →
      (fw.config.homingFeedrateY : R) = ((3000 : Int) : R) := fun fw h => by
    rw [h.config]
    rfl
  have hsearch : ∀ fw : Firmware R σ, Ready fw →
      (fw.config.searchFeedrate .y : R) = ((120 : Int) : R) := fun fw h => by
    rw [h.config]
    rfl
  have hdir : ∀ fw : Firmware R σ, Ready fw →
      (if fw.config.homeDirectionY < 0 then -1 else 1 : R) = -1 := fun fw h => by
    rw [h.config]
    rfl
  refine Moves.plain_get_bind fun w hw => ?_
  -- the direction is read once, before the first move
  rw [hdir _ hw.1]
  refine moves_bind_at (r := Keeps AllUsable)
    (usable_moveY (k := -250) hsqrt (by decide) (by push_cast; ring)
      (hhoming _))
    (fun _ => usable_synchQueue.bind fun _ => ?_) hw
  refine Moves.plain_get_bind fun w => moves_bind_at
    (usable_moveY (k := 3) hsqrt (by decide) (by push_cast; ring) (hsearch _))
    fun _ => ?_
  refine Moves.plain_get_bind fun w => moves_bind_at
    (usable_moveY (k := -6) hsqrt (by decide) (by push_cast; ring) (hsearch _))
    fun _ => usable_synchQueue.bind fun _ => ?_
  exact Moves.plain_get_bind fun w =>
    keeps_plain (ready_setCurrentPosition _) w

theorem usable_zeroZ :
    Moves (Keeps AllUsable) (PlanCalls.zeroZ P : PlanM R σ Unit) := by
  have hhoming : ∀ fw : Firmware R σ, Ready fw →
      (fw.config.homingFeedrateZ : R) = ((60 : Int) : R) := fun fw h => by
    rw [h.config]
    rfl
  have hsearch : ∀ fw : Firmware R σ, Ready fw →
      (fw.config.searchFeedrate .z : R) = ((60 : Int) : R) := fun fw h => by
    rw [h.config]
    rfl
  refine Moves.plain_get_bind fun w => moves_bind_at
    (usable_moveZ (k := -250) hsqrt (by decide) (by push_cast; ring) (hhoming _))
    fun _ => usable_synchQueue.bind fun _ => ?_
  refine Moves.plain_get_bind fun w => moves_bind_at
    (usable_moveZ (k := 1) hsqrt (by decide) (by push_cast; ring) (hsearch _))
    fun _ => usable_synchQueue.bind fun _ => ?_
  refine Moves.plain_get_bind fun w => moves_bind_at
    (usable_moveZ (k := -6) hsqrt (by decide) (by push_cast; ring) (hsearch _))
    fun _ => usable_synchQueue.bind fun _ => ?_
  exact Moves.plain_get_bind fun w =>
    keeps_plain (ready_setCurrentPosition _) w

omit hsqrt in
/-- A move that fits, if it is made at all. -/
theorem usable_enqueueMoved {t : Target R}
    (h : Ready w.state.state → departs t w.state.state = true →
      Steps w.state.state (moveRequest t w.state.state) →
      Fits t.feedRate
        (distance w.state.state (moveRequest t w.state.state).target)) :
    Keeps AllUsable w.state (PlanCalls.enqueueMoved P t w).2.state := by
  show Keeps AllUsable w.state ((if departs t w.state.state = true then _ else _ :
    PlanM R σ Unit) w).2.state
  split
  · next hdeparts => exact usable_call fun hr _ => h hr hdeparts
  · exact keeps_plain (ready_setFeedRate t) w

theorem usable_homeAll :
    Moves (Keeps AllUsable) (PlanCalls.homeAll P : PlanM R σ Unit) := by
  refine Moves.plain_get_bind fun w => moves_bind_at
    (usable_enqueueMoved fun hr _ => ?_) fun _ =>
      (usable_zeroX hsqrt).bind fun _ => (usable_zeroY hsqrt).bind fun _ =>
      (usable_zeroZ hsqrt).bind fun _ => keeps_plain
        (Moves.get_bind fun w => ready_setCurrentPosition _ w)
  have hmove : ShortMove .z 3 60 := by decide
  refine fits_shortMove hsqrt hr hmove
    (by simp [moveRequest, Target.coord]) (fun b hb => ?_) ?_
  · cases b with
    | z => exact absurd rfl hb
    | e => exact ite_self _
    | x | y => rfl
  · show (w.state.state.config.homingFeedrateZ : R) = _
    rw [hr.config]
    rfl

theorem usable_g28 (c : GcodeCommand R) :
    Moves (Keeps AllUsable) (PlanCalls.g28 P c : PlanM R σ Unit) :=
  (Moves.when fun _ => usable_zeroX hsqrt).bind fun _ =>
    (Moves.when fun _ => usable_zeroY hsqrt).bind fun _ =>
    (Moves.when fun _ => usable_zeroZ hsqrt).bind fun _ =>
    (Moves.when fun _ => keeps_plain
      (Moves.get_bind fun w => ready_setCurrentPosition _ w)).bind fun _ =>
    Moves.when fun _ => usable_homeAll hsqrt

end Handlers

/-! ## Commands -/

/-- The move a command asks for in so many words.  The moves of homing are not
among them. -/
def askedMove (c : GcodeCommand R) (fw : Firmware R σ) : Option (Target R) :=
  match commandOf c with
  | .g .g0 => some (g0Target c fw)
  | .g .g1 => some (g1Target c fw)
  | .g .g30 => some (nextTargetd c fw.startpoint)
  | .m .m101 =>
      if fw.autoPrimeSteps ≠ 0 then
        some (extrusion ((fw.autoPrimeSteps : R) / 640) 18000 fw)
      else none
  | .m .m103 =>
      if fw.autoReverseSteps ≠ 0 then
        some (extrusion (-(fw.autoReverseSteps : R) / 640) 18000 fw)
      else none
  | .m .m551 =>
      if c.seenS && c.seenP then
        some (extrusion ((c.p : R) / 256) (c.s : R) fw)
      else none
  | _ => none

/-- If the command asks for a move of at least a step, its feed rate fits the
distance. -/
def CommandFits (c : GcodeCommand R) (fw : Firmware R σ) : Prop :=
  ∀ t, askedMove c fw = some t → departs t fw = true →
    Steps fw (moveRequest t fw) →
    Fits t.feedRate (distance fw (moveRequest t fw).target)

/-- All calls noted are usable. -/
def EventsUsable (s : Watched (Firmware R σ) (PlanEvent R σ)) : Prop :=
  ∀ e ∈ s.events, UsableCall e

section Commands

variable (hsqrt : ∀ x : R, HasSqrt.sqrt (x * x) = |x|)
variable {w : World (Watched (Firmware R σ) (PlanEvent R σ)) Irq}

/-- The extruder move of a command. -/
theorem usable_specialMoveE {e f : R}
    (h : Ready w.state.state → departs (extrusion e f w.state.state) w.state.state =
        true →
      Steps w.state.state
        (moveRequest (extrusion e f w.state.state) w.state.state) →
      Fits f (distance w.state.state
        (moveRequest (extrusion e f w.state.state) w.state.state).target)) :
    Keeps AllUsable w.state (PlanCalls.specialMoveE P e f w).2.state := by
  show Keeps AllUsable w.state
    ((if w.state.state.config.enableExtruder1 ≠ 0 then _ else _ :
      PlanM R σ Unit) w).2.state
  split
  · exact usable_enqueueMoved h
  · exact id

include hsqrt in
theorem usable_processG {c : GcodeCommand R} {code : GCode}
    (hcmd : commandOf c = .g code) (hfits : CommandFits c w.state.state)
    (hw : AllUsable w.state) :
    EventsUsable (PlanCalls.processG P c code w).2.state := by
  unfold CommandFits askedMove at hfits
  rw [hcmd] at hfits
  cases code with
  | g0 =>
      exact (moves_bind_at (usable_enqueueMoved fun _ => hfits _ rfl)
        (fun _ => Moves.pure _) hw).2
  | g1 =>
      exact (moves_bind_at (usable_enqueueMoved fun _ => hfits _ rfl)
        (fun _ => Moves.pure _) hw).2
  | g28 => exact ((usable_g28 hsqrt c).return _ w hw).2
  | g30 =>
      have hmove : Keeps AllUsable w.state
          ((PlanCalls.enqueueMoved P (nextTargetd c w.state.state.startpoint) >>=
            fun _ => PlanCalls.g28 P c) w).2.state :=
        moves_bind_at (usable_enqueueMoved fun _ => hfits _ rfl)
          fun _ => usable_g28 hsqrt c
      exact (moves_bind_at hmove (fun _ => Moves.pure _) hw).2
  | g4 =>
      have hmoves : Moves (Keeps AllUsable) (PlanCalls.g4 P c) :=
        usable_synchQueue.bind fun _ => keeps_plain (ready_modify fun _ => rfl)
      exact (hmoves.return _ w hw).2
  | g92 =>
      have hmoves : Moves (Keeps AllUsable) (PlanCalls.g92 P c) :=
        usable_synchQueue.bind fun _ => Moves.plain_get_bind fun _ =>
          keeps_plain (ready_setCurrentPosition _) _
      exact (hmoves.return _ w hw).2
  | g20 | g21 | g90 | g91 => exact hw.2

/-- An extruder move that is made on a condition. -/
theorem usable_when {b : Bool} {e f : R} (hw : AllUsable w.state)
    (h : b = true → departs (extrusion e f w.state.state) w.state.state = true →
      Steps w.state.state
        (moveRequest (extrusion e f w.state.state) w.state.state) →
      Fits f (distance w.state.state
        (moveRequest (extrusion e f w.state.state) w.state.state).target)) :
    EventsUsable (when b (PlanCalls.specialMoveE P e f) w).2.state := by
  cases b with
  | true => exact (usable_specialMoveE (fun _ => h rfl) hw).2
  | false => exact hw.2

/-- `M542` does nothing: the default configuration has no rest position. -/
theorem usable_m542 (c : GcodeCommand R) (hw : AllUsable w.state) :
    EventsUsable (PlanCalls.m542 P c w).2.state := by
  have hrest : decide (w.state.state.config.haveRestPos ≠ 0) = false := by
    rw [hw.1.config]
    rfl
  show EventsUsable ((when (decide (w.state.state.config.haveRestPos ≠ 0)) _ :
    PlanM R σ Unit) w).2.state
  rw [hrest]
  exact hw.2

/-- A wait is no call of `plan_buffer_line`. -/
theorem usable_enqueueWaitTemp :
    Moves (Keeps AllUsable) (PlanCalls.enqueueWaitTemp P : PlanM R σ Unit) :=
  fun _ => usable_call fun _ hline => by
    rcases hline with h | h <;> cases h

theorem usable_processM {c : GcodeCommand R} {code : MCode}
    (hcmd : commandOf c = .m code) (hfits : CommandFits c w.state.state)
    (hw : AllUsable w.state) :
    EventsUsable (PlanCalls.processM P c code w).2.state := by
  have hset : Moves (Keeps AllUsable)
      (plain (tempSet (uint16 c.s) .extruder0) : PlanM R σ Unit) :=
    keeps_plain (ready_modify fun _ => rfl)
  unfold CommandFits askedMove at hfits
  rw [hcmd] at hfits
  cases code with
  | m101 =>
      rw [PlanCalls.processM, bind_pure_snd]
      refine usable_when
        (w := ⟨⟨{ w.state.state with extrudersOn := 1 }, w.state.events⟩, w.irqs⟩)
        ⟨⟨hw.1.config, hw.1.agrees⟩, hw.2⟩ fun hsteps => ?_
      exact hfits _ (if_pos (of_decide_eq_true hsteps))
  | m103 =>
      rw [PlanCalls.processM, bind_pure_snd]
      refine usable_when
        (w := ⟨⟨{ w.state.state with extrudersOn := 0 }, w.state.events⟩, w.irqs⟩)
        ⟨⟨hw.1.config, hw.1.agrees⟩, hw.2⟩ fun hsteps => ?_
      exact hfits _ (if_pos (of_decide_eq_true hsteps))
  | m551 =>
      rw [PlanCalls.processM, bind_pure_snd]
      exact usable_when hw fun hwords => hfits _ (if_pos hwords)
  | m104 =>
      have hmoves : Moves (Keeps AllUsable) (PlanCalls.m104 P c) :=
        Moves.plain_get_bind fun _ => Moves.when (fun _ =>
          hset.bind fun _ => Moves.when fun _ => usable_enqueueWaitTemp) _
      exact (hmoves.return _ w hw).2
  | m109 =>
      have hmoves : Moves (Keeps AllUsable) (PlanCalls.m109 P c) :=
        Moves.plain_get_bind fun _ => Moves.when (fun _ =>
          hset.bind fun _ => usable_enqueueWaitTemp) _
      exact (hmoves.return _ w hw).2
  | m542 =>
      rw [PlanCalls.processM, bind_pure_snd]
      exact usable_m542 c hw
  | _ => exact hw.2

include hsqrt in
/-- A command whose move fits makes no call that does not. -/
theorem usable_processGcodeCommand {c : GcodeCommand R}
    (hfits : CommandFits c w.state.state) (hw : AllUsable w.state) :
    EventsUsable (PlanCalls.processGcodeCommand P c w).2.state := by
  have hrun : EventsUsable (PlanCalls.runCommand P c w).2.state := by
    cases hcmd : commandOf c with
    | g code =>
        have heq : PlanCalls.runCommand P c = PlanCalls.processG P c code := by
          rw [PlanCalls.runCommand, hcmd]
        rw [heq]
        exact usable_processG hsqrt hcmd hfits hw
    | m code =>
        have heq : PlanCalls.runCommand P c = PlanCalls.processM P c code := by
          rw [PlanCalls.runCommand, hcmd]
        rw [heq]
        exact usable_processM hcmd hfits hw
    | badG g | badM m | nothing =>
        have heq : PlanCalls.runCommand P c = plain (runCommand P c) := by
          rw [PlanCalls.runCommand, hcmd]
        rw [heq]
        exact hw.2
  have hplain : ∀ x : FwM R σ Unit,
      Moves (Keeps EventsUsable) (plain x : PlanM R σ Unit) := fun _ _ h => h
  have hreply : ∀ out : Outcome R, Moves (Keeps EventsUsable) (do
      plain (when (!out.replySent) (serialWritestr "ok\r\n"))
      return out.change : PlanM R σ (Change R)) := fun out =>
    (hplain _).return _
  exact moves_bind_at (r := Keeps EventsUsable) (fun _ => hrun) hreply
    (fun e he => hw.2 e he)

end Commands

/-! ## Runs -/

/-- The line does not change the configuration. -/
def KeepsConfig (s : Session R σ) (data : List UInt8) : Prop :=
  Processes s data → (commandOf (parsed s data)).configures = false

/-- The configuration is the same. -/
def SameConfig (fw fw' : Firmware R σ) : Prop := fw'.config = fw.config

instance sameConfig_isPreorder :
    IsPreorder (Firmware R σ) (SameConfig : Firmware R σ → _ → Prop) where
  refl _ := rfl
  trans _ _ _ h h' := h'.trans h

theorem frame_config : Frame P (SameConfig : Firmware R σ → _ → Prop) where
  irq i fw := (serveIrq_samePoint P i fw).config
  machine _ _ h := h.config
  text _ _ := rfl
  effect _ _ _ := rfl
  extruder _ _ _ _ _ := rfl
  table _ _ _ _ := rfl
  timeout _ _ := rfl

theorem background_config {fw fw' : Firmware R σ} (h : Background P fw fw') :
    fw'.config = fw.config := by
  cases h with
  | irq i => exact (serveIrq_samePoint P i fw).config
  | sdPoll =>
      unfold sdPoll
      split
      · split <;> rfl
      · rfl
  | countTimeout =>
      unfold countTimeout
      split <;> rfl

theorem takeLine_ready {s : Session R σ} {data : List UInt8}
    (hconfig : KeepsConfig s data) (hr : Ready s.fw) (irqs : List Irq) :
    Ready (takeLine P s data irqs).2.state := by
  have hsame : SameConfig s.fw (takeLine P s data irqs).2.state :=
    frame_config.takeLine (fun _ _ _ _ _ _ _ => rfl)
      (fun _ _ request fw _ => (bufferAction_frame request fw.machine).1)
      (fun hproc h => absurd h (by simp [hconfig hproc])) (fun _ _ _ _ => rfl) irqs
  have hscale : ScaleKept s data := fun hproc hcmd => by
    have h := hconfig hproc
    rw [hcmd] at h
    cases h
  exact ⟨hsame.trans hr.config, takeLine_agrees s data irqs hscale hr.agrees⟩

theorem visited_ready {s₀ : Session R σ}
    {hist : List (Session R σ × List UInt8)} {fw : Firmware R σ}
    (h : Visited P s₀ hist fw) (h₀ : Ready s₀.fw)
    (hconfig : ∀ x ∈ hist, KeepsConfig x.1 x.2) : Ready fw :=
  h.invariant
    (fun _ _ hb hr => ⟨(background_config hb).trans hr.config,
      background_agrees hb hr.agrees⟩)
    (fun _ _ irqs hc hr => takeLine_ready hc hr irqs) h₀ hconfig

section Example

theorem sqrt_mul_self_rat (q : ℚ) : HasSqrt.sqrt (q * q) = |q| := by
  have hnum : (q * q).num.toNat.sqrt = q.num.natAbs := by
    rw [Rat.mul_self_num, ← Int.natAbs_mul_self, Int.toNat_natCast, Nat.sqrt_eq]
  have hden : (q * q).den.sqrt = q.den := by
    rw [Rat.mul_self_den, Nat.sqrt_eq]
  show ((q * q).num.toNat.sqrt : ℚ) / ((q * q).den.sqrt : ℚ) = |q|
  rw [hnum, hden, Rat.abs_def, Rat.divInt_eq_div, Int.cast_natCast,
    Int.cast_natCast]

theorem keepsConfig_firstMove (line : String)
    (h : commandOf (parsed defaultStart (str line)) = .g .g1) :
    ∀ x ∈ [(defaultStart, str line)], KeepsConfig x.1 x.2 := by
  intro x hx _
  obtain rfl := List.mem_singleton.1 hx
  rw [h]
  rfl

end Example

end R2C2Firmware.Ports.FeedRate
