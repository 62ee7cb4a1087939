import R2C2Firmware.Verified.Ring
import R2C2Firmware.Ports.Config

/-!
# The motion planner

A transcription of `planner.c`: the ring of motion blocks, the three passes of
`planner_recalculate`, and the entry points that queue moves and waits.

The file-scope variables of the C file are the fields of `Planner`.  A
`block_t *` is a slot index, `NULL` is `none`.  `double` is an ordered field
`R`; an assignment to a fixed-width integer applies the reduction of that type.

`plan_buffer_line` and `plan_buffer_wait` first spin until the ring has room;
the functions below are the code after that loop, and callers supply the room.
Their Boolean result says whether control reached the final `st_wake_up()`.
-/

namespace R2C2Firmware.Ports.MotionPlanner

open R2C2Firmware.Verified.Number
open R2C2Firmware.Verified
open R2C2Firmware.Ports.Config

/-! ## Data -/

/-- `eActionType` -/
inductive ActionType where
  | move | moveEndstop | wait | waitTemps
  deriving DecidableEq, Repr

/-- `tTarget` -/
structure Target (K : Type*) where
  x : K
  y : K
  z : K
  e : K
  feedRate : K
  invertFeedRate : Bool

/-- The coordinate of one axis. -/
def Target.coord {K : Type*} (t : Target K) : Axis → K
  | .x => t.x
  | .y => t.y
  | .z => t.z
  | .e => t.e

/-- `tActionRequest`; `wait_param` is never read. -/
structure ActionRequest (K : Type*) where
  actionType : ActionType
  target : Target K

/-- `block_t` -/
structure Block (R : Type*) where
  actionType : ActionType
  steps : Axis → Int
  directionBits : BitVec 32
  stepEventCount : Int
  nominalRate : Int
  nominalSpeed : R
  entrySpeed : R
  maxEntrySpeed : R
  millimeters : R
  recalculateFlag : Bool
  nominalLengthFlag : Bool
  initialRate : Int
  finalRate : Int
  rateDelta : Int
  accelerateUntil : Int
  decelerateAfter : Int
  checkEndstops : Bool

/-- `BLOCK_BUFFER_SIZE` -/
def blockBufferSize : Nat := 5

/-- `ACCELERATION_TICKS_PER_SECOND` -/
def accelerationTicksPerSecond : Int := 1000

/-- The file-scope state of `planner.c`. -/
structure Planner (R : Type*) where
  startpoint : Target R
  blockBuffer : Nat → Block R
  blockBufferHead : Nat
  blockBufferTail : Nat
  position : Axis → Int
  previousUnitVec : Axis → R
  previousNominalSpeed : R
  accelerationManagerEnabled : Bool

/-- The bit of `direction_bits` that belongs to an axis, `X_DIRECTION_BIT` to
`E_DIRECTION_BIT`. -/
def directionBit : Axis → Nat
  | .x => 23
  | .y => 26
  | .z => 0
  | .e => 11

/-! ## Ring indices -/

/-- `next_block_index` -/
def nextBlockIndex (blockIndex : Nat) : Nat := Ring.next blockBufferSize blockIndex

variable {R : Type*}

/-- `plan_discard_current_block` -/
def planDiscardCurrentBlock (pl : Planner R) : Planner R :=
  if pl.blockBufferHead ≠ pl.blockBufferTail then
    { pl with blockBufferTail := nextBlockIndex pl.blockBufferTail }
  else pl

/-- `plan_get_current_block` -/
def planGetCurrentBlock (pl : Planner R) : Option Nat :=
  if pl.blockBufferHead = pl.blockBufferTail then none
  else some pl.blockBufferTail

/-- `plan_queue_full` -/
def planQueueFull (pl : Planner R) : Bool :=
  pl.blockBufferTail == nextBlockIndex pl.blockBufferHead

/-- `plan_queue_empty` -/
def planQueueEmpty (pl : Planner R) : Bool :=
  pl.blockBufferHead == pl.blockBufferTail

/-- The pending blocks, oldest first. -/
def Planner.queue (pl : Planner R) : List (Block R) :=
  Ring.contents blockBufferSize pl.blockBuffer pl.blockBufferHead
    pl.blockBufferTail

variable [Field R] [LinearOrder R] [HasSqrt R]

/-- `MINIMUM_PLANNER_SPEED` -/
def minimumPlannerSpeed : R := 0

/-! ## The recalculation passes -/

/-- `estimate_acceleration_distance` -/
def estimateAccelerationDistance (initialRate targetRate acceleration : R) : R :=
  (targetRate * targetRate - initialRate * initialRate) / (2 * acceleration)

/-- `intersection_distance` -/
def intersectionDistance
    (initialRate finalRate acceleration distance : R) : R :=
  (2 * acceleration * distance - initialRate * initialRate
    + finalRate * finalRate) / (4 * acceleration)

/-- The number `max_allowable_speed` takes the square root of. -/
def allowableSquare (acceleration targetVelocity distance : R) : R :=
  targetVelocity * targetVelocity - 2 * acceleration * 60 * 60 * distance

/-- `max_allowable_speed` -/
def maxAllowableSpeed (acceleration targetVelocity distance : R) : R :=
  HasSqrt.sqrt (allowableSquare acceleration targetVelocity distance)

/-- The body of `planner_reverse_pass_kernel`, for a block with a successor. -/
def reverseJunction (cfg : Configuration R) (current next : Block R) : Block R :=
  if current.entrySpeed ≠ current.maxEntrySpeed then
    { current with
      entrySpeed :=
        if !current.nominalLengthFlag
            && decide (current.maxEntrySpeed > next.entrySpeed) then
          min current.maxEntrySpeed
            (maxAllowableSpeed (-cfg.acceleration) next.entrySpeed
              current.millimeters)
        else current.maxEntrySpeed
      recalculateFlag := true }
  else current

/-- `planner_reverse_pass_kernel` -/
def plannerReversePassKernel (cfg : Configuration R)
    (_previous current next : Option Nat) (buf : Nat → Block R) :
    Nat → Block R :=
  match current, next with
  | some c, some n =>
      Function.update buf c (reverseJunction cfg (buf c) (buf n))
  | _, _ => buf

/-- The ring together with the pointers `block[0]`, `block[1]`, `block[2]` of
the two pass functions. -/
structure Window (R : Type*) where
  buf : Nat → Block R
  block0 : Option Nat
  block1 : Option Nat
  block2 : Option Nat

/-- The pointers before the first turn of either pass. -/
def Window.start (buf : Nat → Block R) : Window R :=
  { buf, block0 := none, block1 := none, block2 := none }

/-- One turn of the loop of `planner_reverse_pass`. -/
def reversePassStep (cfg : Configuration R) (blockIndex : Nat) (w : Window R) :
    Window R :=
  { buf :=
      plannerReversePassKernel cfg (some blockIndex) w.block0 w.block1 w.buf
    block0 := some blockIndex
    block1 := w.block0
    block2 := w.block1 }

/-- `planner_reverse_pass` -/
def plannerReversePass (cfg : Configuration R) (pl : Planner R) : Planner R :=
  { pl with
    blockBuffer :=
      (Ring.walkDown blockBufferSize pl.blockBufferTail (reversePassStep cfg)
        blockBufferSize pl.blockBufferHead (.start pl.blockBuffer)).buf }

/-- The body of `planner_forward_pass_kernel`, for a block with a
predecessor. -/
def forwardJunction (cfg : Configuration R) (previous current : Block R) :
    Block R :=
  if !previous.nominalLengthFlag
      && decide (previous.entrySpeed < current.entrySpeed) then
    let entrySpeed := min current.entrySpeed
      (maxAllowableSpeed (-cfg.acceleration) previous.entrySpeed
        previous.millimeters)
    if current.entrySpeed ≠ entrySpeed then
      { current with entrySpeed := entrySpeed, recalculateFlag := true }
    else current
  else current

/-- `planner_forward_pass_kernel` -/
def plannerForwardPassKernel (cfg : Configuration R)
    (previous current _next : Option Nat) (buf : Nat → Block R) :
    Nat → Block R :=
  match previous, current with
  | some p, some c =>
      Function.update buf c (forwardJunction cfg (buf p) (buf c))
  | _, _ => buf

/-- One turn of the loop of `planner_forward_pass`. -/
def forwardPassStep (cfg : Configuration R) (blockIndex : Nat) (w : Window R) :
    Window R :=
  { buf :=
      plannerForwardPassKernel cfg w.block1 w.block2 (some blockIndex) w.buf
    block0 := w.block1
    block1 := w.block2
    block2 := some blockIndex }

/-- `planner_forward_pass` -/
def plannerForwardPass (cfg : Configuration R) (pl : Planner R) : Planner R :=
  let w := Ring.walkUp blockBufferSize pl.blockBufferHead (forwardPassStep cfg)
    blockBufferSize pl.blockBufferTail (.start pl.blockBuffer)
  { pl with
    blockBuffer := plannerForwardPassKernel cfg w.block1 w.block2 none w.buf }

variable [FloorRing R]

/-- `calculate_trapezoid_for_block` -/
def calculateTrapezoidForBlock (block : Block R) (entryFactor exitFactor : R) :
    Block R :=
  let initialRate := uint32 ⌈(block.nominalRate : R) * entryFactor⌉
  let finalRate := uint32 ⌈(block.nominalRate : R) * exitFactor⌉
  let accelerationPerMinute := int32
    (truncate ((int32 (block.rateDelta * accelerationTicksPerSecond) : R) * 60))
  let accelerateSteps := int32 ⌈estimateAccelerationDistance
    (initialRate : R) (block.nominalRate : R) (accelerationPerMinute : R)⌉
  let decelerateSteps := int32 ⌊estimateAccelerationDistance
    (block.nominalRate : R) (finalRate : R) (int32 (-accelerationPerMinute) : R)⌋
  let plateauSteps :=
    int32 (block.stepEventCount - accelerateSteps - decelerateSteps)
  if plateauSteps < 0 then
    -- no cruising: brake from the intersection of the two ramps
    let accelerateSteps := int32 ⌈intersectionDistance (initialRate : R)
      (finalRate : R) (accelerationPerMinute : R) (block.stepEventCount : R)⌉
    let accelerateSteps := min (max accelerateSteps 0) block.stepEventCount
    { block with
      initialRate, finalRate
      accelerateUntil := uint32 accelerateSteps
      decelerateAfter := uint32 accelerateSteps }
  else
    { block with
      initialRate, finalRate
      accelerateUntil := uint32 accelerateSteps
      decelerateAfter := uint32 (accelerateSteps + plateauSteps) }

/-- The trapezoid of a block for its own entry speed and a given exit speed;
the flag is cleared with it. -/
def retrapezoid (block : Block R) (exitSpeed : R) : Block R :=
  { calculateTrapezoidForBlock block (block.entrySpeed / block.nominalSpeed)
      (exitSpeed / block.nominalSpeed) with
    recalculateFlag := false }

/-- The body of the loop of `planner_recalculate_trapezoids`, for a block with
a successor. -/
def trapezoidJunction (current next : Block R) : Block R :=
  if current.recalculateFlag || next.recalculateFlag then
    retrapezoid current next.entrySpeed
  else current

/-- One turn of the loop of `planner_recalculate_trapezoids`; the pointer is
`next`. -/
def trapezoidStep (blockIndex : Nat) (w : (Nat → Block R) × Option Nat) :
    (Nat → Block R) × Option Nat :=
  match w.2 with
  | some current =>
      (Function.update w.1 current
        (trapezoidJunction (w.1 current) (w.1 blockIndex)), some blockIndex)
  | none => (w.1, some blockIndex)

/-- `planner_recalculate_trapezoids` -/
def plannerRecalculateTrapezoids (pl : Planner R) : Planner R :=
  let w := Ring.walkUp blockBufferSize pl.blockBufferHead trapezoidStep
    blockBufferSize pl.blockBufferTail (pl.blockBuffer, none)
  { pl with
    blockBuffer :=
      match w.2 with
      | some next =>
          Function.update w.1 next (retrapezoid (w.1 next) minimumPlannerSpeed)
      | none => w.1 }

/-- `planner_recalculate` -/
def plannerRecalculate (cfg : Configuration R) (pl : Planner R) : Planner R :=
  plannerRecalculateTrapezoids
    (plannerForwardPass cfg (plannerReversePass cfg pl))

/-! ## Queueing a move -/

/-- The target position in absolute steps. -/
def targetSteps (cfg : Configuration R) (t : Target R) (a : Axis) : Int :=
  int32 (lround (t.coord a * cfg.stepsPerMm a))

/-- The direction bits of a move: set for the axes that travel backwards. -/
def moveDirectionBits (target position : Axis → Int) : BitVec 32 :=
  Axis.all.foldl
    (fun bits a =>
      if target a < position a then bits ||| (1#32 <<< directionBit a)
      else bits) 0

/-- The number of steps of each axis, `labs(target - position)`. -/
def moveSteps (target position : Axis → Int) (a : Axis) : Int :=
  uint32 |int32 (target a - position a)|

/-- The number of step events of a move: the largest step count. -/
def moveEventCount (steps : Axis → Int) : Int :=
  let stepEventCount := int32 (max (steps .x) (max (steps .y) (steps .z)))
  int32 (max (uint32 stepEventCount) (steps .e))

/-- The part of a block `plan_buffer_line` fills in before it can bail out. -/
def traceBlock (target position : Axis → Int) (block : Block R) : Block R :=
  let steps := moveSteps target position
  { block with
    actionType := .move
    directionBits := moveDirectionBits target position
    steps
    stepEventCount := moveEventCount steps }

/-- The path vector in millimetres. -/
def deltaMm (cfg : Configuration R) (target position : Axis → Int) (a : Axis) :
    R :=
  (int32 (target a - position a) : R) / cfg.stepsPerMm a

/-- The number under the square root of the travel length. -/
def travelSquare (delta : Axis → R) : R :=
  delta .x * delta .x + delta .y * delta .y + delta .z * delta .z

/-- `block->millimeters`: the spatial length, or the extruder travel of an
extruder-only move. -/
def travelMillimeters (delta : Axis → R) : R :=
  let millimeters := HasSqrt.sqrt (travelSquare delta)
  if millimeters = 0 then |delta .e| else millimeters

/-- The duration of the move at the requested feed rate, rounded. -/
def roundedMicroseconds (millimeters feedRate : R) : Int :=
  lround (millimeters / feedRate * 60 * 1000000)

/-- `microseconds`: the rounded duration as the 32-bit `long` that `lround`
returns. -/
def moveMicroseconds (millimeters feedRate : R) : Int :=
  int32 (roundedMicroseconds millimeters feedRate)

/-- Lower `speedFactor` to the limit of one axis. -/
def limitSpeedFactor (speed : R) (maximum : Int) (speedFactor : R) : R :=
  if |speed| > (maximum : R) then
    let tmp := (maximum : R) / |speed|
    if speedFactor > tmp then tmp else speedFactor
  else speedFactor

/-- The factor that keeps every axis below its maximum feed rate.  The X limit
is taken without a comparison, being the first. -/
def moveSpeedFactor (cfg : Configuration R) (speed : Axis → R) : R :=
  let speedFactor :=
    if |speed .x| > (cfg.maximumFeedrate .x : R) then
      (cfg.maximumFeedrate .x : R) / |speed .x|
    else 1
  let speedFactor :=
    limitSpeedFactor (speed .y) (cfg.maximumFeedrate .y) speedFactor
  let speedFactor :=
    limitSpeedFactor (speed .z) (cfg.maximumFeedrate .z) speedFactor
  limitSpeedFactor (speed .e) (cfg.maximumFeedrate .e) speedFactor

/-- `multiplier`, in moves per minute. -/
def moveMultiplier (cfg : Configuration R) (delta : Axis → R)
    (millimeters feedRate : R) : R :=
  let multiplier :=
    60 * 1000000 / ((moveMicroseconds millimeters feedRate : Int) : R)
  multiplier * moveSpeedFactor cfg (fun a => delta a * multiplier)

/-- Length, nominal speed and rates of a block. -/
def rateBlock (cfg : Configuration R) (delta : Axis → R) (feedRate : R)
    (block : Block R) : Block R :=
  let millimeters := travelMillimeters delta
  let inverseMillimeters := 1 / millimeters
  let multiplier := moveMultiplier cfg delta millimeters feedRate
  { block with
    millimeters
    nominalSpeed := millimeters * multiplier
    nominalRate := uint32 ⌈(block.stepEventCount : R) * multiplier⌉
    rateDelta := int32 ⌈(block.stepEventCount : R) * inverseMillimeters
      * cfg.acceleration * 60 / (accelerationTicksPerSecond : R)⌉ }

/-- `unit_vec`.  The extruder entry is never assigned in the source and never
read; it is zero here. -/
def pathUnitVec (delta : Axis → R) (millimeters : R) : Axis → R
  | .e => 0
  | a => delta a * (1 / millimeters)

/-- `cos_theta`, of the angle between the previous and the current path. -/
def cosTheta (previousUnitVec unitVec : Axis → R) : R :=
  -(previousUnitVec .x * unitVec .x) - previousUnitVec .y * unitVec .y
    - previousUnitVec .z * unitVec .z

/-- The number `sin_theta_d2` is the square root of. -/
def halfAngleSquare (cosTheta : R) : R := 1 / 2 * (1 - cosTheta)

/-- The square of the junction speed that keeps the centripetal acceleration
within bounds. -/
def junctionSquare (cfg : Configuration R) (cosTheta : R) : R :=
  let sinThetaD2 := HasSqrt.sqrt (halfAngleSquare cosTheta)
  cfg.acceleration * 60 * 60 * cfg.junctionDeviation * sinThetaD2
    / (1 - sinThetaD2)

/-- `vmax_junction` -/
def vmaxJunction (cfg : Configuration R) (pl : Planner R) (unitVec : Axis → R)
    (nominalSpeed : R) : R :=
  if pl.blockBufferHead ≠ pl.blockBufferTail ∧ pl.previousNominalSpeed > 0 then
    let c := cosTheta pl.previousUnitVec unitVec
    if c < 95 / 100 then
      let vmax := min pl.previousNominalSpeed nominalSpeed
      if c > -(95 / 100) then min vmax (HasSqrt.sqrt (junctionSquare cfg c))
      else vmax
    else minimumPlannerSpeed
  else minimumPlannerSpeed

/-- The planner fields of a new block with the given junction limit. -/
def junctionBlock (cfg : Configuration R) (vmax : R) (block : Block R) :
    Block R :=
  let vAllowable := maxAllowableSpeed (-cfg.acceleration) minimumPlannerSpeed
    block.millimeters
  { block with
    maxEntrySpeed := vmax
    entrySpeed := min vmax vAllowable
    nominalLengthFlag := decide (block.nominalSpeed ≤ vAllowable)
    recalculateFlag := true }

/-- The fields set when acceleration management is off. -/
def constantRateBlock (block : Block R) : Block R :=
  { block with
    initialRate := block.nominalRate
    finalRate := block.nominalRate
    accelerateUntil := 0
    decelerateAfter := uint32 block.stepEventCount
    rateDelta := 0 }

/-- The block of a request up to its rates. -/
def lineBlock (cfg : Configuration R) (pAction : ActionRequest R)
    (pl : Planner R) : Block R :=
  let target := targetSteps cfg pAction.target
  rateBlock cfg (deltaMm cfg target pl.position) pAction.target.feedRate
    (traceBlock target pl.position (pl.blockBuffer pl.blockBufferHead))

/-- The unit vector of a request. -/
def lineUnitVec (cfg : Configuration R) (pAction : ActionRequest R)
    (pl : Planner R) : Axis → R :=
  pathUnitVec (deltaMm cfg (targetSteps cfg pAction.target) pl.position)
    (lineBlock cfg pAction pl).millimeters

/-- The complete block of a request. -/
def newBlock (cfg : Configuration R) (pAction : ActionRequest R)
    (pl : Planner R) : Block R :=
  let block := lineBlock cfg pAction pl
  let block :=
    if pl.accelerationManagerEnabled then
      junctionBlock cfg
        (vmaxJunction cfg pl (lineUnitVec cfg pAction pl) block.nominalSpeed)
        block
    else constantRateBlock block
  { block with checkEndstops := decide (pAction.actionType ≠ .move) }

/-- A request is dropped when it moves no axis by a whole step. -/
def zeroLength (cfg : Configuration R) (pAction : ActionRequest R)
    (pl : Planner R) : Bool :=
  moveEventCount (moveSteps (targetSteps cfg pAction.target) pl.position) == 0

/-- The planner after the new block has been published and the position
updated, before the plan is recalculated. -/
def publishLine (cfg : Configuration R) (pAction : ActionRequest R)
    (pl : Planner R) : Planner R :=
  let block := newBlock cfg pAction pl
  { pl with
    blockBuffer := Function.update pl.blockBuffer pl.blockBufferHead block
    blockBufferHead := nextBlockIndex pl.blockBufferHead
    position := targetSteps cfg pAction.target
    startpoint := pAction.target
    previousUnitVec :=
      if pl.accelerationManagerEnabled then lineUnitVec cfg pAction pl
      else pl.previousUnitVec
    previousNominalSpeed :=
      if pl.accelerationManagerEnabled then block.nominalSpeed
      else pl.previousNominalSpeed }

/-- The last lines of both queueing functions: recalculate if acceleration
management is on. -/
def finishPlan (cfg : Configuration R) (pl : Planner R) : Planner R :=
  if pl.accelerationManagerEnabled then plannerRecalculate cfg pl else pl

/-- `plan_buffer_line`.  A zero-length request has still written to the free
head slot. -/
def planBufferLine (cfg : Configuration R) (pAction : ActionRequest R)
    (pl : Planner R) : Planner R × Bool :=
  if zeroLength cfg pAction pl then
    ({ pl with
       blockBuffer := Function.update pl.blockBuffer pl.blockBufferHead
        (traceBlock (targetSteps cfg pAction.target) pl.position
          (pl.blockBuffer pl.blockBufferHead)) }, false)
  else (finishPlan cfg (publishLine cfg pAction pl), true)

/-! ## Queueing a wait -/

/-- The block of a wait request.  `max_entry_speed`, the flags, the steps and
the direction bits keep whatever the slot held. -/
def waitBlock (actionType : ActionType) (block : Block R) : Block R :=
  { block with
    actionType
    millimeters := 10
    nominalSpeed := 600
    nominalRate := 20 * 60
    stepEventCount := 1000
    entrySpeed := 600
    initialRate := 20 * 60
    finalRate := 20 * 60
    accelerateUntil := 0
    decelerateAfter := 1000
    rateDelta := 0 }

/-- The planner after the wait block has been published. -/
def publishWait (pAction : ActionRequest R) (pl : Planner R) : Planner R :=
  { pl with
    blockBuffer := Function.update pl.blockBuffer pl.blockBufferHead
      (waitBlock pAction.actionType (pl.blockBuffer pl.blockBufferHead))
    blockBufferHead := nextBlockIndex pl.blockBufferHead }

/-- `plan_buffer_wait` -/
def planBufferWait (cfg : Configuration R) (pAction : ActionRequest R)
    (pl : Planner R) : Planner R × Bool :=
  (finishPlan cfg (publishWait pAction pl), true)

/-- `plan_buffer_action` -/
def planBufferAction (cfg : Configuration R) (pAction : ActionRequest R)
    (pl : Planner R) : Planner R × Bool :=
  match pAction.actionType with
  | .move | .moveEndstop => planBufferLine cfg pAction pl
  | .wait | .waitTemps => planBufferWait cfg pAction pl

/-! ## Position and initialisation -/

/-- `plan_set_current_position` -/
def planSetCurrentPosition (cfg : Configuration R) (newPosition : Target R)
    (pl : Planner R) : Planner R :=
  { pl with
    startpoint := newPosition
    position := targetSteps cfg newPosition
    previousNominalSpeed := 0
    previousUnitVec := fun _ => 0 }

/-- `plan_set_feed_rate` -/
def planSetFeedRate (newPosition : Target R) (pl : Planner R) : Planner R :=
  { pl with
    startpoint :=
      { pl.startpoint with
        feedRate := newPosition.feedRate
        invertFeedRate := newPosition.invertFeedRate } }

/-- The zeroed `tTarget`. -/
def Target.zero : Target R := ⟨0, 0, 0, 0, 0, false⟩

/-- The zeroed `block_t`. -/
def Block.zero : Block R where
  actionType := .move
  steps := fun _ => 0
  directionBits := 0
  stepEventCount := 0
  nominalRate := 0
  nominalSpeed := 0
  entrySpeed := 0
  maxEntrySpeed := 0
  millimeters := 0
  recalculateFlag := false
  nominalLengthFlag := false
  initialRate := 0
  finalRate := 0
  rateDelta := 0
  accelerateUntil := 0
  decelerateAfter := 0
  checkEndstops := false

/-- The statics of `planner.c` at program start. -/
def Planner.zero : Planner R where
  startpoint := .zero
  blockBuffer := fun _ => .zero
  blockBufferHead := 0
  blockBufferTail := 0
  position := fun _ => 0
  previousUnitVec := fun _ => 0
  previousNominalSpeed := 0
  accelerationManagerEnabled := false

/-- `plan_init`.  The queue is emptied first, so the `st_synchronize` inside
`plan_set_acceleration_manager_enabled` returns at once. -/
def planInit (pl : Planner R) : Planner R :=
  { pl with
    blockBufferHead := 0
    blockBufferTail := 0
    accelerationManagerEnabled := true
    position := fun _ => 0
    previousUnitVec := fun _ => 0
    previousNominalSpeed := 0
    startpoint := .zero }

end R2C2Firmware.Ports.MotionPlanner
