import R2C2Firmware.Ports.FeedRate

/-!
# The acceleration of a trapezoid

`calculate_trapezoid_for_block` divides by the acceleration of the block, which
it derives from `rate_delta`.  `planner_recalculate_trapezoids` calls it for the
newest block and for every block next to a junction that has changed, and does
not look at what kind of block that is.

`plan_buffer_wait` writes a block without acceleration, as its comment says for
a planner that is switched off, and has the plan recalculated all the same.  The
new block is the newest, so every wait divides by zero at once, and by zero or
not again and again while moves are queued behind it.

Without waits, the divisor is right as long as the acceleration of the path, in
steps per minute and tick, fits the type of `rate_delta` and its product with
the ticks does not vanish modulo `2^32`.

## Main results

* `mem_trapezoidCalls` — the trapezoids computed are those of pending blocks.
* `planBufferAction_blockBuffer` — what is recorded of a call is what
  `plan_buffer_action` does.
* `trapezoids_divide` — the condition on the calls is enough, in every run.
* `wait_divides_by_zero` — `M109`.
-/

set_option linter.unusedSectionVars false

namespace R2C2Firmware.Ports.RateDelta

open R2C2Firmware.Verified
open R2C2Firmware.Verified.Number
open R2C2Firmware.Verified.BusyWait
open R2C2Firmware.Ports.Config
open R2C2Firmware.Ports.MotionPlanner
open R2C2Firmware.Ports.Stepper
open R2C2Firmware.Ports.Temp
open R2C2Firmware.Ports.Sermsg
open R2C2Firmware.Ports.GcodeParse
open R2C2Firmware.Ports.Mendel
open R2C2Firmware.Ports.GcodeProcess
open R2C2Firmware.Ports.MainLoop
open R2C2Firmware.Ports.PlanCalls (PlanEvent PlanM planEvents CallFrame)
open R2C2Firmware.Ports.FeedRate

variable {R σ : Type} [Field R] [LinearOrder R] [HasSqrt R] [FloorRing R]
variable {P : Platform σ}

/-! ## The calls -/

/-- One turn of the loop of `planner_recalculate_trapezoids`, with the blocks
`calculate_trapezoid_for_block` is called for. -/
def trapezoidCallStep (blockIndex : Nat)
    (w : (Nat → Block R) × Option Nat × List (Block R)) :
    (Nat → Block R) × Option Nat × List (Block R) :=
  match w.2.1 with
  | some current =>
      (Function.update w.1 current
        (trapezoidJunction (w.1 current) (w.1 blockIndex)), some blockIndex,
        if (w.1 current).recalculateFlag || (w.1 blockIndex).recalculateFlag then
          w.1 current :: w.2.2
        else w.2.2)
  | none => (w.1, some blockIndex, w.2.2)

/-- The loop of `planner_recalculate_trapezoids`. -/
def trapezoidCallWalk (pl : Planner R) :
    (Nat → Block R) × Option Nat × List (Block R) :=
  Ring.walkUp blockBufferSize pl.blockBufferHead trapezoidCallStep
    blockBufferSize pl.blockBufferTail (pl.blockBuffer, none, [])

/-- The blocks for which `planner_recalculate_trapezoids` calls
`calculate_trapezoid_for_block`, latest first. -/
def trapezoidCalls (pl : Planner R) : List (Block R) :=
  match (trapezoidCallWalk pl).2.1 with
  | some next => (trapezoidCallWalk pl).1 next :: (trapezoidCallWalk pl).2.2
  | none => (trapezoidCallWalk pl).2.2

/-- The calls apart, it is the loop of `planner_recalculate_trapezoids`. -/
theorem trapezoidCallWalk_eq (pl : Planner R) :
    ((trapezoidCallWalk pl).1, (trapezoidCallWalk pl).2.1) =
      Ring.walkUp blockBufferSize pl.blockBufferHead trapezoidStep
        blockBufferSize pl.blockBufferTail (pl.blockBuffer, none) := by
  have hstep : ∀ i (w : (Nat → Block R) × Option Nat × List (Block R)),
      ((trapezoidCallStep i w).1, (trapezoidCallStep i w).2.1) =
        trapezoidStep i (w.1, w.2.1) := by
    rintro i ⟨buf, _ | current, calls⟩ <;> rfl
  exact Ring.walkUp_map (fun w => (w.1, w.2.1)) hstep blockBufferSize
    pl.blockBufferTail (pl.blockBuffer, none, [])

/-- The trapezoids computed are those of pending blocks. -/
theorem mem_trapezoidCalls {pl : Planner R} (h : pl.WF) {b : Block R}
    (hb : b ∈ trapezoidCalls pl) : ∃ c ∈ pl.queue, b.fixed = c.fixed := by
  -- the loop has written to the blocks, and points to a pending one
  let I : (Nat → Block R) × Option Nat × List (Block R) → Prop := fun w =>
    (∀ j, (w.1 j).fixed = (pl.blockBuffer j).fixed) ∧
      (∀ i, w.2.1 = some i → pl.blockBuffer i ∈ pl.queue) ∧
      ∀ b ∈ w.2.2, ∃ c ∈ pl.queue, b.fixed = c.fixed
  have hwalk : I (trapezoidCallWalk pl) := by
    refine Ring.walkUp_keep h.head_lt h.tail_lt (I := I) ?_
      ⟨fun _ => rfl, by simp, by simp⟩
    rintro k hk ⟨buf, _ | current, calls⟩ ⟨hfixed, hnext, hcalls⟩
    · refine ⟨hfixed, fun i hi => ?_, hcalls⟩
      rw [← Option.some.inj hi]
      exact Ring.mem_contents hk
    · refine ⟨fun j => ?_, fun i hi => ?_, fun b hb => ?_⟩
      · by_cases hj : j = current
        · subst hj
          have hsame := trapezoidJunction_fixed (buf j)
            (buf (Ring.slot blockBufferSize pl.blockBufferTail k))
          simpa [trapezoidCallStep] using hsame.trans (hfixed j)
        · simpa [trapezoidCallStep, hj] using hfixed j
      · rw [← Option.some.inj hi]
        exact Ring.mem_contents hk
      · have hcurrent : ∃ c ∈ pl.queue, (buf current).fixed = c.fixed :=
          ⟨_, hnext current rfl, hfixed current⟩
        simp only [trapezoidCallStep] at hb
        split at hb
        · rcases List.mem_cons.1 hb with rfl | hb
          · exact hcurrent
          · exact hcalls b hb
        · exact hcalls b hb
  obtain ⟨hfixed, hnext, hcalls⟩ := hwalk
  unfold trapezoidCalls at hb
  split at hb
  · next i hi =>
    rcases List.mem_cons.1 hb with rfl | hb
    · exact ⟨_, hnext i hi, hfixed i⟩
    · exact hcalls b hb
  · exact hcalls b hb

/-- The plan for which a call has the trapezoids computed. -/
def recalculatedPlan (fw : Firmware R σ) (request : ActionRequest R) :
    Option (Planner R) :=
  let plan (pl : Planner R) : Option (Planner R) :=
    if pl.accelerationManagerEnabled then
      some (plannerForwardPass fw.config (plannerReversePass fw.config pl))
    else none
  match request.actionType with
  | .move | .moveEndstop =>
      if zeroLength fw.config request fw.machine.planner then none
      else plan (publishLine fw.config request fw.machine.planner)
  | .wait | .waitTemps => plan (publishWait request fw.machine.planner)

/-- The calls apart, what is recorded is what `plan_buffer_action` does to the blocks:
the trapezoids of that plan are the last thing it computes. -/
theorem planBufferAction_blockBuffer {fw : Firmware R σ}
    {request : ActionRequest R} {pl : Planner R}
    (h : recalculatedPlan fw request = some pl) :
    (planBufferAction fw.config request fw.machine.planner).1.blockBuffer =
      match (trapezoidCallWalk pl).2.1 with
      | some next =>
          Function.update (trapezoidCallWalk pl).1 next
            (retrapezoid ((trapezoidCallWalk pl).1 next) minimumPlannerSpeed)
      | none => (trapezoidCallWalk pl).1 := by
  have hfinish : ∀ pl' : Planner R,
      (if pl'.accelerationManagerEnabled then
        some (plannerForwardPass fw.config (plannerReversePass fw.config pl'))
      else none) = some pl →
      finishPlan fw.config pl' = plannerRecalculateTrapezoids pl := by
    intro pl' hpl
    unfold finishPlan
    split at hpl
    · next hon =>
      rw [if_pos hon, plannerRecalculate, Option.some.inj hpl]
    · cases hpl
  have hline : (if zeroLength fw.config request fw.machine.planner then none
      else if (publishLine fw.config request
          fw.machine.planner).accelerationManagerEnabled then
        some (plannerForwardPass fw.config (plannerReversePass fw.config
          (publishLine fw.config request fw.machine.planner)))
      else none) = some pl →
      (planBufferLine fw.config request fw.machine.planner).1 =
        plannerRecalculateTrapezoids pl := by
    intro hpl
    split at hpl
    · cases hpl
    · next hsteps =>
      rw [planBufferLine_fst (by simpa using hsteps)]
      exact hfinish _ hpl
  have hplan : (planBufferAction fw.config request fw.machine.planner).1 =
      plannerRecalculateTrapezoids pl := by
    unfold recalculatedPlan at h
    unfold planBufferAction
    cases hkind : request.actionType <;> rw [hkind] at h
    · exact hline h
    · exact hline h
    · exact hfinish _ h
    · exact hfinish _ h
  cases hnext : (trapezoidCallWalk pl).2.1 with
  | none => simp only [hplan, plannerRecalculateTrapezoids, ← trapezoidCallWalk_eq, hnext]
  | some next =>
      simp only [hplan, plannerRecalculateTrapezoids, ← trapezoidCallWalk_eq, hnext]

/-! ## The divisors -/

/-- `acceleration_per_minute` of `calculate_trapezoid_for_block`. -/
def accelerationPerMinute (b : Block R) : Int :=
  int32 (truncate ((int32 (b.rateDelta * accelerationTicksPerSecond) : R) * 60))

/-- The trapezoid of a block is computed with an acceleration, and divides by
nothing that is zero. -/
structure Divides (b : Block R) : Prop where
  rateDelta : 0 < b.rateDelta
  accelerating : 2 * (accelerationPerMinute b : R) ≠ 0
  decelerating : 2 * (int32 (-accelerationPerMinute b) : R) ≠ 0
  intersecting : 4 * (accelerationPerMinute b : R) ≠ 0

/-- Every trapezoid computed in a call divides. -/
def TrapezoidsDivide : PlanEvent R σ → Prop
  | .called _ _ | .synched _ => True
  | .queued fw request => ∀ pl, recalculatedPlan fw request = some pl →
      ∀ b ∈ trapezoidCalls pl, Divides b

section Ordered

variable [IsStrictOrderedRing R]

/-- The product with the ticks vanishes for the multiples of `2^27`. -/
theorem accelerationPerMinute_ne_zero {b : Block R}
    (h : ¬134217728 ∣ b.rateDelta) : accelerationPerMinute b ≠ 0 := by
  have hval : accelerationPerMinute b =
      int32 (int32 (b.rateDelta * 1000) * 60) := by
    have hcast : ((int32 (b.rateDelta * 1000) : R) * 60) =
        ((int32 (b.rateDelta * 1000) * 60 : Int) : R) := by
      push_cast
      rfl
    rw [accelerationPerMinute, accelerationTicksPerSecond, hcast,
      truncate_intCast]
  rw [hval]
  unfold int32 wrapSigned
  omega

theorem divides_of_rateDelta {b : Block R} (hpos : 0 < b.rateDelta)
    (h : ¬134217728 ∣ b.rateDelta) : Divides b := by
  have hne : accelerationPerMinute b ≠ 0 := accelerationPerMinute_ne_zero h
  have hneg : int32 (-accelerationPerMinute b) ≠ 0 := by
    have hrange := int32_range
      (truncate ((int32 (b.rateDelta * accelerationTicksPerSecond) : R) * 60))
    have hdef : accelerationPerMinute b = int32
      (truncate ((int32 (b.rateDelta * accelerationTicksPerSecond) : R) * 60)) :=
      rfl
    rw [← hdef] at hrange
    unfold int32 wrapSigned
    omega
  exact ⟨hpos, mul_ne_zero two_ne_zero (Int.cast_ne_zero.2 hne),
    mul_ne_zero two_ne_zero (Int.cast_ne_zero.2 hneg),
    mul_ne_zero four_ne_zero (Int.cast_ne_zero.2 hne)⟩

end Ordered

theorem Divides.of_fixed {b c : Block R} (h : Divides b)
    (hfixed : c.fixed = b.fixed) : Divides c := by
  have hrate : c.fixed.rateDelta = b.fixed.rateDelta :=
    congrArg Block.rateDelta hfixed
  replace hrate : c.rateDelta = b.rateDelta := hrate
  have hacc : accelerationPerMinute c = accelerationPerMinute b := by
    rw [accelerationPerMinute, hrate, accelerationPerMinute]
  exact ⟨hrate ▸ h.rateDelta, hacc ▸ h.accelerating, hacc ▸ h.decelerating,
    hacc ▸ h.intersecting⟩

/-! ## The condition -/

/-- The acceleration of the path of a request, in steps per minute and tick. -/
def pathAcceleration (fw : Firmware R σ) (request : ActionRequest R) : R :=
  (moveEventCount (moveSteps (targetSteps fw.config request.target)
      fw.machine.planner.position) : R) * (1 / distance fw request.target)
    * fw.config.acceleration * 60 / (accelerationTicksPerSecond : R)

/-- The acceleration of the path fits the planner's arithmetic: no axis moves by
`2^31` steps, and rounded up it is an `int32_t` that is no multiple of `2^27`. -/
structure AccelerationFits (fw : Firmware R σ) (request : ActionRequest R) :
    Prop where
  steps : 0 ≤ moveEventCount (moveSteps (targetSteps fw.config request.target)
    fw.machine.planner.position)
  type : ⌈pathAcceleration fw request⌉ ≤ 2147483647
  product : ¬134217728 ∣ ⌈pathAcceleration fw request⌉

/-- The call is for a move, and its acceleration fits. -/
def Plannable : PlanEvent R σ → Prop
  | .called _ _ | .synched _ => True
  | .queued fw request =>
      isLine request ∧ (Steps fw request → AccelerationFits fw request)

/-- What is relied on of the square root. -/
def SqrtLaw (R : Type) [Field R] [LinearOrder R] [HasSqrt R] : Prop :=
  ∀ x : R, 0 ≤ x → 0 ≤ HasSqrt.sqrt x ∧ (HasSqrt.sqrt x = 0 → x = 0)

/-- The configuration has positive scales and a positive acceleration. -/
structure PositiveConfig (cfg : Configuration R) : Prop where
  scale : ∀ a, 0 < cfg.stepsPerMm a
  acceleration : 0 < cfg.acceleration

section Moves

variable [IsStrictOrderedRing R] {fw : Firmware R σ} {request : ActionRequest R}

/-- A move of at least a step has a length. -/
theorem distance_pos (hsqrt : SqrtLaw R) (hcfg : PositiveConfig fw.config)
    (hsteps : Steps fw request) : 0 < distance fw request.target := by
  set delta := deltaMm fw.config (targetSteps fw.config request.target)
    fw.machine.planner.position with hdelta
  have hsquare : 0 ≤ travelSquare delta := by
    unfold travelSquare
    linarith [mul_self_nonneg (delta .x), mul_self_nonneg (delta .y),
      mul_self_nonneg (delta .z)]
  obtain ⟨hnonneg, hzero⟩ := hsqrt _ hsquare
  show 0 < (if HasSqrt.sqrt (travelSquare delta) = 0 then |delta .e|
    else HasSqrt.sqrt (travelSquare delta))
  split
  · next hs =>
    have hsum := hzero hs
    unfold travelSquare at hsum
    have hnone : ∀ a, a ≠ .e → delta a = 0 := by
      intro a ha
      have hx := mul_self_nonneg (delta .x)
      have hy := mul_self_nonneg (delta .y)
      have hz := mul_self_nonneg (delta .z)
      cases a with
      | x => exact mul_self_eq_zero.1 (by linarith)
      | y => exact mul_self_eq_zero.1 (by linarith)
      | z => exact mul_self_eq_zero.1 (by linarith)
      | e => exact absurd rfl ha
    have hrest : ∀ a, a ≠ .e → int32 (targetSteps fw.config request.target a -
        fw.machine.planner.position a) = 0 := by
      intro a ha
      have h := hnone a ha
      rw [hdelta, deltaMm, div_eq_zero_iff] at h
      exact Int.cast_eq_zero.1 (h.resolve_right (hcfg.scale a).ne')
    have hne := exists_step_of_steps hsteps hrest
    exact abs_pos.2 (div_ne_zero (Int.cast_ne_zero.2 hne) (hcfg.scale .e).ne')
  · next hs => exact lt_of_le_of_ne hnonneg (Ne.symm hs)

/-- The block of a move whose acceleration fits. -/
theorem divides_newBlock (hsqrt : SqrtLaw R) (hcfg : PositiveConfig fw.config)
    (hon : fw.machine.planner.accelerationManagerEnabled = true)
    (hsteps : Steps fw request) (hfits : AccelerationFits fw request) :
    Divides (newBlock fw.config request fw.machine.planner) := by
  have hcount : 0 < moveEventCount (moveSteps
      (targetSteps fw.config request.target) fw.machine.planner.position) := by
    have hne : ¬moveEventCount (moveSteps (targetSteps fw.config request.target)
        fw.machine.planner.position) = 0 := by
      have h := hsteps
      unfold Steps zeroLength at h
      simpa using h
    have := hfits.steps
    omega
  have hpath : 0 < pathAcceleration fw request := by
    have hcast : (0 : R) < (moveEventCount (moveSteps
        (targetSteps fw.config request.target)
        fw.machine.planner.position) : R) := Int.cast_pos.2 hcount
    have hdist := distance_pos hsqrt hcfg hsteps
    have hacc := hcfg.acceleration
    unfold pathAcceleration accelerationTicksPerSecond
    positivity
  have hceil : 0 < ⌈pathAcceleration fw request⌉ := Int.ceil_pos.2 hpath
  have hrate : (newBlock fw.config request fw.machine.planner).rateDelta =
      ⌈pathAcceleration fw request⌉ := by
    have hval : (newBlock fw.config request fw.machine.planner).rateDelta =
        int32 ⌈pathAcceleration fw request⌉ := by
      unfold newBlock
      dsimp only
      rw [if_pos hon]
      rfl
    rw [hval, int32_of_range (by omega) (by have := hfits.type; omega)]
  exact divides_of_rateDelta (hrate ▸ hceil) (hrate ▸ hfits.product)

end Moves

/-! ## The queue -/

/-- The trapezoids of all pending blocks divide. -/
structure QueueDivides (cfg : Configuration R) (fw : Firmware R σ) : Prop where
  config : fw.config = cfg
  wf : fw.machine.planner.WF
  enabled : fw.machine.planner.accelerationManagerEnabled = true
  queue : ∀ b ∈ fw.machine.planner.queue, Divides b

theorem QueueDivides.of_samePlan {cfg : Configuration R} {fw : Firmware R σ}
    (h : QueueDivides cfg fw) {m : Machine R} (hm : SamePlan fw.machine m) :
    QueueDivides cfg { fw with machine := m } where
  config := hm.config.trans h.config
  wf := ⟨hm.head ▸ h.wf.head_lt, hm.tail ▸ h.wf.tail_lt⟩
  enabled := hm.enabled.trans h.enabled
  queue := by
    have hqueue : m.planner.queue = fw.machine.planner.queue := by
      rw [Planner.queue, hm.blocks, hm.head, hm.tail, Planner.queue]
    intro b hb
    exact h.queue b (hqueue ▸ hb)

theorem QueueDivides.discards {cfg : Configuration R} {fw fw' : Firmware R σ}
    (h : QueueDivides cfg fw) (hd : Discards fw.machine fw'.machine) :
    QueueDivides cfg fw' := by
  refine ⟨hd.1.trans h.config, hd.wf h.wf, ?_, ?_⟩
  · rcases hd.2 with heq | heq
    · rw [heq]
      exact h.enabled
    · rw [heq, planDiscardCurrentBlock_eq]
      exact h.enabled
  · intro b hb
    rcases hd.2 with heq | heq
    · exact h.queue b (heq ▸ hb)
    · rw [heq, queue_discard h.wf] at hb
      exact h.queue b (List.mem_of_mem_tail hb)

/-- Replanning keeps the divisors of a block, because they are among its fixed parts. -/
theorem divides_of_map_fixed {bs cs : List (Block R)}
    (h : ∀ b ∈ bs, Divides b) (hfixed : cs.map Block.fixed = bs.map Block.fixed) :
    ∀ c ∈ cs, Divides c := by
  intro c hc
  have hmem : c.fixed ∈ bs.map Block.fixed := hfixed ▸ List.mem_map_of_mem hc
  obtain ⟨b, hb, heq⟩ := List.mem_map.1 hmem
  exact (h b hb).of_fixed heq.symm

section Calls

variable [IsStrictOrderedRing R] {cfg : Configuration R} {fw : Firmware R σ}
  {request : ActionRequest R}

/-- The queue with the block of a call that can be planned. -/
theorem QueueDivides.append (hsqrt : SqrtLaw R) (hcfg : PositiveConfig cfg)
    (h : QueueDivides cfg fw)
    (hfits : Steps fw request → AccelerationFits fw request) :
    ∀ b ∈ fw.machine.planner.queue ++
        (if zeroLength fw.config request fw.machine.planner then []
          else [newBlock fw.config request fw.machine.planner]), Divides b := by
  intro b hb
  rcases List.mem_append.1 hb with hb | hb
  · exact h.queue b hb
  · split at hb
    · cases hb
    · next hsteps =>
      rw [List.mem_singleton.1 hb]
      have hsteps : Steps fw request := by simpa [Steps] using hsteps
      exact divides_newBlock hsqrt (h.config ▸ hcfg) h.enabled hsteps (hfits hsteps)

theorem planBufferAction_of_isLine (hline : isLine request)
    (pl : Planner R) :
    planBufferAction cfg request pl = planBufferLine cfg request pl := by
  unfold planBufferAction
  rcases hline with hkind | hkind <;> rw [hkind]

theorem planBufferLine_enabled (pl : Planner R) :
    (planBufferLine cfg request pl).1.accelerationManagerEnabled =
      pl.accelerationManagerEnabled := by
  unfold planBufferLine
  split
  · rfl
  · dsimp only
    rw [finishPlan_eq]
    rfl

/-- A call that can be planned leaves a queue that divides. -/
theorem QueueDivides.bufferAction (hsqrt : SqrtLaw R) (hcfg : PositiveConfig cfg)
    (h : QueueDivides cfg fw)
    (hroom : planQueueFull fw.machine.planner = false)
    (hcall : Plannable (.queued fw request)) :
    QueueDivides cfg
      { fw with machine := bufferAction request fw.machine } := by
  obtain ⟨hconfig, hplanner, -, -⟩ := bufferAction_frame request fw.machine
  rw [planBufferAction_of_isLine hcall.1] at hplanner
  refine ⟨hconfig.trans h.config, ?_, ?_, ?_⟩
  · show (Stepper.bufferAction request fw.machine).planner.WF
    rw [hplanner]
    exact h.wf.planBufferLine _ _
  · show (Stepper.bufferAction request fw.machine).planner.accelerationManagerEnabled = true
    rw [hplanner, planBufferLine_enabled]
    exact h.enabled
  · show ∀ b ∈ (Stepper.bufferAction request fw.machine).planner.queue, Divides b
    rw [hplanner]
    exact divides_of_map_fixed (h.append hsqrt hcfg hcall.2)
      (queue_planBufferLine_fixed h.wf hroom)

theorem recalculatedPlan_of_isLine (hline : isLine request) :
    recalculatedPlan fw request =
      if zeroLength fw.config request fw.machine.planner then none
      else if fw.machine.planner.accelerationManagerEnabled then
        some (plannerForwardPass fw.config (plannerReversePass fw.config
          (publishLine fw.config request fw.machine.planner)))
      else none := by
  unfold recalculatedPlan
  rcases hline with hkind | hkind <;> rw [hkind] <;> rfl

/-- The plan when the speed passes have run. -/
theorem queue_speedPasses (cfg : Configuration R) {pl : Planner R} (h : pl.WF) :
    (plannerForwardPass cfg (plannerReversePass cfg pl)).queue =
      forwardQueue cfg (reverseQueue cfg pl.queue) := by
  have hrev : (plannerReversePass cfg pl).WF := ⟨h.head_lt, h.tail_lt⟩
  rw [queue_forwardPass cfg hrev, queue_reversePass cfg h]

/-- In a call that can be planned, every trapezoid computed divides. -/
theorem QueueDivides.trapezoids (hsqrt : SqrtLaw R) (hcfg : PositiveConfig cfg)
    (h : QueueDivides cfg fw)
    (hroom : planQueueFull fw.machine.planner = false)
    (hcall : Plannable (.queued fw request)) :
    TrapezoidsDivide (.queued fw request) := by
  intro pl hpl b hb
  rw [recalculatedPlan_of_isLine hcall.1] at hpl
  cases hsteps : zeroLength fw.config request fw.machine.planner with
  | true =>
      rw [if_pos hsteps] at hpl
      cases hpl
  | false =>
      rw [if_neg (by simp [hsteps]), if_pos h.enabled] at hpl
      have hqueue := queue_speedPasses fw.config
        (h.wf.publishLine fw.config request)
      rw [queue_publishLine _ _ h.wf hroom, Option.some.inj hpl] at hqueue
      have hall := h.append hsqrt hcfg hcall.2
      rw [hsteps] at hall
      have hwf : pl.WF := by
        rw [← Option.some.inj hpl]
        exact ⟨(h.wf.publishLine fw.config request).head_lt, h.wf.tail_lt⟩
      obtain ⟨c, hc, heq⟩ := mem_trapezoidCalls hwf hb
      rw [hqueue] at hc
      exact (divides_of_map_fixed hall (speedPasses_fixed _ _) c hc).of_fixed heq

end Calls

/-! ## Commands -/

section Commands

variable {cfg : Configuration R}

theorem frame_queueDivides (cfg : Configuration R) :
    Frame P (Keeps (QueueDivides cfg) : Firmware R σ → _ → Prop) where
  irq i fw h := h.discards (serveIrq_discards P i fw)
  machine _ _ hm h := h.of_samePlan hm
  text _ _ h := ⟨h.config, h.wf, h.enabled, h.queue⟩
  effect _ _ _ h := ⟨h.config, h.wf, h.enabled, h.queue⟩
  extruder _ _ _ _ _ h := ⟨h.config, h.wf, h.enabled, h.queue⟩
  table _ _ _ _ h := ⟨h.config, h.wf, h.enabled, h.queue⟩
  timeout _ _ h := ⟨h.config, h.wf, h.enabled, h.queue⟩

theorem card_queueDivides (cfg : Configuration R) :
    CardFrame (Keeps (QueueDivides cfg) : Firmware R σ → _ → Prop) :=
  fun _ _ _ _ _ _ _ h => ⟨h.config, h.wf, h.enabled, h.queue⟩

theorem heat_queueDivides (cfg : Configuration R) (t : Int) :
    HeatFrame (Keeps (QueueDivides cfg) : Firmware R σ → _ → Prop) t :=
  fun _ _ h => ⟨h.config, h.wf, h.enabled, h.queue⟩

/-- As long as all calls could be planned, the queue divides, and every
trapezoid computed has done so. -/
def Planned (cfg : Configuration R)
    (s : Watched (Firmware R σ) (PlanEvent R σ)) : Prop :=
  (∀ e ∈ s.events, Plannable e) →
    QueueDivides cfg s.state ∧ ∀ e ∈ s.events, TrapezoidsDivide e

variable [IsStrictOrderedRing R]

theorem planned_call (hsqrt : SqrtLaw R) (hcfg : PositiveConfig cfg)
    (request : ActionRequest R) :
    Moves (Keeps (Planned cfg)) (PlanCalls.planBufferAction P request) := by
  have hplain : ∀ {α : Type} {x : FwM R σ α}, Moves (Keeps (QueueDivides cfg)) x →
      Moves (Keeps (Planned cfg)) (plain x : PlanM R σ α) :=
    fun hx w hw hall => ⟨hx w.unwatch (hw hall).1, (hw hall).2⟩
  refine Moves.bind (fun w hw hall => ?_) fun _ =>
    Moves.plain_spinUntil_bind
      (hplain (Moves.spinUntil (frame_queueDivides cfg).irq _)) fun w hroom hw => ?_
  · obtain ⟨hqueue, hdivide⟩ := hw fun e he => hall e (List.mem_cons_of_mem _ he)
    exact ⟨hqueue, List.forall_mem_cons.2 ⟨trivial, hdivide⟩⟩
  · -- there is room: the block is written and the plan recalculated
    intro hall
    obtain ⟨hqueue, hdivide⟩ := hw fun e he => hall e (List.mem_cons_of_mem _ he)
    have hcall : Plannable (.queued w.state.state request) :=
      hall _ List.mem_cons_self
    have hroom : planQueueFull w.state.state.machine.planner = false := by
      simpa using hroom
    exact ⟨hqueue.bufferAction hsqrt hcfg hroom hcall, List.forall_mem_cons.2
      ⟨hqueue.trapezoids hsqrt hcfg hroom hcall, hdivide⟩⟩

theorem planned_synchQueue :
    Moves (Keeps (Planned cfg)) (PlanCalls.synchQueue P : PlanM R σ Unit) := by
  refine Moves.bind (fun w hw hall => ?_) fun _ w hw hall => ?_
  · obtain ⟨hqueue, hdivide⟩ := hw fun e he => hall e (List.mem_cons_of_mem _ he)
    exact ⟨hqueue, List.forall_mem_cons.2 ⟨trivial, hdivide⟩⟩
  · exact ⟨(frame_queueDivides cfg).synchQueue w.unwatch (hw hall).1, (hw hall).2⟩

theorem callFrame_planned (hsqrt : SqrtLaw R) (hcfg : PositiveConfig cfg) :
    CallFrame P (Keeps (QueueDivides cfg) : Firmware R σ → _ → Prop)
      (Keeps (Planned cfg)) where
  frame := frame_queueDivides cfg
  plain hx := fun w hw hall => ⟨hx w.unwatch (hw hall).1, (hw hall).2⟩
  call := planned_call hsqrt hcfg
  synch := planned_synchQueue

/-- A command all of whose calls can be planned. -/
theorem planned_processGcodeCommand (hsqrt : SqrtLaw R)
    (hcfg : PositiveConfig cfg) {c : GcodeCommand R}
    (hset : (commandOf c).configures = false) {fw : Firmware R σ}
    (hfw : QueueDivides cfg fw) {irqs : List Irq}
    (hcalls : ∀ e ∈ (PlanCalls.processGcodeCommand P c
      ⟨⟨fw, []⟩, irqs⟩).2.state.events, Plannable e) :
    QueueDivides cfg (processGcodeCommand P c ⟨fw, irqs⟩).2.state ∧
      ∀ e ∈ (PlanCalls.processGcodeCommand P c ⟨⟨fw, []⟩, irqs⟩).2.state.events,
        TrapezoidsDivide e := by
  have hmoves := (callFrame_planned (P := P) hsqrt hcfg).processGcodeCommand
    (c := c) (fun _ => card_queueDivides cfg)
    (fun h => absurd h (by simp [hset])) (fun _ => heat_queueDivides cfg _)
    ⟨⟨fw, []⟩, irqs⟩ (fun _ => ⟨hfw, fun _ he => absurd he List.not_mem_nil⟩)
  have hsame := congrArg (fun x => x.2.state)
    (PlanCalls.watches_processGcodeCommand (P := P) c ⟨⟨fw, []⟩, irqs⟩)
  obtain ⟨hqueue, hdivide⟩ := hmoves hcalls
  exact ⟨hsame ▸ hqueue, hdivide⟩

end Commands

/-! ## Runs -/

section Runs

variable [IsStrictOrderedRing R] {cfg : Configuration R}

/-- The line leaves the configuration alone, and whatever interrupts arrive, its
calls can be planned. -/
def LinePlannable (P : Platform σ) (s : Session R σ) (data : List UInt8) : Prop :=
  KeepsConfig s data ∧ ∀ irqs, ∀ e ∈ planEvents P s data irqs, Plannable e

theorem background_queueDivides {fw fw' : Firmware R σ}
    (h : Background P fw fw') (hfw : QueueDivides cfg fw) :
    QueueDivides cfg fw' := by
  cases h with
  | irq i => exact hfw.discards (serveIrq_discards P i fw)
  | sdPoll =>
      unfold sdPoll
      split
      · split <;> exact ⟨hfw.config, hfw.wf, hfw.enabled, hfw.queue⟩
      · exact hfw
  | countTimeout =>
      unfold countTimeout
      split
      · exact hfw
      · exact ⟨hfw.config, hfw.wf, hfw.enabled, hfw.queue⟩

theorem takeLine_queueDivides (hsqrt : SqrtLaw R) (hcfg : PositiveConfig cfg)
    {s : Session R σ} {data : List UInt8} {irqs : List Irq}
    (hok : LinePlannable P s data) (hfw : QueueDivides cfg s.fw) :
    QueueDivides cfg (takeLine P s data irqs).2.state := by
  by_cases hproc : Processes s data
  · rw [takeLine_processes hproc]
    have hcalls := hok.2 irqs
    rw [planEvents, if_pos hproc] at hcalls
    exact (planned_processGcodeCommand hsqrt hcfg (hok.1 hproc) hfw hcalls).1
  · exact (frame_queueDivides cfg).takeLine (card_queueDivides cfg)
      (fun h => absurd h hproc) (fun h => absurd h hproc)
      (fun h => absurd h hproc) irqs hfw

/-- In a run from `plan_init` on whose lines leave a configuration with positive
scales and a positive acceleration alone: when no call is for a wait, and the
acceleration of every move fits, every trapezoid computed has a positive
`rate_delta` and divides by nothing that is zero. -/
theorem trapezoids_divide (hsqrt : SqrtLaw R) {s₀ : Session R σ}
    (hcfg : PositiveConfig s₀.fw.config)
    {hist : List (Session R σ × List UInt8)} {fw : Firmware R σ}
    (h : Visited P s₀.init hist fw)
    (hok : ∀ x ∈ hist, LinePlannable P x.1 x.2) :
    ∀ x ∈ hist, ∀ irqs, ∀ e ∈ planEvents P x.1 x.2 irqs,
      TrapezoidsDivide e := by
  intro x hx irqs e he
  obtain ⟨later, earlier, rfl⟩ := List.append_of_mem hx
  have hrun : Run P s₀.init earlier x.1 :=
    h.of_suffix (List.suffix_append later (x :: earlier))
  have hinit : QueueDivides s₀.fw.config s₀.init.fw := by
    refine ⟨rfl, planInit_wf _, rfl, fun b hb => ?_⟩
    have hempty : s₀.init.fw.machine.planner.queue = [] := planInit_queue _
    rw [hempty] at hb
    cases hb
  have hbefore : QueueDivides s₀.fw.config x.1.fw :=
    Visited.invariant (fun _ _ => background_queueDivides)
      (fun _ _ _ hl hfw => takeLine_queueDivides hsqrt hcfg hl hfw)
      (.between hrun) hinit
      fun y hy => hok y (List.mem_append_right _ (List.mem_cons_of_mem _ hy))
  have hcalls := (hok x hx).2 irqs
  unfold planEvents at he hcalls
  split at he
  · next hproc =>
    rw [if_pos hproc] at hcalls
    exact (planned_processGcodeCommand hsqrt hcfg ((hok x hx).1 hproc) hbefore
      hcalls).2 e he
  · cases he

end Runs

/-! ## A move and a wait -/

section Example

theorem sqrtLaw_rat : SqrtLaw ℚ := by
  intro q hq
  have hden : (0 : ℚ) < (q.den.sqrt : ℚ) := by
    exact_mod_cast Nat.sqrt_pos.2 q.den_pos
  constructor
  · show (0 : ℚ) ≤ (q.num.toNat.sqrt : ℚ) / (q.den.sqrt : ℚ)
    positivity
  · intro h
    have hnum : (q.num.toNat.sqrt : ℚ) = 0 := by
      have h' : (q.num.toNat.sqrt : ℚ) / (q.den.sqrt : ℚ) = 0 := h
      exact (div_eq_zero_iff.1 h').resolve_right hden.ne'
    have hzero : q.num.toNat = 0 := Nat.sqrt_eq_zero.1 (by exact_mod_cast hnum)
    have hnonneg : 0 ≤ q.num := Rat.num_nonneg.2 hq
    exact Rat.num_eq_zero.1 (by omega)

theorem positiveConfig_default : PositiveConfig defaultBoot.fw.config :=
  ⟨fun a => by cases a <;> decide +kernel, by decide +kernel⟩

/-- A first move of one millimetre, whatever interrupts come meanwhile, divides by no
zero. -/
theorem trapezoids_divide_firstMove :
    (∀ x ∈ [(defaultStart, str "G1 X1 F600\n")], LinePlannable noCard x.1 x.2) ∧
      ∀ x ∈ [(defaultStart, str "G1 X1 F600\n")], ∀ irqs,
        ∀ e ∈ planEvents noCard x.1 x.2 irqs, TrapezoidsDivide e := by
  have hcmd : commandOf (parsed defaultStart (str "G1 X1 F600\n")) = .g .g1 := by
    decide +kernel
  have hok : ∀ x ∈ [(defaultStart, str "G1 X1 F600\n")],
      LinePlannable noCard x.1 x.2 := by
    intro x hx
    refine ⟨keepsConfig_firstMove _ hcmd x hx, ?_⟩
    obtain rfl := List.mem_singleton.1 hx
    intro irqs e he
    rw [PlanCalls.planEvents_g1 (by decide +kernel) hcmd (by decide +kernel)
      (by decide +kernel)] at he
    rcases List.mem_cons.1 he with rfl | he
    · exact ⟨.inl rfl, fun _ => ⟨by decide +kernel, by decide +kernel,
        by decide +kernel⟩⟩
    · rw [List.mem_singleton.1 he]
      trivial
  have hrun : Run noCard defaultBoot.init [] defaultStart := .refl
  exact ⟨hok, trapezoids_divide sqrtLaw_rat positiveConfig_default
    (.waiting hrun (str "G1 X1 F600\n") []) hok⟩

/-- Every trapezoid computed in a call has a positive `rate_delta`. -/
def ratesPositive : PlanEvent ℚ Unit → Bool
  | .called _ _ | .synched _ => true
  | .queued fw request =>
      match recalculatedPlan fw request with
      | some pl => (trapezoidCalls pl).all fun b => decide (0 < b.rateDelta)
      | none => true

theorem ratesPositive_of_divide {e : PlanEvent ℚ Unit}
    (h : TrapezoidsDivide e) : ratesPositive e = true := by
  cases e with
  | called | synched => rfl
  | queued fw request =>
      unfold ratesPositive
      dsimp only
      split
      · next pl hpl =>
        exact List.all_eq_true.2 fun b hb => decide_eq_true (h pl hpl b hb).rateDelta
      · rfl

/-- `M109` has a trapezoid computed for its wait, with a `rate_delta` of zero. -/
theorem wait_divides_by_zero :
    ¬ ∀ (hist : List (Session ℚ Unit × List UInt8)) (fw : Firmware ℚ Unit),
        PositiveConfig defaultBoot.fw.config →
        Visited noCard defaultBoot.init hist fw →
        (∀ x ∈ hist, KeepsConfig x.1 x.2) →
        (∀ x ∈ hist, ∀ irqs, ∀ e ∈ planEvents noCard x.1 x.2 irqs,
          UsableCall e) →
        ∀ x ∈ hist, ∀ irqs, ∀ e ∈ planEvents noCard x.1 x.2 irqs,
          TrapezoidsDivide e := by
  intro h
  have hcmd : commandOf (parsed defaultStart (str "M109 S200\n")) = .m .m109 := by
    decide +kernel
  have hready : Ready defaultStart.fw :=
    ⟨rfl, PositionAgreement.init_agrees defaultBoot⟩
  have hdivide := h [(defaultStart, str "M109 S200\n")] _ positiveConfig_default
    (.waiting .refl (str "M109 S200\n") [])
    (fun x hx _ => by
      obtain rfl := List.mem_singleton.1 hx
      rw [hcmd]
      rfl)
    (fun x hx irqs e he => by
      obtain rfl := List.mem_singleton.1 hx
      rw [planEvents, if_pos (by decide +kernel)] at he
      refine usable_processGcodeCommand sqrt_mul_self_rat ?_
        ⟨hready, fun _ he => absurd he List.not_mem_nil⟩ e he
      unfold CommandFits askedMove
      rw [hcmd]
      exact fun t ht => nomatch ht)
    _ List.mem_cons_self []
  have hall : (planEvents noCard defaultStart (str "M109 S200\n") []).all
      ratesPositive = true :=
    List.all_eq_true.2 fun e he => ratesPositive_of_divide (hdivide e he)
  revert hall
  decide +kernel

end Example

end R2C2Firmware.Ports.RateDelta
