import R2C2Firmware.Ports.StepperConservation
import R2C2Firmware.Ports.StepperDrain
import R2C2Firmware.Ports.Mendel

/-!
# Homing the Y axis

A homing move is to stop at the endstop when it travels towards the home side,
and to ignore the endstop when it travels away from it.  The interrupt hands
`hit_home_stop_y` the direction bit of the block.  The planner sets that bit for
negative travel; `hit_home_stop_y` was written for an engine in which it means
positive travel.  So the two are the wrong way round: towards the home side
the switch is ignored, and away from it the switch stops the move.

## Main results

* `homing_iff` — a homing move along Y does what it should exactly when the
  switch never closes during the move.
* `homing_overruns` — the switch closes, and the move goes on.
-/

set_option linter.unusedSectionVars false

namespace R2C2Firmware.Ports.YHoming

open R2C2Firmware.Verified
open R2C2Firmware.Verified.Number
open R2C2Firmware.Ports.Config
open R2C2Firmware.Ports.MotionPlanner
open R2C2Firmware.Ports.Stepper
open R2C2Firmware.Ports.Mendel

variable {R : Type}

/-! ## Pulses of one interrupt -/

/-- The number of step pulses on Y. -/
def yPulses (g : Gpio) : Int := g.rises .y true + g.rises .y false

theorem yPulses_of_trace_eq {g g' : Gpio} (h : g'.trace = g.trace) :
    yPulses g' = yPulses g := by
  rw [yPulses, yPulses, Gpio.rises, Gpio.rises, Gpio.rises, Gpio.rises, h]

/-- A pulse of all pins counts for Y exactly if Y is among the axes that step. -/
theorem yPulses_of_pulses {p : Axis → Bool} {g g' : Gpio} (h : Pulses p g g') :
    yPulses g' = yPulses g + if p .y then 1 else 0 := by
  obtain ⟨evs, htrace, -, hcount⟩ := h.trace
  unfold yPulses Gpio.rises
  rw [htrace, List.count_append, List.count_append, hcount, hcount]
  cases p .y <;> cases g.direction .y <;> simp <;> omega

/-- A step event that an endstop ends has no pulse. -/
theorem stepEvent_pulses (inp : StInputs) (b : Block R) (m : Machine R) :
    Pulses (fun a => hit b m.stepper.counter a &&
        !(b.checkEndstops && endstopHit inp m.stepper.directionBits b))
      m.gpio (stepEvent inp b m).gpio := by
  unfold stepEvent
  dsimp only
  rw [traceAxes_eq, clearStepPins_eq, setStepPins_gpio, checkEndstops]
  dsimp only
  cases b.checkEndstops && endstopHit inp m.stepper.directionBits b with
  | true =>
      rw [if_pos rfl]
      dsimp only
      rw [gpioSetValue_zero, gpioSetValue_zero]
      have hquiet : Pulses (fun _ => false) m.gpio
          (gpioClearValue 0 (pulseBit b m.stepper.counter .e)
            (gpioClearValue 1 (pulseBit b m.stepper.counter .x |||
              pulseBit b m.stepper.counter .y |||
              pulseBit b m.stepper.counter .z) m.gpio)) := by
        refine Pulses.of_trace_eq rfl ?_
        intro a
        rw [gpioClearValue_direction _ (pulseBit_direction b _ .e),
          gpioClearValue_direction]
        intro a
        simp only [BitVec.getLsbD_or, pulseBit_direction, Bool.or_false]
      exact hquiet.congr (by simp)
  | false =>
      rw [if_neg Bool.false_ne_true]
      exact (traced_pulses _ _ _).congr (by simp)

theorem countStep_direction (bits : BitVec 32) (a : Axis) (s : StepperState) :
    (countStep bits a s).directionBits = s.directionBits := by
  unfold countStep
  split
  · unfold incLedCount
    dsimp only
    split <;> rfl
  · rfl

/-- A step event advances the accumulators and keeps the direction. -/
theorem stepEvent_traced (inp : StInputs) (b : Block R) (m : Machine R) :
    (stepEvent inp b m).stepper.counter = traced b m.stepper.counter ∧
      (stepEvent inp b m).stepper.directionBits = m.stepper.directionBits := by
  have htracing := (setStepPins_frame
    { m with
      stepper := checkEndstops inp b
        { traceAxes b m.stepper with
          stepEventsCompleted :=
            uint32 ((traceAxes b m.stepper).stepEventsCompleted + 1) }
      gpio := clearStepPins (traceAxes b m.stepper) m.gpio }).2
  constructor
  · refine (congrArg (fun t => t.2.1) htracing).trans ?_
    show (checkEndstops inp b _).counter = _
    rw [checkEndstops, traceAxes_eq]
    split <;> rfl
  · unfold stepEvent setStepPins
    dsimp only
    have hcheck : ∀ s : StepperState,
        (checkEndstops inp b s).directionBits = s.directionBits := by
      intro s
      unfold checkEndstops
      split <;> rfl
    split <;>
      simp only [countStep_direction, hcheck, traceAxes_eq]

theorem trapezoidTick_direction (b : Block R) (m : Machine R) :
    (trapezoidTick b m).stepper.directionBits = m.stepper.directionBits := by
  unfold trapezoidTick
  dsimp only
  split_ifs <;> rfl

theorem popBlock_yPulses (m : Machine R) :
    yPulses (popBlock m).gpio = yPulses m.gpio := by
  unfold popBlock
  split
  · rfl
  · split
    · have hrise := loadBlock_noRise (m := m) (R := R)
      rw [yPulses, yPulses, hrise, hrise]
    · exact yPulses_of_trace_eq rfl

theorem settlePins_trace (m : Machine R) :
    (settlePins m).gpio.trace = m.gpio.trace := by
  unfold settlePins
  split
  · rfl
  · show (clearStepPinsByState _ _).trace = _
    unfold clearStepPinsByState
    dsimp only
    split <;> rfl

/-- The pulses at the end of an interrupt change neither the Bresenham counters nor the
direction. -/
theorem settlePins_traced (m : Machine R) :
    (settlePins m).stepper.counter = m.stepper.counter ∧
      (settlePins m).stepper.directionBits = m.stepper.directionBits := by
  unfold settlePins
  split <;> exact ⟨rfl, rfl⟩

/-- One interrupt of a move: the pulse on Y, and where the tracing stands when
the block goes on. -/
theorem stInterrupt_traced (inp : StInputs) {m : Machine R} (h : Ready m)
    {b : Block R} {bs : List (Block R)} (hq : m.planner.queue = b :: bs)
    (hkind : b.actionType = .move) :
    yPulses (stInterrupt inp m).gpio = yPulses m.gpio +
        (if hit b (popBlock m).stepper.counter .y && !truncates inp m then 1
          else 0) ∧
      ((stInterrupt inp m).stepper.currentBlock ≠ none →
        (stInterrupt inp m).stepper.counter =
            traced b (popBlock m).stepper.counter ∧
          (stInterrupt inp m).stepper.directionBits =
            (popBlock m).stepper.directionBits) := by
  obtain ⟨hcur, hb, -⟩ := popBlock_serves h hq
  have hplan : (popBlock m).planner = m.planner := (popBlock_frame m).2
  have hcur₁ : (setBusy true (popBlock m)).stepper.currentBlock =
      some m.planner.blockBufferTail := hcur
  have hb₁ : (setBusy true (popBlock m)).planner.blockBuffer
      m.planner.blockBufferTail = b := by
    show (popBlock m).planner.blockBuffer _ = b
    rw [hplan, hb]
  have htrunc : truncates inp m = (b.checkEndstops &&
      endstopHit inp (popBlock m).stepper.directionBits b) := by
    rw [truncates, hq]
    simp [hkind]
  have hserve : serveBlock inp (setBusy true (popBlock m)) =
      moveInterrupt inp b (setBusy true (popBlock m)) := by
    rw [serveBlock_move inp hcur₁ (by rw [hb₁]; exact hkind), hb₁]
  rw [stInterrupt_ready inp h.busy, popBlock_setBusy, hserve]
  have hpulse := yPulses_of_pulses
    (stepEvent_pulses inp b (setBusy true (popBlock m)))
  obtain ⟨hcounter, hdir⟩ := stepEvent_traced inp b (setBusy true (popBlock m))
  have hpop := popBlock_yPulses m
  constructor
  · have hmove : (moveInterrupt inp b (setBusy true (popBlock m))).gpio =
        (stepEvent inp b (setBusy true (popBlock m))).gpio := by
      unfold moveInterrupt
      dsimp only
      split
      · exact (trapezoidTick_frame _ _).2.1
      · rfl
    have hsettle : yPulses (setBusy false (settlePins
        (moveInterrupt inp b (setBusy true (popBlock m))))).gpio =
        yPulses (stepEvent inp b (setBusy true (popBlock m))).gpio := by
      rw [← hmove]
      exact yPulses_of_trace_eq (settlePins_trace _)
    rw [hsettle, hpulse, htrunc, ← hpop]
    rfl
  · intro hne
    have hgoes : moveInterrupt inp b (setBusy true (popBlock m)) =
        trapezoidTick b (stepEvent inp b (setBusy true (popBlock m))) := by
      by_contra hnot
      refine hne ?_
      have hover : moveInterrupt inp b (setBusy true (popBlock m)) =
          discardCurrent (stepEvent inp b (setBusy true (popBlock m))) := by
        unfold moveInterrupt at hnot ⊢
        dsimp only at hnot ⊢
        split
        · next hlt =>
          rw [if_pos hlt] at hnot
          exact absurd rfl hnot
        · rfl
      rw [hover]
      exact (settle_pointer _).2.1
    rw [hgoes]
    constructor
    · refine (settlePins_traced _).1.trans ?_
      refine Eq.trans ?_ hcounter
      exact congrArg (fun t => t.2.1) (trapezoidTick_frame b _).2.2
    · refine (settlePins_traced _).2.trans ?_
      rw [trapezoidTick_direction, hdir]
      rfl

/-! ## Homing blocks -/

section Homing

variable [Field R] [LinearOrder R] [HasSqrt R] [FloorRing R]

/-- The block of a homing request that moves Y only.  `pl` is the planner at the
time of the request. -/
structure IsHoming (cfg : Configuration R) (pAction : ActionRequest R)
    (pl : Planner R) (b : Block R) : Prop where
  kind : pAction.actionType = .moveEndstop
  only : ∀ a, a ≠ .y → targetSteps cfg pAction.target a = pl.position a
  moves : zeroLength cfg pAction pl = false
  block : b.fixed = (newBlock cfg pAction pl).fixed

/-- The move goes towards the home side. -/
def Toward (cfg : Configuration R) (pAction : ActionRequest R)
    (pl : Planner R) : Prop :=
  if cfg.homeDirectionY < 0 then
    targetSteps cfg pAction.target .y < pl.position .y
  else pl.position .y < targetSteps cfg pAction.target .y

/-- The number of steps for which `labs` overflows. -/
def overflowSteps : Int := 2147483648

section Block

variable {cfg : Configuration R} {pAction : ActionRequest R} {pl : Planner R}
  {b : Block R}

/-- An axis that stays where it is has no steps. -/
theorem moveSteps_zero {target position : Axis → Int} {a : Axis}
    (h : target a = position a) : moveSteps target position a = 0 := by
  rw [moveSteps, h, sub_self]
  rfl

/-- The steps of an axis lie between zero and the magnitude of the most negative 32-bit
number. -/
theorem moveSteps_range (target position : Axis → Int) (a : Axis) :
    0 ≤ moveSteps target position a ∧
      moveSteps target position a ≤ overflowSteps := by
  have hrange := int32_range (target a - position a)
  have habs : |int32 (target a - position a)| ≤ 2147483648 :=
    abs_le.2 (by omega)
  rw [moveSteps, uint32_of_range (abs_nonneg _) (by omega)]
  exact ⟨abs_nonneg _, habs⟩

/-- What the interrupt sees of a homing block. -/
structure Seen (cfg : Configuration R) (pAction : ActionRequest R)
    (pl : Planner R) (b : Block R) : Prop where
  kind : b.actionType = .move
  ends : b.checkEndstops = true
  only : ∀ a, a ≠ .y → b.steps a = 0
  steps : 0 < b.steps .y ∧ b.steps .y ≤ overflowSteps
  count : b.stepEventCount =
    if b.steps .y = overflowSteps then -overflowSteps else b.steps .y
  direction : b.directionBits &&& dirPin .y ≠ 0 ↔
    targetSteps cfg pAction.target .y < pl.position .y

theorem IsHoming.seen (h : IsHoming cfg pAction pl b) :
    Seen cfg pAction pl b := by
  obtain ⟨hkind, hbits, hsteps, hcount, hends⟩ :=
    @newBlock_motion R _ _ _ _ cfg pAction pl
  have hb := h.block
  have hfix : b.actionType = (newBlock cfg pAction pl).actionType ∧
      b.directionBits = (newBlock cfg pAction pl).directionBits ∧
      b.steps = (newBlock cfg pAction pl).steps ∧
      b.stepEventCount = (newBlock cfg pAction pl).stepEventCount ∧
      b.checkEndstops = (newBlock cfg pAction pl).checkEndstops := by
    show b.fixed.actionType = _ ∧ b.fixed.directionBits = _ ∧
      b.fixed.steps = _ ∧ b.fixed.stepEventCount = _ ∧
      b.fixed.checkEndstops = _
    rw [hb]
    exact ⟨rfl, rfl, rfl, rfl, rfl⟩
  rw [hkind, hbits, hsteps, hcount, hends, h.kind] at hfix
  obtain ⟨hkind, hbits, hsteps, hcount, hends⟩ := hfix
  have honly : ∀ a, a ≠ .y → b.steps a = 0 := by
    intro a ha
    rw [hsteps]
    exact moveSteps_zero (h.only a ha)
  have hrange : 0 ≤ b.steps .y ∧ b.steps .y ≤ overflowSteps := by
    rw [hsteps]
    exact moveSteps_range _ _ _
  rw [← hsteps] at hcount
  have hmoves := h.moves
  rw [zeroLength, beq_eq_false_iff_ne, ← hsteps] at hmoves
  have hx := honly .x (by decide)
  have hz := honly .z (by decide)
  have he := honly .e (by decide)
  have hevents : moveEventCount b.steps =
      int32 (max (uint32 (int32 (b.steps .y))) 0) := by
    unfold moveEventCount
    dsimp only
    rw [hx, hz, he, max_eq_left hrange.1, max_eq_right hrange.1]
  have hcases : moveEventCount b.steps =
      if b.steps .y = overflowSteps then -overflowSteps else b.steps .y := by
    rw [hevents]
    unfold overflowSteps at hrange ⊢
    split
    · next heq =>
      rw [heq]
      decide
    · next hne =>
      have hint : int32 (b.steps .y) = b.steps .y :=
        int32_of_range (by omega) (by omega)
      have huint : uint32 (b.steps .y) = b.steps .y :=
        uint32_of_range (by omega) (by omega)
      rw [hint, huint, max_eq_left hrange.1, hint]
  refine ⟨hkind, by rw [hends]; decide, honly, ⟨?_, hrange.2⟩,
    hcount.trans hcases, ?_⟩
  · rw [hcases] at hmoves
    unfold overflowSteps at hmoves
    split at hmoves <;> omega
  · rw [hbits, ne_eq, moveDirectionBits_eq_zero, not_not]

/-- Replanning leaves a homing move a homing move. -/
theorem IsHoming.of_fixed {c : Block R} (h : IsHoming cfg pAction pl b)
    (hc : c.fixed = b.fixed) : IsHoming cfg pAction pl c :=
  { h with block := hc.trans h.block }

/-- A homing move has as many events as steps along Y. -/
theorem Seen.eventCount (h : Seen cfg pAction pl b) :
    eventCount b = b.steps .y := by
  have hrange := h.steps
  rw [Stepper.eventCount, h.count]
  unfold overflowSteps at hrange ⊢
  split
  · next heq =>
    rw [heq]
    decide
  · exact uint32_of_range (by omega) (by omega)

/-- The accumulator of Y after any event of the block. -/
def level (b : Block R) : Int := -(b.steps .y / 2)

/-- The first event steps, unless `labs` has overflowed. -/
theorem Seen.first (h : Seen cfg pAction pl b) {counter : Axis → Int}
    (hc : counter .y = -(b.stepEventCount / 2)) :
    hit b counter .y = decide (b.steps .y ≠ overflowSteps) ∧
      traced b counter .y = level b := by
  have hrange := h.steps
  have hcount := h.count
  unfold traced hit level
  unfold overflowSteps at hrange hcount ⊢
  rw [hc, hcount]
  by_cases hover : b.steps .y = 2147483648
  · rw [hover]
    decide
  · rw [if_neg hover]
    have hsum : int32 (-(b.steps .y / 2) + b.steps .y) =
        -(b.steps .y / 2) + b.steps .y :=
      int32_of_range (by omega) (by omega)
    have hback : int32 (-(b.steps .y / 2) + b.steps .y - b.steps .y) =
        -(b.steps .y / 2) := by
      rw [add_sub_cancel_right]
      exact int32_of_range (by omega) (by omega)
    rw [hsum, hback, if_pos (decide_eq_true (by omega))]
    exact ⟨decide_eq_decide.2 (iff_of_true (by omega) hover), rfl⟩

/-- Each event but the first finds the counter at its level, and steps. -/
theorem Seen.later (h : Seen cfg pAction pl b) {counter : Axis → Int}
    (hc : counter .y = level b) :
    hit b counter .y = true ∧ traced b counter .y = level b := by
  have hrange := h.steps
  have hcount := h.count
  unfold traced hit
  unfold level at hc ⊢
  unfold overflowSteps at hrange hcount
  rw [hc, hcount]
  by_cases hover : b.steps .y = 2147483648
  · rw [hover]
    decide
  · rw [if_neg hover]
    have hsum : int32 (-(b.steps .y / 2) + b.steps .y) =
        -(b.steps .y / 2) + b.steps .y :=
      int32_of_range (by omega) (by omega)
    have hback : int32 (-(b.steps .y / 2) + b.steps .y - b.steps .y) =
        -(b.steps .y / 2) := by
      rw [add_sub_cancel_right]
      exact int32_of_range (by omega) (by omega)
    have hpos : decide (0 < -(b.steps .y / 2) + b.steps .y) = true :=
      decide_eq_true (by omega)
    rw [hsum, hback, hpos, if_pos rfl]
    exact ⟨rfl, rfl⟩

theorem Seen.target_ne (h : Seen cfg pAction pl b)
    (hb : IsHoming cfg pAction pl b) :
    targetSteps cfg pAction.target .y ≠ pl.position .y := by
  intro heq
  have hsteps : b.steps .y = 0 := by
    have hfix : b.fixed.steps = (newBlock cfg pAction pl).fixed.steps := by
      rw [hb.block]
    have hy := congrFun hfix .y
    have hnew := congrFun (@newBlock_motion R _ _ _ _ cfg pAction pl).2.2.1 .y
    exact hy.trans (hnew.trans (moveSteps_zero heq))
  have hpos := h.steps.1
  omega

/-- The switch ends the move on the wrong side: when it leaves the home
side. -/
theorem endstopHit_iff (h : IsHoming cfg pAction pl b) {inp : StInputs}
    {pressed : Bool}
    (hinp : ∀ dir, inp.hitHomeStop .y dir = hitHomeStopY cfg pressed dir) :
    endstopHit inp b.directionBits b = true ↔
      pressed = true ∧ ¬Toward cfg pAction pl := by
  have hseen := h.seen
  have hne := hseen.target_ne h
  have hpos := hseen.steps.1
  have hx := hseen.only .x (by decide)
  have hz := hseen.only .z (by decide)
  have hy : decide (b.steps .y ≠ 0) = true := decide_eq_true (by omega)
  have hdir : decide (b.directionBits &&& dirPin .y ≠ 0) =
      decide (targetSteps cfg pAction.target .y < pl.position .y) :=
    decide_eq_decide.2 hseen.direction
  have hhit : endstopHit inp b.directionBits b =
      hitHomeStopY cfg pressed
        (decide (targetSteps cfg pAction.target .y < pl.position .y)) := by
    rw [endstopHit, ← hinp, ← hdir]
    simp only [List.any_cons, List.any_nil, hx, hz, hy, ne_eq, not_true,
      decide_false, Bool.false_and, Bool.or_false, Bool.false_or,
      Bool.true_and]
  rw [hhit]
  unfold hitHomeStopY Toward
  split
  · simp
  · simp only [Bool.and_eq_true, decide_eq_true_eq]
    constructor
    · rintro ⟨hpressed, hlt⟩
      exact ⟨hpressed, by omega⟩
    · rintro ⟨hpressed, hnot⟩
      exact ⟨hpressed, by omega⟩

end Block

/-! ## Serving the block -/

/-- The steps of the request on Y. -/
def homeSteps (cfg : Configuration R) (pAction : ActionRequest R)
    (pl : Planner R) : Int :=
  moveSteps (targetSteps cfg pAction.target) pl.position .y

/-- The pulses of event `n` of a move of `steps` steps. -/
def pulse (steps : Int) (n : Nat) : Int :=
  if n = 0 ∧ steps = overflowSteps then 0 else 1

/-- The tracing of Y before event `n`. -/
def OnTrack (b : Block R) (n : Nat) (m : Machine R) : Prop :=
  if n = 0 then m.stepper.currentBlock = none
  else m.stepper.currentBlock ≠ none ∧ m.stepper.counter .y = level b ∧
    m.stepper.directionBits = b.directionBits

/-- The machine before event `n` of the homing block. -/
structure Homing (cfg : Configuration R) (pAction : ActionRequest R)
    (pl : Planner R) (n : Nat) (m : Machine R) : Prop where
  ready : Ready m
  oldest : ∃ b bs, m.planner.queue = b :: bs ∧ IsHoming cfg pAction pl b ∧
    OnTrack b n m
  done : doneEvents m = n

section Serve

variable {cfg : Configuration R} {pAction : ActionRequest R} {pl : Planner R}
  {m : Machine R} {n : Nat}

/-- The block of a homing move has as many steps along Y as its request asks for. -/
theorem IsHoming.homeSteps {b : Block R} (h : IsHoming cfg pAction pl b) :
    b.steps .y = homeSteps cfg pAction pl := by
  have hfix : b.fixed.steps = (newBlock cfg pAction pl).fixed.steps := by
    rw [h.block]
  exact (congrFun hfix .y).trans
    (congrFun (@newBlock_motion R _ _ _ _ cfg pAction pl).2.2.1 .y)

/-- The tracing of Y when event `n` is served. -/
theorem OnTrack.pop {b : Block R} {bs : List (Block R)} (h : OnTrack b n m)
    (hready : Ready m) (hq : m.planner.queue = b :: bs)
    (hb : IsHoming cfg pAction pl b) :
    (popBlock m).stepper.directionBits = b.directionBits ∧
      hit b (popBlock m).stepper.counter .y =
        decide (pulse (homeSteps cfg pAction pl) n = 1) ∧
      traced b (popBlock m).stepper.counter .y = level b := by
  have hseen := hb.seen
  have hsteps := hb.homeSteps
  obtain ⟨-, hbuf, -⟩ := popBlock_serves hready hq
  unfold OnTrack at h
  unfold pulse
  split at h
  · next hn =>
    have hne : m.planner.blockBufferHead ≠ m.planner.blockBufferTail := by
      intro heq
      rw [hready.wf.queue_eq_nil.2 heq] at hq
      exact absurd hq (by simp)
    have hget : planGetCurrentBlock m.planner =
        some m.planner.blockBufferTail := by
      rw [planGetCurrentBlock, if_neg hne]
    have hload := popBlock_load h hget
    have hcounter : (popBlock m).stepper.counter .y =
        -(b.stepEventCount / 2) := by
      rw [hload, ← hbuf]
      rfl
    obtain ⟨hhit, htraced⟩ := hseen.first hcounter
    refine ⟨?_, ?_, htraced⟩
    · rw [hload, ← hbuf]
      rfl
    · rw [hhit, hsteps, decide_eq_decide]
      by_cases hover : homeSteps cfg pAction pl = overflowSteps <;>
        simp [hn, hover]
  · next hn =>
    obtain ⟨hcur, hcounter, hdir⟩ := h
    obtain ⟨i, hi⟩ := Option.ne_none_iff_exists'.1 hcur
    rw [popBlock_some hi]
    obtain ⟨hhit, htraced⟩ := hseen.later hcounter
    refine ⟨hdir, ?_, htraced⟩
    rw [hhit, if_neg (fun hboth => hn hboth.1)]
    rfl

/-- One interrupt that serves the block: an endstop ends it without a pulse, or
the event is done, and it was the last one or the block goes on. -/
theorem Homing.interrupt (h : Homing cfg pAction pl n m) {inp : StInputs}
    {pressed : Bool}
    (hinp : ∀ dir, inp.hitHomeStop .y dir = hitHomeStopY cfg pressed dir) :
    let steps := homeSteps cfg pAction pl
    let m' := stInterrupt inp m
    let p := yPulses m'.gpio - yPulses m.gpio
    (n : Int) < steps ∧
      ((pressed = true ∧ ¬Toward cfg pAction pl ∧ p = 0 ∧
          m'.planner = planDiscardCurrentBlock m.planner) ∨
        ((pressed = true → Toward cfg pAction pl) ∧ p = pulse steps n ∧
          ((m'.planner = planDiscardCurrentBlock m.planner ∧
              (n : Int) + 1 = steps) ∨
            (m'.planner = m.planner ∧ Homing cfg pAction pl (n + 1) m')))) := by
  obtain ⟨hready, ⟨b, bs, hq, hb, htrack⟩, hdone⟩ := h
  intro steps m' p
  have hseen := hb.seen
  have hkind := hseen.kind
  have hevents : eventCount b = steps := hseen.eventCount.trans hb.homeSteps
  obtain ⟨hdir, hhit, htraced⟩ := htrack.pop hready hq hb
  obtain ⟨hpulse, hnext⟩ := stInterrupt_traced inp hready hq hkind
  have htrunc : truncates inp m = true ↔
      pressed = true ∧ ¬Toward cfg pAction pl := by
    rw [← endstopHit_iff hb hinp, truncates, hq, hdir]
    simp [hkind, hseen.ends]
  have hlt := hready.progress.2 b bs hq hkind
  rw [hdone, hevents] at hlt
  refine ⟨hlt, ?_⟩
  have hp : p = if truncates inp m = true then 0 else pulse steps n := by
    show yPulses m'.gpio - yPulses m.gpio = _
    rw [hpulse, hhit, add_sub_cancel_left]
    cases truncates inp m with
    | true => simp
    | false =>
        unfold pulse
        by_cases hover : n = 0 ∧ homeSteps cfg pAction pl = overflowSteps
        · simp [hover, steps]
        · simp [hover, steps]
  have hcases := stInterrupt_cases inp hready hq
  cases hcut : truncates inp m with
  | true =>
      obtain ⟨hpressed, haway⟩ := htrunc.1 hcut
      rw [if_pos hcut] at hp
      rcases hcases with hon | hover
      · rw [(hon.move hkind).1] at hcut
        exact absurd hcut (by simp)
      · exact .inl ⟨hpressed, haway, hp, hover.planner⟩
  | false =>
      rw [if_neg (by simp [hcut])] at hp
      have hpressed : pressed = true → Toward cfg pAction pl := by
        intro hpressed
        by_contra haway
        rw [htrunc.2 ⟨hpressed, haway⟩] at hcut
        exact absurd hcut (by simp)
      refine .inr ⟨hpressed, hp, ?_⟩
      rcases hcases with hon | hover
      · have hcur : m'.stepper.currentBlock ≠ none := by
          rw [hon.current]
          simp
        obtain ⟨hcounter, hbits⟩ := hnext hcur
        refine .inr ⟨hon.planner, hready.interrupt inp, ?_, ?_⟩
        · refine ⟨b, bs, ?_, hb, ?_⟩
          · rw [hon.planner, hq]
          · rw [OnTrack, if_neg (Nat.succ_ne_zero n)]
            exact ⟨hcur, (congrFun hcounter .y).trans htraced,
              hbits.trans hdir⟩
        · rw [doneEvents, hon.current]
          show m'.stepper.stepEventsCompleted = _
          rw [hon.done, hdone, if_pos hkind]
          push_cast
          rfl
      · refine .inl ⟨hover.planner, ?_⟩
        rcases hover.move hkind with htrue | hend
        · rw [hcut] at htrue
          exact absurd htrue (by simp)
        · rw [← hdone, hend, hevents]

/-- Blocks may be appended, and their speeds replanned. -/
theorem Homing.extend {m' : Machine R} {new : List (Block R)}
    (h : Homing cfg pAction pl n m) (hready : Ready m')
    (hqueue : m'.planner.queue.map Block.fixed =
      m.planner.queue.map Block.fixed ++ new)
    (htracing : m'.stepper.tracing = m.stepper.tracing)
    (hdir : m'.stepper.directionBits = m.stepper.directionBits) :
    Homing cfg pAction pl n m' := by
  obtain ⟨-, ⟨b, bs, hq, hb, htrack⟩, hdone⟩ := h
  rw [hq, List.map_cons, List.cons_append] at hqueue
  obtain ⟨c, cs, hq', hc, -⟩ := List.map_eq_cons_iff.1 hqueue
  have hlevel : level c = level b := by
    show level c.fixed = level b.fixed
    rw [hc]
  have hbits : c.directionBits = b.directionBits := by
    show c.fixed.directionBits = b.fixed.directionBits
    rw [hc]
  refine ⟨hready, ⟨c, cs, hq', hb.of_fixed hc, ?_⟩, ?_⟩
  · simp only [StepperState.tracing, Prod.mk.injEq] at htracing
    unfold OnTrack at htrack ⊢
    rw [htracing.1, htracing.2.1, hdir, hlevel, hbits]
    exact htrack
  · rw [doneEvents_of_tracing htracing, hdone]

end Serve

/-! ## Runs -/

/-- From the machine in which the homing block is the next to be taken up: for
every interrupt that serves it, in order, what the switch reads and the number
of pulses on Y.  In between, new requests are queued, and anything else may
happen that leaves the ring and the tracing alone. -/
inductive HomingRun (cfg : Configuration R) (m₀ : Machine R) :
    List (Bool × Int) → Machine R → Prop
  | start : HomingRun cfg m₀ [] m₀
  | interrupt {hist : List (Bool × Int)} {m : Machine R} (inp : StInputs)
      (pressed : Bool) : HomingRun cfg m₀ hist m →
      m.planner.blockBufferTail = m₀.planner.blockBufferTail →
      (∀ dir, inp.hitHomeStop .y dir = hitHomeStopY cfg pressed dir) →
      HomingRun cfg m₀
        (hist ++
          [(pressed, yPulses (stInterrupt inp m).gpio - yPulses m.gpio)])
        (stInterrupt inp m)
  | request {hist : List (Bool × Int)} {m : Machine R}
      (pAction : ActionRequest R) : HomingRun cfg m₀ hist m →
      planQueueFull m.planner = false →
      HomingRun cfg m₀ hist (bufferAction pAction m)
  | other {hist : List (Bool × Int)} {m m' : Machine R} :
      HomingRun cfg m₀ hist m →
      m'.planner.blockBuffer = m.planner.blockBuffer →
      m'.planner.blockBufferHead = m.planner.blockBufferHead →
      m'.planner.blockBufferTail = m.planner.blockBufferTail →
      m'.stepper.tracing = m.stepper.tracing →
      m'.stepper.directionBits = m.stepper.directionBits →
      HomingRun cfg m₀ hist m'

/-- The pulses of the first `n` events. -/
def served (steps : Int) (n : Nat) : List Int := (List.range n).map (pulse steps)

/-- Every event so far was done; the switch was ignored. -/
def Ignored (toward : Prop) (steps : Int) (hist : List (Bool × Int)) : Prop :=
  hist.map Prod.snd = served steps hist.length ∧
    ∀ x ∈ hist, x.1 = true → toward

/-- The history of a homing block that is over: all its events were done, or the
switch ended it. -/
inductive Finished (toward : Prop) (steps : Int) : List (Bool × Int) → Prop
  | ran {hist : List (Bool × Int)} : Ignored toward steps hist →
      (hist.length : Int) = steps → Finished toward steps hist
  | stopped {hist : List (Bool × Int)} : Ignored toward steps hist →
      (hist.length : Int) < steps → ¬toward →
      Finished toward steps (hist ++ [(true, 0)])

/-- The homing block is still pending, or it is over. -/
inductive Progress (cfg : Configuration R) (pAction : ActionRequest R)
    (pl : Planner R) (tail : Nat) (hist : List (Bool × Int)) (m : Machine R) :
    Prop
  | underway : m.planner.blockBufferTail = tail →
      Homing cfg pAction pl hist.length m →
      Ignored (Toward cfg pAction pl) (homeSteps cfg pAction pl) hist →
      Progress cfg pAction pl tail hist m
  | ended : m.planner.blockBufferTail ≠ tail → Ready m →
      Finished (Toward cfg pAction pl) (homeSteps cfg pAction pl) hist →
      Progress cfg pAction pl tail hist m

section Run

variable {cfg : Configuration R} {pAction : ActionRequest R} {pl : Planner R}
  {m₀ m m' : Machine R} {tail : Nat} {hist : List (Bool × Int)}

/-- A switch that is pressed towards the endstop stays ignored with one more interrupt.
-/
theorem Ignored.snoc {toward : Prop} {steps : Int} {pressed : Bool}
    (h : Ignored toward steps hist) (hpressed : pressed = true → toward) :
    Ignored toward steps (hist ++ [(pressed, pulse steps hist.length)]) := by
  obtain ⟨hpulses, hread⟩ := h
  constructor
  · rw [List.map_append, hpulses, List.length_append, served, served,
      List.length_singleton, List.range_succ, List.map_append]
    rfl
  · intro x hx
    rcases List.mem_append.1 hx with hold | hnew
    · exact hread x hold
    · rw [List.mem_singleton.1 hnew]
      exact hpressed

/-- Taking a block off a queue that is not empty moves the tail. -/
theorem planDiscardCurrentBlock_tail_ne {pl : Planner R} (h : pl.WF)
    (hne : pl.blockBufferHead ≠ pl.blockBufferTail) :
    (planDiscardCurrentBlock pl).blockBufferTail ≠ pl.blockBufferTail := by
  have hlt := h.tail_lt
  rw [planDiscardCurrentBlock, if_pos hne]
  show nextBlockIndex pl.blockBufferTail ≠ _
  unfold nextBlockIndex Ring.next
  unfold blockBufferSize at hlt ⊢
  split <;> omega

/-- One interrupt that leaves the block in the queue extends the record of the move by
what it saw and pulsed. -/
theorem Progress.interrupt (h : Progress cfg pAction pl tail hist m)
    (htail : m.planner.blockBufferTail = tail) {inp : StInputs} {pressed : Bool}
    (hinp : ∀ dir, inp.hitHomeStop .y dir = hitHomeStopY cfg pressed dir) :
    Progress cfg pAction pl tail
      (hist ++ [(pressed, yPulses (stInterrupt inp m).gpio - yPulses m.gpio)])
      (stInterrupt inp m) := by
  cases h with
  | ended hne _ _ => exact absurd htail hne
  | underway _ hhoming hignored =>
      have hready := hhoming.ready.interrupt inp
      have hne : m.planner.blockBufferHead ≠ m.planner.blockBufferTail := by
        obtain ⟨b, bs, hq, -⟩ := hhoming.oldest
        intro heq
        rw [hhoming.ready.wf.queue_eq_nil.2 heq] at hq
        exact absurd hq (by simp)
      have hmoved := planDiscardCurrentBlock_tail_ne hhoming.ready.wf hne
      rw [htail] at hmoved
      obtain ⟨hlt, hcases⟩ := hhoming.interrupt hinp
      rcases hcases with ⟨rfl, haway, hp, hplan⟩ | ⟨hpressed, hp, hcases⟩
      · rw [hp]
        refine .ended ?_ hready (.stopped hignored hlt haway)
        rw [hplan]
        exact hmoved
      · rw [hp]
        have hsnoc := hignored.snoc hpressed
        rcases hcases with ⟨hplan, hlast⟩ | ⟨hplan, hnext⟩
        · refine .ended ?_ hready (.ran hsnoc ?_)
          · rw [hplan]
            exact hmoved
          · rw [List.length_append, List.length_singleton]
            push_cast
            exact hlast
        · refine .underway ?_ ?_ hsnoc
          · rw [hplan, htail]
          · rw [List.length_append]
            exact hnext

theorem Progress.extend {new : List (Block R)}
    (h : Progress cfg pAction pl tail hist m) (hready : Ready m → Ready m')
    (htail : m'.planner.blockBufferTail = m.planner.blockBufferTail)
    (hqueue : m'.planner.queue.map Block.fixed =
      m.planner.queue.map Block.fixed ++ new)
    (htracing : m'.stepper.tracing = m.stepper.tracing)
    (hdir : m'.stepper.directionBits = m.stepper.directionBits) :
    Progress cfg pAction pl tail hist m' := by
  cases h with
  | underway htail₀ hhoming hignored =>
      exact .underway (htail.trans htail₀)
        (hhoming.extend (hready hhoming.ready) hqueue htracing hdir) hignored
  | ended hne hready₀ hfin => exact .ended (htail ▸ hne) (hready hready₀) hfin

theorem Progress.ready (h : Progress cfg pAction pl tail hist m) : Ready m := by
  cases h with
  | underway _ hhoming _ => exact hhoming.ready
  | ended _ hready _ => exact hready

theorem bufferAction_direction (pAction : ActionRequest R) (m : Machine R) :
    (bufferAction pAction m).stepper.directionBits =
      m.stepper.directionBits := by
  unfold bufferAction
  dsimp only
  split <;> rfl

/-- In every run of interrupts and further requests the record accounts for the move, as
long as it is the first block. -/
theorem HomingRun.progress (h₀ : Homing cfg pAction pl 0 m₀)
    (h : HomingRun cfg m₀ hist m) :
    Progress cfg pAction pl m₀.planner.blockBufferTail hist m := by
  induction h with
  | start =>
      exact .underway rfl h₀ ⟨rfl, by simp⟩
  | interrupt inp pressed _ htail hinp ih => exact ih.interrupt htail hinp
  | @request hist m pAction _ hroom ih =>
      obtain ⟨-, htail, hqueue⟩ :=
        bufferAction_requested pAction ih.ready.wf hroom
      exact ih.extend (fun hready => hready.request pAction hroom) htail hqueue
        (bufferAction_tracing pAction m) (bufferAction_direction pAction m)
  | @other hist m m' _ hbuf hhead htail htracing hdir ih =>
      have hqueue : m'.planner.queue.map Block.fixed =
          m.planner.queue.map Block.fixed ++ [] := by
        rw [Planner.queue, Planner.queue, hbuf, hhead, htail, List.append_nil]
      exact ih.extend
        (fun hready => hready.other hbuf hhead htail htracing) htail hqueue
        htracing hdir

end Run

/-! ## What homing should do -/

/-- The history of a homing block that does what it should.  Towards the home
side there is no pulse from the first interrupt on in which the switch is
closed, and that interrupt is the last one; away from the home side every step
is made. -/
def Homes (toward : Prop) (steps : Int) (hist : List (Bool × Int)) : Prop :=
  (toward → ∀ pre p post, hist = pre ++ (true, p) :: post →
      (∀ x ∈ pre, x.1 = false) → p = 0 ∧ post = []) ∧
    (¬toward → (hist.map Prod.snd).sum = steps)

section Correct

variable {toward : Prop} {steps : Int} {hist : List (Bool × Int)}

/-- The pulses of a move are as many as its events; the longest move loses its first
one. -/
theorem served_sum (steps : Int) (n : Nat) :
    (served steps n).sum =
      if n ≠ 0 ∧ steps = overflowSteps then (n : Int) - 1 else n := by
  induction n with
  | zero => rfl
  | succ n ih =>
      rw [served, List.range_succ, List.map_append, List.sum_append]
      change (served steps n).sum + _ = _
      rw [ih, List.map_singleton, List.sum_singleton, pulse]
      push_cast
      by_cases hn : n = 0 <;> by_cases hover : steps = overflowSteps <;>
        simp [hn, hover]

/-- The pulses in the interrupt at which the switch closes. -/
theorem Ignored.pulse_at {pre post : List (Bool × Int)} {x : Bool × Int}
    (h : Ignored toward steps (pre ++ x :: post)) :
    x.2 = pulse steps pre.length := by
  have hat := congrArg (fun l => l[pre.length]?) h.1
  simpa [served] using hat

/-- All events done, towards the home side: the switch was never closed. -/
theorem homes_toward (htoward : toward) (h : Ignored toward steps hist)
    (hlen : (hist.length : Int) = steps) :
    Homes toward steps hist ↔ ∀ x ∈ hist, x.1 = false := by
  constructor
  · rintro ⟨hstop, -⟩
    by_contra hsome
    have hfind : (hist.find? Prod.fst).isSome := by
      rw [List.find?_isSome]
      push Not at hsome
      obtain ⟨x, hx, hpressed⟩ := hsome
      exact ⟨x, hx, by simpa using hpressed⟩
    obtain ⟨⟨pressed, p⟩, hfirst⟩ := Option.isSome_iff_exists.1 hfind
    obtain ⟨hpressed, pre, post, rfl, hpre⟩ :=
      List.find?_eq_some_iff_append.1 hfirst
    have hpressed : pressed = true := hpressed
    subst hpressed
    obtain ⟨hp, rfl⟩ := hstop htoward pre p post rfl
      (fun x hx => by simpa using hpre x hx)
    have hpulse := h.pulse_at
    rw [hp] at hpulse
    unfold pulse at hpulse
    split at hpulse
    · next hover =>
      -- the one event without a pulse is the first of `2 ^ 31`
      rw [List.length_append, hover.1, hover.2, List.length_singleton] at hlen
      exact absurd hlen (by decide)
    · exact absurd hpulse (by decide)
  · intro hopen
    refine ⟨?_, fun haway => absurd htoward haway⟩
    rintro _ pre p post rfl -
    exact absurd (hopen (true, p) (by simp)) (by simp)

/-- All events done, away from the home side: every event has its pulse, unless
`labs` has overflowed. -/
theorem homes_away (haway : ¬toward) (h : Ignored toward steps hist)
    (hlen : (hist.length : Int) = steps) (hpos : 0 < steps) :
    Homes toward steps hist ↔ steps ≠ overflowSteps := by
  have hne : hist.length ≠ 0 := by omega
  have hsum : (hist.map Prod.snd).sum =
      if steps = overflowSteps then steps - 1 else steps := by
    rw [h.1, served_sum]
    simp only [hne, ne_eq, not_false_eq_true, true_and, hlen]
  constructor
  · rintro ⟨-, hall⟩ hover
    have hall := hall haway
    rw [hsum, if_pos hover] at hall
    omega
  · intro hover
    refine ⟨fun htoward => absurd htoward haway, fun _ => ?_⟩
    rw [hsum, if_neg hover]

/-- A finished move does what homing asks for exactly if the switch was never seen
pressed, and a move away from it is not the longest there is. -/
theorem Finished.homes_iff (h : Finished toward steps hist)
    (hpos : 0 < steps) :
    Homes toward steps hist ↔
      (∀ x ∈ hist, x.1 = false) ∧ (¬toward → steps ≠ overflowSteps) := by
  cases h with
  | ran hignored hlen =>
      by_cases htoward : toward
      · rw [homes_toward htoward hignored hlen]
        exact ⟨fun hopen => ⟨hopen, fun haway => absurd htoward haway⟩,
          fun hboth => hboth.1⟩
      · have hopen : ∀ x ∈ hist, x.1 = false := by
          intro x hx
          by_contra hpressed
          exact htoward (hignored.2 x hx (by simpa using hpressed))
        rw [homes_away htoward hignored hlen hpos]
        exact ⟨fun hover => ⟨hopen, fun _ => hover⟩,
          fun hboth => hboth.2 htoward⟩
  | @stopped hist hignored hlt haway =>
      refine iff_of_false ?_ ?_
      · rintro ⟨-, hall⟩
        have hall := hall haway
        rw [List.map_append, List.sum_append, hignored.1, served_sum] at hall
        simp only [List.map_cons, List.map_nil, List.sum_cons, List.sum_nil,
          add_zero] at hall
        split at hall <;> omega
      · rintro ⟨hopen, -⟩
        exact absurd (hopen (true, 0) (by simp)) (by simp)

end Correct

/-- The block of an accepted homing request is the newest pending one. -/
theorem isHoming_request {m : Machine R} {pAction : ActionRequest R}
    (hwf : m.planner.WF) (hroom : planQueueFull m.planner = false)
    (hkind : pAction.actionType = .moveEndstop)
    (honly : ∀ a, a ≠ .y →
      targetSteps m.config pAction.target a = m.planner.position a)
    (hmoves : zeroLength m.config pAction m.planner = false) :
    ∃ old b, (bufferAction pAction m).planner.queue = old ++ [b] ∧
      old.map Block.fixed = m.planner.queue.map Block.fixed ∧
      IsHoming m.config pAction m.planner b := by
  obtain ⟨-, -, hqueue⟩ := bufferAction_requested pAction hwf hroom
  have hacc : acceptedBy pAction m =
      [(newBlock m.config pAction m.planner).fixed] := by
    rw [acceptedBy, hkind]
    dsimp only
    rw [hmoves, if_neg Bool.false_ne_true]
  rw [hacc, List.map_eq_append_iff] at hqueue
  obtain ⟨old, new, hq, hold, hnew⟩ := hqueue
  obtain ⟨b, rfl, hb⟩ := List.map_eq_singleton_iff.1 hnew
  exact ⟨old, b, hq, hold, hkind, honly, hmoves, hb⟩

/-- A homing block that moves Y only takes at most as many interrupts as it has
steps.  When it is over it has done what it should exactly if the switch was
open in every interrupt that served it and, away from the home side, the number
of steps fits `labs`. -/
theorem homing_iff {cfg : Configuration R} {pAction : ActionRequest R}
    {pl : Planner R} {m₀ m : Machine R} {b : Block R} {bs : List (Block R)}
    {hist : List (Bool × Int)} (h : MachineRun m₀)
    (hidle : m₀.stepper.currentBlock = none)
    (hq : m₀.planner.queue = b :: bs) (hb : IsHoming cfg pAction pl b)
    (hrun : HomingRun cfg m₀ hist m) :
    (m.planner.blockBufferTail = m₀.planner.blockBufferTail →
        (hist.length : Int) < b.steps .y) ∧
      (m.planner.blockBufferTail ≠ m₀.planner.blockBufferTail →
        (Homes (Toward cfg pAction pl) (b.steps .y) hist ↔
          (∀ x ∈ hist, x.1 = false) ∧
            (¬Toward cfg pAction pl → b.steps .y ≠ overflowSteps))) := by
  have hstart : Homing cfg pAction pl 0 m₀ :=
    ⟨h.ready, ⟨b, bs, hq, hb, hidle⟩, by rw [doneEvents, hidle]; rfl⟩
  have hsteps := hb.homeSteps
  have hpos := hb.seen.steps.1
  rw [hsteps] at hpos ⊢
  cases hrun.progress hstart with
  | underway htail hhoming _ =>
      refine ⟨fun _ => ?_, fun hne => absurd htail hne⟩
      obtain ⟨c, cs, hqc, hc, -⟩ := hhoming.oldest
      have hlt := hhoming.ready.progress.2 c cs hqc hc.seen.kind
      rw [hhoming.done, hc.seen.eventCount, hc.homeSteps] at hlt
      exact hlt
  | ended hne _ hfin =>
      exact ⟨fun htail => absurd htail hne, fun _ => hfin.homes_iff hpos⟩

end Homing

/-! ## Two steps towards the home side -/

/-- Two steps backwards, which is where the default configuration has its home
side. -/
def homeY : ActionRequest ℚ := ⟨.moveEndstop, ⟨0, -1 / 40, 0, 0, 600, false⟩⟩

/-- The machine before the request. -/
def powerUp : Machine ℚ := Machine.start .default

/-- The machine at power up with a homing move of Y in its queue. -/
def homingQueued : Machine ℚ := bufferAction homeY powerUp

/-- The Y switch, and nothing else. -/
def switchReads (pressed : Bool) : StInputs where
  tempAchieved := false
  hitHomeStop
    | .y, dir => hitHomeStopY (Configuration.default (R := ℚ)) pressed dir
    | _, _ => false

private theorem homingQueued_run : MachineRun homingQueued :=
  (MachineRun.init powerUp .zero rfl rfl rfl).request homeY rfl

private theorem homingQueued_idle :
    homingQueued.stepper.currentBlock = none := by decide +kernel

private theorem homingQueued_block :
    ∃ b, homingQueued.planner.queue = [b] ∧
      IsHoming .default homeY powerUp.planner b := by
  have hwf : powerUp.planner.WF :=
    (MachineRun.init powerUp .zero rfl rfl rfl).ready.wf
  obtain ⟨old, b, hq, hold, hb⟩ := isHoming_request hwf rfl rfl
    (by intro a _; cases a <;> first | contradiction | decide +kernel)
    (by decide +kernel : zeroLength _ homeY _ = false)
  have hnil : old = [] := List.map_eq_nil_iff.1 (hold.trans (by decide +kernel))
  rw [hnil] at hq
  exact ⟨b, hq, hb⟩

/-- Two interrupts that read the switch as given are a run of the homing move. -/
private theorem homing_run (p q : Bool) {x y : Int}
    (hx : yPulses (stInterrupt (switchReads p) homingQueued).gpio -
      yPulses homingQueued.gpio = x)
    (htail : (stInterrupt (switchReads p)
      homingQueued).planner.blockBufferTail =
        homingQueued.planner.blockBufferTail)
    (hy : yPulses (stInterrupt (switchReads q)
        (stInterrupt (switchReads p) homingQueued)).gpio -
      yPulses (stInterrupt (switchReads p) homingQueued).gpio = y) :
    HomingRun .default homingQueued [(p, x), (q, y)]
      (stInterrupt (switchReads q)
        (stInterrupt (switchReads p) homingQueued)) := by
  have hstart : HomingRun (.default (R := ℚ)) homingQueued [] homingQueued :=
    .start
  have hfirst := hstart.interrupt (switchReads p) p rfl (fun _ => rfl)
  have hsecond := hfirst.interrupt (switchReads q) q htail (fun _ => rfl)
  rw [hx, hy] at hsecond
  exact hsecond

/-- The switch is closed from the first interrupt on, and both steps are
made. -/
theorem homing_overruns :
    ∃ (b : Block ℚ) (m : Machine ℚ), MachineRun homingQueued ∧
      homingQueued.stepper.currentBlock = none ∧
      homingQueued.planner.queue = [b] ∧
      IsHoming .default homeY powerUp.planner b ∧
      Toward .default homeY powerUp.planner ∧
      HomingRun .default homingQueued [(true, 1), (true, 1)] m ∧
      m.planner.blockBufferTail ≠ homingQueued.planner.blockBufferTail ∧
      ¬Homes (Toward .default homeY powerUp.planner) (b.steps .y)
        [(true, 1), (true, 1)] := by
  obtain ⟨b, hq, hb⟩ := homingQueued_block
  have htoward : Toward .default homeY powerUp.planner := by
    show if _ then _ else _
    decide +kernel
  refine ⟨b, _, homingQueued_run, homingQueued_idle, hq, hb, htoward,
    homing_run true true (by decide +kernel) (by decide +kernel)
      (by decide +kernel), by decide +kernel, ?_⟩
  rintro ⟨hstop, -⟩
  exact absurd (hstop htoward [] 1 [(true, 1)] rfl (by simp)).1 (by decide)

/-- With the switch open the move does what it should. -/
theorem homing_iff_open :
    ∃ b, homingQueued.planner.queue = [b] ∧
      Homes (Toward .default homeY powerUp.planner) (b.steps .y)
        [(false, 1), (false, 1)] := by
  obtain ⟨b, hq, hb⟩ := homingQueued_block
  have hrun := homing_run false false (x := 1) (y := 1) (by decide +kernel)
    (by decide +kernel) (by decide +kernel)
  have hiff := homing_iff homingQueued_run homingQueued_idle hq hb hrun
  refine ⟨b, hq, (hiff.2 (by decide +kernel)).2 ⟨by simp, ?_⟩⟩
  intro _
  rw [hb.homeSteps]
  decide +kernel

end R2C2Firmware.Ports.YHoming
