import R2C2Firmware.Ports.Stepper

/-!
# Pulses

What the pin operations of `stepper.c` do to the trace.  A step event first
clears the pins it is about to set, so every axis whose Bresenham accumulator
passes zero produces exactly one rising edge, and no other axis produces one:
this is `stepEvent_spec`.  The pins that the LED display has left high, and the
direction pins, play no part in it.
-/

set_option linter.unusedSectionVars false

namespace R2C2Firmware.Ports.Stepper

open R2C2Firmware.Verified.Number
open R2C2Firmware.Ports.Config
open R2C2Firmware.Ports.MotionPlanner

variable {R : Type*}

/-! ## Pulses -/

/-- The number of rising edges on the step pin of an axis while its direction
pin was at the given level. -/
def Gpio.rises (g : Gpio) (a : Axis) (direction : Bool) : Int :=
  g.trace.count (.rise a direction)

/-- The net number of pulses of an axis. -/
def Gpio.netPulses (g : Gpio) (a : Axis) : Int :=
  g.rises a true - g.rises a false

/-- The number of pulses of an axis since the last hand-over of a block. -/
def Gpio.emitted (g : Gpio) (a : Axis) : Int :=
  let recent := g.trace.takeWhile (fun ev => ev != .load)
  recent.count (.rise a true) + recent.count (.rise a false)

/-! ## What the pin operations do to the trace -/

theorem level_set (port : Nat) (value : BitVec 32) (g : Gpio) (q b : Nat) :
    (gpioSetValue port value g).level q b =
      (g.level q b || (decide (q = port) && value.getLsbD b)) := by
  unfold Gpio.level gpioSetValue
  by_cases h : q = port
  · subst h
    simp
  · simp [h]

theorem level_clear (port : Nat) (value : BitVec 32) (g : Gpio) (q : Nat)
    {b : Nat} (hb : b < 32) :
    (gpioClearValue port value g).level q b =
      (g.level q b && !(decide (q = port) && value.getLsbD b)) := by
  unfold Gpio.level gpioClearValue
  by_cases h : q = port
  · subst h
    simp [hb]
  · simp [h]

theorem directionBit_lt (a : Axis) : directionBit a < 32 := by
  cases a <;> decide

theorem stepBit_lt (a : Axis) : stepBit a < 32 := by
  cases a <;> decide

/-- `g'` differs from `g` by pulses on the axes in `p`, one each. -/
structure Pulses (p : Axis → Bool) (g g' : Gpio) : Prop where
  direction : ∀ a, g'.direction a = g.direction a
  trace : ∃ evs, g'.trace = evs ++ g.trace ∧ PinEvent.load ∉ evs ∧
    ∀ a d, evs.count (.rise a d) = if p a && g.direction a == d then 1 else 0

/-- No pulse at all. -/
theorem Pulses.of_trace_eq {g g' : Gpio} (ht : g'.trace = g.trace)
    (hd : ∀ a, g'.direction a = g.direction a) :
    Pulses (fun _ => false) g g' :=
  ⟨hd, [], by simp [ht], by simp, by simp⟩

theorem Pulses.trans {p q : Axis → Bool} {g g' g'' : Gpio}
    (h : Pulses p g g') (h' : Pulses q g' g'')
    (hdisj : ∀ a, (p a && q a) = false) :
    Pulses (fun a => p a || q a) g g'' := by
  obtain ⟨evs, htrace, hload, hcount⟩ := h.trace
  obtain ⟨evs', htrace', hload', hcount'⟩ := h'.trace
  refine ⟨fun a => (h'.direction a).trans (h.direction a), evs' ++ evs, ?_, ?_,
    ?_⟩
  · rw [htrace', htrace, List.append_assoc]
  · simp [hload, hload']
  · intro a d
    have hpq := hdisj a
    rw [List.count_append, hcount, hcount', h.direction]
    revert hpq
    cases p a <;> cases q a <;> simp

theorem Pulses.congr {p q : Axis → Bool} {g g' : Gpio} (h : Pulses p g g')
    (hpq : ∀ a, p a = q a) : Pulses q g g' := by
  rw [← funext hpq]
  exact h

private theorem count_rise_filter (p dir : Axis → Bool) (a : Axis) (d : Bool) :
    ((Axis.all.filter p).map fun a => PinEvent.rise a (dir a)).count
        (.rise a d) = if p a && dir a == d then 1 else 0 := by
  unfold Axis.all
  cases hx : p .x <;> cases hy : p .y <;> cases hz : p .z <;>
    cases he : p .e <;> cases a <;>
    simp [hx, hy, hz, he, List.filter, List.count_cons]

/-- Setting pins other than direction pins pulses the step pins that were
low. -/
theorem gpioSetValue_pulses {port : Nat} {value : BitVec 32} (g : Gpio)
    (hdir : ∀ a, value.getLsbD (directionBit a) = false) :
    Pulses (fun a => stepPort a == port && value.getLsbD (stepBit a)
      && !g.level port (stepBit a)) g (gpioSetValue port value g) := by
  refine ⟨?_, (g.rising port value).map fun a => .rise a (g.direction a), rfl,
    by simp, fun a d => count_rise_filter _ _ a d⟩
  intro a
  unfold Gpio.direction
  rw [level_set, hdir]
  simp

/-- Clearing pins other than direction pins changes no pulse and no
direction. -/
theorem gpioClearValue_direction {port : Nat} {value : BitVec 32} (g : Gpio)
    (hdir : ∀ a, value.getLsbD (directionBit a) = false) (a : Axis) :
    (gpioClearValue port value g).direction a = g.direction a := by
  unfold Gpio.direction
  rw [level_clear _ _ _ _ (directionBit_lt a), hdir]
  simp

/-- The pulses show in the net count. -/
theorem Pulses.netPulses {p : Axis → Bool} {g g' : Gpio} (h : Pulses p g g')
    (a : Axis) :
    g'.netPulses a = g.netPulses a +
      if p a then (if g.direction a then 1 else -1) else 0 := by
  obtain ⟨evs, htrace, -, hcount⟩ := h.trace
  unfold Gpio.netPulses Gpio.rises
  rw [htrace, List.count_append, List.count_append, hcount, hcount]
  cases p a <;> cases g.direction a <;> simp <;> omega

/-- The pulses show in the count since the last hand-over. -/
theorem Pulses.emitted {p : Axis → Bool} {g g' : Gpio} (h : Pulses p g g')
    (a : Axis) : g'.emitted a = g.emitted a + if p a then 1 else 0 := by
  obtain ⟨evs, htrace, hload, hcount⟩ := h.trace
  have hkeep : ∀ ev ∈ evs, (ev != .load) = true := by
    intro ev hev
    rw [bne_iff_ne]
    rintro rfl
    exact hload hev
  unfold Gpio.emitted
  dsimp only
  rw [htrace, List.takeWhile_append_of_pos hkeep, List.count_append,
    List.count_append, hcount, hcount]
  cases p a <;> cases g.direction a <;> simp <;> omega

/-! ## Direction pins -/

theorem dirPin_step (a a' : Axis) :
    (dirPin a).getLsbD (stepBit a') = false := by
  cases a <;> cases a' <;> decide

/-- Two direction pins on one port are different pins. -/
theorem dirPin_direction (a a' : Axis) :
    (decide (dirPort a' = dirPort a) &&
      (dirPin a).getLsbD (directionBit a')) = decide (a' = a) := by
  cases a <;> cases a' <;> decide

theorem setDirectionPin_trace (bits : BitVec 32) (g : Gpio) (a : Axis) :
    (setDirectionPin bits g a).trace = g.trace := by
  unfold setDirectionPin
  split
  · rfl
  · simp [gpioSetValue, Gpio.rising, dirPin_step]

theorem setDirectionPin_direction (bits : BitVec 32) (g : Gpio) (a a' : Axis) :
    (setDirectionPin bits g a).direction a' =
      if a' = a then decide (bits &&& dirPin a = 0) else g.direction a' := by
  unfold setDirectionPin Gpio.direction
  by_cases hbit : bits &&& dirPin a = 0
  · rw [if_neg (not_not.2 hbit), level_set, dirPin_direction]
    by_cases ha : a' = a <;> simp [ha, hbit]
  · rw [if_pos hbit, level_clear _ _ _ _ (directionBit_lt a'),
      dirPin_direction, decide_eq_false hbit]
    by_cases ha : a' = a <;> simp [ha]

/-- After `set_direction_pins` every direction pin shows its direction bit, and
no step pin has moved. -/
theorem setDirectionPins_spec (bits : BitVec 32) (g : Gpio) :
    (setDirectionPins bits g).trace = g.trace ∧
      ∀ a, (setDirectionPins bits g).direction a =
        decide (bits &&& dirPin a = 0) := by
  simp only [setDirectionPins, Axis.all, List.foldl_cons, List.foldl_nil]
  refine ⟨by simp only [setDirectionPin_trace], ?_⟩
  intro a
  cases a <;> simp [setDirectionPin_direction]

/-! ## The Bresenham step -/

/-- The accumulator of an axis passes zero. -/
def hit (b : Block R) (counter : Axis → Int) (a : Axis) : Bool :=
  decide (0 < int32 (counter a + b.steps a))

/-- The accumulator of an axis after an event. -/
def traced (b : Block R) (counter : Axis → Int) (a : Axis) : Int :=
  if hit b counter a then
    int32 (int32 (counter a + b.steps a) - b.stepEventCount)
  else int32 (counter a + b.steps a)

/-- The step pin of an axis if its accumulator passes zero. -/
def pulseBit (b : Block R) (counter : Axis → Int) (a : Axis) : BitVec 32 :=
  if hit b counter a then stepPin a else 0

theorem traceAxis_eq (b : Block R) (s : StepperState) (a : Axis) :
    traceAxis b s a =
      { s with
        counter := a.set (traced b s.counter a) s.counter
        stepBitsE := s.stepBitsE |||
          if a = .e then pulseBit b s.counter a else 0
        stepBitsXyz := s.stepBitsXyz |||
          if a = .e then 0 else pulseBit b s.counter a } := by
  unfold traceAxis traced pulseBit hit
  by_cases ha : a = .e
  · subst ha
    by_cases hpos : int32 (s.counter .e + b.steps .e) > 0 <;> simp [hpos]
  · by_cases hpos : int32 (s.counter a + b.steps a) > 0 <;> simp [hpos, ha]

/-- The Bresenham step, all axes at once. -/
theorem traceAxes_eq (b : Block R) (s : StepperState) :
    traceAxes b s =
      { s with
        counter := traced b s.counter
        stepBitsE := pulseBit b s.counter .e
        stepBitsXyz := pulseBit b s.counter .x ||| pulseBit b s.counter .y |||
          pulseBit b s.counter .z } := by
  simp only [traceAxes, Axis.all, List.foldl_cons, List.foldl_nil,
    traceAxis_eq]
  congr 1
  all_goals
    simp [traced, pulseBit, hit, Axis.set]
  funext a
  cases a <;> simp [traced, hit]

theorem pulseBit_xyz_step (b : Block R) (c : Axis → Int) {a : Axis}
    (ha : stepPort a = 1) :
    (pulseBit b c .x ||| pulseBit b c .y ||| pulseBit b c .z).getLsbD
      (stepBit a) = hit b c a := by
  unfold pulseBit
  cases a with
  | e => exact absurd ha (by decide)
  | x | y | z =>
      cases hit b c .x <;> cases hit b c .y <;> cases hit b c .z <;> rfl

theorem stepPin_direction (a a' : Axis) :
    (stepPin a).getLsbD (directionBit a') = false := by
  cases a <;> cases a' <;> decide

theorem pulseBit_direction (b : Block R) (c : Axis → Int) (a a' : Axis) :
    (pulseBit b c a).getLsbD (directionBit a') = false := by
  unfold pulseBit
  split
  · exact stepPin_direction a a'
  · exact BitVec.getLsbD_zero

theorem gpioSetValue_zero (port : Nat) (g : Gpio) :
    gpioSetValue port 0 g = g := by
  obtain ⟨pins, trace⟩ := g
  simp [gpioSetValue, Gpio.rising]

theorem gpioClearValue_zero (port : Nat) (g : Gpio) :
    gpioClearValue port 0 g = g := by
  obtain ⟨pins, trace⟩ := g
  have hall : ∀ v : BitVec 32, v &&& ~~~0 = v := fun v => BitVec.and_allOnes
  simp only [gpioClearValue, hall, Function.update_eq_self]

theorem clearStepPins_eq (s : StepperState) (g : Gpio) :
    clearStepPins s g =
      gpioClearValue 0 s.stepBitsE (gpioClearValue 1 s.stepBitsXyz g) := by
  unfold clearStepPins
  dsimp only
  split
  · rfl
  · next he => rw [not_not.1 he, gpioClearValue_zero]

theorem setStepPins_gpio (m : Machine R) :
    (setStepPins m).gpio = gpioSetValue 0 m.stepper.stepBitsE
      (gpioSetValue 1 m.stepper.stepBitsXyz m.gpio) := by
  unfold setStepPins
  dsimp only
  split
  · rfl
  · next he => rw [not_not.1 he, gpioSetValue_zero]

/-- Clearing and then setting the traced pins pulses exactly the axes whose
accumulator passes zero, whatever the LEDs had left high. -/
theorem traced_pulses (b : Block R) (c : Axis → Int) (g : Gpio) :
    let e := pulseBit b c .e
    let xyz := pulseBit b c .x ||| pulseBit b c .y ||| pulseBit b c .z
    Pulses (hit b c) g (gpioSetValue 0 e (gpioSetValue 1 xyz
      (gpioClearValue 0 e (gpioClearValue 1 xyz g)))) := by
  intro e xyz
  have hxyzDir : ∀ a, xyz.getLsbD (directionBit a) = false := by
    intro a
    simp only [xyz, BitVec.getLsbD_or, pulseBit_direction, Bool.or_false]
  have heDir : ∀ a, e.getLsbD (directionBit a) = false :=
    pulseBit_direction b c .e
  have heStep : e.getLsbD (stepBit .e) = hit b c .e := by
    change (pulseBit b c .e).getLsbD _ = _
    unfold pulseBit
    cases hit b c .e <;> rfl
  set g₁ := gpioClearValue 0 e (gpioClearValue 1 xyz g) with hg₁
  have hclear : Pulses (fun _ => false) g g₁ := by
    refine Pulses.of_trace_eq rfl ?_
    intro a
    rw [hg₁, gpioClearValue_direction _ heDir,
      gpioClearValue_direction _ hxyzDir]
  refine ((hclear.trans (gpioSetValue_pulses g₁ hxyzDir) (by simp)).trans
    (gpioSetValue_pulses _ heDir) ?_).congr ?_
  · intro a
    cases a <;> simp [stepPort]
  · intro a
    by_cases ha : stepPort a = 1
    · rw [hg₁, level_clear _ _ _ _ (stepBit_lt a),
        level_clear _ _ _ _ (stepBit_lt a), pulseBit_xyz_step b c ha]
      cases hit b c a <;> simp [ha]
    · have hae : a = .e := by
        revert ha
        cases a <;> decide
      subst hae
      have hlow : g₁.level 0 (stepBit .e) =
          ((gpioClearValue 1 xyz g).level 0 (stepBit .e) && !hit b c .e) := by
        rw [hg₁, level_clear _ _ _ _ (stepBit_lt .e), heStep]
        simp
      rw [level_set, hlow, heStep]
      cases hit b c .e <;> simp [stepPort]

/-! ## Frames -/

/-- The part of the stepper state that says where the interrupt is in its
block. -/
def StepperState.tracing (s : StepperState) :
    Option Nat × (Axis → Int) × Int × Bool :=
  (s.currentBlock, s.counter, s.stepEventsCompleted, s.busy)

theorem countStep_tracing (bits : BitVec 32) (a : Axis) (s : StepperState) :
    (countStep bits a s).tracing = s.tracing := by
  unfold countStep
  split
  · unfold incLedCount
    dsimp only
    split <;> rfl
  · rfl

theorem setStepPins_frame (m : Machine R) :
    (setStepPins m).planner = m.planner ∧
      (setStepPins m).stepper.tracing = m.stepper.tracing := by
  unfold setStepPins
  dsimp only
  split <;> exact ⟨rfl, by simp only [countStep_tracing]⟩

/-- The trapezoid generator changes rates and the timer only. -/
theorem trapezoidTick_frame (b : Block R) (m : Machine R) :
    (trapezoidTick b m).planner = m.planner ∧
      (trapezoidTick b m).gpio = m.gpio ∧
      (trapezoidTick b m).stepper.tracing = m.stepper.tracing := by
  unfold trapezoidTick
  dsimp only
  split_ifs <;> exact ⟨rfl, rfl, rfl⟩

theorem clearAllStepPins_pulses (g : Gpio) :
    Pulses (fun _ => false) g (clearAllStepPins g) := by
  refine Pulses.of_trace_eq rfl ?_
  intro a
  unfold clearAllStepPins
  rw [gpioClearValue_direction _ (stepPin_direction .e),
    gpioClearValue_direction]
  intro a
  simp only [BitVec.getLsbD_or, stepPin_direction, Bool.or_false]

theorem clearStepPinsByState_pulses (s : StepperState) (g : Gpio) :
    Pulses (fun _ => false) g (clearStepPinsByState s g) := by
  have hpin : ∀ (c : Prop) [Decidable c] (a a' : Axis),
      (if c then stepPin a else 0).getLsbD (directionBit a') = false := by
    intro c _ a a'
    split
    · exact stepPin_direction a a'
    · exact BitVec.getLsbD_zero
  unfold clearStepPinsByState
  dsimp only
  refine Pulses.of_trace_eq ?_ ?_
  · split <;> rfl
  · intro a
    split
    · rw [gpioClearValue_direction _ (stepPin_direction .e),
        gpioClearValue_direction]
      intro a
      simp only [BitVec.getLsbD_or, hpin, Bool.or_false]
    · rw [gpioClearValue_direction]
      intro a
      simp only [BitVec.getLsbD_or, hpin, Bool.or_false]

/-! ## The step event -/

/-- A step event that does not end at an endstop. -/
theorem stepEvent_free (inp : StInputs) {b : Block R} (m : Machine R)
    (hfree : (b.checkEndstops && endstopHit inp m.stepper.directionBits b) = false) :
    (stepEvent inp b m).planner = m.planner ∧
      Pulses (hit b m.stepper.counter) m.gpio (stepEvent inp b m).gpio ∧
      (stepEvent inp b m).stepper.tracing =
        (m.stepper.currentBlock, traced b m.stepper.counter,
          uint32 (m.stepper.stepEventsCompleted + 1), m.stepper.busy) := by
  have hends : ∀ s, s.directionBits = m.stepper.directionBits →
      checkEndstops inp b s = s := by
    intro s hs
    rw [checkEndstops, hs, hfree]
    rfl
  unfold stepEvent
  dsimp only
  rw [traceAxes_eq, hends, clearStepPins_eq, setStepPins_gpio]
  · refine ⟨(setStepPins_frame _).1, traced_pulses _ _ _, ?_⟩
    rw [(setStepPins_frame _).2]
    rfl
  · rfl

/-- A step event of a move that does not look at the endstops. -/
theorem stepEvent_spec (inp : StInputs) {b : Block R} (m : Machine R)
    (hfree : b.checkEndstops = false) :
    (stepEvent inp b m).planner = m.planner ∧
      Pulses (hit b m.stepper.counter) m.gpio (stepEvent inp b m).gpio ∧
      (stepEvent inp b m).stepper.tracing =
        (m.stepper.currentBlock, traced b m.stepper.counter,
          uint32 (m.stepper.stepEventsCompleted + 1), m.stepper.busy) :=
  stepEvent_free inp m (by rw [hfree, Bool.false_and])

end R2C2Firmware.Ports.Stepper
