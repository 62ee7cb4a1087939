import R2C2Firmware.Ports.StepperConservation
import R2C2Firmware.Ports.StepperFrame

/-!
# Straight lines

From the load of a move on, every step event pulses the axes whose accumulators
pass zero.  At every event of the move, each axis is at most half a step away
from the straight line between its start and its end.

The interrupt is taken apart here: the first half loads a block if there is none,
the second half serves it, and the pins are settled.  Requests of the main program
and the other timers may come in between.

## Main results

* `Tracing.straight_line` — the deviation, and the range of the accumulators.
* `Tracing.interrupt` — a whole interrupt is one event.
-/

set_option linter.unusedSectionVars false

namespace R2C2Firmware.Ports.Stepper

open R2C2Firmware.Verified.Bresenham
open R2C2Firmware.Verified.Number
open R2C2Firmware.Ports.Config
open R2C2Firmware.Ports.MotionPlanner

variable {R : Type*} [Field R] [LinearOrder R] [HasSqrt R] [FloorRing R]

/-- No endstop ends the block in this event. -/
def Free (inp : StInputs) (b : Block R) (m : Machine R) : Prop :=
  (b.checkEndstops && endstopHit inp m.stepper.directionBits b) = false

/-- The machine after `k` step events of the move `b` in slot `i`, counted from its
load. -/
inductive Tracing (i : Nat) (b : Block R) : Nat → Machine R → Prop
  | load (m : Machine R) : m.stepper.currentBlock = none →
      planGetCurrentBlock m.planner = some i → m.planner.blockBuffer i = b →
      Tracing i b 0 (popBlock m)
  | event {k : Nat} {m : Machine R} (inp : StInputs) : Tracing i b k m →
      (k : Int) < b.stepEventCount → Free inp b m →
      Tracing i b (k + 1) (serveBlock inp m)
  | settle {k : Nat} {m : Machine R} : Tracing i b k m →
      Tracing i b k (settlePins m)
  | pop {k : Nat} {m : Machine R} : Tracing i b k m →
      (k : Int) < b.stepEventCount → Tracing i b k (popBlock m)
  | busy {k : Nat} {m : Machine R} (flag : Bool) : Tracing i b k m →
      Tracing i b k (setBusy flag m)
  | request {k : Nat} {m : Machine R} (pAction : ActionRequest R) :
      Tracing i b k m → planQueueFull m.planner = false →
      Tracing i b k (bufferAction pAction m)
  | leds {k : Nat} {m : Machine R} (ledOn : BitVec 8) (ledCount : Axis → Int)
      (ledsEnabled accelFlag : Bool) : Tracing i b k m →
      Tracing i b k { m with
        stepper := { m.stepper with ledOn, ledCount, ledsEnabled, accelFlag } }

/-- What the interrupt relies on in a move. -/
structure Line (b : Block R) : Prop where
  move : b.actionType = .move
  count : 1 ≤ b.stepEventCount ∧ b.stepEventCount < 2147483648
  steps : ∀ a, 0 ≤ b.steps a ∧ b.steps a ≤ b.stepEventCount

/-- The invariant.  The block stays in execution until its last event. -/
structure Traced (i : Nat) (b : Block R) (k : Nat) (m : Machine R) : Prop where
  accum : ∀ a, Accum b.stepEventCount (b.steps a) k (m.gpio.emitted a)
    (m.stepper.counter a)
  done : (k : Int) ≤ b.stepEventCount
  completed : m.stepper.stepEventsCompleted = k
  live : (k : Int) < b.stepEventCount → m.stepper.currentBlock = some i ∧
    m.planner.blockBufferTail = i ∧ m.planner.blockBufferHead ≠ i ∧
      (m.planner.blockBuffer i).fixed = b.fixed

variable {i k : Nat} {b : Block R} {m m' : Machine R}

/-- Whatever leaves the accumulators, the pulses and the block alone. -/
theorem Traced.of_frame (h : Traced i b k m)
    (hpulses : Pulses (fun _ => false) m.gpio m'.gpio)
    (hcounter : m'.stepper.counter = m.stepper.counter)
    (hdone : m'.stepper.stepEventsCompleted = m.stepper.stepEventsCompleted)
    (hcur : m'.stepper.currentBlock = m.stepper.currentBlock)
    (hpl : m'.planner = m.planner) : Traced i b k m' := by
  refine ⟨fun a => ?_, h.done, hdone.trans h.completed, ?_⟩
  · rw [hcounter, hpulses.emitted_none]
    exact h.accum a
  · rw [hcur, hpl]
    exact h.live

/-- Taking up the block leaves the trace at its start. -/
theorem Traced.load (hline : Line b) (hcur : m.stepper.currentBlock = none)
    (hget : planGetCurrentBlock m.planner = some i)
    (hb : m.planner.blockBuffer i = b) : Traced i b 0 (popBlock m) := by
  have hn := hline.count.1
  have hslot : m.planner.blockBufferTail = i ∧ m.planner.blockBufferHead ≠ i := by
    unfold planGetCurrentBlock at hget
    split at hget
    · exact absurd hget (by simp)
    · next hne =>
        obtain rfl := Option.some.inj hget
        exact ⟨rfl, hne⟩
  rw [popBlock_load hcur hget]
  have htrace := (setDirectionPins_spec (m.planner.blockBuffer i).directionBits
    m.gpio.mark).1
  have hem : ∀ a, (loadBlock i m).gpio.emitted a = 0 := by
    intro a
    have hgpio : (loadBlock i m).gpio =
        setDirectionPins (m.planner.blockBuffer i).directionBits m.gpio.mark := rfl
    unfold Gpio.emitted
    rw [hgpio, htrace]
    rfl
  refine ⟨fun a => ?_, by omega, rfl, fun _ => ⟨rfl, hslot.1, hslot.2, ?_⟩⟩
  · rw [hem]
    have hcounter : (loadBlock i m).stepper.counter a =
        -((m.planner.blockBuffer i).stepEventCount / 2) := rfl
    rw [hcounter, hb]
    exact Accum.start (by omega) _
  · show (m.planner.blockBuffer i).fixed = b.fixed
    rw [hb]

/-- What the interrupt reads of a block is fixed. -/
theorem Line.of_fixed (h : Line b) {c : Block R} (hc : c.fixed = b.fixed) : Line c := by
  have hb : Line b.fixed := ⟨h.move, h.count, h.steps⟩
  rw [← hc] at hb
  exact ⟨hb.move, hb.count, hb.steps⟩

/-- Each event of a move takes its trace one step further. -/
theorem moveInterrupt_traced (hline : Line b) (h : Traced i b k m) (inp : StInputs)
    (hlt : (k : Int) < b.stepEventCount) (hfree : Free inp b m) {c : Block R}
    (hslot : m.planner.blockBuffer i = c) :
    Traced i b (k + 1) (moveInterrupt inp c m) := by
  obtain ⟨hcur, htail, hhead, hc⟩ := h.live hlt
  rw [hslot] at hc
  have hcount : c.stepEventCount = b.stepEventCount := by
    show c.fixed.stepEventCount = b.stepEventCount
    rw [hc]
    rfl
  have hsteps : c.steps = b.steps := by
    show c.fixed.steps = b.steps
    rw [hc]
    rfl
  have hfree' : Free inp c m := by
    have hb : Free inp b.fixed m := hfree
    rw [← hc] at hb
    exact hb
  obtain ⟨hn0, hn⟩ := hline.count
  obtain ⟨hpl, hp, htr⟩ := stepEvent_free inp m hfree'
  have hacc : ∀ a, Accum b.stepEventCount (b.steps a) (k + 1 : Nat)
      ((stepEvent inp c m).gpio.emitted a) (traced c m.stepper.counter a) := by
    intro a
    have hold := h.accum a
    rw [← hcount, ← hsteps] at hold ⊢
    push_cast
    exact accum_event (by rw [hcount, hsteps]; exact hline.steps a)
      (by rw [hcount]; exact hn) hold hp
  unfold moveInterrupt
  dsimp only
  generalize stepEvent inp c m = m' at hpl hp htr hacc ⊢
  simp only [StepperState.tracing, Prod.mk.injEq, hcur] at htr
  obtain ⟨hcur', hcounter, hdone, -⟩ := htr
  rw [h.completed, uint32_of_range (by omega) (by omega)] at hdone
  rw [← hcounter] at hacc
  rw [hcount, uint32_of_range (by omega) (by omega), hdone]
  split
  · next hmore =>
      obtain ⟨hpl', hg', htr'⟩ := trapezoidTick_frame c m'
      simp only [StepperState.tracing, Prod.mk.injEq] at htr'
      obtain ⟨hcur'', hcounter', hdone', -⟩ := htr'
      refine ⟨fun a => ?_, by omega, by rw [hdone', hdone]; push_cast; rfl, fun _ => ?_⟩
      · rw [hg', hcounter']
        exact hacc a
      · rw [hcur'', hcur', hpl', hpl, hslot]
        exact ⟨rfl, htail, hhead, hc⟩
  · next hlast =>
      refine ⟨hacc, by omega, ?_, fun hmore => absurd hmore (by omega)⟩
      show m'.stepper.stepEventsCompleted = _
      rw [hdone]
      push_cast
      rfl

/-- A request uses the head slot, and the block in execution is in another. -/
theorem planBufferAction_slot (cfg : Configuration R) (pAction : ActionRequest R)
    {pl : Planner R} (hroom : planQueueFull pl = false)
    (htail : pl.blockBufferTail = i) (hhead : pl.blockBufferHead ≠ i) :
    (planBufferAction cfg pAction pl).1.blockBufferTail = i ∧
      (planBufferAction cfg pAction pl).1.blockBufferHead ≠ i ∧
      ((planBufferAction cfg pAction pl).1.blockBuffer i).fixed =
        (pl.blockBuffer i).fixed := by
  have hnext : nextBlockIndex pl.blockBufferHead ≠ i := by
    intro heq
    rw [← htail] at heq
    unfold planQueueFull at hroom
    rw [heq] at hroom
    exact absurd hroom (by simp)
  have hline : (planBufferLine cfg pAction pl).1.blockBufferTail = i ∧
      (planBufferLine cfg pAction pl).1.blockBufferHead ≠ i ∧
      ((planBufferLine cfg pAction pl).1.blockBuffer i).fixed =
        (pl.blockBuffer i).fixed := by
    by_cases hz : zeroLength cfg pAction pl = true
    · rw [planBufferLine_fst_of_zeroLength hz]
      refine ⟨htail, hhead, ?_⟩
      dsimp only
      rw [Function.update_of_ne (Ne.symm hhead)]
    · rw [Bool.not_eq_true] at hz
      rw [planBufferLine_fst hz]
      refine ⟨?_, ?_, ?_⟩
      · rw [finishPlan_eq]
        exact htail
      · rw [finishPlan_eq]
        exact hnext
      · rw [finishPlan_fixed]
        show (Function.update pl.blockBuffer pl.blockBufferHead _ i).fixed = _
        rw [Function.update_of_ne (Ne.symm hhead)]
  have hwait : (planBufferWait cfg pAction pl).1.blockBufferTail = i ∧
      (planBufferWait cfg pAction pl).1.blockBufferHead ≠ i ∧
      ((planBufferWait cfg pAction pl).1.blockBuffer i).fixed =
        (pl.blockBuffer i).fixed := by
    rw [planBufferWait]
    refine ⟨?_, ?_, ?_⟩
    · rw [finishPlan_eq]
      exact htail
    · rw [finishPlan_eq]
      exact hnext
    · rw [finishPlan_fixed]
      show (Function.update pl.blockBuffer pl.blockBufferHead _ i).fixed = _
      rw [Function.update_of_ne (Ne.symm hhead)]
  unfold planBufferAction
  split
  · exact hline
  · exact hline
  · exact hwait
  · exact hwait

theorem bufferAction_traced (h : Traced i b k m) (pAction : ActionRequest R)
    (hroom : planQueueFull m.planner = false) :
    Traced i b k (bufferAction pAction m) := by
  obtain ⟨-, hpl, hgpio, hcur⟩ := bufferAction_frame pAction m
  have hcounter : (bufferAction pAction m).stepper.counter = m.stepper.counter ∧
      (bufferAction pAction m).stepper.stepEventsCompleted =
        m.stepper.stepEventsCompleted := by
    unfold bufferAction
    dsimp only
    split <;> exact ⟨rfl, rfl⟩
  refine ⟨fun a => ?_, h.done, hcounter.2.trans h.completed, fun hlt => ?_⟩
  · rw [hcounter.1, hgpio]
    exact h.accum a
  · obtain ⟨hlive, htail, hhead, hfixed⟩ := h.live hlt
    rw [hcur, hpl]
    obtain ⟨htail', hhead', hfixed'⟩ :=
      planBufferAction_slot m.config pAction hroom htail hhead
    exact ⟨hlive, htail', hhead', hfixed'.trans hfixed⟩

theorem settlePins_traced (h : Traced i b k m) : Traced i b k (settlePins m) := by
  unfold settlePins
  split
  · exact h.of_frame (clearAllStepPins_pulses m.gpio) rfl rfl rfl rfl
  · exact h.of_frame (clearStepPinsByState_pulses m.stepper m.gpio) rfl rfl rfl rfl

/-- The invariant holds from the load to the last event. -/
theorem Tracing.traced (hline : Line b) (h : Tracing i b k m) : Traced i b k m := by
  induction h with
  | load m hcur hget hb => exact Traced.load hline hcur hget hb
  | @event k m inp _ hlt hfree ih =>
      obtain ⟨hcur, -, -, hfixed⟩ := ih.live hlt
      have hkind : (m.planner.blockBuffer i).actionType = .move :=
        (hline.of_fixed hfixed).move
      rw [serveBlock_move inp hcur hkind]
      exact moveInterrupt_traced hline ih inp hlt hfree rfl
  | settle _ ih => exact settlePins_traced ih
  | pop _ hlt ih =>
      rw [popBlock_some (ih.live hlt).1]
      exact ih
  | busy flag _ ih =>
      exact ih.of_frame (.of_trace_eq rfl fun _ => rfl) rfl rfl rfl rfl
  | request pAction _ hroom ih => exact bufferAction_traced ih pAction hroom
  | leds ledOn ledCount ledsEnabled accelFlag _ ih =>
      exact ih.of_frame (.of_trace_eq rfl fun _ => rfl) rfl rfl rfl rfl

/-- A whole interrupt in the middle of the move is one event. -/
theorem Tracing.interrupt (hline : Line b) (h : Tracing i b k m)
    (hbusy : m.stepper.busy = false) (hlt : (k : Int) < b.stepEventCount)
    {inp : StInputs} (hfree : Free inp b m) :
    Tracing i b (k + 1) (stInterrupt inp m) := by
  rw [stInterrupt_ready inp hbusy]
  have hcur : (setBusy true m).stepper.currentBlock = some i :=
    ((h.traced hline).live hlt).1
  refine .busy false (.settle (.event inp (.pop (.busy true h) hlt) hlt ?_))
  rw [popBlock_some hcur]
  exact hfree

/-- Every axis stays within half a step of the straight line, takes at most one
step in an event and arrives with the last one; nothing overflows. -/
theorem Tracing.straight_line (h : Tracing i b k m) (hmove : b.actionType = .move)
    (hcount : 1 ≤ b.stepEventCount ∧ b.stepEventCount < 2147483648)
    (hsteps : ∀ a, 0 ≤ b.steps a ∧ b.steps a ≤ b.stepEventCount) (a : Axis) :
    2 * |m.gpio.emitted a * b.stepEventCount - k * b.steps a| ≤ b.stepEventCount ∧
      (k = b.stepEventCount → m.gpio.emitted a = b.steps a) ∧
      (-b.stepEventCount < m.stepper.counter a ∧
        m.stepper.counter a ≤ b.stepEventCount) ∧
      ((k : Int) < b.stepEventCount → ∀ inp, Free inp b m →
        (-b.stepEventCount < m.stepper.counter a + b.steps a ∧
          m.stepper.counter a + b.steps a ≤ b.stepEventCount) ∧
        ((serveBlock inp m).gpio.emitted a = m.gpio.emitted a ∨
          (serveBlock inp m).gpio.emitted a = m.gpio.emitted a + 1)) := by
  have hline : Line b := ⟨hmove, hcount, hsteps⟩
  have ht := h.traced hline
  have hacc := ht.accum a
  have hlower := hacc.lower
  have hupper := hacc.upper
  obtain ⟨hs0, hsn⟩ := hsteps a
  refine ⟨hacc.deviation, fun hk => ?_, ⟨hlower, by omega⟩, ?_⟩
  · rw [hk] at hacc
    exact hacc.finish
  · intro hlt inp hfree
    refine ⟨⟨by omega, by omega⟩, ?_⟩
    have hnext := ((Tracing.event inp h hlt hfree).traced hline).accum a
    push_cast at hnext
    exact hacc.next hnext hs0 hsn

/-- Three steps along X and two along Y. -/
def threeTwo : Block ℚ where
  actionType := .move
  steps := fun a => match a with
    | .x => 3
    | .y => 2
    | _ => 0
  directionBits := 0
  stepEventCount := 3
  nominalRate := 1200
  nominalSpeed := 1
  entrySpeed := 0
  maxEntrySpeed := 0
  millimeters := 1
  recalculateFlag := false
  nominalLengthFlag := false
  initialRate := 1200
  finalRate := 1200
  rateDelta := 1
  accelerateUntil := 1
  decelerateAfter := 2
  checkEndstops := false

/-- A machine that has the move with three steps along X and two along Y in its queue.
-/
def threeTwoPending : Machine ℚ :=
  let m : Machine ℚ := Machine.start .zero
  { m with
    planner :=
      { m.planner with
        blockBuffer := fun _ => threeTwo
        blockBufferHead := 1
        blockBufferTail := 0 } }

def noEndstop : StInputs := ⟨true, fun _ _ => false⟩

/-- The first event of the move with three steps and two pulses both axes. -/
theorem straight_line_threeTwo :
    Tracing 0 threeTwo 1 (serveBlock noEndstop (popBlock threeTwoPending)) ∧
      2 * |(serveBlock noEndstop (popBlock threeTwoPending)).gpio.emitted .y * 3 -
        1 * 2| ≤ 3 := by
  have hload : Tracing 0 threeTwo 0 (popBlock threeTwoPending) :=
    .load threeTwoPending rfl rfl rfl
  have hevent := Tracing.event noEndstop hload (by decide) rfl
  have hsteps : ∀ a, 0 ≤ threeTwo.steps a ∧
      threeTwo.steps a ≤ threeTwo.stepEventCount := by
    intro a
    cases a <;> decide
  exact ⟨hevent, (hevent.straight_line rfl (by decide) hsteps .y).1⟩

end R2C2Firmware.Ports.Stepper
