import R2C2Firmware.Ports.GcodeEffects
import R2C2Firmware.Ports.StepperFrame

/-!
# The emergency stop

`M112` stops hardware timer 0.  That was the step timer of an older engine; here
it ticks for the acceleration, the steps are made by timer 1, and the queue is
not flushed.  So `M112` stops nothing that is on its way: a move that is pending
or in execution is carried out.

When no move is pending nor in execution, no step pin rises again until the next
motion command, whatever other lines and interrupts follow.

## Main results

* `no_pulse_after_stop` — the condition under which the machine stands still.
* `pulse_after_stop` — a move queued before `M112` is carried out after it.
-/

set_option linter.unusedSectionVars false

namespace R2C2Firmware.Ports.EmergencyStop

open Relation
open R2C2Firmware.Verified.Number
open R2C2Firmware.Verified.BusyWait
open R2C2Firmware.Ports.Config
open R2C2Firmware.Ports.MotionPlanner
open R2C2Firmware.Ports.Stepper
open R2C2Firmware.Ports.Temp
open R2C2Firmware.Ports.Sermsg
open R2C2Firmware.Ports.GcodeParse
open R2C2Firmware.Ports.Mendel
open R2C2Firmware.Ports.GcodeProcess
open R2C2Firmware.Ports.MainLoop

variable {R σ : Type} [Field R] [LinearOrder R] [HasSqrt R] [FloorRing R]
variable {P : Platform σ}

/-! ## The ring indices -/

theorem planBufferAction_wf (cfg : Configuration R)
    (request : ActionRequest R) {pl : Planner R} (h : pl.WF) :
    (planBufferAction cfg request pl).1.WF := by
  unfold planBufferAction
  split
  · exact h.planBufferLine cfg request
  · exact h.planBufferLine cfg request
  · exact h.planBufferWait cfg request
  · exact h.planBufferWait cfg request

/-- The ring indices are inside the ring. -/
def RingWF (fw : Firmware R σ) : Prop := fw.machine.planner.WF

theorem quiet_ringWF {fw fw' : Firmware R σ} (h : Quiet P fw fw')
    (hwf : RingWF fw) : RingWF fw' := by
  cases h with
  | irq i => exact (serveIrq_discards P i fw).wf hwf
  | frame h =>
      show fw'.machine.planner.WF
      rw [h]
      exact hwf
  | settings hf => exact hwf
  | pin h state => exact hwf
  | stopTicks => exact hwf
  | wait hroom =>
      show (bufferAction waitRequest fw.machine).planner.WF
      rw [(bufferAction_frame _ _).2.1]
      exact planBufferAction_wf _ _ hwf
  | place ht => exact ⟨hwf.head_lt, hwf.tail_lt⟩

theorem touch_ringWF {fw fw' : Firmware R σ} (h : Touch P fw fw')
    (hwf : RingWF fw) : RingWF fw' := by
  cases h with
  | quiet h => exact quiet_ringWF h hwf
  | @move request fw hkind hroom =>
      show (bufferAction request fw.machine).planner.WF
      rw [(bufferAction_frame _ _).2.1]
      exact planBufferAction_wf _ _ hwf
  | feed t => exact ⟨hwf.head_lt, hwf.tail_lt⟩

theorem background_ringWF {fw fw' : Firmware R σ} (h : Background P fw fw')
    (hwf : RingWF fw) : RingWF fw' := by
  cases h with
  | irq i => exact (serveIrq_discards P i fw).wf hwf
  | sdPoll =>
      show (sdPoll P fw).machine.planner.WF
      unfold sdPoll
      split
      · split <;> exact hwf
      · exact hwf
  | countTimeout =>
      show (countTimeout fw).machine.planner.WF
      unfold countTimeout
      split <;> exact hwf

theorem takeLine_ringWF (s : Session R σ) (data : List UInt8)
    (irqs : List Irq) (h : RingWF s.fw) :
    RingWF (takeLine P s data irqs).2.state :=
  takeLine_keep RingWF (fun _ _ => touch_ringWF) (fun _ _ => id) irqs h

theorem run_ringWF {s₀ s : Session R σ}
    {hist : List (Session R σ × List UInt8)} (h : Run P s₀ hist s)
    (h₀ : RingWF s₀.fw) : RingWF s.fw :=
  Visited.invariant (fun _ _ => background_ringWF)
    (fun s data irqs (_ : True) => takeLine_ringWF s data irqs)
    (.between h) h₀ fun _ _ => trivial

theorem reachable_ringWF {s : Session R σ} (h : Reachable P s) :
    RingWF s.fw := by
  cases h with
  | boot config fs h =>
      exact run_ringWF h ⟨Nat.succ_pos 4, Nat.succ_pos 4⟩
  | main config fs _ h => exact run_ringWF h (planInit_wf _)

/-! ## Standing still -/

/-- A move is pending or in execution. -/
def MovePending (m : Machine R) : Prop :=
  (∃ b ∈ m.planner.queue, b.actionType = .move) ∨
    ∃ i, m.stepper.currentBlock = some i ∧
      (m.planner.blockBuffer i).actionType = .move

theorem noMove_of_not_movePending {m : Machine R} (hwf : m.planner.WF)
    (h : ¬MovePending m) : NoMove m :=
  ⟨hwf, fun b hb hmove => h (.inl ⟨b, hb, hmove⟩),
    fun i hi hmove => h (.inr ⟨i, hi, hmove⟩)⟩

/-- No move is pending, and no step pin has risen since `g`. -/
def Still (g : Gpio) (fw : Firmware R σ) : Prop :=
  NoMove fw.machine ∧ NoRise g fw.machine.gpio

variable {g : Gpio}

theorem digitalWrite_noRise {port bit : Nat} (state : Bool)
    (fw : Firmware R σ)
    (h : ∀ a, (stepPort a == port && (1#32 <<< bit).getLsbD (stepBit a)) =
      false) :
    NoRise fw.machine.gpio (digitalWrite port bit state fw).machine.gpio := by
  unfold digitalWrite
  dsimp only
  split
  · exact NoRise.set _ h
  · exact NoRise.clear _ _ _

theorem Still.pin {fw : Firmware R σ} (h : Still g fw) {port bit : Nat}
    (state : Bool)
    (hpin : ∀ a, (stepPort a == port && (1#32 <<< bit).getLsbD (stepBit a)) =
      false) : Still g (digitalWrite port bit state fw) :=
  ⟨⟨h.1.wf, h.1.pending, h.1.current⟩,
    h.2.trans (digitalWrite_noRise state fw hpin)⟩

theorem controlPins_noStep {port bit : Nat} (h : (port, bit) ∈ controlPins)
    (a : Axis) :
    (stepPort a == port && (1#32 <<< bit).getLsbD (stepBit a)) = false := by
  simp only [controlPins, List.mem_cons, List.not_mem_nil, or_false,
    Prod.mk.injEq] at h
  rcases h with ⟨rfl, rfl⟩ | ⟨rfl, rfl⟩ | ⟨rfl, rfl⟩ | ⟨rfl, rfl⟩ | ⟨rfl, rfl⟩ <;>
    cases a <;> decide

theorem serveIrq_still (i : Irq) {fw : Firmware R σ} (h : Still g fw) :
    Still g (serveIrq P i fw) := by
  cases i with
  | step =>
      show Still g (if fw.machine.timers.enabled 1 then _ else _)
      split
      · obtain ⟨hmove, hrise⟩ := stepCallback_noMove (stInputs P fw) h.1
        exact ⟨hmove, h.2.trans hrise⟩
      · exact h
  | accel =>
      show Still g (if fw.machine.timers.enabled 0 then _ else _)
      split
      · exact ⟨⟨h.1.wf, h.1.pending, h.1.current⟩, h.2⟩
      · exact h
  | temperature extruder bed =>
      show Still g (temperatureTimerCallback extruder bed fw)
      unfold temperatureTimerCallback
      dsimp only
      split
      · exact h
      · refine Still.pin (Still.pin h _ ?_) _ ?_
        · intro a
          cases a <;> decide
        · intro a
          cases a <;> decide
  | buzzerOff => exact h
  | endstops x y z => exact h

theorem quiet_still {fw fw' : Firmware R σ} (h : Quiet P fw fw')
    (hs : Still g fw) : Still g fw' := by
  cases h with
  | irq i => exact serveIrq_still i hs
  | frame h =>
      unfold Still
      rw [h]
      exact hs
  | settings hf => exact ⟨⟨hs.1.wf, hs.1.pending, hs.1.current⟩, hs.2⟩
  | pin h state => exact hs.pin state (controlPins_noStep h)
  | stopTicks => exact ⟨⟨hs.1.wf, hs.1.pending, hs.1.current⟩, hs.2⟩
  | wait fw hroom =>
      obtain ⟨-, hplanner, hgpio, hcurrent⟩ :=
        bufferAction_frame waitRequest fw.machine
      have hkind : (waitRequest : ActionRequest R).actionType ≠ .move := by
        simp [waitRequest]
      have hwait := planBufferWait_noMove fw.machine.config
        hkind hs.1 hroom
      refine ⟨⟨?_, ?_, ?_⟩, ?_⟩
      · show (bufferAction waitRequest fw.machine).planner.WF
        rw [hplanner]
        exact hwait.wf
      · show ∀ b ∈ (bufferAction waitRequest fw.machine).planner.queue, _
        rw [hplanner]
        exact hwait.pending
      · intro i hi
        rw [show (bufferAction waitRequest fw.machine).stepper.currentBlock =
          some i from hi] at hcurrent
        show ((bufferAction waitRequest fw.machine).planner.blockBuffer
          i).actionType ≠ _
        rw [hplanner]
        exact hwait.current i hcurrent.symm
      · show NoRise g (bufferAction waitRequest fw.machine).gpio
        rw [hgpio]
        exact hs.2
  | place ht => exact ⟨⟨⟨hs.1.wf.head_lt, hs.1.wf.tail_lt⟩, hs.1.pending,
      hs.1.current⟩, hs.2⟩

theorem background_still {fw fw' : Firmware R σ} (h : Background P fw fw')
    (hs : Still g fw) : Still g fw' := by
  cases h with
  | irq i => exact serveIrq_still i hs
  | sdPoll =>
      unfold sdPoll
      split
      · split <;> exact hs
      · exact hs
  | countTimeout =>
      unfold countTimeout
      split <;> exact hs

/-- The line queues no move. -/
def NoMotion (s : Session R σ) (data : List UInt8) : Prop :=
  Processes s data → (commandOf (parsed s data)).isMotion = false

theorem takeLine_still (s : Session R σ) (data : List UInt8)
    (irqs : List Irq) (hno : NoMotion s data) (h : Still g s.fw) :
    Still g (takeLine P s data irqs).2.state :=
  takeLine_keep_quiet (Still g) (fun _ _ => quiet_still)
    (fun _ _ h => ⟨⟨h.1.wf, h.1.pending, h.1.current⟩, h.2⟩) hno irqs h

/-- After `M112` with no move pending, no step pin rises until the next motion
command: not between lines, and not while a line waits. -/
theorem no_pulse_after_stop {s s' : Session R σ} {data : List UInt8}
    {hist : List (Session R σ × List UInt8)} {fw : Firmware R σ}
    (hs : Reachable P s) (hstop : commandOf (parsed s data) = .m .m112)
    (hdone : LineDone P s data s') (hcalm : ¬MovePending s.fw.machine)
    (hv : Visited P s' hist fw) (hno : ∀ x ∈ hist, NoMotion x.1 x.2)
    (a : Axis) (d : Bool) :
    fw.machine.gpio.rises a d = s'.fw.machine.gpio.rises a d := by
  have hstart : Still s.fw.machine.gpio s.fw :=
    ⟨noMove_of_not_movePending (reachable_ringWF hs) hcalm, .of_trace_eq rfl⟩
  have hstopped : NoMove s'.fw.machine := by
    obtain ⟨irqs, rest, hdone⟩ := hdone
    have h := takeLine_still s data irqs (P := P)
      (fun _ => by rw [hstop]; rfl) hstart
    rw [hdone] at h
    exact h.1
  have hend : Still s'.fw.machine.gpio fw :=
    hv.invariant (fun _ _ => background_still)
      (fun s data irqs => takeLine_still s data irqs)
      ⟨hstopped, .of_trace_eq rfl⟩ hno
  exact hend.2 a d

/-! ## Two machines -/

section Example

/-- A machine that waits for its extruder. -/
def heating : Session ℚ Unit :=
  (playLines noCard defaultStart [str "M109 S200\n"]).get (by decide +kernel)

/-- The machine that waits for its extruder, after an `M112`. -/
def heatingStopped : Session ℚ Unit :=
  (playLine noCard heating (str "M112\n")).get (by decide +kernel)

theorem heating_calm : ¬MovePending heating.fw.machine := by
  have hqueue : ∀ b ∈ heating.fw.machine.planner.queue,
      b.actionType ≠ .move := by
    decide +kernel
  have hcurrent : heating.fw.machine.stepper.currentBlock = none := by
    decide +kernel
  rintro (⟨b, hb, hmove⟩ | ⟨i, hi, -⟩)
  · exact hqueue b hb hmove
  · rw [hcurrent] at hi
    exact absurd hi (by simp)

/-- The step timer of the stopped machine goes on asking for the temperature,
and no pin moves. -/
theorem no_pulse_after_stop_heating :
    (serveIrq noCard .step heatingStopped.fw).machine.gpio.rises .x true =
      heatingStopped.fw.machine.gpio.rises .x true := by
  have hreach : Reachable noCard heating :=
    reachable_of_playLines (reachable_init .default ())
      (Option.some_get _).symm
  have hstop : commandOf (parsed heating (str "M112\n")) = .m .m112 := by
    decide +kernel
  have hdone : LineDone noCard heating (str "M112\n") heatingStopped :=
    lineDone_of_playLine (Option.some_get _).symm
  exact no_pulse_after_stop hreach hstop hdone heating_calm (visited_irq .step)
    (fun x hx => absurd hx (by simp)) .x true

/-- A machine with ten steps to go. -/
def moving : Session ℚ Unit :=
  (playLines noCard defaultStart [str "G1 X0.125 F600\n"]).get (by decide +kernel)

/-- The machine with ten steps to go, after an `M112`. -/
def movingStopped : Session ℚ Unit :=
  (playLine noCard moving (str "M112\n")).get (by decide +kernel)

/-- A move is queued, `M112` is handled, and the next step interrupt pulses X:
timer 1 is still enabled. -/
theorem pulse_after_stop :
    Reachable noCard moving ∧ Processes moving (str "M112\n") ∧
      commandOf (parsed moving (str "M112\n")) = .m .m112 ∧
      LineDone noCard moving (str "M112\n") movingStopped ∧
      Visited noCard movingStopped []
        (serveIrq noCard .step movingStopped.fw) ∧
      movingStopped.fw.machine.timers.enabled 1 = true ∧
      (serveIrq noCard .step movingStopped.fw).machine.gpio.rises .x true ≠
        movingStopped.fw.machine.gpio.rises .x true := by
  refine ⟨reachable_of_playLines (reachable_init .default ())
      (Option.some_get _).symm, ⟨?_, ?_⟩, ?_,
    lineDone_of_playLine (Option.some_get _).symm,
    visited_irq .step, ?_, ?_⟩
  · decide +kernel
  · decide +kernel
  · decide +kernel
  · decide +kernel
  · decide +kernel

end Example

end R2C2Firmware.Ports.EmergencyStop
