import R2C2Firmware.Ports.StepperPulses
import R2C2Firmware.Ports.MotionPlannerQueue

/-!
# What the interrupt leaves alone

Of the planner the step interrupt changes one thing, the tail index, and that
only to discard the block it has finished.  When neither the block in execution
nor any pending block is a move, it moves no step pin: `NoMove` is kept, and
the count of rising edges with it.
-/

set_option linter.unusedSectionVars false

namespace R2C2Firmware.Ports.Stepper

open R2C2Firmware.Verified.Number
open R2C2Firmware.Ports.Config
open R2C2Firmware.Ports.MotionPlanner

variable {R : Type*}

/-! ## One interrupt -/

/-- Set the `busy` flag. -/
def setBusy (busy : Bool) (m : Machine R) : Machine R :=
  { m with stepper := { m.stepper with busy } }

/-- What the interrupt does when it does not interrupt itself. -/
theorem stInterrupt_ready (inp : StInputs) {m : Machine R}
    (h : m.stepper.busy = false) :
    stInterrupt inp m = setBusy false
      (settlePins (serveBlock inp (popBlock (setBusy true m)))) := by
  rw [stInterrupt, if_neg (by simp [h])]
  rfl

theorem stInterrupt_busy (inp : StInputs) {m : Machine R}
    (h : m.stepper.busy = false) : (stInterrupt inp m).stepper.busy = false := by
  rw [stInterrupt_ready inp h]
  rfl

theorem popBlock_some {m : Machine R} {i : Nat}
    (h : m.stepper.currentBlock = some i) : popBlock m = m := by
  rw [popBlock, h]

theorem popBlock_load {m : Machine R} {i : Nat}
    (h : m.stepper.currentBlock = none)
    (hget : planGetCurrentBlock m.planner = some i) :
    popBlock m = loadBlock i m := by
  rw [popBlock, h]
  dsimp only
  rw [hget]

theorem serveBlock_move (inp : StInputs) {m : Machine R} {i : Nat}
    (h : m.stepper.currentBlock = some i)
    (hkind : (m.planner.blockBuffer i).actionType = .move) :
    serveBlock inp m = moveInterrupt inp (m.planner.blockBuffer i) m := by
  rw [serveBlock, h]
  dsimp only
  rw [hkind]

/-- An interrupt in the middle of a move. -/
theorem stInterrupt_move (inp : StInputs) {m : Machine R} {i : Nat}
    (hbusy : m.stepper.busy = false) (hcur : m.stepper.currentBlock = some i)
    (hkind : (m.planner.blockBuffer i).actionType = .move) :
    stInterrupt inp m = setBusy false (settlePins
      (moveInterrupt inp (m.planner.blockBuffer i) (setBusy true m))) := by
  have hcur' : (setBusy true m).stepper.currentBlock = some i := hcur
  have hkind' : ((setBusy true m).planner.blockBuffer i).actionType = .move :=
    hkind
  rw [stInterrupt_ready inp hbusy, popBlock_some hcur',
    serveBlock_move inp hcur' hkind']
  rfl

/-- An interrupt that finds no block in hand and a move in the queue takes up the move
and makes its first step. -/
theorem stInterrupt_load (inp : StInputs) {m : Machine R} {i : Nat}
    (hbusy : m.stepper.busy = false) (hcur : m.stepper.currentBlock = none)
    (hget : planGetCurrentBlock m.planner = some i)
    (hkind : (m.planner.blockBuffer i).actionType = .move) :
    stInterrupt inp m = setBusy false (settlePins
      (moveInterrupt inp (m.planner.blockBuffer i)
        (loadBlock i (setBusy true m)))) := by
  have hcur' : (setBusy true m).stepper.currentBlock = none := hcur
  have hget' : planGetCurrentBlock (setBusy true m).planner = some i := hget
  have hkind' : ((loadBlock i (setBusy true m)).planner.blockBuffer
      i).actionType = .move := hkind
  rw [stInterrupt_ready inp hbusy, popBlock_load hcur' hget',
    serveBlock_move inp rfl hkind']
  rfl

/-! ## The planner -/

/-- The configuration is the same, and so is the plan unless a block was
discarded. -/
def Discards (m m' : Machine R) : Prop :=
  m'.config = m.config ∧
    (m'.planner = m.planner ∨ m'.planner = planDiscardCurrentBlock m.planner)

theorem setStepPins_config (m : Machine R) :
    (setStepPins m).config = m.config := by
  unfold setStepPins
  dsimp only
  split <;> rfl

theorem trapezoidTick_config (b : Block R) (m : Machine R) :
    (trapezoidTick b m).config = m.config := by
  unfold trapezoidTick
  dsimp only
  split_ifs <;> rfl

theorem moveInterrupt_discards (inp : StInputs) (b : Block R) (m : Machine R) :
    Discards m (moveInterrupt inp b m) := by
  have hplanner : (stepEvent inp b m).planner = m.planner :=
    (setStepPins_frame _).1
  have hconfig : (stepEvent inp b m).config = m.config := setStepPins_config _
  unfold moveInterrupt
  dsimp only
  split
  · exact ⟨(trapezoidTick_config _ _).trans hconfig,
      .inl ((trapezoidTick_frame _ _).1.trans hplanner)⟩
  · refine ⟨hconfig, .inr ?_⟩
    show planDiscardCurrentBlock (stepEvent inp b m).planner = _
    rw [hplanner]

theorem serveBlock_discards (inp : StInputs) (m : Machine R) :
    Discards m (serveBlock inp m) := by
  unfold serveBlock
  split
  · dsimp only
    split
    · exact moveInterrupt_discards inp _ m
    · unfold waitInterrupt
      dsimp only
      split
      · exact ⟨rfl, .inr rfl⟩
      · exact ⟨rfl, .inl rfl⟩
    · exact ⟨rfl, .inl rfl⟩
    · exact ⟨rfl, .inl rfl⟩
  · exact ⟨rfl, .inl rfl⟩

theorem popBlock_frame (m : Machine R) :
    (popBlock m).config = m.config ∧ (popBlock m).planner = m.planner := by
  unfold popBlock
  split
  · exact ⟨rfl, rfl⟩
  · split <;> exact ⟨rfl, rfl⟩

theorem settlePins_frame (m : Machine R) :
    (settlePins m).config = m.config ∧ (settlePins m).planner = m.planner := by
  unfold settlePins
  split <;> exact ⟨rfl, rfl⟩

theorem stInterrupt_discards (inp : StInputs) (m : Machine R) :
    Discards m (stInterrupt inp m) := by
  unfold stInterrupt
  split
  · exact ⟨rfl, .inl rfl⟩
  · obtain ⟨hc, hp⟩ := serveBlock_discards inp
      (popBlock { m with stepper := { m.stepper with busy := true } })
    obtain ⟨hc', hp'⟩ :=
      popBlock_frame { m with stepper := { m.stepper with busy := true } }
    rw [hc'] at hc
    rw [hp'] at hp
    refine ⟨(settlePins_frame _).1.trans hc, ?_⟩
    show (settlePins _).planner = _ ∨ (settlePins _).planner = _
    rw [(settlePins_frame _).2]
    exact hp

theorem Discards.wf {m m' : Machine R} (h : Discards m m')
    (hwf : m.planner.WF) : m'.planner.WF := by
  rcases h.2 with heq | heq
  · rw [heq]
    exact hwf
  · rw [heq]
    exact hwf.discard

/-- Position and current point are not the interrupt's business. -/
theorem Discards.position {m m' : Machine R} (h : Discards m m') :
    m'.planner.position = m.planner.position ∧
      m'.planner.startpoint = m.planner.startpoint := by
  rcases h.2 with heq | heq
  · rw [heq]
    exact ⟨rfl, rfl⟩
  · rw [heq, planDiscardCurrentBlock_eq]
    exact ⟨rfl, rfl⟩

/-! ## No move pending -/

/-- No pending block is a move, nor is the block in execution. -/
structure NoMove (m : Machine R) : Prop where
  wf : m.planner.WF
  pending : ∀ b ∈ m.planner.queue, b.actionType ≠ .move
  current : ∀ i, m.stepper.currentBlock = some i →
    (m.planner.blockBuffer i).actionType ≠ .move

/-- No step pin has risen. -/
def NoRise (g g' : Gpio) : Prop := ∀ a d, g'.rises a d = g.rises a d

theorem NoRise.of_trace_eq {g g' : Gpio} (h : g'.trace = g.trace) :
    NoRise g g' := by
  intro a d
  rw [Gpio.rises, h, Gpio.rises]

theorem NoRise.trans {g g' g'' : Gpio} (h : NoRise g g') (h' : NoRise g' g'') :
    NoRise g g'' :=
  fun a d => (h' a d).trans (h a d)

/-- Setting pins that are not step pins raises no step pin. -/
theorem NoRise.set {port : Nat} {value : BitVec 32} (g : Gpio)
    (h : ∀ a, (stepPort a == port && value.getLsbD (stepBit a)) = false) :
    NoRise g (gpioSetValue port value g) := by
  apply NoRise.of_trace_eq
  simp [gpioSetValue, Gpio.rising, h]

theorem NoRise.clear (port : Nat) (value : BitVec 32) (g : Gpio) :
    NoRise g (gpioClearValue port value g) :=
  .of_trace_eq rfl

theorem loadBlock_noRise (i : Nat) (m : Machine R) :
    NoRise m.gpio (loadBlock i m).gpio := by
  intro a d
  show Gpio.rises (setDirectionPins _ m.gpio.mark) a d = _
  rw [Gpio.rises, (setDirectionPins_spec _ _).1, Gpio.mark]
  simp [Gpio.rises]

theorem popBlock_noMove {m : Machine R} (h : NoMove m) :
    NoMove (popBlock m) ∧ NoRise m.gpio (popBlock m).gpio := by
  unfold popBlock
  split
  · exact ⟨h, .of_trace_eq rfl⟩
  · next hcur =>
    unfold planGetCurrentBlock
    split
    · next i hget =>
      split at hget
      · exact absurd hget (by simp)
      · next hne =>
        obtain rfl := Option.some.inj hget
        refine ⟨⟨h.wf, h.pending, ?_⟩, loadBlock_noRise _ m⟩
        intro i hi
        obtain rfl := Option.some.inj hi
        exact h.pending _ (List.mem_of_mem_head? (h.wf.queue_head? hne))
    · exact ⟨⟨h.wf, h.pending, h.current⟩, .of_trace_eq rfl⟩

theorem NoMove.discard {m : Machine R} (h : NoMove m) :
    NoMove (discardCurrent m) := by
  refine ⟨h.wf.discard, ?_, fun i hi => absurd hi (by simp [discardCurrent])⟩
  show ∀ b ∈ (planDiscardCurrentBlock m.planner).queue, b.actionType ≠ .move
  rw [queue_discard h.wf]
  exact fun b hb => h.pending b (List.mem_of_mem_tail hb)

theorem serveBlock_noMove (inp : StInputs) {m : Machine R} (h : NoMove m) :
    NoMove (serveBlock inp m) ∧ NoRise m.gpio (serveBlock inp m).gpio := by
  unfold serveBlock
  split
  · next i hcur =>
    dsimp only
    split
    · next hmove => exact absurd hmove (h.current i hcur)
    · unfold waitInterrupt
      dsimp only
      split
      · refine ⟨?_, .of_trace_eq rfl⟩
        exact NoMove.discard (m := { m with stepper := _ })
          ⟨h.wf, h.pending, h.current⟩
      · exact ⟨⟨h.wf, h.pending, h.current⟩, .of_trace_eq rfl⟩
    · exact ⟨h, .of_trace_eq rfl⟩
    · exact ⟨h, .of_trace_eq rfl⟩
  · exact ⟨⟨h.wf, h.pending, h.current⟩, .of_trace_eq rfl⟩

theorem settlePins_noMove {m : Machine R} (h : NoMove m) :
    NoMove (settlePins m) ∧ NoRise m.gpio (settlePins m).gpio := by
  unfold settlePins
  split
  · exact ⟨⟨h.wf, h.pending, h.current⟩, .of_trace_eq rfl⟩
  · refine ⟨⟨h.wf, h.pending, h.current⟩, .of_trace_eq ?_⟩
    show (clearStepPinsByState _ _).trace = _
    unfold clearStepPinsByState
    dsimp only
    split <;> rfl

theorem stInterrupt_noMove (inp : StInputs) {m : Machine R} (h : NoMove m) :
    NoMove (stInterrupt inp m) ∧ NoRise m.gpio (stInterrupt inp m).gpio := by
  unfold stInterrupt
  split
  · exact ⟨h, .of_trace_eq rfl⟩
  · have hbusy : NoMove { m with stepper := { m.stepper with busy := true } } :=
      ⟨h.wf, h.pending, h.current⟩
    obtain ⟨h₁, r₁⟩ := popBlock_noMove hbusy
    obtain ⟨h₂, r₂⟩ := serveBlock_noMove inp h₁
    obtain ⟨h₃, r₃⟩ := settlePins_noMove h₂
    exact ⟨⟨h₃.wf, h₃.pending, h₃.current⟩, (r₁.trans r₂).trans r₃⟩

theorem stepCallback_noMove (inp : StInputs) {m : Machine R} (h : NoMove m) :
    NoMove (stepCallback inp m) ∧ NoRise m.gpio (stepCallback inp m).gpio := by
  have hpin : NoRise m.gpio (gpioSetValue 1 (1#32 <<< 15) m.gpio) :=
    NoRise.set _ fun a => by cases a <;> decide
  obtain ⟨h', r'⟩ := stInterrupt_noMove inp
    (m := { m with gpio := gpioSetValue 1 (1#32 <<< 15) m.gpio })
    ⟨h.wf, h.pending, h.current⟩
  exact ⟨⟨h'.wf, h'.pending, h'.current⟩,
    (hpin.trans r').trans (NoRise.clear _ _ _)⟩

/-! ## Requests -/

section Requests

variable [Field R] [LinearOrder R] [HasSqrt R] [FloorRing R]

/-- A request changes the plan and wakes the step timer. -/
theorem bufferAction_frame (request : ActionRequest R) (m : Machine R) :
    (bufferAction request m).config = m.config ∧
      (bufferAction request m).planner =
        (planBufferAction m.config request m.planner).1 ∧
      (bufferAction request m).gpio = m.gpio ∧
      (bufferAction request m).stepper.currentBlock =
        m.stepper.currentBlock := by
  unfold bufferAction
  dsimp only
  split <;> exact ⟨rfl, rfl, rfl, rfl⟩

theorem Block.actionType_of_fixed {b c : Block R} (h : b.fixed = c.fixed) :
    b.actionType = c.actionType := by
  show b.fixed.actionType = c.fixed.actionType
  rw [h]

theorem planBufferWait_noMove (cfg : Configuration R)
    {request : ActionRequest R} (hkind : request.actionType ≠ .move)
    {m : Machine R} (h : NoMove m)
    (hroom : planQueueFull m.planner = false) :
    NoMove { m with planner := (planBufferWait cfg request m.planner).1 } := by
  refine ⟨h.wf.planBufferWait cfg request, ?_, ?_⟩
  · intro b hb
    have hfixed : b.fixed ∈ (planBufferWait cfg request
        m.planner).1.queue.map Block.fixed := List.mem_map_of_mem hb
    rw [queue_planBufferWait_fixed h.wf hroom] at hfixed
    obtain ⟨c, hc, hcb⟩ := List.mem_map.1 hfixed
    rw [← Block.actionType_of_fixed hcb]
    rcases List.mem_append.1 hc with hold | hnew
    · exact h.pending c hold
    · obtain rfl := List.mem_singleton.1 hnew
      exact hkind
  · intro i hi
    have hslot : ((planBufferWait cfg request m.planner).1.blockBuffer
        i).actionType = ((publishWait request m.planner).blockBuffer
          i).actionType :=
      Block.actionType_of_fixed (finishPlan_fixed cfg _ i)
    show ((planBufferWait cfg request m.planner).1.blockBuffer i).actionType ≠ _
    rw [hslot]
    show (Function.update m.planner.blockBuffer m.planner.blockBufferHead _
      i).actionType ≠ _
    by_cases hhead : i = m.planner.blockBufferHead
    · subst hhead
      rw [Function.update_self]
      exact hkind
    · rw [Function.update_of_ne hhead]
      exact h.current i hi

end Requests

end R2C2Firmware.Ports.Stepper
