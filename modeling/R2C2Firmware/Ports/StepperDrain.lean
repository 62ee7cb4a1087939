import R2C2Firmware.Ports.StepperFifo

/-!
# How long the queue takes to drain

`st_synchronize` spins until the queue is empty; homing, `G4` and `G92` wait
for it.  This file counts the interrupts that takes.  A move costs one interrupt
per step event, the one that takes it up included; a wait costs one once the
temperature is reached.  An endstop cuts a homing move short.

`remaining` is the number of interrupts the queue is good for, `cut` what an
endstop takes off at one of them; it is zero for every other interrupt.

## Main results

* `MachineRun.ready` — what the interrupt can rely on, in every run.
* `queue_drains` — the number of interrupts until the queue is empty, and what
  the next one does.
-/

set_option linter.unusedSectionVars false

namespace R2C2Firmware.Ports.Stepper

open R2C2Firmware.Verified
open R2C2Firmware.Verified.Number
open R2C2Firmware.Ports.Config
open R2C2Firmware.Ports.MotionPlanner

variable {R : Type*}

/-! ## Runs -/

/-- The number of step events of a move, as the interrupt compares it. -/
def eventCount (b : Block R) : Int := uint32 b.stepEventCount

/-- The events of the oldest block that are done. -/
def doneEvents (m : Machine R) : Int :=
  match m.stepper.currentBlock with
  | some _ => m.stepper.stepEventsCompleted
  | none => 0

/-- What the interrupt can rely on: it is not re-entered, the block in execution
is the oldest pending one and not finished, and no pending move is empty. -/
structure Ready (m : Machine R) : Prop where
  wf : m.planner.WF
  busy : m.stepper.busy = false
  moves : ∀ b ∈ m.planner.queue, b.actionType = .move → 0 < eventCount b
  current : ∀ i, m.stepper.currentBlock = some i →
    i = m.planner.blockBufferTail ∧
      m.planner.blockBufferHead ≠ m.planner.blockBufferTail
  progress : 0 ≤ doneEvents m ∧ ∀ b bs, m.planner.queue = b :: bs →
    b.actionType = .move → doneEvents m < eventCount b

section Runs

variable [Field R] [LinearOrder R] [HasSqrt R] [FloorRing R]

/-- The machines reached from `plan_init` with an idle stepper by requests of
any kind, interrupts, and whatever leaves the ring and the tracing alone. -/
inductive MachineRun : Machine R → Prop
  | init (m : Machine R) (pl : Planner R) : m.planner = planInit pl →
      m.stepper.currentBlock = none → m.stepper.busy = false → MachineRun m
  | request {m : Machine R} (pAction : ActionRequest R) : MachineRun m →
      planQueueFull m.planner = false → MachineRun (bufferAction pAction m)
  | interrupt {m : Machine R} (inp : StInputs) : MachineRun m →
      MachineRun (stInterrupt inp m)
  | other {m m' : Machine R} : MachineRun m →
      m'.planner.blockBuffer = m.planner.blockBuffer →
      m'.planner.blockBufferHead = m.planner.blockBufferHead →
      m'.planner.blockBufferTail = m.planner.blockBufferTail →
      m'.stepper.tracing = m.stepper.tracing → MachineRun m'

end Runs

/-! ## One interrupt -/

theorem popBlock_setBusy (busy : Bool) (m : Machine R) :
    popBlock (setBusy busy m) = setBusy busy (popBlock m) := by
  unfold popBlock
  show (match m.stepper.currentBlock with | some _ => _ | none => _) = _
  cases m.stepper.currentBlock with
  | some i => rfl
  | none =>
      show (match planGetCurrentBlock m.planner with
        | some i => loadBlock i (setBusy busy m) | none => _) = _
      cases planGetCurrentBlock m.planner with
      | some i => rfl
      | none => rfl

/-- The oldest pending block is the one served; a block that is taken up starts
at its first event. -/
theorem popBlock_serves {m : Machine R} (h : Ready m) {b : Block R}
    {bs : List (Block R)} (hq : m.planner.queue = b :: bs) :
    (popBlock m).stepper.currentBlock = some m.planner.blockBufferTail ∧
      m.planner.blockBuffer m.planner.blockBufferTail = b ∧
      (popBlock m).stepper.stepEventsCompleted = doneEvents m := by
  have hne : m.planner.blockBufferHead ≠ m.planner.blockBufferTail := by
    intro heq
    rw [h.wf.queue_eq_nil.2 heq] at hq
    exact absurd hq (by simp)
  have hb : m.planner.blockBuffer m.planner.blockBufferTail = b := by
    have hhead := h.wf.queue_head? hne
    rw [hq] at hhead
    exact (Option.some.inj hhead).symm
  unfold doneEvents
  cases hcur : m.stepper.currentBlock with
  | some i =>
      rw [popBlock_some hcur, hcur, (h.current i hcur).1]
      exact ⟨rfl, hb, rfl⟩
  | none =>
      have hget : planGetCurrentBlock m.planner =
          some m.planner.blockBufferTail := by
        rw [planGetCurrentBlock, if_neg hne]
      rw [popBlock_load hcur hget]
      exact ⟨rfl, hb, rfl⟩

/-- The events done after a step event. -/
theorem stepEvent_done (inp : StInputs) (b : Block R) (m : Machine R) :
    (stepEvent inp b m).stepper.currentBlock = m.stepper.currentBlock ∧
      (stepEvent inp b m).stepper.stepEventsCompleted =
        if b.checkEndstops && endstopHit inp m.stepper.directionBits b then
          eventCount b
        else uint32 (m.stepper.stepEventsCompleted + 1) := by
  have htracing : (stepEvent inp b m).stepper.tracing =
      (checkEndstops inp b
        { traceAxes b m.stepper with
          stepEventsCompleted :=
            uint32 ((traceAxes b m.stepper).stepEventsCompleted + 1) }).tracing :=
    (setStepPins_frame _).2
  simp only [StepperState.tracing, Prod.mk.injEq, traceAxes_eq,
    checkEndstops] at htracing
  obtain ⟨hcur, -, hdone, -⟩ := htracing
  rw [hcur, hdone]
  split <;> exact ⟨rfl, rfl⟩

/-- An endstop ends the move that is served. -/
def truncates (inp : StInputs) (m : Machine R) : Bool :=
  match m.planner.queue with
  | b :: _ =>
      decide (b.actionType = .move) && (b.checkEndstops &&
        endstopHit inp (popBlock m).stepper.directionBits b)
  | [] => false

/-- The block served goes on: one more event of a move is done, or a wait is
not over. -/
structure GoesOn (inp : StInputs) (b : Block R) (m m' : Machine R) : Prop where
  planner : m'.planner = m.planner
  current : m'.stepper.currentBlock = some m.planner.blockBufferTail
  done : m'.stepper.stepEventsCompleted =
    doneEvents m + if b.actionType = .move then 1 else 0
  move : b.actionType = .move →
    truncates inp m = false ∧ doneEvents m + 1 < eventCount b
  wait : b.actionType = .waitTemps → inp.tempAchieved = false

/-- The block served is finished and discarded. -/
structure IsOver (inp : StInputs) (b : Block R) (m m' : Machine R) : Prop where
  planner : m'.planner = planDiscardCurrentBlock m.planner
  current : m'.stepper.currentBlock = none
  move : b.actionType = .move →
    truncates inp m = true ∨ doneEvents m + 1 = eventCount b

theorem eventCount_lt (b : Block R) : eventCount b < 4294967296 :=
  (uint32_range b.stepEventCount).2

theorem settle_pointer (m : Machine R) :
    (setBusy false (settlePins m)).planner = m.planner ∧
      (setBusy false (settlePins m)).stepper.currentBlock =
        m.stepper.currentBlock ∧
      (setBusy false (settlePins m)).stepper.stepEventsCompleted =
        m.stepper.stepEventsCompleted := by
  unfold settlePins
  split <;> exact ⟨rfl, rfl, rfl⟩

/-- What the interrupt has prepared to serve: the oldest pending block of
`m`. -/
structure Serving (m m₁ : Machine R) : Prop where
  planner : m₁.planner = m.planner
  current : m₁.stepper.currentBlock = some m.planner.blockBufferTail
  done : m₁.stepper.stepEventsCompleted = doneEvents m
  direction : m₁.stepper.directionBits = (popBlock m).stepper.directionBits

section Interrupt

variable {inp : StInputs} {m m₁ : Machine R} {b : Block R}
  {bs : List (Block R)}

/-- A step event of the move that is served. -/
theorem moveInterrupt_cases (h : Ready m) (hs : Serving m m₁)
    (hq : m.planner.queue = b :: bs) (hkind : b.actionType = .move) :
    GoesOn inp b m (moveInterrupt inp b m₁) ∨
      IsOver inp b m (moveInterrupt inp b m₁) := by
  have htrunc : truncates inp m =
      (b.checkEndstops && endstopHit inp m₁.stepper.directionBits b) := by
    rw [truncates, hq, hs.direction]
    simp [hkind]
  obtain ⟨h0, hlt⟩ := h.progress
  have hlt := hlt b bs hq hkind
  have hcount := eventCount_lt b
  obtain ⟨hcur, hdone⟩ := stepEvent_done inp b m₁
  have hplan : (stepEvent inp b m₁).planner = m.planner :=
    (setStepPins_frame _).1.trans hs.planner
  rw [← htrunc, hs.done, uint32_of_range (by omega) (by omega)] at hdone
  unfold moveInterrupt
  dsimp only
  generalize stepEvent inp b m₁ = m₂ at hcur hdone hplan ⊢
  have hover : IsOver inp b m (discardCurrent m₂) ↔
      truncates inp m = true ∨ doneEvents m + 1 = eventCount b := by
    constructor
    · intro hover
      exact hover.move hkind
    · intro hend
      refine ⟨?_, rfl, fun _ => hend⟩
      show planDiscardCurrentBlock m₂.planner = _
      rw [hplan]
  by_cases hcut : truncates inp m = true
  · rw [if_pos hcut] at hdone
    rw [hdone, eventCount, if_neg (lt_irrefl _)]
    exact .inr (hover.2 (.inl hcut))
  · rw [if_neg hcut] at hdone
    rw [hdone]
    split
    · next hon =>
      obtain ⟨htplan, -, htracing⟩ := trapezoidTick_frame b m₂
      have hnotWait : b.actionType ≠ .waitTemps := by
        rw [hkind]
        decide
      refine .inl ⟨htplan.trans hplan, ?_, ?_, fun _ => ⟨?_, hon⟩,
        fun hwait => absurd hwait hnotWait⟩
      · rw [← hs.current, ← hcur]
        exact congrArg Prod.fst htracing
      · rw [if_pos hkind, ← hdone]
        exact congrArg (fun t => t.2.2.1) htracing
      · simpa using hcut
    · next hend =>
      have hlast : ¬doneEvents m + 1 < eventCount b := hend
      exact .inr (hover.2 (.inr (by omega)))

theorem waitInterrupt_cases (hs : Serving m m₁)
    (hkind : b.actionType = .waitTemps) :
    GoesOn inp b m (waitInterrupt inp m₁) ∨
      IsOver inp b m (waitInterrupt inp m₁) := by
  have hnotMove : b.actionType ≠ .move := by
    rw [hkind]
    decide
  unfold waitInterrupt
  dsimp only
  split
  · refine .inr ⟨?_, rfl, fun hmove => absurd hmove hnotMove⟩
    show planDiscardCurrentBlock m₁.planner = _
    rw [hs.planner]
  · next htemp =>
    refine .inl ⟨hs.planner, hs.current, ?_,
      fun hmove => absurd hmove hnotMove, fun _ => by simpa using htemp⟩
    rw [if_neg hnotMove, add_zero]
    exact hs.done

theorem serveBlock_cases (inp : StInputs) (h : Ready m) (hs : Serving m m₁)
    (hq : m.planner.queue = b :: bs)
    (hb : m.planner.blockBuffer m.planner.blockBufferTail = b) :
    GoesOn inp b m (serveBlock inp m₁) ∨ IsOver inp b m (serveBlock inp m₁) := by
  have hsame : b.actionType ≠ .move → b.actionType ≠ .waitTemps →
      GoesOn inp b m m₁ := by
    intro hmove hwait
    refine ⟨hs.planner, hs.current, ?_, fun hk => absurd hk hmove,
      fun hk => absurd hk hwait⟩
    rw [if_neg hmove, add_zero]
    exact hs.done
  rw [serveBlock, hs.current]
  dsimp only
  rw [hs.planner, hb]
  split
  · next hkind => exact moveInterrupt_cases h hs hq hkind
  · next hkind => exact waitInterrupt_cases hs hkind
  · next hkind => exact .inl (hsame (by rw [hkind]; decide) (by rw [hkind]; decide))
  · next hkind => exact .inl (hsame (by rw [hkind]; decide) (by rw [hkind]; decide))

/-- An interrupt while blocks are pending either takes the first one an event further or
ends it. -/
theorem stInterrupt_cases (inp : StInputs) (h : Ready m)
    (hq : m.planner.queue = b :: bs) :
    GoesOn inp b m (stInterrupt inp m) ∨ IsOver inp b m (stInterrupt inp m) := by
  obtain ⟨hcur, hb, hdone⟩ := popBlock_serves h hq
  have hs : Serving m (setBusy true (popBlock m)) :=
    ⟨(popBlock_frame m).2, hcur, hdone, rfl⟩
  have hserve := serveBlock_cases inp h hs hq hb
  rw [stInterrupt_ready inp h.busy, popBlock_setBusy]
  obtain ⟨hp, hc, hd⟩ := settle_pointer
    (serveBlock inp (setBusy true (popBlock m)))
  rcases hserve with hon | hover
  · exact .inl ⟨hp.trans hon.planner, hc.trans hon.current, hd.trans hon.done,
      hon.move, hon.wait⟩
  · exact .inr ⟨hp.trans hover.planner, hc.trans hover.current, hover.move⟩

/-- The step timer is off and every step pin is low. -/
def AtRest (m : Machine R) : Prop :=
  m.timers.enabled 1 = false ∧
    ∀ a, m.gpio.level (stepPort a) (stepBit a) = false

theorem clearAllStepPins_low (g : Gpio) (a : Axis) :
    (clearAllStepPins g).level (stepPort a) (stepBit a) = false := by
  unfold clearAllStepPins
  rw [level_clear _ _ _ _ (stepBit_lt a), level_clear _ _ _ _ (stepBit_lt a)]
  cases a <;> simp [stepPort, stepPin, stepBit]

/-- The interrupt while nothing is pending. -/
theorem stInterrupt_empty (inp : StInputs) (h : Ready m)
    (hq : m.planner.queue = []) :
    (stInterrupt inp m).planner = m.planner ∧
      (stInterrupt inp m).stepper.currentBlock = none ∧
      AtRest (stInterrupt inp m) := by
  have hempty : m.planner.blockBufferHead = m.planner.blockBufferTail :=
    h.wf.queue_eq_nil.1 hq
  have hcur : m.stepper.currentBlock = none := by
    cases hcur : m.stepper.currentBlock with
    | none => rfl
    | some i => exact absurd hempty (h.current i hcur).2
  have hpop : popBlock m = stGoIdle m := by
    rw [popBlock, hcur]
    dsimp only
    rw [planGetCurrentBlock, if_pos hempty]
  rw [stInterrupt_ready inp h.busy, popBlock_setBusy, hpop]
  have hnone : (setBusy true (stGoIdle m)).stepper.currentBlock = none := hcur
  rw [serveBlock, hnone]
  dsimp only
  rw [settlePins]
  dsimp only
  rw [hnone]
  refine ⟨rfl, rfl, ?_, fun a => clearAllStepPins_low _ a⟩
  show Function.update m.timers.enabled 1 false 1 = false
  rw [Function.update_self]

/-- The interrupt leaves the machine ready for the next one. -/
theorem Ready.interrupt (inp : StInputs) (h : Ready m) :
    Ready (stInterrupt inp m) := by
  have hwf := (stInterrupt_discards inp m).wf h.wf
  have hbusy := stInterrupt_busy inp h.busy
  cases hq : m.planner.queue with
  | nil =>
      obtain ⟨hplan, hcur, -⟩ := stInterrupt_empty inp h hq
      refine ⟨hwf, hbusy, ?_, ?_, ?_, ?_⟩
      · rw [hplan]
        exact h.moves
      · intro i hi
        rw [hcur] at hi
        exact absurd hi (by simp)
      · rw [doneEvents, hcur]
      · intro b bs hqueue
        rw [hplan, hq] at hqueue
        exact absurd hqueue (by simp)
  | cons b bs =>
      rcases stInterrupt_cases inp h hq with hon | hover
      · have hdone : doneEvents (stInterrupt inp m) =
            doneEvents m + if b.actionType = .move then 1 else 0 := by
          rw [doneEvents, hon.current]
          exact hon.done
        have hne : m.planner.blockBufferHead ≠ m.planner.blockBufferTail := by
          intro heq
          rw [h.wf.queue_eq_nil.2 heq] at hq
          exact absurd hq (by simp)
        refine ⟨hwf, hbusy, ?_, ?_, ?_, ?_⟩
        · rw [hon.planner]
          exact h.moves
        · intro i hi
          rw [hon.current] at hi
          rw [hon.planner, ← Option.some.inj hi]
          exact ⟨rfl, hne⟩
        · have h0 := h.progress.1
          rw [hdone]
          split <;> omega
        · intro c cs hqueue hmove
          rw [hon.planner, hq] at hqueue
          obtain ⟨rfl, rfl⟩ := List.cons.inj hqueue
          rw [hdone, if_pos hmove]
          exact (hon.move hmove).2
      · have hqueue : (stInterrupt inp m).planner.queue = bs := by
          rw [hover.planner, queue_discard h.wf, hq]
          rfl
        refine ⟨hwf, hbusy, ?_, ?_, ?_, ?_⟩
        · rw [hqueue]
          intro c hc
          exact h.moves c (by rw [hq]; exact List.mem_cons_of_mem b hc)
        · intro i hi
          rw [hover.current] at hi
          exact absurd hi (by simp)
        · rw [doneEvents, hover.current]
        · intro c cs hcs hmove
          rw [doneEvents, hover.current]
          refine h.moves c ?_ hmove
          rw [hq, ← hqueue, hcs]
          exact List.mem_cons_of_mem b List.mem_cons_self

end Interrupt

/-! ## Requests -/

section Runs

variable [Field R] [LinearOrder R] [HasSqrt R] [FloorRing R]

theorem newBlock_eventCount (cfg : Configuration R) (pAction : ActionRequest R)
    (pl : Planner R) (hz : zeroLength cfg pAction pl = false) :
    0 < eventCount (newBlock cfg pAction pl) := by
  have hcount := (@newBlock_motion R _ _ _ _ cfg pAction pl).2.2.2.1
  rw [zeroLength, beq_eq_false_iff_ne] at hz
  rw [eventCount, hcount]
  unfold moveEventCount at hz ⊢
  dsimp only at hz ⊢
  generalize max (uint32 (int32 _)) _ = z at hz ⊢
  unfold int32 wrapSigned at hz
  unfold uint32 wrapUnsigned int32 wrapSigned
  omega

theorem acceptedBy_moves (pAction : ActionRequest R) (m : Machine R) :
    ∀ b ∈ acceptedBy pAction m, b.actionType = .move → 0 < eventCount b := by
  intro b hb hmove
  unfold acceptedBy at hb
  have hwait : ∀ {t : ActionType} {c : Block R}, t ≠ .move →
      b ∈ [(waitBlock t c).fixed] → 0 < eventCount b := by
    intro t c ht hmem
    rw [List.mem_singleton.1 hmem] at hmove
    exact absurd hmove ht
  have hline : b ∈ (if zeroLength m.config pAction m.planner then []
      else [(newBlock m.config pAction m.planner).fixed]) →
      0 < eventCount b := by
    intro hmem
    split at hmem
    · exact absurd hmem (by simp)
    · next hz =>
      rw [List.mem_singleton.1 hmem]
      exact newBlock_eventCount _ _ _ (by simpa using hz)
  split at hb
  · exact hline hb
  · exact hline hb
  · next hkind => exact hwait (by rw [hkind]; decide) hb
  · next hkind => exact hwait (by rw [hkind]; decide) hb

theorem bufferAction_tracing (pAction : ActionRequest R) (m : Machine R) :
    (bufferAction pAction m).stepper.tracing = m.stepper.tracing := by
  unfold bufferAction
  dsimp only
  split <;> rfl

theorem doneEvents_of_tracing {m m' : Machine R}
    (h : m'.stepper.tracing = m.stepper.tracing) :
    doneEvents m' = doneEvents m := by
  simp only [StepperState.tracing, Prod.mk.injEq] at h
  rw [doneEvents, doneEvents, h.1, h.2.2.1]

/-- Blocks may be appended, and their speeds replanned. -/
theorem Ready.extend {m m' : Machine R} {new : List (Block R)} (h : Ready m)
    (hwf : m'.planner.WF)
    (htail : m'.planner.blockBufferTail = m.planner.blockBufferTail)
    (hqueue : m'.planner.queue.map Block.fixed =
      m.planner.queue.map Block.fixed ++ new)
    (hnew : ∀ b ∈ new, b.actionType = .move → 0 < eventCount b)
    (htracing : m'.stepper.tracing = m.stepper.tracing) : Ready m' := by
  have hdone := doneEvents_of_tracing htracing
  simp only [StepperState.tracing, Prod.mk.injEq] at htracing
  obtain ⟨hcur, -, -, hbusy⟩ := htracing
  have hmoves : ∀ b ∈ m'.planner.queue, b.actionType = .move →
      0 < eventCount b := by
    intro b hb hmove
    have hmem : b.fixed ∈ m.planner.queue.map Block.fixed ++ new := by
      rw [← hqueue]
      exact List.mem_map_of_mem hb
    rcases List.mem_append.1 hmem with hold | hmem
    · obtain ⟨c, hc, hcb⟩ := List.mem_map.1 hold
      have hkind : c.actionType = .move := by
        rw [Block.actionType_of_fixed hcb]
        exact hmove
      have hcount : eventCount b.fixed = eventCount c.fixed := by rw [hcb]
      have hpos := h.moves c hc hkind
      exact hcount ▸ hpos
    · exact hnew b.fixed hmem hmove
  refine ⟨hwf, hbusy.trans h.busy, hmoves, ?_, ?_, ?_⟩
  · intro i hi
    rw [hcur] at hi
    obtain ⟨hitail, hne⟩ := h.current i hi
    refine ⟨hitail.trans htail.symm, ?_⟩
    intro heq
    rw [hwf.queue_eq_nil.2 heq, List.map_nil, eq_comm, List.append_eq_nil_iff,
      List.map_eq_nil_iff] at hqueue
    exact hne (h.wf.queue_eq_nil.1 hqueue.1)
  · rw [hdone]
    exact h.progress.1
  · intro b bs hq hmove
    rw [hdone]
    rw [hq] at hqueue
    cases hold : m.planner.queue with
    | nil =>
        have hidle : doneEvents m = 0 := by
          rw [doneEvents]
          cases hc : m.stepper.currentBlock with
          | none => rfl
          | some i =>
              exact absurd (h.wf.queue_eq_nil.1 hold) (h.current i hc).2
        rw [hidle]
        exact hmoves b (by rw [hq]; exact List.mem_cons_self) hmove
    | cons c cs =>
        rw [hold] at hqueue
        have hfixed : b.fixed = c.fixed := (List.cons.inj hqueue).1
        have hcount : eventCount b.fixed = eventCount c.fixed := by
          rw [hfixed]
        have hkind : c.actionType = .move := by
          rw [← Block.actionType_of_fixed hfixed]
          exact hmove
        have hlt := h.progress.2 c cs hold hkind
        exact hcount ▸ hlt

theorem Ready.other {m m' : Machine R} (h : Ready m)
    (hbuf : m'.planner.blockBuffer = m.planner.blockBuffer)
    (hhead : m'.planner.blockBufferHead = m.planner.blockBufferHead)
    (htail : m'.planner.blockBufferTail = m.planner.blockBufferTail)
    (htracing : m'.stepper.tracing = m.stepper.tracing) : Ready m' := by
  have hqueue : m'.planner.queue.map Block.fixed =
      m.planner.queue.map Block.fixed ++ [] := by
    rw [Planner.queue, Planner.queue, hbuf, hhead, htail, List.append_nil]
  have hwf : m'.planner.WF := ⟨hhead ▸ h.wf.head_lt, htail ▸ h.wf.tail_lt⟩
  exact h.extend hwf htail hqueue (by simp) htracing

theorem Ready.request {m : Machine R} (h : Ready m) (pAction : ActionRequest R)
    (hroom : planQueueFull m.planner = false) :
    Ready (bufferAction pAction m) := by
  have hwf : (bufferAction pAction m).planner.WF := by
    rw [(bufferAction_frame pAction m).2.1, planBufferAction]
    split
    · exact h.wf.planBufferLine _ _
    · exact h.wf.planBufferLine _ _
    · exact h.wf.planBufferWait _ _
    · exact h.wf.planBufferWait _ _
  obtain ⟨-, htail, hqueue⟩ := bufferAction_requested pAction h.wf hroom
  exact h.extend hwf htail hqueue (acceptedBy_moves pAction m)
    (bufferAction_tracing pAction m)

/-- What the interrupt relies on holds in every run. -/
theorem MachineRun.ready {m : Machine R} (h : MachineRun m) : Ready m := by
  induction h with
  | init m pl hpl hcur hbusy =>
      have hqueue : m.planner.queue = [] := by
        rw [hpl]
        exact planInit_queue pl
      refine ⟨?_, hbusy, ?_, ?_, ?_, ?_⟩
      · rw [hpl]
        exact planInit_wf pl
      · rw [hqueue]
        simp
      · intro i hi
        rw [hcur] at hi
        exact absurd hi (by simp)
      · rw [doneEvents, hcur]
      · intro b bs hq
        rw [hqueue] at hq
        exact absurd hq (by simp)
  | @request m pAction _ hroom ih =>
      exact ih.request pAction hroom
  | interrupt inp _ ih => exact ih.interrupt inp
  | other _ hbuf hhead htail htracing ih =>
      exact ih.other hbuf hhead htail htracing

end Runs

/-! ## Draining -/

/-- The interrupts a block takes after `done` of its events. -/
def left (b : Block R) (done : Int) : Nat :=
  if b.actionType = .move then (eventCount b - done).toNat else 1

/-- The interrupts the queue takes: what is left of the oldest block, the step
events of the other moves, and one for each wait. -/
def remaining (m : Machine R) : Nat :=
  match m.planner.queue with
  | b :: bs => left b (doneEvents m) + (bs.map fun b => left b 0).sum
  | [] => 0

/-- The events an endstop takes off the move that is served. -/
def cut (inp : StInputs) (m : Machine R) : Nat :=
  match m.planner.queue with
  | b :: _ => if truncates inp m then left b (doneEvents m) - 1 else 0
  | [] => 0

/-- Moves and waits for the temperature only. -/
def Drainable (m : Machine R) : Prop :=
  ∀ b ∈ m.planner.queue, b.actionType = .move ∨ b.actionType = .waitTemps

section Drain

variable {inp : StInputs} {m : Machine R} {b : Block R} {bs : List (Block R)}

theorem left_pos (h : Ready m) (hq : m.planner.queue = b :: bs) :
    0 < left b (doneEvents m) := by
  unfold left
  split
  · next hmove =>
    have hlt := h.progress.2 b bs hq hmove
    omega
  · exact Nat.one_pos

theorem remaining_eq_zero (h : Ready m) :
    remaining m = 0 ↔ m.planner.queue = [] := by
  cases hq : m.planner.queue with
  | nil => simp [remaining, hq]
  | cons b bs =>
      have hpos := left_pos h hq
      simp only [remaining, hq, reduceCtorEq, iff_false]
      omega

theorem Drainable.interrupt (h : Ready m) (hd : Drainable m)
    (inp : StInputs) : Drainable (stInterrupt inp m) := by
  rcases (stInterrupt_discards inp m).2 with heq | heq
  · rw [Drainable, heq]
    exact hd
  · rw [Drainable, heq, queue_discard h.wf]
    exact fun b hb => hd b (List.mem_of_mem_tail hb)

/-- Every interrupt takes one off, and what an endstop cuts. -/
theorem remaining_interrupt (h : Ready m) (hd : Drainable m)
    (htemp : inp.tempAchieved = true) :
    remaining (stInterrupt inp m) = remaining m - (1 + cut inp m) := by
  cases hq : m.planner.queue with
  | nil =>
      obtain ⟨hplan, -, -⟩ := stInterrupt_empty inp h hq
      simp [remaining, hplan, hq]
  | cons b bs =>
      have hkind := hd b (by rw [hq]; exact List.mem_cons_self)
      have hpos := left_pos h hq
      rcases stInterrupt_cases inp h hq with hon | hover
      · have hmove : b.actionType = .move := by
          rcases hkind with hmove | hwait
          · exact hmove
          · rw [hon.wait hwait] at htemp
            exact absurd htemp (by simp)
        obtain ⟨htrunc, hlt⟩ := hon.move hmove
        have hdone : doneEvents (stInterrupt inp m) = doneEvents m + 1 := by
          rw [doneEvents, hon.current]
          exact hon.done.trans (by rw [if_pos hmove])
        simp only [remaining, cut, hon.planner, hq, hdone, htrunc, left,
          if_pos hmove, if_neg Bool.false_ne_true]
        omega
      · have hqueue : (stInterrupt inp m).planner.queue = bs := by
          rw [hover.planner, queue_discard h.wf, hq]
          rfl
        have hdone : doneEvents (stInterrupt inp m) = 0 := by
          rw [doneEvents, hover.current]
        have hrest : remaining (stInterrupt inp m) =
            (bs.map fun b => left b 0).sum := by
          rw [remaining, hqueue, hdone]
          cases bs <;> rfl
        have hlast : truncates inp m = false → left b (doneEvents m) = 1 := by
          intro htrunc
          unfold left
          split
          · next hmove =>
            rcases hover.move hmove with hcut | hend
            · rw [htrunc] at hcut
              exact absurd hcut (by simp)
            · omega
          · rfl
        rw [hrest]
        simp only [remaining, cut, hq]
        cases htrunc : truncates inp m with
        | true =>
            rw [if_pos rfl]
            omega
        | false =>
            rw [if_neg Bool.false_ne_true, hlast htrunc]
            omega

/-- No new block is queued, and the temperature stays reached: `n` interrupts
later, endstops have cut `c` events.  In between, anything may happen that
leaves the ring and the tracing alone. -/
inductive DrainRun (m₀ : Machine R) : Nat → Nat → Machine R → Prop
  | start : DrainRun m₀ 0 0 m₀
  | interrupt {n c : Nat} {m : Machine R} (inp : StInputs) :
      DrainRun m₀ n c m → inp.tempAchieved = true →
      DrainRun m₀ (n + 1) (c + cut inp m) (stInterrupt inp m)
  | other {n c : Nat} {m m' : Machine R} : DrainRun m₀ n c m →
      m'.planner.blockBuffer = m.planner.blockBuffer →
      m'.planner.blockBufferHead = m.planner.blockBufferHead →
      m'.planner.blockBufferTail = m.planner.blockBufferTail →
      m'.stepper.tracing = m.stepper.tracing → DrainRun m₀ n c m'

end Drain

section DrainRun

variable [Field R] [LinearOrder R] [HasSqrt R] [FloorRing R]
variable {m₀ m : Machine R} {n c : Nat}

theorem DrainRun.remaining (h₀ : Ready m₀) (hd : Drainable m₀)
    (h : DrainRun m₀ n c m) :
    Ready m ∧ Drainable m ∧
      Stepper.remaining m = Stepper.remaining m₀ - (n + c) := by
  induction h with
  | start => exact ⟨h₀, hd, (Nat.sub_zero _).symm⟩
  | interrupt inp _ htemp ih =>
      obtain ⟨hready, hdrain, hrem⟩ := ih
      refine ⟨hready.interrupt _, hdrain.interrupt hready _, ?_⟩
      rw [remaining_interrupt hready hdrain htemp, hrem]
      omega
  | @other n c m m' _ hbuf hhead htail htracing ih =>
      obtain ⟨hready, hdrain, hrem⟩ := ih
      have hqueue : m'.planner.queue = m.planner.queue := by
        rw [Planner.queue, Planner.queue, hbuf, hhead, htail]
      refine ⟨hready.other hbuf hhead htail htracing, ?_, ?_⟩
      · rw [Drainable, hqueue]
        exact hdrain
      · rw [← hrem, Stepper.remaining, Stepper.remaining, hqueue,
          doneEvents_of_tracing htracing]

end DrainRun

theorem planGetCurrentBlock_eq_none {pl : Planner R} (h : pl.WF) :
    planGetCurrentBlock pl = none ↔ pl.queue = [] := by
  rw [h.queue_eq_nil, planGetCurrentBlock]
  split
  · next heq => exact iff_of_true rfl heq
  · next hne => exact iff_of_false (by simp) hne

variable [Field R] [LinearOrder R] [HasSqrt R] [FloorRing R]

/-- From every reachable state with moves and waits pending, once the
temperature is reached, the queue is empty after exactly `remaining`
interrupts, or fewer by what the endstops cut; and the next one leaves the step
timer off and every step pin low. -/
theorem queue_drains {m₀ m : Machine R} (h : MachineRun m₀)
    (hd : Drainable m₀) {n c : Nat} (hrun : DrainRun m₀ n c m) :
    (planGetCurrentBlock m.planner = none ↔ remaining m₀ ≤ n + c) ∧
      (planGetCurrentBlock m.planner = none →
        ∀ inp, AtRest (stInterrupt inp m)) := by
  obtain ⟨hready, -, hrem⟩ := hrun.remaining h.ready hd
  have hnone := planGetCurrentBlock_eq_none hready.wf
  refine ⟨?_, ?_⟩
  · rw [hnone, ← remaining_eq_zero hready, hrem, Nat.sub_eq_zero_iff_le]
  · intro hget inp
    exact (stInterrupt_empty inp hready (hnone.1 hget)).2.2

/-- One step and a wait for the temperature: two interrupts. -/
theorem queue_drains_oneStep :
    let inp : StInputs := ⟨true, fun _ _ => false⟩
    let m₀ := bufferAction ⟨.waitTemps, .zero⟩
      (bufferAction oneStep (Machine.start .default))
    let m := stInterrupt inp (stInterrupt inp m₀)
    remaining m₀ = 2 ∧ planGetCurrentBlock m.planner = none ∧
      AtRest (stInterrupt inp m) := by
  intro inp m₀ m
  have hstart : MachineRun (R := ℚ) (Machine.start .default) :=
    .init _ .zero rfl rfl rfl
  have hreach : MachineRun m₀ :=
    (hstart.request oneStep rfl).request _ (by decide +kernel)
  have hkinds : Drainable m₀ := by
    show ∀ b ∈ m₀.planner.queue, _
    decide +kernel
  have hrun : DrainRun m₀ 2 _ m :=
    (DrainRun.start.interrupt inp rfl).interrupt inp rfl
  obtain ⟨hcount, hrest⟩ := queue_drains hreach hkinds hrun
  have hremaining : remaining m₀ = 2 := by decide +kernel
  have hnone := hcount.2 (by rw [hremaining]; omega)
  exact ⟨hremaining, hnone, hrest hnone inp⟩

end R2C2Firmware.Ports.Stepper
